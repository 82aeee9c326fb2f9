import Zscheme.Avatar.Emits

/-!
# Walks

`go` mints a random id for a walk and sends it to the room: the number that it draws is the
id in its `move` (`go_mints`). The passage answers later, by a `:move` event: it denies the
walk, or names the exit and the key for it, and then the avatar enters. The event library
follows every such event, whoever sent it: nothing keeps the ids that were minted. So the
avatar walks only where it set out to go exactly in the runs in which each event that it
follows carries an id that was minted, and neither entered for nor denied before
(`faithful_iff`).
-/

namespace Zscheme

namespace Avatar

open Prim Stdlib Zscheme.Runtime Program

/-! ## Histories of walks -/

/-- What happens to a walk, by its id. -/
inductive Walk
  /-- `go` draws its id. -/
  | mint (id : SchemeVal)
  /-- A `:move` event denies it. -/
  | deny (id : SchemeVal)
  /-- The avatar enters the room of its exit. -/
  | enter (id : SchemeVal)
  deriving DecidableEq

/-- Each entry is for an id that was minted, once, and not denied before. The history has
    the latest first. -/
def Faithful : List Walk → Prop
  | [] => True
  | .enter id :: h => (.mint id ∈ h ∧ .enter id ∉ h ∧ .deny id ∉ h) ∧ Faithful h
  | .mint _ :: h | .deny _ :: h => Faithful h

/-- The id of a walk that a number is drawn for. -/
def Effect.minted? : Effect → Option Walk
  | .random n => some (.mint (toString n.toInt))
  | _ => none

/-- The `traverseId` of the ctx an entry is made with, or `#f`. -/
def traverseId : List SchemeVal → SchemeVal
  | [.map ctx] => (Dict.get? ctx "traverseId").getD (.bool false)
  | _ => .bool false

/-- The walk for which a room is entered. -/
def Effect.entered? : Effect → Option Walk
  | .call _ method args _ => if method = "enter" then some (.enter (traverseId args)) else none
  | _ => none

/-- The operation runs `go`: the command does, and so does the event of an exit, which may
    be one that the avatar has dug itself. -/
def Op.goes : Op → Bool
  | .command c _ => c = .go
  | .event e (.list (name :: _)) => e = ":event" && name = ":dig"
  | .event _ _ => false

/-- The operation is a `:move` event. -/
def Op.moves : Op → Bool
  | .command _ _ => false
  | .event e _ => e = ":move"

/-- The ctx of a `:move` event. -/
def Op.moveCtx? : Op → Option Ctx
  | .event e (.list [.map ctx]) => if e = ":move" then some ctx else none
  | _ => none

/-- The walk that a `:move` event denies. -/
def deniedBy (ctx : Ctx) : Option Walk :=
  match ctx.get? "traverseId", ctx.get? "deny" with
  | some (.str tid), some (.str _) => some (.deny tid)
  | _, _ => none

/-- What an operation with these effects does to the walks. -/
def Op.walks (op : Op) (effects : List Effect) : List Walk :=
  if op.goes then effects.filterMap Effect.minted?
  else if op.moves then
    effects.filterMap Effect.entered? ++ (op.moveCtx?.bind deniedBy).toList
  else []

variable [Host]

/-- The avatar with the history of its walks. -/
def walker : System (World × List Walk) Op where
  init s := s.2 = []
  next s op :=
    let w := (op.run.run s.1).2
    some (w, op.walks (s.1.effects w) ++ s.2)

/-- The walk with this id, if the exit is the address of an actor and there is a key. -/
def followed (tid : String) : (dest key : SchemeVal) → Option Walk
  | .str dest, .str _ => if Host.isActor dest then some (.enter tid) else none
  | _, _ => none

/-- The walk that a `:move` event answers with an exit and a key: it has an id, and no
    denial. -/
def followedBy (ctx : Ctx) : Option Walk :=
  match ctx.get? "traverseId", ctx.get? "deny" with
  | some (.str _), some (.str _) => none
  | some (.str tid), _ =>
    followed tid ((ctx.get? "exit").getD (.bool false)) ((ctx.get? "key").getD (.bool false))
  | _, _ => none

/-- The event of the operation, if it is one that the avatar follows, answers a walk that
    was minted, and neither entered for nor denied before. -/
def Answered (s : World × List Walk) (op : Op) : Prop :=
  ∀ id, op.moveCtx?.bind followedBy = some (.enter id) →
    .mint id ∈ s.2 ∧ .enter id ∉ s.2 ∧ .deny id ∉ s.2

/-! ## What `go` mints -/

/-- `go` draws one number, and whatever it sends to the room as a move has the id of it. -/
theorem go_mints (words : List SchemeVal) (s : Slots) (f : Focus) :
    ∃ n l, ((go words s).run f).2.trace = l ++ .random n :: f.trace ∧ ∀ e ∈ l,
      e.minted? = none ∧
        ∀ x args r, e = .call x "move" args r → traverseId args = toString n.toInt := by
  let P (n : Int64) (e : Effect) : Prop := e.minted? = none ∧
    ∀ x args r, e = .call x "move" args r → traverseId args = toString n.toInt
  have hlookup : ∀ n e, Effect.Lookup e → P n e := by
    rintro n (_ | _ | _ | _) he
    case call =>
      refine ⟨rfl, fun x args r heq => ?_⟩
      exact absurd (Effect.call.inj heq).2.1 (he.ne (by simp))
    all_goals cases he
  have hrest : ∀ n : Int64, Emits (P n) (do
      let direction ← resolveExitName (← directionWords words goUsage)
      let ctx := makeMap [("traverseId", .str (toString n.toInt)), ("direction", direction)]
      let _ ← roomCall "move" [.map ctx]
      return SchemeVal.nil) := by
    intro n
    refine (emits_lift _).bind fun _ => ?_
    refine ((emits_inquires (hlookup n)).resolveExitName _).bind fun direction => ?_
    refine Emits.bind (emits_roomCall fun x m r hm => ?_) fun _ => emits_pure _
    refine ⟨rfl, fun _ args _ heq => ?_⟩
    obtain ⟨_, _, rfl, _⟩ := Effect.call.inj heq
    simp [traverseId, makeMap, Dict.get?_insert]
  -- The number is drawn first.
  refine ⟨Host.random f.trace, ?_⟩
  obtain ⟨l, hl, h⟩ := hrest (Host.random f.trace) s
    { f with trace := .random (Host.random f.trace) :: f.trace }
  exact ⟨l, hl, h⟩

/-! ## What an event enters -/

/-- The walks for which rooms were entered between two states. -/
def Enters (walk : Option Walk) (w w' : World) : Prop :=
  ∃ l, w'.focus.trace = l ++ w.focus.trace ∧ l.filterMap Effect.entered? = walk.toList

variable {α : Type} {w w' w'' : World} {walk : Option Walk}

omit [Host] in
theorem Enters.refl (w : World) : Enters none w w := ⟨[], rfl, rfl⟩

omit [Host] in
/-- Nothing is entered before. -/
theorem Enters.after (h : Enters none w w') (h' : Enters walk w' w'') : Enters walk w w'' := by
  obtain ⟨l, hl, hnone⟩ := h
  obtain ⟨l', hl', hwalk⟩ := h'
  refine ⟨l' ++ l, by rw [hl', hl, List.append_assoc], ?_⟩
  rw [List.filterMap_append, hnone, hwalk]
  exact List.append_nil _

omit [Host] in
/-- Nothing is entered afterwards. -/
theorem Enters.before (h : Enters walk w w') (h' : Enters none w' w'') : Enters walk w w'' := by
  obtain ⟨l, hl, hwalk⟩ := h
  obtain ⟨l', hl', hnone⟩ := h'
  refine ⟨l' ++ l, by rw [hl', hl, List.append_assoc], ?_⟩
  rw [List.filterMap_append, hnone, hwalk]
  exact List.nil_append _

omit [Host] in
/-- A view that makes no entry. -/
theorem wp_view_of_emits {v : View α} (hv : Emits (fun e => e.entered? = none) v)
    {Q : α → World → Prop} {E : String → World → Prop}
    (hQ : ∀ a w', Enters none w w' → Q a w') (hE : ∀ e w', Enters none w w' → E e w') :
    (liftM v : Act α).wp Q E w := by
  refine (wp_view v).2 ((hv.wp w.slots w.focus).conseq ?_ ?_)
  · rintro a f _ ⟨l, hl, hnone⟩
    exact hQ a _ ⟨l, hl, List.filterMap_eq_nil_iff.2 hnone⟩
  · rintro e f _ ⟨l, hl, hnone⟩
    exact hE e _ ⟨l, hl, List.filterMap_eq_nil_iff.2 hnone⟩

omit [Host] in
theorem Effect.Lookup.entered {e : Effect} (h : e.Lookup) : e.entered? = none := by
  rcases e with _ | _ | _ | _
  case call => exact if_neg (h.ne (by simp))
  all_goals rfl

/-- What stands in for a local path never raises. -/
theorem localString_eq {thunk : View SchemeVal} {s : Slots} (path : String)
    (value : Option SchemeVal) (h : thunk s = localPath path value s) (fallback : SchemeVal) :
    ∃ v, localString thunk fallback s = pure v := by
  simp only [localString, view_bind, view_tryCatch, view_pure, h]
  rcases value with _ | v <;> exact ⟨_, rfl⟩

omit [Host] in
theorem wp_view_pure {v : View α} {a : α} (h : v w.slots = pure a) {Q : α → World → Prop}
    {E : String → World → Prop} : (liftM v : Act α).wp Q E w ↔ Q a w := by
  rw [wp_view, h]
  exact Iff.rfl

/-- `enter-with-key` makes one entry, with the id it is given, if it makes a call at all. -/
theorem enterWithKey_wp (dest tid : String) (key : SchemeVal) :
    (enterWithKey dest tid key).wp
      (fun _ => Enters (if Host.isActor dest then some (.enter tid) else none) w)
      (fun _ => Enters (if Host.isActor dest then some (.enter tid) else none) w) w := by
  obtain ⟨name, hname⟩ : ∃ v, myName w.slots = pure v :=
    localString_eq ".my.profile.name" _ rfl _
  obtain ⟨nick, hnick⟩ : ∃ v, localString myNick (.str Host.did) w.slots = pure v :=
    localString_eq ".my.ctx.nick" w.slots.nick rfl _
  -- What the entry is made with has the id.
  have hid : ∀ r, Enters (some (.enter tid)) w (w.push (.call dest "enter" [.map (makeMap
      [("did", .str Host.did), ("traverseId", tid), ("key", key), ("name", name),
        ("nick", nick)])] r)) := by
    refine fun r => ⟨[_], rfl, ?_⟩
    simp [Effect.entered?, traverseId, makeMap, Dict.get?_insert]
  simp only [enterWithKey]
  simp only [wp_bind]
  refine (wp_view_pure hname).2 ((wp_view_pure hnick).2 (wp_actorCall ?_ ?_ ?_))
  · rintro x v hx hactor
    obtain rfl := SchemeVal.str.inj hx
    rw [if_pos hactor]
    -- what is kept of an entry does nothing outside
    refine wp_applyEntryCtx (fun room nick => ?_) fun _ _ _ => hid _
    have hshow := emits_showEntry (P := fun e => e.entered? = none)
      (fun _ => Effect.Lookup.entered) (fun _ => rfl)
    exact wp_view_of_emits (hshow _) (fun _ _ => (hid _).before) fun _ _ => (hid _).before
  · rintro x e hx hactor
    obtain rfl := SchemeVal.str.inj hx
    rw [if_pos hactor]
    exact hid _
  · intro e hactor
    rw [if_neg (by simp [hactor dest rfl])]
    exact .refl w

theorem followMove_wp (tid : String) (dest key : SchemeVal) :
    (followMove tid dest key).wp (fun _ => Enters (followed tid dest key) w)
      (fun _ => Enters (followed tid dest key) w) w := by
  simp only [followMove]
  simp only [wp_bind, wp_ite, wp_pure]
  rcases dest with dest | _ | _ | _ | _ | _ | _ | _
  case str =>
    -- a key for no actor is not used
    have hno : startsWithDid? dest ≠ .ok true → Enters (followed tid dest key) w w := by
      intro h
      rcases key with _ | _ | _ | _ | _ | _ | _ | _
      case str =>
        rw [followed, if_neg fun ha => h (Host.isActor_did dest ha)]
        exact .refl w
      all_goals exact .refl w
    refine wp_lift_of (fun b hb => ?_) fun e he => hno (by rw [he]; simp)
    rcases b
    · exact hno (by rw [hb]; simp)
    · rcases key with key | _ | _ | _ | _ | _ | _ | _
      case str => exact enterWithKey_wp dest tid key
      all_goals exact .refl w
  all_goals exact .refl w

/-- `event-move` enters for the walk that it follows, and for no other. -/
theorem eventMove_wp (ctx : Ctx) :
    (eventMove (.map ctx)).wp (fun _ => Enters (followedBy ctx) w)
      (fun _ => Enters (followedBy ctx) w) w := by
  have hnone : ∀ v : View Unit, Emits (fun e => e.entered? = none) v → (liftM v : Act Unit).wp
      (fun _ => Enters none w) (fun _ => Enters none w) w :=
    fun v hv => wp_view_of_emits hv (fun _ _ h => h) fun _ _ h => h
  unfold eventMove followedBy
  dsimp only
  rcases Dict.get? ctx "traverseId" with _ | tid | _ | _ | _ | _ | _ | _ | _
  case some.str =>
    rcases Dict.get? ctx "deny" with _ | deny | _ | _ | _ | _ | _ | _ | _
    case some.str => exact hnone _ (emits_display (fun _ => rfl) _)
    all_goals exact followMove_wp _ _ _
  all_goals exact .refl w

/-- A `:move` event enters for the walk that it follows, and for no other. -/
theorem moveEvent_wp (args : SchemeVal) :
    (onEvent ":move" args).wp
      (fun _ => Enters ((Op.event ":move" args).moveCtx?.bind followedBy) w)
      (fun _ => Enters ((Op.event ":move" args).moveCtx?.bind followedBy) w) w := by
  have hne : ¬ (SchemeVal.str ":move" = ":event") := by decide
  have hmove : eventHandlers ":move" = some (handler₁ fun ctx => eventMove ctx) := rfl
  have hstr : asString "map-ref" (.str ":move") = .ok ":move" := rfl
  simp only [onEvent]
  rw [if_neg hne, dispatchEvent, hstr]
  change (tryCatch (liftM (elements "apply" args) >>= handler₁ fun ctx => eventMove ctx) _).wp
    _ _ w
  have hshow : ∀ e w', Enters ((Op.event ":move" args).moveCtx?.bind followedBy) w w' →
      (liftM (display (.str ("event " ++ ":move" ++ ": " ++ e))) : Act Unit).wp
        (fun _ => Enters ((Op.event ":move" args).moveCtx?.bind followedBy) w)
        (fun _ => Enters ((Op.event ":move" args).moveCtx?.bind followedBy) w) w' :=
    fun e w' h => wp_view_of_emits (emits_display (fun _ => rfl) _) (fun _ _ => h.before)
      fun _ _ => h.before
  refine (wp_tryCatch _ _).2 (wp.conseq ?_ (fun _ _ _ h => h) fun e w' _ => hshow e w')
  rw [wp_bind]
  -- Only one ctx as the argument leads anywhere.
  rcases args with _ | _ | _ | _ | _ | _ | xs | _
  case list =>
    rcases xs with _ | ⟨a, _ | ⟨b, xs⟩⟩
    · exact .refl w
    · rcases a with _ | _ | _ | _ | _ | _ | _ | ctx
      case map => exact eventMove_wp ctx
      all_goals exact .refl w
    · rcases a <;> exact .refl w
  all_goals exact .refl w

/-! ## Runs -/

section Runs

variable {h h' : List Walk}

omit [Host] in
theorem faithful_minted (effects : List Effect) :
    Faithful (effects.filterMap Effect.minted? ++ h) ↔ Faithful h := by
  induction effects with
  | nil => exact Iff.rfl
  | cons e effects ih =>
    rcases e with _ | _ | _ | _
    case random => exact ih
    all_goals exact ih

omit [Host] in
theorem Op.goes_move (args : SchemeVal) : (Op.event ":move" args).goes = false := by
  simp only [goes]
  split
  · next h => cases h
  · next h =>
    obtain ⟨rfl, rfl⟩ := Op.event.inj h
    rfl
  · rfl

/-- What is followed is an entry, and no denial. -/
theorem followedBy_cases (ctx : Ctx) :
    followedBy ctx = none ∨ ∃ id, followedBy ctx = some (.enter id) ∧ deniedBy ctx = none := by
  simp only [followedBy, deniedBy]
  rcases Dict.get? ctx "traverseId" with _ | tid | _ | _ | _ | _ | _ | _ | _
  case some.str =>
    have hfollowed : ∀ dest key, followed tid dest key = none ∨
        followed tid dest key = some (.enter tid) := by
      intro dest key
      simp only [followed]
      split
      · split
        · exact .inr rfl
        · exact .inl rfl
      · exact .inl rfl
    rcases Dict.get? ctx "deny" with _ | deny | _ | _ | _ | _ | _ | _ | _
    case some.str => exact .inl rfl
    all_goals exact (hfollowed _ _).imp id fun h => ⟨tid, h, rfl⟩
  all_goals exact .inl rfl

omit [Host] in
/-- An event that is no `:move` leaves the walks alone, but for those that are minted. -/
theorem faithful_walks_of_not_moves {op : Op} (hop : op.moves = false) (effects : List Effect) :
    Faithful (op.walks effects ++ h) ↔ Faithful h := by
  rw [Op.walks, hop]
  split
  · exact faithful_minted effects
  · exact Iff.rfl

/-- One operation keeps the history faithful exactly if its event, if it is one that is
    followed, answers a walk. -/
theorem faithful_walks_iff (op : Op) (w : World) (h : List Walk) :
    Faithful (op.walks (w.effects (op.run.run w).2) ++ h) ↔ Answered (w, h) op ∧ Faithful h := by
  rcases op with ⟨c, args⟩ | ⟨e, args⟩
  · rw [faithful_walks_of_not_moves rfl]
    exact (and_iff_right fun _ hid => absurd hid (by simp [Op.moveCtx?])).symm
  -- Only `:move` changes the history.
  by_cases he : e = ":move"
  case neg =>
    have hmoves : (Op.event e args).moves = false := decide_eq_false he
    have hctx : (Op.event e args).moveCtx? = none := by
      simp only [Op.moveCtx?]
      split
      · next heq =>
        obtain ⟨rfl, rfl⟩ := Op.event.inj heq
        exact if_neg he
      · rfl
    rw [faithful_walks_of_not_moves hmoves]
    refine (and_iff_right fun id hid => ?_).symm
    rw [hctx] at hid
    cases hid
  subst he
  obtain ⟨l, hl, hwalk⟩ := (wp_iff_end _ _).1 (moveEvent_wp (w := w) args)
  have heffects : w.effects ((Op.event ":move" args).run.run w).2 = l := World.effects_eq hl
  -- A denied walk adds nothing that must be matched.
  have hdenied : ∀ walk : Option Walk, (∀ id, walk ≠ some (.enter id)) →
      (Faithful (walk.toList ++ h) ↔ Faithful h) := by
    rintro (_ | ⟨_ | _ | id⟩) hne
    case some.enter => exact absurd rfl (hne id)
    all_goals exact Iff.rfl
  rw [heffects, Op.walks, Op.goes_move, hwalk]
  rcases hctx : (Op.event ":move" args).moveCtx? with _ | ctx
  · refine (and_iff_right fun id hid => ?_).symm
    rw [hctx] at hid
    cases hid
  rcases followedBy_cases ctx with hnone | ⟨id, hsome, hnone⟩
  · -- The event is not followed: it may deny a walk.
    have hans : Answered (w, h) (.event ":move" args) := fun id hid => by
      rw [hctx, Option.bind_some, hnone] at hid
      cases hid
    simp only [Option.bind_some, hnone]
    refine (hdenied _ fun id => ?_).trans (and_iff_right hans).symm
    simp only [deniedBy]
    split <;> simp
  · -- It is followed: the room is entered with its id.
    have hans : Answered (w, h) (.event ":move" args) ↔
        .mint id ∈ h ∧ .enter id ∉ h ∧ .deny id ∉ h := by
      simp only [Answered]
      rw [hctx, Option.bind_some, hsome]
      refine ⟨fun ha => ha id rfl, fun ha id' hid => ?_⟩
      obtain rfl := Walk.enter.inj (Option.some.inj hid)
      exact ha
    rw [hans]
    simp only [Option.bind_some, hsome, hnone]
    exact Iff.rfl

/-- A run goes on from a history exactly as faithfully as its events answer walks. -/
theorem faithful_iff_of_exec {ops : List Op} {w w' : World}
    (hrun : walker.exec (w, h) ops = some (w', h')) :
    Faithful h' ↔ walker.Always Answered (w, h) ops ∧ Faithful h := by
  induction ops generalizing w h with
  | nil =>
    obtain ⟨rfl, rfl⟩ := Prod.mk.inj (Option.some.inj hrun)
    exact (and_iff_right trivial).symm
  | cons op ops ih =>
    obtain ⟨⟨w₁, h₁⟩, hnext, hrest⟩ := Option.bind_eq_some_iff.1 hrun
    obtain ⟨rfl, rfl⟩ := Prod.mk.inj (Option.some.inj hnext)
    have halways : walker.Always Answered (w, h) (op :: ops) ↔ Answered (w, h) op ∧
        walker.Always Answered
          ((op.run.run w).2, op.walks (w.effects (op.run.run w).2) ++ h) ops := by
      refine and_congr_right fun _ => ⟨fun ha => ha _ rfl, fun ha s' hs => ?_⟩
      obtain rfl := Option.some.inj hs
      exact ha
    rw [ih hrest, faithful_walks_iff, halways, and_assoc, and_left_comm]

/-- The avatar walks only where it set out to go exactly in the runs in which every event
    that it follows answers a walk that was minted, and neither entered for nor denied
    before. -/
theorem faithful_iff {ops : List Op} {w w' : World}
    (hrun : walker.exec (w, []) ops = some (w', h')) :
    Faithful h' ↔ walker.Always Answered (w, []) ops :=
  (faithful_iff_of_exec hrun).trans (and_iff_left trivial)

end Runs

omit [Host] in
/-- A walk through an exit of the room. -/
theorem faithful_iff_hull :
    let _ : Host := scripted "did:ma:me" fun _ _ _ =>
      .ok (.map [("exits", .map [("hull", "did:ma:world#hull")])])
    let w := World.entered "did:ma:hall"
    let ctx : Ctx := [("exit", "did:ma:deck"), ("key", "ticket"), ("traverseId", "0")]
    let ops : List Op := [.command .go ["hull"], .event ":move" (.list [.map ctx])]
    (walker.exec (w, []) ops).map Prod.snd = some [.enter "0", .mint "0"] ∧
      walker.Always Answered (w, []) ops := by
  intro host w ctx ops
  have hwalks : (walker.exec (w, []) ops).map Prod.snd = some [.enter "0", .mint "0"] := by
    decide +kernel
  obtain ⟨⟨w', h'⟩, hrun, rfl⟩ := Option.map_eq_some_iff.1 hwalks
  refine ⟨hwalks, (faithful_iff hrun).1 ⟨⟨?_, ?_, ?_⟩, trivial⟩⟩
  all_goals decide

omit [Host] in
/-- An event that nobody asked for is followed, with an id that was never minted. -/
theorem not_faithful_forged :
    let _ : Host := scripted "did:ma:me" fun _ _ _ => .ok (.map [])
    let w := World.entered "did:ma:hall"
    let ctx : Ctx := [("exit", "did:ma:trap"), ("key", "any"), ("traverseId", "7")]
    let ops : List Op := [.event ":move" (.list [.map ctx])]
    (walker.exec (w, []) ops).map Prod.snd = some [.enter "7"] ∧ ¬ Faithful [.enter "7"] := by
  intro host w ctx ops
  refine ⟨by decide +kernel, fun h => ?_⟩
  exact absurd h.1.1 (by decide)

end Avatar

end Zscheme
