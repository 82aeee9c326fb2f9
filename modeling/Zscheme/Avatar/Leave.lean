import Zscheme.Avatar.Emits
import Zscheme.Avatar.Offer

/-!
# Leaving the old room

`enter` asks a room for an entry, and anything may come back. If the reply names a parent
the avatar is there from then on, and it leaves the room where it was before, unless that
is the same. The comparison is made after the new room was stored, and the store reads what
it is given by the grammar of dot commands. So an entry does what is said of it exactly if
the store keeps the reply (`enter_leaves_iff`).
-/

namespace Zscheme

namespace Avatar

open Prim Stdlib Zscheme.Runtime Program

/-! ## Departures -/

/-- The actor that is told that the avatar leaves. -/
def Effect.left? : Effect → Option String
  | .call x method _ _ => if method = "leave" then some x else none
  | _ => none

/-- The actors that were told between the two states, the latest first. -/
def World.left (w w' : World) : List String := (w.effects w').filterMap Effect.left?

/-- The room after an entry that was answered so: the parent in the reply, if it has one. -/
def roomAfter (old : Option SchemeVal) : Except String SchemeVal → Option SchemeVal
  | .ok (.map ctx) =>
    match Dict.get? ctx "parent" with
    | some (.str parent) => some (.str parent)
    | _ => old
  | _ => old

/-- The room that is left by an entry that was answered so, given the room after it. -/
def departed (old after : Option SchemeVal) (reply : Except String SchemeVal) : Option String :=
  match old, reply with
  | some (.str x), .ok (.map _) => if DidWord x ∧ after ≠ old then some x else none
  | _, _ => none

variable {w w' w'' : World} {old after : Option SchemeVal} {reply : Except String SchemeVal}

theorem departed_eq_some {x : String} : departed old after reply = some x ↔
    old = some (.str x) ∧ (∃ ctx, reply = .ok (.map ctx)) ∧ DidWord x ∧ after ≠ old := by
  simp only [departed]
  split
  · next y ctx =>
    rw [Option.ite_none_right_eq_some]
    simp only [Option.some.injEq, SchemeVal.str.injEq]
    constructor
    · rintro ⟨h, rfl⟩
      exact ⟨rfl, ⟨ctx, rfl⟩, h⟩
    · rintro ⟨rfl, -, h⟩
      exact ⟨h, rfl⟩
  · next hno =>
    refine ⟨nofun, ?_⟩
    rintro ⟨rfl, ⟨ctx, rfl⟩, -⟩
    exact absurd rfl (hno x ctx rfl)

/-- Without a move no room is left. -/
theorem departed_same (old : Option SchemeVal) (reply : Except String SchemeVal) :
    departed old old reply = none := by
  rw [Option.eq_none_iff_forall_ne_some]
  exact fun x h => (departed_eq_some.1 h).2.2.2 rfl

theorem World.left_trans (h : w ≤ w') (h' : w' ≤ w'') :
    w.left w'' = w'.left w'' ++ w.left w' := by
  rw [left, effects_trans h h', List.filterMap_append, left, left]

theorem World.left_of_adds (h : Adds (fun e => e.left? = none) w.focus w'.focus) :
    w.left w' = [] := List.filterMap_eq_nil_iff.2 h.effects

theorem Effect.Lookup.left {e : Effect} (h : e.Lookup) : e.left? = none := by
  rcases e with _ | _ | _ | _
  case call => exact if_neg (h.ne (by simp))
  all_goals rfl

variable [Host]

theorem startsWithDid?_str_iff {x : String} :
    startsWithDid? (.str x) = .ok true ↔ DidWord x := by
  constructor
  · intro h
    obtain ⟨_, hx, hdid⟩ := startsWithDid?_eq_true h
    exact SchemeVal.str.inj hx ▸ hdid
  · intro h
    rw [startsWithDid?_eq h.testable, decide_eq_true h]

/-! ## What is kept of a reply -/

/-- What the local store makes of the parent in a reply. -/
def keptRoom (old : Option SchemeVal) (ctx : Ctx) : Except String (Option SchemeVal) :=
  let parent := (Dict.get? ctx "parent").getD (.bool false)
  if parent.truthy then Host.setPath old parent else .ok old

/-- What the local store makes of the nick in a reply. -/
def keptNick (old : Option SchemeVal) (ctx : Ctx) : Except String (Option SchemeVal) :=
  match textAt ctx "nick" with
  | some nick => Host.setPath old nick
  | none => .ok none

/-- What a local path holds after it was set to a value, or could not be. -/
def afterSetting (old : Option SchemeVal) (v : SchemeVal) : Option SchemeVal :=
  (Host.setPath old v).toOption.getD old

/-- The local store keeps the reply: set to the parent in it, it holds that text as it is;
    and if the parent is no text, it holds what it held. A room that is left can be called,
    and the nick does not stop the entry. -/
def KeepsReply (s : Slots) : Except String SchemeVal → Prop
  | .ok (.map ctx) =>
    (∀ parent, Dict.get? ctx "parent" = some parent → parent.truthy = true →
      afterSetting s.room parent = if parent.string? then some parent else s.room) ∧
      ∀ x, departed s.room (roomAfter s.room (.ok (.map ctx))) (.ok (.map ctx)) = some x →
        Host.isActor x = true ∧ ∃ nick, keptNick s.nick ctx = .ok nick
  | _ => True

/-- The room is then the one that the reply names. -/
theorem keptRoom_iff {ctx : Ctx} : (keptRoom old ctx).toOption.getD old =
      roomAfter old (.ok (.map ctx)) ↔
    ∀ parent, Dict.get? ctx "parent" = some parent → parent.truthy = true →
      afterSetting old parent = if parent.string? then some parent else old := by
  rw [keptRoom, roomAfter]
  rcases Dict.get? ctx "parent" with _ | parent
  · simp [SchemeVal.truthy, Except.toOption]
  · simp only [Option.some.injEq, forall_eq', Option.getD_some, afterSetting]
    rcases parent with _ | _ | _ | _ | _ | _ | _ | _
    case bool b => cases b <;> simp [SchemeVal.truthy, SchemeVal.string?, Except.toOption]
    all_goals simp [SchemeVal.truthy, SchemeVal.string?, Except.toOption]

/-- How the target answers the request for an entry. -/
def World.entryReply (w : World) (target nick : SchemeVal) : Except String SchemeVal :=
  ((actorCall target "enter" [nick] w.slots).run w.focus).1

/-- The state after the request for an entry. -/
def World.requested (w : World) (target nick : SchemeVal) : World :=
  { w with focus := ((actorCall target "enter" [nick] w.slots).run w.focus).2 }

/-- The state after an entry: what the call did outside, and what is kept of the reply. -/
def World.admitted (w : World) (target nick : SchemeVal) : World :=
  match w.entryReply target nick with
  | .ok v => ((applyEntryCtx! v).run (w.requested target nick)).2
  | .error _ => w.requested target nick

/-- The state after a room was told that the avatar leaves, whatever it answered. -/
def World.told (w : World) (x : String) : World :=
  ((liftM (actorCall (.str x) "leave" []) : Act SchemeVal).run w).2

/-- An entry leaves the old room exactly once, as it is answered: the rooms that are told
    are those departed from, the new room is the parent in the reply, if there is one, and
    whatever the old room answers the entry is shown. -/
structure LeavesOnce (w : World) (target nick : SchemeVal) : Prop where
  left : w.left ((enter target nick).run w).2 =
    (departed w.slots.room ((enter target nick).run w).2.slots.room
      (w.entryReply target nick)).toList
  room : ((enter target nick).run w).2.slots.room =
    roomAfter w.slots.room (w.entryReply target nick)
  shown : ∀ v x, w.entryReply target nick = .ok v →
    departed w.slots.room ((enter target nick).run w).2.slots.room
      (w.entryReply target nick) = some x →
    (enter target nick).run w =
      (liftM (showEntry v) : Act SchemeVal).run ((w.admitted target nick).told x)

variable {target nick : SchemeVal} {x : String}

/-! ## The steps of an entry -/

omit [Host] in
theorem map?_eq_true {v : SchemeVal} (h : v.map? = true) : ∃ ctx, v = .map ctx := by
  rcases v with _ | _ | _ | _ | _ | _ | _ | ctx
  case map => exact ⟨ctx, rfl⟩
  all_goals cases h

/-- The configured room, or false. -/
theorem wp_oldRoom {Q : SchemeVal → World → Prop} {E : String → World → Prop} :
    (tryCatch (liftM room) fun _ => return .bool false : Act SchemeVal).wp Q E w ↔
      Q (w.slots.room.getD (.bool false)) w := by
  rw [wp_tryCatch, wp_view]
  simp only [room, getSlots, view_bind, view_read, wp_bind, wp_pure]
  rcases w.slots.room with _ | v <;> exact Iff.rfl

/-- A reply is kept in two steps, and either may raise. -/
theorem wp_keep {Q : SchemeVal → World → Prop} {E : String → World → Prop} {ctx : Ctx} :
    (applyEntryCtx! (.map ctx)).wp Q E w ↔
      match keptRoom w.slots.room ctx with
      | .error e => E e w
      | .ok room => match keptNick w.slots.nick ctx with
        | .error e => E e { w with slots := { w.slots with room } }
        | .ok nick => Q (.map ctx) { w with slots := { w.slots with room, nick } } := by
  have hnick (room : Option SchemeVal) : (setNick (textAt ctx "nick")).wp (fun _ => Q (.map ctx)) E
      { w with slots := { w.slots with room } } ↔ match keptNick w.slots.nick ctx with
        | .error e => E e { w with slots := { w.slots with room } }
        | .ok nick => Q (.map ctx) { w with slots := { w.slots with room, nick } } := by
    rw [keptNick]
    rcases textAt ctx "nick" with _ | text
    · exact Iff.rfl
    · simp only [setNick, wp_bind, wp_getSlots, wp_lift]
      rcases Host.setPath w.slots.nick (.str text) with _ | _ <;> exact Iff.rfl
  simp only [applyEntryCtx!, wp_bind, wp_ite, wp_pure, wp_setRoom, keptRoom]
  split
  · rcases Host.setPath w.slots.room _ with _ | room
    · exact Iff.rfl
    · exact hnick room
  · exact hnick w.slots.room

/-- The request for an entry, and what is kept of the reply. -/
theorem wp_entry {Q : SchemeVal → World → Prop} {E : String → World → Prop} :
    (liftM (actorCall target "enter" [nick]) : Act SchemeVal).wp
        (fun v w' => (applyEntryCtx! v).wp Q E w') E w ↔
      match w.entryReply target nick with
      | .ok v => (applyEntryCtx! v).wp Q E (w.requested target nick)
      | .error e => E e (w.requested target nick) := by
  rw [wp_view, wp]
  simp only [World.requested, World.entryReply]
  rcases (actorCall target "enter" [nick] w.slots).run w.focus with ⟨e | v, f⟩ <;> exact Iff.rfl

theorem World.left_requested (w : World) (target nick : SchemeVal) :
    w ≤ w.requested target nick ∧ w.left (w.requested target nick) = [] := by
  have hcall : Emits (fun e => e.left? = none) (actorCall target "enter" [nick]) :=
    emits_actorCall fun _ _ _ _ hm => if_neg (by rw [← SchemeVal.str.inj hm]; decide)
  exact ⟨(actorCall target "enter" [nick] w.slots).mono w.focus, left_of_adds (hcall _ _)⟩

/-- What is kept changes nothing outside. -/
theorem World.focus_kept (w : World) (v : SchemeVal) :
    ((applyEntryCtx! v).run w).2.focus = w.focus :=
  (wp_iff_end (applyEntryCtx! v) fun w' => w'.focus = w.focus).1
    (wp_applyEntryCtx (fun _ _ => rfl) fun _ _ _ => rfl)

theorem World.left_admitted (w : World) (target nick : SchemeVal) :
    w ≤ w.admitted target nick ∧ w.left (w.admitted target nick) = [] := by
  have hfocus : (w.admitted target nick).focus = (w.requested target nick).focus := by
    rw [admitted]
    split
    · exact focus_kept _ _
    · rfl
  obtain ⟨hle, hleft⟩ := w.left_requested target nick
  have hle' : w.requested target nick ≤ w.admitted target nick := Focus.le_of_trace (by rw [hfocus])
  exact ⟨hle.trans hle', by rwa [left, effects, hfocus]⟩

/-- The state after an entry, by what the store makes of the reply. -/
theorem World.admitted_eq {ctx : Ctx} (hreply : w.entryReply target nick = .ok (.map ctx)) :
    w.admitted target nick = match keptRoom w.slots.room ctx with
      | .error _ => w.requested target nick
      | .ok room => match keptNick w.slots.nick ctx with
        | .error _ => { w.requested target nick with slots := { w.slots with room } }
        | .ok kept => { w.requested target nick with
            slots := { w.slots with room, nick := kept } } := by
  rw [admitted, hreply]
  refine (wp_iff_end _ (· = _)).1 (wp_keep.2 ?_)
  simp only [requested]
  rcases keptRoom w.slots.room ctx with _ | room
  · rfl
  · rcases keptNick w.slots.nick ctx with _ | _ <;> rfl

/-- The room after an entry is the old one where the store raises, or what the store makes
    of the parent. -/
theorem World.admitted_room {ctx : Ctx} (hreply : w.entryReply target nick = .ok (.map ctx)) :
    (w.admitted target nick).slots.room =
      (keptRoom w.slots.room ctx).toOption.getD w.slots.room := by
  rw [admitted_eq hreply]
  rcases keptRoom w.slots.room ctx with _ | room
  · rfl
  · rcases keptNick w.slots.nick ctx with _ | _ <;> rfl

/-- Of a reply that is no map nothing is kept. -/
theorem World.admitted_of_not_map (hreply : ∀ ctx, w.entryReply target nick ≠ .ok (.map ctx)) :
    w.admitted target nick = w.requested target nick := by
  rw [admitted]
  split
  · next v hv =>
    rcases v with _ | _ | _ | _ | _ | _ | _ | ctx
    case map => exact absurd hv (hreply ctx)
    all_goals rfl
  · rfl

/-- A call is made and whatever it answers is dropped. -/
theorem wp_told {P : World → Prop} :
    (liftM (actorCall (.str x) "leave" []) : Act SchemeVal).wp (fun _ => P) (fun _ => P) w ↔
      P (w.told x) := wp_iff_end _ P

theorem World.left_told (hx : Host.isActor x = true) :
    w ≤ w.told x ∧ w.left (w.told x) = [x] ∧ (w.told x).slots = w.slots := by
  refine wp_told (P := fun w' => w ≤ w' ∧ w.left w' = [x] ∧ w'.slots = w.slots) |>.1 ?_
  rw [wp_actorCall_of_isActor hx]
  split <;> exact ⟨le_push _ _, by rw [left, effects_push]; rfl, rfl⟩

/-- An address that is refused is not told. -/
theorem World.told_of_not_isActor (hx : Host.isActor x = false) : w.told x = w := by
  refine wp_told (P := fun w' => w' = w) |>.1 (wp_actorCall ?_ ?_ fun _ _ => rfl)
  all_goals
    intro y _ hy hactor
    obtain rfl := SchemeVal.str.inj hy
    exact absurd (hx.symm.trans hactor) (by simp)

/-- What is shown at the end leaves no room. -/
theorem World.left_showEntry (w : World) (v : SchemeVal) :
    w.left ((liftM (showEntry v) : Act SchemeVal).run w).2 = [] :=
  left_of_adds (emits_showEntry (P := fun e => e.left? = none) (fun _ => Effect.Lookup.left)
    (fun _ => rfl) v w.slots w.focus)

omit [Host] in
/-- Whoever is somewhere remains somewhere. -/
theorem roomAfter_some (room : SchemeVal) (reply : Except String SchemeVal) :
    ∃ r, roomAfter (some room) reply = some r := by
  simp only [roomAfter]
  split
  · split <;> exact ⟨_, rfl⟩
  · exact ⟨_, rfl⟩

/-- The store does not take a reply, or there is no room after it: the entry stops there. -/
def Stops (w : World) (target nick : SchemeVal) : Prop :=
  (w.admitted target nick).slots.room = none ∨
    ∃ ctx e, w.entryReply target nick = .ok (.map ctx) ∧ keptNick w.slots.nick ctx = .error e

/-- How an entry ends: a room is departed from and told, or none is departed from and the
    entry is shown, or it raises after the reply was kept. Where a room is to be departed
    from, it raises only if it stops. -/
inductive EntryEnds (w : World) (target nick : SchemeVal) : Except String SchemeVal × World → Prop
  | left {v : SchemeVal} {x : String} (hreply : w.entryReply target nick = .ok v)
      (hgone : departed w.slots.room (w.admitted target nick).slots.room
        (w.entryReply target nick) = some x) (hkept : ¬ Stops w target nick) :
      EntryEnds w target nick
        ((liftM (showEntry v) : Act SchemeVal).run ((w.admitted target nick).told x))
  | stayed {v : SchemeVal} (hreply : w.entryReply target nick = .ok v)
      (hgone : departed w.slots.room (w.admitted target nick).slots.room
        (w.entryReply target nick) = none) :
      EntryEnds w target nick ((liftM (showEntry v) : Act SchemeVal).run (w.admitted target nick))
  | raised {e : String} (hgone : departed w.slots.room (w.admitted target nick).slots.room
        (w.entryReply target nick) = none ∨ Stops w target nick) :
      EntryEnds w target nick (.error e, w.admitted target nick)

omit [Host] in
/-- Only a reply that is a map makes the avatar depart. -/
theorem departed_of_not_map (hreply : ∀ ctx, reply ≠ .ok (.map ctx)) :
    departed old after reply = none := by
  rw [Option.eq_none_iff_forall_ne_some]
  intro x h
  obtain ⟨ctx, hctx⟩ := (departed_eq_some.1 h).2.1
  exact hreply ctx hctx

/-- Only from a DID it departs. -/
theorem departed_of_not_did (h : startsWithDid? (old.getD (.bool false)) ≠ .ok true) :
    departed old after reply = none := by
  rw [Option.eq_none_iff_forall_ne_some]
  rintro x hx
  obtain ⟨rfl, -, hdid, -⟩ := departed_eq_some.1 hx
  exact h (startsWithDid?_str_iff.2 hdid)

/-- What follows once the reply is kept. -/
def afterEntry (oldRoom result : SchemeVal) : Act SchemeVal := do
  if result.map? then
    if ← startsWithDid? oldRoom then
      if oldRoom ≠ (← room) then
        tryCatch (do let _ ← actorCall oldRoom "leave" []) fun _ => pure ()
  showEntry result

theorem afterEntry_ends {v : SchemeVal} (hreply : w.entryReply target nick = .ok v)
    (hnick : ∀ ctx e, v = .map ctx → keptNick w.slots.nick ctx ≠ .error e) :
    EntryEnds w target nick
      ((afterEntry (w.slots.room.getD (.bool false)) v).run (w.admitted target nick)) := by
  -- the entry is shown where no room is departed from
  have hshow (hgone : departed w.slots.room (w.admitted target nick).slots.room
      (w.entryReply target nick) = none) :
      (liftM (showEntry v) : Act SchemeVal).wp (fun a w' => EntryEnds w target nick (.ok a, w'))
        (fun e w' => EntryEnds w target nick (.error e, w')) (w.admitted target nick) :=
    (wp_iff_run _ (EntryEnds w target nick)).2 (.stayed hreply hgone)
  refine (wp_iff_run _ (EntryEnds w target nick)).1 ?_
  simp only [afterEntry]
  split
  case isFalse hmap =>
    refine hshow (departed_of_not_map fun ctx hctx => hmap ?_)
    rw [Except.ok.inj (hreply.symm.trans hctx)]
    rfl
  case isTrue hmap =>
  rw [wp_bind, wp_lift]
  rcases hdid : startsWithDid? (w.slots.room.getD (.bool false)) with e | (_ | _)
  · exact .raised (.inl (departed_of_not_did (by simp [hdid])))
  · exact hshow (departed_of_not_did (by simp [hdid]))
  · obtain ⟨ctx, rfl⟩ := map?_eq_true hmap
    obtain ⟨x, hx, hword⟩ := startsWithDid?_eq_true hdid
    have hold : w.slots.room = some (.str x) := by
      rcases hroom : w.slots.room with _ | old <;> rw [hroom] at hx
      · cases hx
      · exact congrArg some hx
    simp only [if_true, wp_bind]
    refine wp_room (fun r hr => ?_) fun e hnone => .raised (.inr (.inl hnone))
    split
    · next hne =>
      -- the room is told, and what it answers is dropped
      have hgone : departed w.slots.room (w.admitted target nick).slots.room
          (w.entryReply target nick) = some x := by
        refine departed_eq_some.2 ⟨hold, ⟨ctx, hreply⟩, hword, fun hsame => hne ?_⟩
        exact hx.trans (Option.some.inj (hold.symm.trans (hsame.symm.trans hr)))
      have hstops : ¬ Stops w target nick := by
        rintro (hnone | ⟨ctx', e, hctx, he⟩)
        · exact absurd (hr.symm.trans hnone) (by simp)
        · exact hnick ctx' e (Except.ok.inj (hreply.symm.trans hctx)) he
      rw [hx, wp_bind, wp_tryCatch, wp_bind]
      simp only [wp_pure]
      exact wp_told.2 ((wp_iff_run _ (EntryEnds w target nick)).2 (.left hreply hgone hstops))
    · next heq =>
      refine hshow (Option.eq_none_iff_forall_ne_some.2 fun y hy => ?_)
      refine (departed_eq_some.1 hy).2.2.2 ?_
      rw [hold, hr, ← hx, not_not.1 heq]

/-- An entry ends in one of these ways. -/
theorem enter_ends (w : World) (target nick : SchemeVal) :
    EntryEnds w target nick ((enter target nick).run w) := by
  refine (wp_iff_run _ (EntryEnds w target nick)).1 ?_
  have henter : enter target nick = (do
      let oldRoom ← tryCatch room fun _ => return .bool false
      let result ← applyEntryCtx! (← actorCall target "enter" [nick])
      afterEntry oldRoom result : Act SchemeVal) := rfl
  simp only [henter, wp_bind, wp_oldRoom, wp_entry]
  rcases hreply : w.entryReply target nick with e | v
  · have hno : ∀ ctx, w.entryReply target nick ≠ .ok (.map ctx) := by simp [hreply]
    rw [← World.admitted_of_not_map hno]
    exact .raised (.inl (departed_of_not_map hno))
  have hrest := fun hnick =>
    (wp_iff_run _ (EntryEnds w target nick)).2 (afterEntry_ends hreply hnick)
  by_cases hmap : ∃ ctx, v = .map ctx
  · obtain ⟨ctx, rfl⟩ := hmap
    have hadmitted := World.admitted_eq hreply
    simp only [wp_keep]
    change match keptRoom w.slots.room ctx with | .error e => _ | .ok room => _
    rcases hroom : keptRoom w.slots.room ctx with e | room
    · simp only [hroom] at hadmitted
      rw [← hadmitted]
      refine .raised (.inl ?_)
      rw [hadmitted]
      exact departed_same _ _
    · change match keptNick w.slots.nick ctx with | .error e => _ | .ok nick => _
      rcases hnick : keptNick w.slots.nick ctx with e | nick'
      · simp only [hroom, hnick] at hadmitted
        have hraised : EntryEnds w target nick (.error e, w.admitted target nick) :=
          .raised (.inr (.inr ⟨ctx, e, hreply, hnick⟩))
        rwa [hadmitted] at hraised
      · simp only [hroom, hnick] at hadmitted
        have hrest := hrest (by rintro _ e' ⟨⟩; simp [hnick])
        rwa [hadmitted] at hrest
  · have hno : ∀ ctx, w.entryReply target nick ≠ .ok (.map ctx) := fun ctx hctx =>
      hmap ⟨ctx, Except.ok.inj (hreply.symm.trans hctx)⟩
    have hrest := hrest fun ctx _ hv => absurd ⟨ctx, hv⟩ hmap
    rw [World.admitted_of_not_map hno] at hrest
    rcases v with _ | _ | _ | _ | _ | _ | _ | ctx
    case map => exact absurd ⟨ctx, rfl⟩ hmap
    all_goals exact hrest

/-- What comes after the reply was kept changes no room. -/
theorem EntryEnds.room {r : Except String SchemeVal × World} (h : EntryEnds w target nick r) :
    r.2.slots.room = (w.admitted target nick).slots.room := by
  cases h <;> rfl

/-- If the store keeps the reply, the room after the entry is the one that the reply
    names. -/
theorem KeepsReply.room (h : KeepsReply w.slots (w.entryReply target nick)) :
    (w.admitted target nick).slots.room = roomAfter w.slots.room (w.entryReply target nick) := by
  by_cases hmap : ∃ ctx, w.entryReply target nick = .ok (.map ctx)
  · obtain ⟨ctx, hreply⟩ := hmap
    rw [hreply] at h ⊢
    exact (World.admitted_room hreply).trans (keptRoom_iff.2 h.1)
  · have hno : ∀ ctx, w.entryReply target nick ≠ .ok (.map ctx) := fun ctx h => hmap ⟨ctx, h⟩
    rw [World.admitted_of_not_map hno, roomAfter]
    · rfl
    · exact hno

theorem World.left_shown {w₁ : World} (hle : w ≤ w₁) (v : SchemeVal) :
    w.left ((liftM (showEntry v) : Act SchemeVal).run w₁).2 = w.left w₁ := by
  rw [left_trans hle (Program.mono _ _), left_showEntry, List.nil_append]

theorem World.left_departed (hx : Host.isActor x = true) (v : SchemeVal) :
    w.left ((liftM (showEntry v) : Act SchemeVal).run ((w.admitted target nick).told x)).2 =
      [x] := by
  obtain ⟨hle, hleft⟩ := w.left_admitted target nick
  obtain ⟨hle', htold, _⟩ := World.left_told (w := w.admitted target nick) hx
  rw [left_shown (hle.trans hle'), left_trans hle hle', htold, hleft]
  rfl

/-- If the room that is departed from is told, it can be called and the reply was stored. -/
theorem told_of_left {r : Except String SchemeVal × World} {ctx : Ctx}
    (hends : EntryEnds w target nick r)
    (hgone : departed w.slots.room (w.admitted target nick).slots.room
      (w.entryReply target nick) = some x)
    (hreply : w.entryReply target nick = .ok (.map ctx)) (htold : w.left r.2 = [x]) :
    Host.isActor x = true ∧ ∃ kept, keptNick w.slots.nick ctx = .ok kept := by
  obtain ⟨hle, hleft⟩ := w.left_admitted target nick
  cases hends with
  | @left v y hreply' hgone' hkept =>
    obtain rfl := Option.some.inj (hgone'.symm.trans hgone)
    constructor
    · by_contra hactor
      rw [World.told_of_not_isActor (Bool.of_not_eq_true hactor), World.left_shown hle,
        hleft] at htold
      cases htold
    · rcases hnick : keptNick w.slots.nick ctx with e | kept
      · exact absurd (.inr ⟨ctx, e, hreply, hnick⟩) hkept
      · exact ⟨kept, rfl⟩
  | stayed _ hnone => exact absurd (hnone.symm.trans hgone) (by simp)
  | raised =>
    rw [hleft] at htold
    cases htold

/-- If the store keeps the reply, whoever is to be told is told, and nobody else. -/
theorem leavesOnce_of_kept (hends : EntryEnds w target nick ((enter target nick).run w))
    (hkeeps : KeepsReply w.slots (w.entryReply target nick)) : LeavesOnce w target nick := by
  obtain ⟨hle, hleft⟩ := w.left_admitted target nick
  have hroom := hends.room
  have hsaid := hkeeps.room
  -- the room that is departed from can be called, and the entry does not stop
  have htold {x : String} (hgone : departed w.slots.room (w.admitted target nick).slots.room
      (w.entryReply target nick) = some x) :
      Host.isActor x = true ∧ ¬ Stops w target nick := by
    obtain ⟨hold, ⟨ctx, hreply⟩, -⟩ := departed_eq_some.1 hgone
    rw [hsaid, hreply] at hgone
    rw [hreply] at hkeeps
    obtain ⟨hactor, kept, hnick⟩ := hkeeps.2 x hgone
    refine ⟨hactor, ?_⟩
    rintro (hnone | ⟨ctx', e, hctx, he⟩)
    · obtain ⟨r, hr⟩ := roomAfter_some (.str x) (w.entryReply target nick)
      rw [hsaid, hold, hr] at hnone
      cases hnone
    · obtain rfl := SchemeVal.map.inj (Except.ok.inj (hreply.symm.trans hctx))
      exact absurd (hnick.symm.trans he) (by simp)
  generalize hrun : (enter target nick).run w = r at hends hroom
  refine ⟨?_, by rw [hrun, hroom, hsaid], fun v x hreply hgone => ?_⟩
  · rw [hrun, hroom]
    cases hends with
    | left _ hgone _ => rw [hgone, World.left_departed (htold hgone).1]; rfl
    | stayed _ hnone => rw [hnone, World.left_shown hle, hleft]; rfl
    | raised hstops =>
      rcases hgone : departed w.slots.room (w.admitted target nick).slots.room
          (w.entryReply target nick) with _ | x
      · exact hleft
      · exact absurd (hstops.resolve_left (by simp [hgone])) (htold hgone).2
  · rw [hrun, hroom] at hgone
    rw [hrun]
    cases hends with
    | left hreply' hgone' =>
      obtain rfl := Except.ok.inj (hreply'.symm.trans hreply)
      obtain rfl := Option.some.inj (hgone'.symm.trans hgone)
      rfl
    | stayed _ hnone => exact absurd (hnone.symm.trans hgone) (by simp)
    | raised hstops => exact absurd (hstops.resolve_left (by simp [hgone])) (htold hgone).2

/-- Entering leaves the old room exactly once if and only if the store keeps the reply. -/
theorem enter_leaves_iff (w : World) (target nick : SchemeVal) :
    LeavesOnce w target nick ↔ KeepsReply w.slots (w.entryReply target nick) := by
  have hends := enter_ends w target nick
  have hroom := hends.room
  refine ⟨fun h => ?_, fun h => ?_⟩
  · have hsaid := hroom.symm.trans h.room
    rcases hreply : w.entryReply target nick with e | v
    · trivial
    rcases v with _ | _ | _ | _ | _ | _ | _ | ctx
    case map =>
      rw [hreply] at hsaid
      refine ⟨keptRoom_iff.1 ((World.admitted_room hreply).symm.trans hsaid), fun x hx => ?_⟩
      -- a room that is departed from is told
      have hgone : departed w.slots.room (w.admitted target nick).slots.room
          (w.entryReply target nick) = some x := by rw [hsaid, hreply, hx]
      have htold := h.left
      rw [hroom, hgone] at htold
      exact told_of_left hends hgone hreply htold
    all_goals trivial
  · exact leavesOnce_of_kept hends h

omit [Host] in
/-- The old room is told though it raises, and the avatar is in the new one. -/
theorem enter_leaves_once_stale :
    let _ : Host := scripted "did:ma:me" fun x method _ =>
      if x = "did:ma:old" then .error "no such room"
      else .ok (if method = "enter" then .map [("parent", "did:ma:new")] else .nil)
    LeavesOnce (World.entered "did:ma:old") "did:ma:new" "tester" := by
  intro _
  refine (enter_leaves_iff _ _ _).2 ?_
  have hreply : (World.entered "did:ma:old").entryReply "did:ma:new" "tester" =
      .ok (.map [("parent", "did:ma:new")]) := by decide +kernel
  rw [hreply]
  refine ⟨by decide +kernel, ?_⟩
  rintro x hx
  obtain rfl := Option.some.inj hx
  exact ⟨by decide +kernel, none, rfl⟩

omit [Host] in
/-- A dot in the new room's address is stored as a slash, and the avatar is nowhere. -/
theorem enter_not_kept :
    let _ : Host := scripted "did:ma:me" fun _ method _ =>
      .ok (if method = "enter" then .map [("parent", "did:ma:new#room.2")] else .nil)
    let w := World.entered "did:ma:old"
    ((enter "did:ma:new" "tester").run w).2.slots.room = some "did:ma:new#room/2" ∧
      ¬ LeavesOnce w "did:ma:new" "tester" := by
  intro _ w
  have hroom : ((enter "did:ma:new" "tester").run w).2.slots.room = some "did:ma:new#room/2" := by
    decide +kernel
  refine ⟨hroom, fun h => ?_⟩
  have hsaid : roomAfter w.slots.room (w.entryReply "did:ma:new" "tester") =
      some "did:ma:new#room.2" := by decide +kernel
  exact absurd (hroom.symm.trans (h.room.trans hsaid)) (by decide)

end Avatar

end Zscheme
