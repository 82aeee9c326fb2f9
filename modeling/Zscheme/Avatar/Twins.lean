import Zscheme.Avatar.Alike
import Zscheme.Avatar.Cache

/-!
# The shapes of children in a run

Two avatars start from the same snapshot of a room, the one with the children as a list, the
other as a map keyed by actor, and are told the same room events and asked the same words.
Every reader treats the two shapes alike, but the writers of the cache take the children for
a map: a membership event that is handled on a list raises, and only its error is shown.
While no such event is handled before the room is looked at again, both have the same pools
and resolve every word the same (`shapes_interchangeable`).
-/

namespace Zscheme

namespace Avatar

open Prim Stdlib Zscheme.Runtime Program

/-! ## Queries -/

/-- The pools a word is resolved in. -/
inductive WordPool
  | default | room | persons | hand | inventory | equip | drop | dropContainer

/-- What is asked of the resolver. -/
inductive Query
  | entry (pool : WordPool) (word : SchemeVal)
  | given (pool : WordPool) (word : SchemeVal)
  | one (word : SchemeVal)
  | person (word : SchemeVal)
  | against (pool : RoomPool) (word : SchemeVal) (keys : List String)
  | exitName (word : SchemeVal)
  | inContainer (word container : SchemeVal)

section Queries

variable [Host]

/-- The entries of a pool. -/
def WordPool.entries : WordPool → View (List SchemeVal)
  | default => defaultPool
  | room => resolveRoomPool
  | persons => resolvePersonPool
  | hand => handPool
  | inventory => resolveInventoryPool
  | equip => equipPool
  | drop => dropPool
  | dropContainer => dropContainerPool

/-- The resolver that answers a query. -/
def Query.run : Query → View SchemeVal
  | entry pool word => resolveOneEntryFresh word pool.entries
  | given pool word => do resolveInGivenPool word (← pool.entries)
  | one word => resolveOne word
  | person word => resolvePerson word
  | against pool word keys => resolveAgainst pool.entries word keys
  | exitName word => resolveExitName word
  | inContainer word container => resolveInContainer word container

end Queries

section Alike

variable [Host] [Steady] {α β : Type} {T : Option Ctx → Option Ctx → Prop}

omit [Host] [Steady] in
theorem alike_mapM {E : String → String → Prop} {f : α → View β}
    (h : ∀ a, Alike T E Eq (f a) (f a)) (l : List α) : Alike T E Eq (l.mapM f) (l.mapM f) := by
  induction l with
  | nil => exact alike_pure rfl
  | cons a l ih =>
    rw [List.mapM_cons]
    exact (h a).bind_eq fun b => ih.bind_eq fun bs => alike_pure rfl

omit [Host] [Steady] in
theorem alike_handPool : Alike T Eq Eq handPool handPool :=
  alike_getSlots.bind_eq fun _ => alike_pure rfl

theorem alike_dropPool : Alike T Eq Eq dropPool dropPool := by
  refine alike_resolveInventoryPool.bind_eq fun pool => ?_
  rcases pool with _ | ⟨container, contents⟩
  · exact alike_handPool
  refine alike_handPool.bind_eq fun hand => (alike_mapM (fun entry => ?_) _).bind_eq fun _ =>
    alike_pure rfl
  refine (alike_self _).bind_eq fun kind => alike_ite ?_ (alike_pure rfl)
  refine alike_guard ?_ fun _ => alike_pure rfl
  refine (alike_self _).bind_eq fun actor => ?_
  exact (alike_containerContents actor).bind_eq fun _ => alike_pure rfl

/-- Every pool has the same entries. -/
theorem WordPool.alike (pool : WordPool) :
    Alike (Option.Rel SameRoom) Eq Shuffled pool.entries pool.entries := by
  have hshuffled : ∀ {v : View (List SchemeVal)}, Alike (Option.Rel SameRoom) Eq Eq v v →
      Alike (Option.Rel SameRoom) Eq Shuffled v v := fun h =>
    h.mono (fun _ _ => id) fun a _ ha => ha ▸ refl_of Shuffled a
  cases pool with
  | default =>
    refine alike_handPool.bind_eq fun hand => alike_resolveRoomPool.bind fun pool pool' hpool => ?_
    exact alike_resolveInventoryPool.bind_eq fun inventory =>
      alike_pure ((hpool.append_right inventory).append_left hand)
  | room => exact alike_resolveRoomPool
  | persons => exact alike_cachedRoomPool (RoomPool.regular .persons)
  | hand => exact hshuffled alike_handPool
  | inventory => exact hshuffled alike_resolveInventoryPool
  | equip =>
    exact alike_handPool.bind_eq fun hand => alike_resolveRoomPool.bind fun pool pool' hpool =>
      alike_pure (hpool.append_left hand)
  | drop => exact hshuffled alike_dropPool
  | dropContainer =>
    exact alike_resolveRoomPool.bind fun pool pool' hpool => alike_dropPool.bind_eq fun inventory =>
      alike_pure (hpool.append_right inventory)

theorem alike_resolveExitName (word : SchemeVal) :
    Alike (Option.Rel SameRoom) SameError Eq (resolveExitName word) (resolveExitName word) :=
  (alike_resolveEntryAgainst (RoomPool.regular .exits) word _).bind_eq fun _ =>
    alike_self _

/-- Every query is answered the same. -/
theorem Query.alike (hprim : ∀ e, PrimError e → stringContains e "no match for" = false)
    (q : Query) : Alike (Option.Rel SameRoom) SameError Eq q.run q.run := by
  cases q with
  | entry pool word => exact alike_resolveOneEntryFresh hprim word pool.alike
  | given pool word =>
    refine pool.alike.same.bind fun _ _ hpool => ?_
    exact (alike_resolveOneEntry (fun _ _ => id) word hpool).bind_eq fun _ =>
      alike_self _
  | one word =>
    refine (alike_self _).bind_eq fun did => alike_ite (alike_pure rfl) ?_
    exact (alike_resolveOneEntryFresh hprim word (WordPool.alike .default)).bind_eq fun _ =>
      alike_self _
  | person word =>
    refine (alike_resolveOneEntryFresh hprim word (WordPool.alike .persons)).bind_eq fun entry => ?_
    refine (alike_self _).bind_eq fun did => ?_
    refine (alike_self _).bind_eq fun kind => alike_ite ?_ ?_
    · exact (alike_self _).bind_eq fun _ => alike_throw .refl
    · exact alike_ite (alike_throw .refl) (alike_pure rfl)
  | against pool word keys =>
    refine (alike_self _).bind_eq fun did => alike_ite (alike_pure rfl) ?_
    exact (alike_resolveEntryAgainst pool.regular word keys).bind_eq fun _ =>
      alike_self _
  | exitName word => exact alike_resolveExitName word
  | inContainer word container =>
    refine (alike_self _).bind_eq fun did => alike_ite (alike_pure rfl) ?_
    refine (alike_containerContents container).same.bind_eq fun contents => ?_
    refine (alike_self _).bind_eq fun hits => ?_
    rcases hits with _ | ⟨entry, _ | ⟨entry₂, entries⟩⟩
    · exact alike_noMatchError word
    · exact alike_self _
    · exact alike_ambiguousError (fun _ _ => id) word (.refl _)

/-! ## Room events -/

omit [Steady] in
theorem alike_display (v v' : SchemeVal) {E : String → String → Prop} :
    Alike T E Eq (display v) (display v') := alike_emit _ _

theorem alike_newTraverseId : Alike T Eq Eq newTraverseId newTraverseId := by
  have hrandom : Alike T Eq Eq random random := by
    refine alike_getFocus.bind fun f f' _ => ?_
    rw [Steady.random f.trace f'.trace]
    exact (alike_emit _ _).bind_eq fun _ => alike_pure rfl
  exact hrandom.bind_eq fun _ => alike_self _

theorem alike_go (words : List SchemeVal) :
    Alike (Option.Rel SameRoom) SameError Eq (go words) (go words) := by
  refine alike_newTraverseId.same.bind_eq fun tid => ?_
  refine (alike_self _).bind_eq fun direction => ?_
  refine (alike_resolveExitName direction).bind_eq fun exit => ?_
  exact (alike_roomCall _ _).same.bind_eq fun _ => alike_pure rfl

theorem alike_refreshRoom : Alike (Option.Rel SameRoom) Eq Eq refreshRoom refreshRoom := by
  refine alike_guard ?_ fun _ => alike_pure rfl
  exact (alike_roomCall _ _).bind_eq fun reply => (alike_rememberRoom reply).bind_eq fun _ =>
    alike_pure rfl

/-- Another avatar digs, or this one, who then goes there. -/
theorem alike_eventDig (ctx direction : SchemeVal) :
    Alike (Option.Rel SameRoom) SameError Eq (eventDig ctx direction) (eventDig ctx direction) := by
  refine alike_refreshRoom.same.bind_eq fun _ => ?_
  refine (alike_self _).bind_eq fun text => (alike_display _ _).bind_eq fun _ => ?_
  refine (alike_self _).bind_eq fun own => alike_ite ?_ (alike_pure rfl)
  exact (alike_go _).bind_eq fun _ => alike_pure rfl

theorem alike_eventFill (ctx direction : SchemeVal) :
    Alike (Option.Rel SameRoom) SameError Eq (eventFill ctx direction)
      (eventFill ctx direction) := by
  refine alike_refreshRoom.same.bind_eq fun _ => ?_
  exact (alike_self _).bind_eq fun text => alike_display _ _

omit [Steady] in
/-- The same room is changed alike. -/
theorem alike_modifyRoomChild (ctx : SchemeVal)
    (g : Dict String SchemeVal → String → Dict String SchemeVal) (prim : String) :
    Alike Eq Eq Eq (modifyRoomChild! ctx g prim) (modifyRoomChild! ctx g prim) := by
  refine alike_getFocus.bind ?_
  rintro ⟨room, _, _⟩ ⟨_, _, _⟩ rfl
  rcases room with _ | room
  · exact alike_pure rfl
  rcases ctx with _ | _ | _ | _ | _ | _ | _ | ctx
  case map =>
    refine alike_ite ?_ (alike_pure rfl)
    refine (alike_self _).bind_eq fun children => ?_
    exact (alike_self _).bind_eq fun key => alike_remember fun _ _ _ => rfl
  all_goals exact alike_pure rfl

omit [Steady] in
/-- A ctx that names no actor changes nothing, whatever the children are. -/
theorem alike_modifyRoomChild_of_not (hT : ∀ r r', T r r' → Option.Rel SameRoom r r')
    {ctx : SchemeVal} (h : ∀ m actor, ctx = .map m → ctxActor m ≠ .str actor)
    (g : Dict String SchemeVal → String → Dict String SchemeVal) (prim : String) :
    Alike T (fun _ _ => True) Eq (modifyRoomChild! ctx g prim) (modifyRoomChild! ctx g prim) := by
  refine alike_getFocus.bind ?_
  rintro ⟨room, _, _⟩ ⟨room', _, _⟩ hroom
  rcases hT _ _ hroom with @⟨r, r', hr⟩ | _
  · rcases ctx with _ | _ | _ | _ | _ | _ | _ | ctx
    case map =>
      refine alike_ite ?_ (alike_pure rfl)
      -- one of the two writes refuses its argument, in both rooms
      obtain ⟨e, he⟩ : ∃ e, asString prim (ctxActor ctx) = .error e := by
        have hno := h ctx
        revert hno
        rcases ctxActor ctx with actor | _ | _ | _ | _ | _ | _ | _
        case str => exact fun hno => absurd rfl (hno actor rfl)
        all_goals exact fun _ => ⟨_, rfl⟩
      rw [he]
      rcases asMap prim ((r.get? "children").getD (.map [])) with _ | _ <;>
        rcases asMap prim ((r'.get? "children").getD (.map [])) with _ | _ <;>
          exact alike_throw trivial
    all_goals exact alike_pure rfl
  · exact alike_pure rfl

omit [Steady] in
theorem alike_showMovement (ctx : SchemeVal) (does : String) :
    Alike T Eq Eq (showMovement ctx does) (showMovement ctx does) := by
  refine (alike_self _).bind_eq fun text => ?_
  rcases ctx with _ | _ | _ | _ | _ | _ | _ | ctx <;> exact alike_display _ _

end Alike

/-! ## Deliveries -/

section Deliveries

variable [Host] {α β : Type} {T : Option Ctx → Option Ctx → Prop} {E : String → String → Prop}
  {A : α → β → Prop}

/-- Two avatars with the same slots, whose cached rooms are related. -/
def Beside (T : Option Ctx → Option Ctx → Prop) (w w' : World) : Prop :=
  w.slots = w'.slots ∧ T w.focus.lastRoom w'.focus.lastRoom

omit [Host] in
theorem Alike.act {v : View α} {v' : View β} (h : Alike T E A v v') :
    Relates (Beside T) E A (liftM v : Act α) (liftM v' : Act β) := by
  rintro ⟨s, f⟩ ⟨_, f'⟩ ⟨rfl, hr⟩
  exact ⟨(h s f f' hr).1, rfl, (h s f f' hr).2⟩

omit [Host] in
/-- Alike, where it does not matter what errors say. -/
theorem Alike.silent {E : String → String → Prop} {v v' : View α} (h : Alike T E Eq v v') :
    Relates (Beside T) (fun _ _ => True) Eq (liftM v : Act α) (liftM v' : Act α) :=
  (h.mono (fun _ _ _ => trivial) fun _ _ => id).act

/-- A room event is delivered alike if its handler is. -/
theorem relates_onEvent {args : SchemeVal}
    (h : ∀ name rest handler, args = .list (.str name :: rest) →
      roomEventHandlers name = some handler →
        Relates (Beside T) (fun _ _ => True) Eq (handler rest) (handler rest)) :
    Relates (Beside T) (fun _ _ => True) Eq (onEvent ":event" args) (onEvent ":event" args) := by
  by_cases hargs : ∃ name rest, args = .list (.str name :: rest)
  case neg =>
    -- nothing is delivered
    simp only [onEvent, if_true]
    rcases args with _ | _ | _ | _ | _ | _ | (_ | ⟨name, rest⟩) | _
    case list.cons =>
      rcases name with name | _ | _ | _ | _ | _ | _ | _
      case str => exact absurd ⟨name, rest, rfl⟩ hargs
      all_goals exact relates_throw trivial
    all_goals exact relates_throw trivial
  obtain ⟨name, rest, rfl⟩ := hargs
  change Relates _ _ _ (dispatchEvent roomEventHandlers (.str name) (.list rest))
    (dispatchEvent roomEventHandlers (.str name) (.list rest))
  rcases hh : roomEventHandlers name with _ | handler
  · rw [dispatchEvent_none hh]
    exact relates_pure rfl
  · rw [dispatchEvent_eq hh]
    refine (h name rest handler rfl hh).tryCatch fun e e' _ => ?_
    exact (alike_display _ _).act

theorem relates_handler₁ {f : SchemeVal → Act Unit} {rest : List SchemeVal}
    (h : ∀ a, rest = [a] → Relates (Beside T) (fun _ _ => True) Eq (f a) (f a)) :
    Relates (Beside T) (fun _ _ => True) Eq (handler₁ f rest) (handler₁ f rest) := by
  rcases rest with _ | ⟨a, _ | ⟨b, rest⟩⟩
  · exact relates_throw trivial
  · exact h a rfl
  · exact relates_throw trivial

theorem relates_handler₂ {f : SchemeVal → SchemeVal → View Unit}
    (h : ∀ a b, Alike T E Eq (f a b) (f a b)) (rest : List SchemeVal) :
    Relates (Beside T) (fun _ _ => True) Eq (handler₂ f rest) (handler₂ f rest) := by
  rcases rest with _ | ⟨a, _ | ⟨b, _ | ⟨c, rest⟩⟩⟩
  · exact relates_throw trivial
  · exact relates_throw trivial
  · exact (h a b).silent
  · exact relates_throw trivial

/-- The change of a child is made alike, if it is made in the same room or in none. -/
theorem relates_membership {m : Membership} {rest : List SchemeVal}
    (h : ∀ ctx, rest = [ctx] → ∀ g prim,
      Alike T (fun _ _ => True) Eq (modifyRoomChild! ctx g prim) (modifyRoomChild! ctx g prim))
    {handler : List SchemeVal → Act Unit} (hh : roomEventHandlers m.event = some handler) :
    Relates (Beside T) (fun _ _ => True) Eq (handler rest) (handler rest) := by
  have hmovement : ∀ ctx does, Alike T (fun _ _ => True) Eq (showMovement ctx does)
      (showMovement ctx does) := fun ctx does =>
    (alike_showMovement ctx does).mono (fun _ _ _ => trivial) fun _ _ => id
  cases m <;> obtain rfl := Option.some.inj hh
  case childCtx => exact relates_handler₁ fun ctx hctx => (h ctx hctx _ _).act
  all_goals exact relates_handler₁ fun ctx hctx =>
    ((h ctx hctx _ _).bind_eq fun _ => hmovement ctx _).act

variable [Steady]

/-- Every other room event is handled alike. -/
theorem relates_roomHandler {name : String} {handler : List SchemeVal → Act Unit}
    (hne : ∀ m : Membership, name ≠ m.event) (hh : roomEventHandlers name = some handler)
    (rest : List SchemeVal) :
    Relates (Beside (Option.Rel SameRoom)) (fun _ _ => True) Eq (handler rest) (handler rest) := by
  have htext : ∀ vs, Alike (Option.Rel SameRoom) Eq Eq
      (do display (.str (← stringAppend vs)) : View Unit) (do display (.str (← stringAppend vs))) :=
    fun vs => (alike_self _).bind_eq fun _ => alike_display _ _
  -- one case for each handler, those of the membership events excluded
  revert hh
  rw [roomEventHandlers.eq_def]
  split
  · exact absurd rfl (hne .arrive)
  · exact absurd rfl (hne .leave)
  · exact absurd rfl (hne .childCtx)
  · rintro ⟨⟩
    exact relates_handler₂ (fun _ _ => htext _) rest
  · rintro ⟨⟩
    exact relates_handler₂ (fun _ _ => htext _) rest
  · rintro ⟨⟩
    exact relates_handler₁ fun _ _ => (alike_display _ _).act
  · rintro ⟨⟩
    exact relates_handler₂ alike_eventDig rest
  · rintro ⟨⟩
    exact relates_handler₂ alike_eventFill rest
  · exact nofun

end Deliveries

/-! ## Runs -/

/-- What the actors answer during a step. -/
structure Answers where
  /-- The reply of an actor to a method with arguments. -/
  reply : String → String → List SchemeVal → Except String SchemeVal
  /-- The number `random` draws. -/
  random : Int64

/-- What both avatars are told. -/
inductive Told
  | event (args : SchemeVal)
  | query (q : Query)

/-- The avatar with a snapshot of its room. -/
def World.caching (w : World) (r : Ctx) : World :=
  { w with focus := { w.focus with lastRoom := some r } }

/-- A pool of the cached room. -/
def World.pool [Evaluator] (w : World) (pool : RoomPool) : Except String (List SchemeVal) :=
  match w.focus.lastRoom with
  | some r => pool.entries r
  | none => .ok []

/-- The first avatar has cached the children as a list and the second as a map, when both
    are told of a child. -/
def Divides (p : World × World) (told : Told) : Prop :=
  (∃ r vs, p.1.focus.lastRoom = some r ∧ r.get? "children" = some (.list vs)) ∧
    (∃ r m, p.2.focus.lastRoom = some r ∧ r.get? "children" = some (.map m)) ∧
    ∃ n : News, told = .event (.list [.str n.membership.event, .map n.ctx])

variable [Host]

/-- The actors answer as given. -/
@[reducible] def Answers.host (a : Answers) : Host :=
  { ‹Host› with reply := fun _ => a.reply, random := fun _ => a.random }

instance (a : Answers) : @Steady a.host :=
  letI := a.host
  ⟨fun _ _ => rfl, fun _ _ => rfl⟩

/-- What the avatar does when it is told something. -/
def Told.run : Told → World → World
  | event args, w => ((onEvent ":event" args).run w).2
  | query q, w => ((liftM q.run : Act SchemeVal).run w).2

/-- What a query is answered. -/
def Query.outcome (a : Answers) (q : Query) (w : World) : Except String SchemeVal :=
  letI := a.host
  ((q.run w.slots).run w.focus).1

/-- Two avatars that start from the same snapshot, with the children in the two shapes, and
    are told the same. -/
def twins : System (World × World) (Answers × Told) where
  init p := ∃ (w : World) (r : Ctx) (cs : Children), r.get? "children" = some cs.listed ∧
    p = (w.caching r, w.caching (r.insert "children" cs.keyed))
  next p step :=
    letI := step.1.host
    some (step.2.run p.1, step.2.run p.2)

omit [Host] in
theorem shapes_of_ne {x x' : Option Ctx} (h : Option.Rel SameRoom x x') (hne : x ≠ x') :
    ∃ (r : Ctx) (cs : Children), x = some r ∧ r.get? "children" = some cs.listed ∧
      x' = some (r.insert "children" cs.keyed) := by
  cases h with
  | none => exact absurd rfl hne
  | some h =>
    cases h with
    | refl => exact absurd rfl hne
    | shapes cs hc => exact ⟨_, cs, rfl, hc, rfl⟩

/-- A step that does not divide the avatars leaves them with the same pools. -/
theorem Told.run_beside [Steady]
    (hprim : ∀ e, PrimError e → stringContains e "no match for" = false) {w w' : World}
    {told : Told} (h : Beside (Option.Rel SameRoom) w w') (hd : ¬ Divides (w, w') told) :
    Beside (Option.Rel SameRoom) (told.run w) (told.run w') := by
  rcases told with args | q
  case query => exact ((q.alike hprim).act w w' h).2
  by_cases hm : ∃ (m : Membership) (rest : List SchemeVal), args = .list (.str m.event :: rest)
  case neg =>
    refine (relates_onEvent (fun name rest handler hargs hh => ?_) w w' h).2
    refine relates_roomHandler (fun m hname => hm ⟨m, rest, ?_⟩) hh rest
    rw [hargs, hname]
  obtain ⟨m, rest, rfl⟩ := hm
  have hdeliver : ∀ {T : Option Ctx → Option Ctx → Prop},
      (∀ ctx, rest = [ctx] → ∀ g prim,
        Alike T (fun _ _ => True) Eq (modifyRoomChild! ctx g prim) (modifyRoomChild! ctx g prim)) →
      Beside T w w' → Beside T ((Told.event (.list (.str m.event :: rest))).run w)
        ((Told.event (.list (.str m.event :: rest))).run w') := by
    intro T hmod hT
    refine (relates_onEvent (fun name rest' handler hargs hh => ?_) w w' hT).2
    obtain ⟨hname, rfl⟩ := List.cons.inj (SchemeVal.list.inj hargs)
    obtain rfl := SchemeVal.str.inj hname
    exact relates_membership hmod hh
  by_cases heq : w.focus.lastRoom = w'.focus.lastRoom
  -- the same room is cached: it is changed alike
  · have hsame := hdeliver (T := Eq) (fun ctx _ g prim =>
      (alike_modifyRoomChild ctx g prim).mono (fun _ _ _ => trivial) fun _ _ => id) ⟨h.1, heq⟩
    exact ⟨hsame.1, hsame.2 ▸ sameRoom_self _⟩
  -- the two shapes are cached: the event names no actor
  · obtain ⟨r, cs, hr, hc, hr'⟩ := shapes_of_ne h.2 heq
    refine hdeliver (fun ctx hctx => ?_) h
    refine alike_modifyRoomChild_of_not (fun _ _ => id) fun child actor hchild hactor => hd ?_
    refine ⟨⟨r, _, hr, hc⟩, ⟨_, _, hr', Dict.get?_insert_self _ _ _⟩, ⟨m, child, actor, hactor⟩, ?_⟩
    rw [hctx, hchild]

/-- Such avatars have the same pools. -/
theorem Beside.pool {w w' : World} (h : Beside (Option.Rel SameRoom) w w') (pool : RoomPool) :
    Agree Eq List.Perm (w.pool pool) (w'.pool pool) := by
  obtain ⟨s, ⟨room, _, _⟩⟩ := w
  obtain ⟨s', ⟨room', _, _⟩⟩ := w'
  rcases h.2 with hr | _
  · exact (hr.entries pool).mono (fun _ _ => id) fun _ _ => Shuffled.perm
  · exact .ok (.refl _)

/-- They are answered the same. -/
theorem Beside.outcome (hprim : ∀ e, PrimError e → stringContains e "no match for" = false)
    {w w' : World} (h : Beside (Option.Rel SameRoom) w w') (a : Answers) (q : Query) :
    Agree SameError Eq (q.outcome a w) (q.outcome a w') := by
  obtain ⟨s, f⟩ := w
  obtain ⟨_, f'⟩ := w'
  obtain ⟨rfl, hr⟩ := h
  let _ := a.host
  exact (q.alike hprim s f f' hr).1

/-- Twins have the same pools, and resolve every word the same, in every run in which no
    membership event divides them. -/
theorem shapes_interchangeable
    (hprim : ∀ e, PrimError e → stringContains e "no match for" = false) {p : World × World}
    (h : twins.ReachableVia (fun p step => ¬ Divides p step.2) p) :
    (∀ pool : RoomPool, Agree Eq List.Perm (p.1.pool pool) (p.2.pool pool)) ∧
      ∀ (a : Answers) (q : Query), Agree SameError Eq (q.outcome a p.1) (q.outcome a p.2) := by
  -- the invariant: the same slots, and the same room in one or two shapes
  have hbeside : Beside (Option.Rel SameRoom) p.1 p.2 := by
    refine h.invariant (I := fun p => Beside (Option.Rel SameRoom) p.1 p.2) ?_ ?_
    · rintro _ ⟨w, r, cs, hc, rfl⟩
      exact ⟨rfl, .some (.shapes cs hc)⟩
    · rintro p ⟨a, told⟩ _ hp hd hn
      obtain rfl := Option.some.inj hn
      let _ := a.host
      exact told.run_beside hprim hp hd
  exact ⟨hbeside.pool, fun a q => hbeside.outcome hprim a q⟩

omit [Host] in
/-- Someone speaks in a room with a cat and a dog, and the word *cat* is looked up. -/
theorem shapes_interchangeable_say :
    let _ : Host := scripted "did:ma:me" fun _ _ _ => .ok .nil
    let cat : Child := ⟨[("actor", "did:ma:cat"), ("name", "cat")], "did:ma:cat", rfl⟩
    let dog : Child := ⟨[("actor", "did:ma:dog"), ("name", "dog")], "did:ma:dog", rfl⟩
    let cs : Children := ⟨[dog, cat], by decide⟩
    let room : Ctx := [("children", cs.listed), ("name", "hall")]
    let room' : Ctx := [("children", cs.keyed), ("name", "hall")]
    let w := World.entered "did:ma:hall"
    let a : Answers := ⟨fun _ _ _ => .ok .nil, 0⟩
    let say : Told := .event (.list [":say", .map dog.ctx, "woof"])
    Agree SameError Eq ((Query.one "cat").outcome a (say.run (w.caching room)))
      ((Query.one "cat").outcome a (say.run (w.caching room'))) := by
  intro _ cat dog cs room room' w a say
  have hprim : ∀ e, PrimError e → stringContains e "no match for" = false := by
    rintro _ ⟨prim, hp, args, rfl⟩
    change stringContains (prim ++ ": invalid arguments") "no match for" = false
    revert prim
    decide
  have hinit : twins.init (w.caching room, w.caching room') := ⟨w, room, cs, rfl, rfl⟩
  have hsay : ¬ Divides (w.caching room, w.caching room') say := by
    rintro ⟨-, -, n, hn⟩
    have hname := SchemeVal.str.inj (List.cons.inj (SchemeVal.list.inj (Told.event.inj hn))).1
    revert hname
    cases n.membership <;> decide
  have hrun := (System.ReachableVia.init (C := fun p step => ¬ Divides p step.2) hinit).step
    (a := (a, say)) hsay rfl
  exact (shapes_interchangeable hprim hrun).2 a (.one "cat")

omit [Host] in
/-- A dog arrives in a room with a cat: the list cannot be changed. -/
theorem not_shapes_interchangeable :
    let _ : Host := scripted "did:ma:me" fun _ _ _ => .ok .nil
    let cat : Child := ⟨[("actor", "did:ma:cat"), ("name", "cat")], "did:ma:cat", rfl⟩
    let dog : Ctx := [("actor", "did:ma:dog"), ("name", "dog")]
    ∃ p, twins.Reachable p ∧ p.1.pool .children = .ok [.map cat.ctx] ∧
      p.2.pool .children = .ok [.map cat.ctx, .map dog] ∧
      ¬ Agree Eq List.Perm (p.1.pool .children) (p.2.pool .children) := by
  intro _ cat dog
  let cs : Children := ⟨[cat], by decide⟩
  let room : Ctx := [("children", cs.listed)]
  let w := World.entered "did:ma:hall"
  have hinit : twins.init (w.caching room, w.caching (room.insert "children" cs.keyed)) :=
    ⟨w, room, cs, rfl, rfl⟩
  have hrun := (System.ReachableVia.init (C := fun _ _ => True) hinit).step
    (a := (⟨fun _ _ _ => .ok .nil, 0⟩, .event (.list [":arrive", .map dog]))) trivial rfl
  have hlisted : ((Told.event (.list [":arrive", .map dog])).run (w.caching room)).pool .children =
      .ok [.map cat.ctx] := by decide +kernel
  have hkeyed : ((Told.event (.list [":arrive", .map dog])).run
      (w.caching (room.insert "children" cs.keyed))).pool .children =
        .ok [.map cat.ctx, .map dog] := by decide +kernel
  refine ⟨_, hrun, hlisted, hkeyed, fun h => ?_⟩
  have h := hlisted ▸ hkeyed ▸ h
  obtain ⟨_, hpool, hperm⟩ := h.of_ok
  cases hpool
  cases hperm.length_eq

end Avatar

end Zscheme
