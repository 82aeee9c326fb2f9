import Zscheme.Avatar.Dispatch

/-!
# The room cache

A room tells its children by `:arrive`, `:child-ctx` and `:leave` events, each with the
ctx of one actor. The avatar keeps the last ctx of each actor in its snapshot of the room,
under the actor's address. An event changes this one entry, whether or not it can be shown
(`News.op_wp`); so the cached children are what the last event about each actor says
(`cache_follows`).
-/

namespace Zscheme

namespace Avatar

open Prim Stdlib Zscheme.Runtime Program

/-! ## Children -/

/-- The children are keyed by their `entry-actor`. -/
def Keyed (children : Dict String SchemeVal) : Prop :=
  children.Sorted ∧ ∀ p ∈ children, ∃ ctx, p.2 = .map ctx ∧ ctxActor ctx = .str p.1

/-- What a room can tell of a child. -/
inductive Membership
  | arrive
  | childCtx
  | leave
  deriving DecidableEq

/-- The name of the event. -/
def Membership.event : Membership → String
  | arrive => ":arrive"
  | childCtx => ":child-ctx"
  | leave => ":leave"

/-- A membership event: it carries one ctx, which names an actor. -/
structure News where
  /-- What is told. -/
  membership : Membership
  /-- The ctx of the child. -/
  ctx : Ctx
  /-- Its `entry-actor`. -/
  actor : String
  /-- The ctx names the actor. -/
  ctx_actor : ctxActor ctx = .str actor

namespace News

/-- What the children have for the actor afterwards. -/
def child? (n : News) : Option SchemeVal :=
  if n.membership = .leave then none else some (.map n.ctx)

/-- The change of the children. -/
def change (n : News) : Dict.Change String SchemeVal := ⟨n.actor, n.child?⟩

/-- The delivery of the event. -/
def op (n : News) : Op := .event ":event" (.list [.str n.membership.event, .map n.ctx])

end News

theorem Keyed.change {children : Dict String SchemeVal} (h : Keyed children) (n : News) :
    Keyed (children.change n.change) := by
  refine ⟨Dict.Sorted.changes h.1 [n.change], fun p hp => ?_⟩
  simp only [Dict.change, News.change, News.child?] at hp
  split at hp
  · next v hv =>
    obtain ⟨_, hv⟩ := Option.ite_none_left_eq_some.1 hv
    obtain rfl := Option.some.inj hv
    rcases Dict.mem_insert hp with rfl | hp
    · exact ⟨n.ctx, rfl, n.ctx_actor⟩
    · exact h.2 p hp
  · exact h.2 p (List.mem_filter.1 hp).1

theorem Keyed.changes {children : Dict String SchemeVal} (h : Keyed children)
    (news : List News) : Keyed ((news.map News.change).foldl Dict.change children) := by
  induction news generalizing children with
  | nil => exact h
  | cons n news ih => exact ih (h.change n)

/-! ## One event -/

variable [Host] {w : World} {f : Focus} {s : Slots} {r : Ctx} {children : Dict String SchemeVal}

/-- A change of one child, keyed by its actor. -/
theorem modifyRoomChild!_wp {ctx : Ctx} {actor prim : String}
    (g : Dict String SchemeVal → String → Dict String SchemeVal) (hr : f.lastRoom = some r)
    (hc : r.get? "children" = some (.map children)) (ha : ctxActor ctx = .str actor)
    {Q : Unit → Focus → Prop} {E : String → Focus → Prop} :
    (modifyRoomChild! (.map ctx) g prim s).wp Q E f ↔
      Q () { f with lastRoom := some (r.insert "children" (.map (g children actor))) } := by
  simp only [modifyRoomChild!, getFocus, view_bind, view_program, wp_bind, wp_get, hr]
  simp only [ha, hc, SchemeVal.truthy, asMap, asString, modifyFocus, view_ite, view_bind, view_lift,
    view_program, wp_bind, wp_lift, wp_update, if_true, Option.getD_some]

/-- The narration of a movement leaves the cached room alone. -/
theorem showMovement_wp {room : Option Ctx} (ctx : SchemeVal) (does : String)
    (hr : f.lastRoom = room) :
    (showMovement ctx does s).wp (fun _ f' => f'.lastRoom = room) (fun _ f' => f'.lastRoom = room)
      f := by
  simp only [showMovement, view_bind, view_lift, wp_bind]
  refine wp_lift_of (fun text _ => ?_) fun _ _ => hr
  split <;> exact hr

/-- The room with a child changed. -/
def withChild (r : Ctx) (children : Dict String SchemeVal) (n : News) : Ctx :=
  r.insert "children" (.map (children.change n.change))

/-- The handler of a membership event changes the child, whether or not it raises. -/
theorem News.handler_wp (n : News) (hr : w.focus.lastRoom = some r)
    (hc : r.get? "children" = some (.map children)) :
    ∃ handler, roomEventHandlers n.membership.event = some handler ∧
      (handler [.map n.ctx]).wp
        (fun _ w' => w'.focus.lastRoom = some (withChild r children n))
        (fun _ w' => w'.focus.lastRoom = some (withChild r children n)) w := by
  obtain ⟨membership, ctx, actor, ha⟩ := n
  cases membership with
  | arrive =>
    refine ⟨_, rfl, (wp_view _).2 ?_⟩
    simp only [eventArrive, roomChildUpsert!, view_bind, wp_bind]
    rw [modifyRoomChild!_wp _ hr hc ha]
    exact showMovement_wp _ _ rfl
  | childCtx =>
    refine ⟨_, rfl, (wp_view _).2 ?_⟩
    simp only [eventChildCtx, roomChildUpsert!]
    rw [modifyRoomChild!_wp _ hr hc ha]
    rfl
  | leave =>
    refine ⟨_, rfl, (wp_view _).2 ?_⟩
    simp only [eventLeave, roomChildRemove!, view_bind, wp_bind]
    rw [modifyRoomChild!_wp _ hr hc ha]
    exact showMovement_wp _ _ rfl

/-- A membership event changes the child it is about, and nothing else of the room. -/
theorem News.op_room (n : News) (hr : w.focus.lastRoom = some r)
    (hc : r.get? "children" = some (.map children)) :
    (n.op.run.run w).2.focus.lastRoom = some (withChild r children n) := by
  obtain ⟨handler, hh, hp⟩ := n.handler_wp hr hc
  exact roomEvent_wp (P := fun w' => w'.focus.lastRoom = _) (fun _ _ h => h) hh hp

/-! ## Sequences of events -/

/-- The children after some events. -/
def told (children : Dict String SchemeVal) (news : List News) : Dict String SchemeVal :=
  (news.map News.change).foldl Dict.change children

omit [Host] in
theorem get?_told (news : List News) (actor : String) :
    (told children news).get? actor = match news.reverse.find? fun n => n.actor = actor with
      | some n => n.child?
      | none => children.get? actor := by
  have hfind : (news.map News.change).reverse.find? (fun e => e.key = actor) =
      (news.reverse.find? fun n => n.actor = actor).map News.change := by
    rw [← List.map_reverse, List.find?_map]
    rfl
  rw [told, Dict.get?_changes, Dict.replay_apply, hfind]
  cases news.reverse.find? fun n => decide (n.actor = actor) with
  | some n => rfl
  | none => rfl

omit [Host] in
/-- Children that are keyed are told apart by their actors. -/
theorem Keyed.nodup [Evaluator] (h : Keyed children) :
    ((eventListValues (.map children)).map entryActor).Nodup := by
  have hactors : (children.map Prod.snd).map entryActor =
      (children.map Prod.fst).map fun key => .ok (.str key) := by
    rw [List.map_map, List.map_map]
    refine List.map_congr_left fun p hp => ?_
    obtain ⟨ctx, hctx, hactor⟩ := h.2 p hp
    simp only [Function.comp, hctx]
    exact congrArg Except.ok hactor
  have hkeys : (children.map Prod.fst).Nodup :=
    List.Pairwise.map _ (fun p q (hpq : p.1 < q.1) heq => String.lt_irrefl q.1 (heq ▸ hpq)) h.1
  rw [eventListValues, hactors]
  exact List.Pairwise.map _ (fun _ _ hne heq => hne (SchemeVal.str.inj (Except.ok.inj heq))) hkeys

/-- After some events, only the children of the room have changed. -/
theorem after_news (hr : w.focus.lastRoom = some r)
    (hc : r.get? "children" = some (.map children)) (n : News) (news : List News) :
    (w.after ((n :: news).map News.op)).focus.lastRoom =
      some (r.insert "children" (.map (told children (n :: news)))) := by
  have hn := n.op_room hr hc
  induction news generalizing w r children n with
  | nil => exact hn
  | cons n' news ih =>
    have hc' := Dict.get?_insert_self r "children" (.map (children.change n.change))
    refine (ih hn hc' n' (n'.op_room hn hc')).trans ?_
    rw [withChild, Dict.insert_insert]
    rfl

/-- Events after which each child is the same leave the same room. -/
theorem after_congr (hr : w.focus.lastRoom = some r)
    (hc : r.get? "children" = some (.map children)) (hk : Keyed children) {news news' : List News}
    (hne : news ≠ []) (hne' : news' ≠ [])
    (h : Dict.replay children.get? (news.map News.change) =
      Dict.replay children.get? (news'.map News.change)) :
    (w.after (news.map News.op)).focus.lastRoom = (w.after (news'.map News.op)).focus.lastRoom := by
  have htold : told children news = told children news' := by
    refine Dict.Sorted.ext (hk.changes news).1 (hk.changes news').1 fun actor => ?_
    rw [told, told, Dict.get?_changes, Dict.get?_changes, h]
  obtain ⟨n, news, rfl⟩ := List.exists_cons_of_ne_nil hne
  obtain ⟨n', news', rfl⟩ := List.exists_cons_of_ne_nil hne'
  rw [after_news hr hc, after_news hr hc, htold]

/-- The cached room follows the events. -/
theorem cache_follows (hr : w.focus.lastRoom = some r)
    (hc : r.get? "children" = some (.map children)) (hk : Keyed children) (news : List News) :
    (∃ (r' : Ctx) (children' : Dict String SchemeVal),
      (w.after (news.map News.op)).focus.lastRoom = some r' ∧
      r'.get? "children" = some (.map children') ∧ Keyed children' ∧
      ((roomChildPool r').map entryActor).Nodup ∧
      (∀ key, key ≠ "children" → r'.get? key = r.get? key) ∧
      ∀ actor, children'.get? actor = match news.reverse.find? fun n => n.actor = actor with
        | some n => n.child?
        | none => children.get? actor) ∧
    (∀ n n' : News, n.actor ≠ n'.actor → ∀ later : List News,
      (w.after ((news ++ n :: n' :: later).map News.op)).focus.lastRoom =
        (w.after ((news ++ n' :: n :: later).map News.op)).focus.lastRoom) ∧
    ∀ (n : News) (later : List News),
      (w.after ((news ++ n :: n :: later).map News.op)).focus.lastRoom =
        (w.after ((news ++ n :: later).map News.op)).focus.lastRoom := by
  -- What the events do is a replay of changes, for which the laws of dictionaries hold.
  refine ⟨?_, fun n n' hne later => ?_, fun n later => ?_⟩
  · rcases news with _ | ⟨n, news⟩
    · have hpool : roomChildPool r = eventListValues (.map children) := by
        rw [roomChildPool, hc, Option.getD_some]
      exact ⟨r, children, hr, hc, hk, hpool ▸ hk.nodup, fun _ _ => rfl, fun _ => rfl⟩
    · have hc' := Dict.get?_insert_self r "children" (.map (told children (n :: news)))
      refine ⟨_, _, after_news hr hc n news, hc', hk.changes _, ?_, fun key hkey => ?_, get?_told _⟩
      · rw [roomChildPool, hc', Option.getD_some]
        exact (hk.changes _).nodup
      · rw [Dict.get?_insert, if_neg hkey]
  · refine after_congr hr hc hk (by simp) (by simp) ?_
    simp only [List.map_append, List.map_cons, Dict.replay_append]
    exact Dict.replay_comm _ hne _
  · refine after_congr hr hc hk (by simp) (by simp) ?_
    simp only [List.map_append, List.map_cons, Dict.replay_append]
    exact Dict.replay_again _ _ _

omit [Host] in
/-- An `:arrive` that cannot be shown, as the name of the child is no text; then the child
    leaves. -/
theorem cache_follows_duck :
    let _ : Host := scripted "did:ma:me" fun _ _ _ => .ok .nil
    let duck : Ctx := [("actor", "did:ma:duck"), ("name", .int 7)]
    let cat : Ctx := [("actor", "did:ma:cat"), ("name", "cat")]
    let room : Ctx := [("children", .map [("did:ma:cat", .map cat)]), ("name", "hall")]
    let w : World := { World.entered "did:ma:hall" with focus := ⟨some room, [], []⟩ }
    let arrive : News := ⟨.arrive, duck, "did:ma:duck", rfl⟩
    let leave : News := ⟨.leave, duck, "did:ma:duck", rfl⟩
    ∃ (r' : Ctx) (children' : Dict String SchemeVal),
      (w.after ([arrive, leave].map News.op)).focus.lastRoom = some r' ∧
      r'.get? "children" = some (.map children') ∧ children'.get? "did:ma:duck" = none := by
  intro _ duck cat room w arrive leave
  have hkeyed : Keyed [("did:ma:cat", SchemeVal.map cat)] := by
    refine ⟨List.pairwise_singleton _ _, fun p hp => ?_⟩
    obtain rfl := List.mem_singleton.1 hp
    exact ⟨cat, rfl, rfl⟩
  obtain ⟨⟨r', children', hr', hc', -, -, -, hlook⟩, -, -⟩ :=
    cache_follows (w := w) (r := room) rfl rfl hkeyed [arrive, leave]
  exact ⟨r', children', hr', hc', hlook "did:ma:duck"⟩

end Avatar

end Zscheme
