import Zscheme.Avatar.Exits
import Zscheme.Avatar.MakeRoom

/-!
# What a word reaches

A word is resolved in what is at hand: the hand, the cached room and the inventory. To look
there the inventory is asked for its contents, if it can be; nothing else is called as long
as the room is cached. So where the room itself cannot be called, a command to the actor
that a word refers to raises and leaves the focus as it is, or an actor was called, and
which of them is decided by the slots and the focus (`command_reaches`).
-/

namespace Zscheme

namespace Avatar

open Prim Stdlib Zscheme.Runtime Program

/-! ## Calls -/

/-- It is a call to an actor. -/
def Effect.isCall : Effect → Bool
  | .call _ _ _ _ => true
  | .display _ | .msgSend _ _ _ | .random _ => false

/-- An actor was called. -/
def Called (f f' : Focus) : Prop := ∃ l, f'.trace = l ++ f.trace ∧ ∃ e ∈ l, e.isCall = true

/-- Who was called was called in a longer run. -/
theorem Called.later {f f' f'' : Focus} (h : Called f f') (hle : f' ≤ f'') : Called f f'' := by
  obtain ⟨l, hl, e, he, hcall⟩ := h
  obtain ⟨l', hl'⟩ := hle
  exact ⟨l' ++ l, by rw [← hl', hl, List.append_assoc], e, List.mem_append_right _ he, hcall⟩

/-- A call on the trace was made. -/
theorem called_of_call {f f' : Focus} {x m : String} {args : List SchemeVal}
    {r : Except String SchemeVal} (h : f'.trace = .call x m args r :: f.trace) : Called f f' :=
  ⟨[_], h, _, List.mem_singleton_self _, rfl⟩

section Called

variable {α β : Type} {f f' : Focus} {s : Slots}

/-- What was called stays called, whatever follows. -/
theorem wp_called_bind {p : Program String Focus α} {k : α → Program String Focus β}
    (h : p.wp (fun _ => Called f) (fun _ => Called f) f') :
    (p >>= k).wp (fun _ => Called f) (fun _ => Called f) f' :=
  (wp_bind _ _).2 (h.conseq (fun _ _ _ h => wp_of_le (fun _ _ => h.later) fun _ _ => h.later)
    fun _ _ _ h => h)

/-- A handler does not undo a call. -/
theorem wp_called_tryCatch {p : Program String Focus α}
    {k : String → Program String Focus α}
    (h : p.wp (fun _ => Called f) (fun _ => Called f) f') :
    (tryCatch p k).wp (fun _ => Called f) (fun _ => Called f) f' :=
  (wp_tryCatch _ _).2 (h.conseq (fun _ _ _ h => h)
    fun _ _ _ h => wp_of_le (fun _ _ => h.later) fun _ _ => h.later)

/-- An actor is called, whatever it answers. -/
theorem wp_called_actorCall [Host] {x : String} (hx : Host.isActor x = true) (method : String)
    (args : List SchemeVal) :
    (actorCall (.str x) method args s).wp (fun _ => Called f) (fun _ => Called f) f := by
  refine actorCall_wp (fun y v _ _ => ?_) (fun y e _ _ => ?_) fun e hno => ?_
  · exact called_of_call rfl
  · exact called_of_call rfl
  · exact nomatch hx.symm.trans (hno x rfl).1

end Called

/-! ## Idle views -/

section Constructs

variable {α β : Type} {s : Slots} {v : View α}

/-- With these slots the view leaves the focus as it is. -/
def Idle (s : Slots) (v : View α) : Prop := (v s).Within Eq

/-- A result calls nobody. -/
theorem idle_pure (a : α) : Idle s (pure a : View α) := within_pure a

/-- An error calls nobody. -/
theorem idle_throw (e : String) : Idle s (throw e : View α) := within_throw e

/-- Pure code calls nobody. -/
theorem idle_lift (x : Except String α) : Idle s (liftM x : View α) := within_lift x

/-- Two views in a row call nobody if neither does. -/
theorem Idle.bind {k : α → View β} (hv : Idle s v) (hk : ∀ a, Idle s (k a)) :
    Idle s (v >>= k) := Within.bind hv hk

/-- A handler that calls nobody keeps a view idle. -/
theorem Idle.tryCatch {k : String → View α} (hv : Idle s v) (hk : ∀ e, Idle s (k e)) :
    Idle s (tryCatch v k) := Within.tryCatch hv hk

/-- A test of two idle views is idle. -/
theorem idle_ite {c : Prop} [Decidable c] {v' : View α} (hv : Idle s v) (hv' : Idle s v') :
    Idle s (if c then v else v') := by split <;> assumption

/-- Reading the focus calls nobody. -/
theorem idle_getFocus : Idle s getFocus := within_get

/-- A fold of idle steps is idle. -/
theorem idle_foldlM {k : β → α → View β} (hk : ∀ b a, Idle s (k b a)) (l : List α) (b : β) :
    Idle s (l.foldlM k b) := by
  induction l generalizing b with
  | nil => exact idle_pure b
  | cons a l ih =>
    rw [List.foldlM_cons]
    exact (hk b a).bind ih

/-- An idle view for each element is idle. -/
theorem idle_mapM {k : α → View β} (hk : ∀ a, Idle s (k a)) (l : List α) : Idle s (l.mapM k) := by
  induction l with
  | nil => exact idle_pure _
  | cons a l ih =>
    rw [List.mapM_cons]
    exact (hk a).bind fun _ => ih.bind fun _ => idle_pure _

end Constructs

/-! ## What is at hand -/

variable [Host]

/-- The equipped container can be asked. -/
def Slots.HasInventory (s : Slots) : Prop := ∃ x, s.myInv = .str x ∧ Host.isActor x = true

/-- A word refers to one entry of a pool. -/
def RefersTo (word : SchemeVal) (pool : List SchemeVal) (entry : SchemeVal) : Prop :=
  startsWithDid? word = .ok false ∧
    ∃ did, resolveRef word pool = .ok [did] ∧ candidateForDid pool did = .ok entry

/-- The entry names an actor that can be called. -/
def Callable (entry : SchemeVal) : Prop :=
  ∃ x, entryActor entry = .ok (.str x) ∧ Host.isActor x = true

/-- The hand, and the children and the exits of a room. -/
def Slots.atHand (s : Slots) (room : Ctx) (exits : List SchemeVal) : List SchemeVal :=
  (s.held.map fun h => SchemeVal.map h.ctx).toList ++ (roomChildPool room ++ exits)

/-- To resolve the word an actor is called, or an actor is what it refers to. -/
def Reaches (s : Slots) (f : Focus) (word : SchemeVal) : Prop :=
  ∃ room exits, f.lastRoom = some room ∧ exitPool room = .ok exits ∧
    (s.HasInventory ∨ ∃ entry, RefersTo word (s.atHand room exits) entry ∧ Callable entry)

/-! ## Resolving without a call -/

section Idle

variable {α : Type} {s : Slots} {f : Focus}

/-- The inventory is named without a call. -/
theorem idle_myInvIfAny : Idle s myInvIfAny := fun f =>
  (wp_iff_end _ (Eq f)).1 ((myInvIfAny_wp s f).2 rfl)

/-- What is no address is not called. -/
theorem actorCall_throws {actor : SchemeVal} (h : ∀ x, actor = .str x → Host.isActor x = false)
    (method : String) (args : List SchemeVal) : ∃ e, actorCall actor method args = throw e := by
  rcases actor with x | _ | _ | _ | _ | _ | _ | _
  case str => exact ⟨_, if_neg (by rw [h x rfl]; exact Bool.false_ne_true)⟩
  all_goals exact ⟨_, rfl⟩

/-- Without a room nothing is asked of it. -/
theorem roomCall_throws (h : ¬ s.HasRoom) (method : String) (args : List SchemeVal) :
    ∃ e, roomCall method args s = throw e := by
  rcases hr : s.room with _ | r
  · refine ⟨Evaluator.unsetPath ".my.ctx.room", ?_⟩
    simp only [roomCall, room, getSlots, view_bind, view_read, pure_bind, hr]
    rfl
  · obtain ⟨e, he⟩ := actorCall_throws (fun x hx => Bool.eq_false_iff.2 fun hact =>
      h ⟨x, hx ▸ hr, hact⟩) method args
    refine ⟨e, ?_⟩
    simp only [roomCall, room, getSlots, view_bind, view_read, pure_bind, hr, localPath, view_pure]
    exact congrFun he s

variable (hinv : ¬ s.HasInventory)

include hinv

/-- An inventory that cannot be asked is left out. -/
theorem resolveInventoryPool_nil {Q : List SchemeVal → Focus → Prop}
    {E : String → Focus → Prop} (h : Q [] f) : (resolveInventoryPool s).wp Q E f := by
  obtain ⟨e, he⟩ := actorCall_throws (fun x hx => Bool.eq_false_iff.2 fun hact =>
    hinv ⟨x, hx, hact⟩) "kind?" []
  have hfalse : SchemeVal.truthy (.bool false) = false := rfl
  simp only [resolveInventoryPool, usableInventory, view_bind, wp_bind, myInvIfAny_wp, he, view_ite,
    wp_ite]
  by_cases ht : s.myInv.truthy = true
  · simpa [ht, hfalse] using h
  · simpa [ht, hfalse] using h

/-- Without an inventory its pool is empty, and nobody is called. -/
theorem idle_resolveInventoryPool : Idle s resolveInventoryPool := fun f =>
  (wp_iff_end _ (Eq f)).1 (resolveInventoryPool_nil hinv rfl)

/-- Where a candidate is, is known without a call. -/
theorem idle_candidateLocation (entry : SchemeVal) : Idle s (candidateLocation entry) := by
  refine (idle_lift _).bind fun parent => idle_ite ?_ (idle_pure _)
  have hpool : Idle s locationLookupPool :=
    idle_getFocus.bind fun _ => (idle_resolveInventoryPool hinv).bind fun _ => idle_pure _
  refine hpool.bind fun pool => (idle_lift _).bind fun found => ?_
  split
  · exact idle_pure _
  · refine idle_myInvIfAny.bind fun _ => idle_ite (idle_pure _) (idle_getFocus.bind fun _ => ?_)
    split <;> exact idle_pure _

/-- So is what to say of candidates that match alike. -/
theorem idle_ambiguousError (word : SchemeVal) (candidates : List SchemeVal) :
    Idle s (ambiguousError word candidates : View α) := by
  have hdescribe : ∀ entry, Idle s (describeCandidate entry) := fun entry =>
    (idle_lift _).bind fun _ => (idle_candidateLocation hinv entry).bind fun _ =>
      (idle_lift _).bind fun _ => (idle_lift _).bind fun _ => idle_lift _
  refine (idle_lift _).bind fun _ => Idle.bind (idle_foldlM (fun _ _ => ?_) _ _) fun _ =>
    idle_throw _
  exact (hdescribe _).bind fun _ => idle_pure _

/-- A word refers to an entry, or it raises. -/
theorem resolveOneEntry_refers {word : SchemeVal} (hword : startsWithDid? word = .ok false)
    (pool : List SchemeVal) : (resolveOneEntry word pool s).wp
      (fun entry f' => f' = f ∧ RefersTo word pool entry)
      (fun _ f' => f' = f ∧ ∀ entry, ¬ RefersTo word pool entry) f := by
  have hnone : (∀ did, resolveRef word pool ≠ .ok [did]) → ∀ entry, ¬ RefersTo word pool entry :=
    fun h entry hentry => h hentry.2.choose hentry.2.choose_spec.1
  have hraise : ∀ v : View SchemeVal, Idle s v → (v s).wp (fun _ _ => False) (fun _ _ => True) f →
      (∀ did, resolveRef word pool ≠ .ok [did]) → (v s).wp
        (fun entry f' => f' = f ∧ RefersTo word pool entry)
        (fun _ f' => f' = f ∧ ∀ entry, ¬ RefersTo word pool entry) f := by
    intro v hidle hraises hhits
    refine (hraises.and (hidle.wp f)).conseq (fun _ _ _ h => h.1.elim) fun _ _ _ h => ?_
    exact ⟨h.2.symm, hnone hhits⟩
  simp only [resolveOneEntry, view_bind, view_lift, hword, wp_bind, wp_lift, view_ite,
    Bool.false_eq_true, if_false]
  rcases hhits : resolveRef word pool with e | (_ | ⟨did, _ | ⟨did', hits⟩⟩)
  · exact ⟨trivial, hnone fun did => by simp [hhits]⟩
  · refine hraise (noMatchError word) ((idle_lift _).bind fun _ => idle_throw _)
      (noMatchError_raises (fun _ _ => trivial) word) fun did => ?_
    simp [hhits]
  · refine wp_lift_of (fun entry hentry => ⟨rfl, hword, did, hhits, hentry⟩) fun e he => ⟨rfl, ?_⟩
    rintro entry ⟨_, did', hdid', hentry⟩
    obtain rfl := (List.cons.inj (Except.ok.inj (hhits.symm.trans hdid'))).1
    exact absurd (he.symm.trans hentry) (by simp)
  · let choose : View SchemeVal := do
      let entries ← (did :: did' :: hits).mapM fun did => liftM (candidateForDid pool did)
      ambiguousError word entries
    refine hraise choose ?_ ?_ fun did'' => ?_
    · exact (idle_mapM (fun _ => idle_lift _) _).bind fun _ => idle_ambiguousError hinv _ _
    · exact (wp_bind _ _).2 (wp_of_le
        (fun _ _ _ => ambiguousError_raises (fun _ _ => trivial) _ _) fun _ _ _ => trivial)
    · simp [hhits]

end Idle

section Reach

variable {s : Slots} {f : Focus} {word : SchemeVal}

/-- An inventory that can be asked is asked. -/
theorem resolveInventoryPool_called (h : s.HasInventory) :
    (resolveInventoryPool s).wp (fun _ => Called f) (fun _ => Called f) f := by
  obtain ⟨x, hx, hact⟩ := h
  have htrue : SchemeVal.truthy (.str x) = true := rfl
  rw [resolveInventoryPool, view_bind]
  refine wp_called_bind ?_
  rw [usableInventory, view_bind, wp_bind, myInvIfAny_wp, hx, view_ite, if_pos htrue, view_tryCatch,
    view_bind]
  exact wp_called_tryCatch (wp_called_bind (wp_called_actorCall hact _ _))

/-- In a cached room with a pool the inventory is asked last. -/
theorem defaultPool_cached {Q : List SchemeVal → Focus → Prop} {E : String → Focus → Prop}
    {room : Ctx} {exits : List SchemeVal} (hlast : f.lastRoom = some room)
    (hexits : exitPool room = .ok exits) : (defaultPool s).wp Q E f ↔
      (resolveInventoryPool s).wp (fun inventory => Q (s.atHand room exits ++ inventory)) E f := by
  have hpool : (do return roomChildPool room ++ (← exitPool room)) =
      (.ok (roomChildPool room ++ exits) : Except String (List SchemeVal)) := by
    rw [hexits]
    rfl
  simp only [defaultPool, handPool, getSlots, resolveRoomPool, cachedRoomPool, getFocus, view_bind,
    view_read, view_pure, view_program, pure_bind, wp_bind, wp_get, hlast, view_lift, hpool,
    wp_lift, wp_pure, Slots.atHand, List.append_assoc]

/-- Without a room and without a pool there is nothing to resolve a word in. -/
theorem defaultPool_throws (hroom : ¬ s.HasRoom)
    (h : ∀ room, f.lastRoom = some room → ∀ exits, exitPool room ≠ .ok exits) :
    (defaultPool s).wp (fun _ _ => False) (fun _ f' => f' = f) f := by
  obtain ⟨e, he⟩ := roomCall_throws hroom "look" []
  simp only [defaultPool, handPool, getSlots, resolveRoomPool, cachedRoomPool, getFocus, view_bind,
    view_read, view_pure, view_program, pure_bind, wp_bind, wp_get]
  rcases hlast : f.lastRoom with _ | room
  · simp only [view_bind, he]
    rfl
  · rcases hexits : exitPool room with e | exits
    · simp only [hexits]
      rfl
    · exact absurd hexits (h room hlast exits)

omit s f in
/-- A word refers to one entry at most. -/
theorem RefersTo.unique {pool : List SchemeVal} {entry entry' : SchemeVal}
    (h : RefersTo word pool entry) (h' : RefersTo word pool entry') : entry = entry' := by
  obtain ⟨-, did, hdid, hentry⟩ := h
  obtain ⟨-, did', hdid', hentry'⟩ := h'
  obtain rfl := (List.cons.inj (Except.ok.inj (hdid.symm.trans hdid'))).1
  exact Except.ok.inj (hentry.symm.trans hentry')

/-- In a cached room with a pool, and with no inventory to ask, a word reaches the actor it
    refers to. -/
theorem reaches_iff {room : Ctx} {exits : List SchemeVal} (hlast : f.lastRoom = some room)
    (hexits : exitPool room = .ok exits) (hinv : ¬ s.HasInventory) :
    Reaches s f word ↔
      ∃ entry, RefersTo word (s.atHand room exits) entry ∧ Callable entry := by
  refine ⟨?_, fun h => ⟨room, exits, hlast, hexits, .inr h⟩⟩
  rintro ⟨room', exits', hlast', hexits', h | h⟩
  · exact absurd h hinv
  · obtain rfl := Option.some.inj (hlast.symm.trans hlast')
    obtain rfl := Except.ok.inj (hexits.symm.trans hexits')
    exact h

/-- What follows the resolution of a word that reaches nothing but what it refers to. -/
theorem command_refers {room : Ctx} {exits : List SchemeVal} (hroom : ¬ s.HasRoom)
    (hword : startsWithDid? word = .ok false) (hlast : f.lastRoom = some room)
    (hexits : exitPool room = .ok exits) (hinv : ¬ s.HasInventory) :
    (resolveOneEntryFresh word defaultPool s).wp
      (fun entry f' => f' = f ∧ RefersTo word (s.atHand room exits) entry)
      (fun _ f' => f' = f ∧ ∀ entry, ¬ RefersTo word (s.atHand room exits) entry) f := by
  obtain ⟨e, he⟩ := roomCall_throws hroom "look" []
  rw [resolveOneEntryFresh, view_bind, wp_bind, defaultPool_cached hlast hexits]
  refine resolveInventoryPool_nil hinv ?_
  rw [List.append_nil, resolveOneEntryOrRefresh, view_tryCatch, wp_tryCatch]
  refine (resolveOneEntry_refers hinv hword _).conseq (fun _ _ _ h => h) ?_
  rintro e' f' - ⟨rfl, hnone⟩
  rw [view_ite, wp_ite]
  split
  · simp only [view_bind, he]
    exact ⟨rfl, hnone⟩
  · exact ⟨rfl, hnone⟩

/-- Where there is no room to call, resolving a word and calling what it refers to raises at
    once, or an actor was called on the way. -/
theorem command_reaches (hroom : ¬ s.HasRoom) (hword : startsWithDid? word = .ok false)
    (method : String) (params : List SchemeVal) : (command word method params s).wp
      (fun _ f' => Called f f' ∧ Reaches s f word)
      (fun _ f' => Called f f' ∧ Reaches s f word ∨ f' = f ∧ ¬ Reaches s f word) f := by
  have hcommand : command word method params s = (do
      let entry ← resolveOneEntryFresh word defaultPool s
      let actor ← liftM (entryActor entry)
      actorCall actor method params s) := by
    rw [command, resolveOne, hword]
    exact Program.bind_assoc _ _ _
  rw [hcommand]
  by_cases hpool : ∃ room exits, f.lastRoom = some room ∧ exitPool room = .ok exits
  · obtain ⟨room, exits, hlast, hexits⟩ := hpool
    by_cases hinv : s.HasInventory
    · -- the inventory is asked before the word is looked at
      have hreaches : Reaches s f word := ⟨room, exits, hlast, hexits, .inl hinv⟩
      have hresolved : (resolveOneEntryFresh word defaultPool s).wp (fun _ => Called f)
          (fun _ => Called f) f := by
        rw [resolveOneEntryFresh, view_bind]
        refine wp_called_bind ?_
        exact (defaultPool_cached hlast hexits).2 (resolveInventoryPool_called hinv)
      exact (wp_called_bind hresolved).conseq (fun _ _ _ h => ⟨h, hreaches⟩)
        fun _ _ _ h => .inl ⟨h, hreaches⟩
    · rw [wp_bind]
      refine (command_refers hroom hword hlast hexits hinv).conseq ?_ ?_
      · rintro entry f' - ⟨rfl, hentry⟩
        have hnot : ¬ Callable entry → ¬ Reaches s f' word := fun hcall h => by
          obtain ⟨entry', hentry', hcall'⟩ := (reaches_iff hlast hexits hinv).1 h
          exact hcall (hentry.unique hentry' ▸ hcall')
        rw [wp_bind]
        refine wp_lift_of (fun actor hactor => ?_) fun e he => .inr ⟨rfl, hnot ?_⟩
        · have hreaches : ∀ x, actor = .str x → Host.isActor x = true → Reaches s f' word :=
            fun x hx hact => (reaches_iff hlast hexits hinv).2 ⟨entry, hentry, x, hx ▸ hactor, hact⟩
          refine actorCall_wp (fun x v hx hact => ?_) (fun x e hx hact => ?_) fun e hno => ?_
          · exact ⟨called_of_call rfl, hreaches x hx hact⟩
          · exact .inl ⟨called_of_call rfl, hreaches x hx hact⟩
          · refine .inr ⟨rfl, hnot ?_⟩
            rintro ⟨x, hx, hact⟩
            have hstr := Except.ok.inj (hactor.symm.trans hx)
            exact nomatch hact.symm.trans (hno x hstr).1
        · rintro ⟨x, hx, _⟩
          exact nomatch he.symm.trans hx
      · rintro e f' - ⟨rfl, hnone⟩
        refine .inr ⟨rfl, fun h => ?_⟩
        obtain ⟨entry, hentry, _⟩ := (reaches_iff hlast hexits hinv).1 h
        exact hnone entry hentry
  · -- there is no pool to resolve the word in
    have hno : ¬ Reaches s f word := fun ⟨room, exits, hlast, hexits, _⟩ =>
      hpool ⟨room, exits, hlast, hexits⟩
    rw [resolveOneEntryFresh, view_bind, wp_bind, wp_bind]
    refine (defaultPool_throws hroom fun room hlast exits hexits =>
      hpool ⟨room, exits, hlast, hexits⟩).conseq (fun _ _ _ h => h.elim) ?_
    rintro e f' - rfl
    exact .inr ⟨rfl, hno⟩

/-- The address of an actor is not resolved any further. -/
theorem command_address {x : String} (hx : Host.isActor x = true) (method : String)
    (params : List SchemeVal) :
    command (.str x) method params = actorCall (.str x) method params := by
  rw [command, resolveOne, Host.isActor_did x hx]
  rfl

/-- Without an address there is nothing to call. -/
theorem command_unreached (hroom : ¬ s.HasRoom) (hword : s.room = some word)
    (hreaches : startsWithDid? word = .ok false → ¬ Reaches s f word)
    (method : String) (params : List SchemeVal) : (command word method params s).wp
      (fun _ _ => False) (fun _ f' => f' = f) f := by
  rcases hdid : startsWithDid? word with e | (_ | _)
  · rw [command, resolveOne, hdid]
    rfl
  · refine (command_reaches hroom hdid method params).conseq (fun _ _ _ h => hreaches hdid h.2) ?_
    rintro e f' - (h | h)
    · exact absurd h.2 (hreaches hdid)
    · exact h.1
  · obtain ⟨e, he⟩ := actorCall_throws (fun x hx => Bool.eq_false_iff.2 fun hact =>
      hroom ⟨x, hx ▸ hword, hact⟩) method params
    have hcommand : command word method params = actorCall word method params := by
      rw [command, resolveOne, hdid]
      rfl
    rw [hcommand, he]
    rfl

end Reach

end Avatar

end Zscheme
