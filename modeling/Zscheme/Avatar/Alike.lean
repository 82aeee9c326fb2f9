import Zscheme.Avatar.Resolution
import Zscheme.Avatar.Shapes

/-!
# Views of two avatars

Two avatars with the same slots, whose cached rooms are related, take the same view. The
actors answer both alike, whatever went before (`Steady`), so that what they have done so
far does not matter.

* `Alike T E A v v'`: from cached rooms related by `T` the views end in such rooms, with
  outcomes that agree;
* `alike_describeCandidate`: a candidate is described the same in two snapshots that
  publish the same children;
* `alike_ambiguousError`: the report of several candidates lists them in another order;
* `alike_resolveOneEntry` and the other resolvers find the same.
-/

namespace Zscheme

namespace Avatar

open Prim Stdlib Zscheme.Runtime Program

/-- The actors answer a request the same, whatever went before. -/
class Steady [Host] : Prop where
  /-- What an actor answers. -/
  reply : ∀ t t', Host.reply t = Host.reply t'
  /-- What `random` draws. -/
  random : ∀ t t', Host.random t = Host.random t'

variable {α α' β β' : Type} {T : Option Ctx → Option Ctx → Prop}
  {E E' : String → String → Prop} {A A' : α → α' → Prop} {B : β → β' → Prop}

/-- From cached rooms related by `T` the views end in such rooms, with outcomes that
    agree. -/
def Alike (T : Option Ctx → Option Ctx → Prop) (E : String → String → Prop) (A : α → α' → Prop)
    (v : View α) (v' : View α') : Prop :=
  ∀ s, Relates (fun f f' => T f.lastRoom f'.lastRoom) E A (v s) (v' s)

/-! ## Constructs -/

section Constructs

variable {v : View α} {v' : View α'}

/-- Alike results are alike views. -/
theorem alike_pure {a : α} {a' : α'} (h : A a a') : Alike T E A (pure a) (pure a') :=
  fun _ => relates_pure h

/-- Alike errors are alike views. -/
theorem alike_throw {e e' : String} (h : E e e') :
    Alike T E A (throw e : View α) (throw e' : View α') := fun _ => relates_throw h

/-- So are results and errors of pure code that agree. -/
theorem alike_lift {x : Except String α} {y : Except String α'} (h : Agree E A x y) :
    Alike T E A (liftM x : View α) (liftM y : View α') := fun _ => relates_lift h

/-- The same computation has the same outcome. -/
theorem alike_self [Std.Refl E] {A : α → α → Prop} [Std.Refl A] (x : Except String α) :
    Alike T E A (liftM x : View α) (liftM x : View α) := alike_lift (agree_self x)

/-- Alike views go on alike. -/
theorem Alike.bind {f : α → View β} {f' : α' → View β'} (h : Alike T E A v v')
    (hf : ∀ a a', A a a' → Alike T E B (f a) (f' a')) : Alike T E B (v >>= f) (v' >>= f') :=
  fun s => (h s).bind fun a a' ha => hf a a' ha s

/-- The two views go on from the same value. -/
theorem Alike.bind_eq {v v' : View α} {f : α → View β} {f' : α → View β'}
    (h : Alike T E Eq v v') (hf : ∀ a, Alike T E B (f a) (f' a)) :
    Alike T E B (v >>= f) (v' >>= f') := h.bind fun a _ ha => ha ▸ hf a

/-- Alike errors are handled alike. -/
theorem Alike.tryCatch {f : String → View α} {f' : String → View α'} (h : Alike T E A v v')
    (hf : ∀ e e', E e e' → Alike T E A (f e) (f' e')) :
    Alike T E A (tryCatch v f) (tryCatch v' f') :=
  fun s => (h s).tryCatch fun e e' he => hf e e' he s

/-- What is caught is caught in both. -/
theorem alike_guard {f : String → View α} {f' : String → View α'} (h : Alike T Eq A v v')
    (hf : ∀ e, Alike T Eq A (f e) (f' e)) : Alike T Eq A (tryCatch v f) (tryCatch v' f') :=
  h.tryCatch fun e _ he => he ▸ hf e

/-- A test that both make chooses alike. -/
theorem alike_ite {c : Prop} [Decidable c] {w : View α} {w' : View α'} (h : Alike T E A v v')
    (h' : Alike T E A w w') : Alike T E A (if c then v else w) (if c then v' else w') := by
  split
  · exact h
  · exact h'

/-- A looser likeness follows from a closer one. -/
theorem Alike.mono (h : Alike T E A v v') (hE : ∀ e e', E e e' → E' e e')
    (hA : ∀ a a', A a a' → A' a a') : Alike T E' A' v v' := fun s => (h s).mono hE hA

/-- Both see the same slots. -/
theorem alike_getSlots : Alike T E Eq getSlots getSlots := fun _ => relates_pure rfl

/-- Both see rooms that are alike. -/
theorem alike_getFocus : Alike T E (fun f f' => T f.lastRoom f'.lastRoom) getFocus getFocus :=
  fun _ => relates_get

/-- What is done is not seen. -/
theorem alike_emit (e e' : Effect) : Alike T E Eq (emit e) (emit e') :=
  fun _ => relates_update fun _ _ h => h

/-- Rooms that are remembered are cached. -/
theorem alike_remember {f f' : Focus → Focus} {hf : ∀ x, (f x).trace = x.trace}
    {hf' : ∀ x, (f' x).trace = x.trace} (h : ∀ x x' : Focus, T x.lastRoom x'.lastRoom →
      T (f x).lastRoom (f' x').lastRoom) : Alike T E Eq (modifyFocus f hf) (modifyFocus f' hf') :=
  fun _ => relates_update h

/-- Views that are alike from any two rooms related by `T`, and stay there. -/
theorem alike_of_rooms (h : ∀ r r', T r r' → Alike (fun x x' => x = r ∧ x' = r') E A v v') :
    Alike T E A v v' := by
  intro s f f' hf
  obtain ⟨hout, hr, hr'⟩ := h _ _ hf s f f' ⟨rfl, rfl⟩
  refine ⟨hout, ?_⟩
  simp only [hr, hr']
  exact hf

end Constructs

/-! ## Errors -/

/-- A report contains a text that stands within one line if its title or one of its lines
    does. -/
theorem contains_appendCandidates {needle : String} (h : '\n' ∉ needle.toList) (title : String)
    (lines : List String) : stringContains (appendCandidates title lines) needle = true ↔
      stringContains title needle = true ∨
        ∃ line ∈ lines, stringContains ("  " ++ line) needle = true := by
  induction lines generalizing title with
  | nil => simp [appendCandidates]
  | cons line lines ih =>
    have hcut : stringContains (title ++ "\n  " ++ line) needle = true ↔
        stringContains title needle = true ∨ stringContains ("  " ++ line) needle = true := by
      simp only [stringContains_iff]
      rw [← infix_append_cons h]
      simp
    change stringContains (appendCandidates (title ++ "\n  " ++ line) lines) needle = true ↔ _
    rw [ih, hcut, List.exists_mem_cons_iff, or_assoc]

section Errors

variable [Evaluator]

/-- Errors that tell the same: they are equal, or list the same candidates, or in both a
    primitive refuses what one of the candidates is described with. -/
inductive SameError (e : String) : String → Prop
  | refl : SameError e e
  | listed {title : String} {lines lines' : List String}
      (h : e = appendCandidates title lines) (perm : lines.Perm lines') :
      SameError e (appendCandidates title lines')
  | refused {e' : String} (h : PrimError e) (h' : PrimError e') : SameError e e'

instance : Std.Refl SameError := ⟨fun _ => .refl⟩

/-- Either both are taken for a miss, or none. -/
theorem SameError.missed
    (hprim : ∀ e, PrimError e → stringContains e "no match for" = false) {e e' : String}
    (h : SameError e e') : stringContains e "no match for" = stringContains e' "no match for" := by
  cases h with
  | refl => rfl
  | listed h perm =>
    have hline : '\n' ∉ "no match for".toList := by decide
    rw [Bool.eq_iff_iff, h, contains_appendCandidates hline, contains_appendCandidates hline]
    simp only [perm.mem_iff]
  | refused h h' => rw [hprim e h, hprim e' h']

/-- Equal errors are the same up to the message. -/
theorem Alike.same {v : View α} {v' : View α'} (h : Alike T Eq A v v') :
    Alike T SameError A v v' := h.mono (fun _ _ he => by rw [he]; exact .refl) fun _ _ => id

end Errors

/-! ## What does not read the room -/

section Elsewhere

variable [Host]

/-- A local path does not depend on the cached room. -/
theorem alike_localPath (path : String) (value : Option SchemeVal) :
    Alike T Eq Eq (localPath path value) (localPath path value) := by
  cases value with
  | none => exact alike_throw rfl
  | some v => exact alike_pure rfl

/-- Nor does the room. -/
theorem alike_room : Alike T Eq Eq room room := alike_getSlots.bind_eq fun _ => alike_localPath _ _

variable [Steady]

/-- An actor answers both alike. -/
theorem alike_actorCall (actor method : SchemeVal) (args : List SchemeVal) :
    Alike T Eq Eq (actorCall actor method args) (actorCall actor method args) := by
  refine (alike_self _).bind_eq fun x => ?_
  refine (alike_self _).bind_eq fun m => alike_ite ?_ (alike_throw rfl)
  refine alike_getFocus.bind fun f f' _ => ?_
  rw [Steady.reply f.trace f'.trace]
  exact (alike_emit _ _).bind_eq fun _ => alike_self _

/-- Nor does a call to the room. -/
theorem alike_roomCall (method : SchemeVal) (args : List SchemeVal) :
    Alike T Eq Eq (roomCall method args) (roomCall method args) :=
  alike_room.bind_eq fun _ => alike_actorCall _ _ _

omit [Steady] in
/-- Nor does the inventory. -/
theorem alike_myInvIfAny : Alike T Eq Eq myInvIfAny myInvIfAny := by
  refine alike_guard ?_ fun _ => alike_pure rfl
  refine alike_getSlots.bind_eq fun slots => (alike_localPath _ _).bind_eq fun existing => ?_
  exact (alike_self _).bind_eq fun _ => alike_ite (alike_pure rfl) (alike_pure rfl)

/-- Nor does whether it is usable. -/
theorem alike_usableInventory : Alike T Eq Eq usableInventory usableInventory := by
  refine alike_myInvIfAny.bind_eq fun inventory => alike_ite ?_ (alike_pure rfl)
  refine alike_guard ?_ fun _ => alike_pure rfl
  exact (alike_actorCall _ _ _).bind_eq fun _ => alike_ite (alike_pure rfl) (alike_pure rfl)

/-- Nor does what is shown of the inventory. -/
theorem alike_inventoryDisplayCtx (inventory : SchemeVal) :
    Alike T Eq Eq (inventoryDisplayCtx inventory) (inventoryDisplayCtx inventory) := by
  refine (alike_guard (alike_actorCall _ _ _) fun _ => alike_pure rfl).bind_eq fun name => ?_
  exact alike_ite (alike_pure rfl) (alike_pure rfl)

/-- Nor does its context. -/
theorem alike_inventoryCtx (inventory : SchemeVal) :
    Alike T Eq Eq (inventoryCtx inventory) (inventoryCtx inventory) := by
  refine alike_getSlots.bind_eq fun slots => ?_
  have hdisplay : Alike T Eq Eq (do return .map (← inventoryDisplayCtx inventory) : View SchemeVal)
      (do return .map (← inventoryDisplayCtx inventory)) :=
    (alike_inventoryDisplayCtx inventory).bind_eq fun _ => alike_pure rfl
  rcases slots.invEntry with _ | entry
  · exact hdisplay
  · exact alike_ite (alike_pure rfl) hdisplay

/-- Nor does what a container holds. -/
theorem alike_containerContents (container : SchemeVal) :
    Alike T Eq Eq (containerContents container) (containerContents container) :=
  (alike_actorCall _ _ _).bind_eq fun _ => alike_pure rfl

/-- Nor does the pool of what the avatar holds. -/
theorem alike_resolveInventoryPool :
    Alike T Eq Eq resolveInventoryPool resolveInventoryPool := by
  refine alike_usableInventory.bind_eq fun inv => alike_ite ?_ (alike_pure rfl)
  refine (alike_guard (alike_containerContents inv) fun _ => alike_pure rfl).bind_eq
    fun contents => ?_
  exact (alike_inventoryCtx inv).bind_eq fun _ => alike_pure rfl

end Elsewhere

/-! ## Candidates -/

section Candidates

variable [Host] [Steady]

/-- The entries around the avatar. -/
theorem alike_locationLookupPool (hT : ∀ r r', T r r' → Option.Rel SameRoom r r') :
    Alike T Eq Shuffled locationLookupPool locationLookupPool := by
  refine alike_getFocus.bind ?_
  rintro ⟨room, _, _⟩ ⟨room', _, _⟩ hf
  refine alike_resolveInventoryPool.bind_eq fun inventory => alike_pure ?_
  refine Shuffled.append_right ?_ inventory
  cases hT _ _ hf with
  | some h => exact h.roomChildPool
  | none => exact refl_of Shuffled []

/-- Where a candidate is. -/
theorem alike_candidateLocation (hT : ∀ r r', T r r' → Option.Rel SameRoom r r')
    (entry : SchemeVal) : Alike T Eq Eq (candidateLocation entry) (candidateLocation entry) := by
  refine (alike_self _).bind_eq fun parent => alike_ite ?_ (alike_pure rfl)
  refine (alike_locationLookupPool hT).bind fun pool pool' hpool => ?_
  rw [hpool.findEntryByActor]
  refine (alike_self _).bind_eq fun found => ?_
  rcases parentName found with _ | name
  · refine alike_myInvIfAny.bind_eq fun _ => alike_ite (alike_pure rfl) ?_
    refine alike_getFocus.bind ?_
    rintro ⟨room, _, _⟩ ⟨room', _, _⟩ hf
    cases hT _ _ hf with
    | some h =>
      simp only [textAt, h.get? (show "actor" ≠ "children" by decide),
        h.get? (show "name" ≠ "children" by decide)]
      exact alike_pure rfl
    | none => exact alike_pure rfl
  · exact alike_pure rfl

/-- A candidate is described the same in two snapshots that publish the same children. -/
theorem alike_describeCandidate (hT : ∀ r r', T r r' → Option.Rel SameRoom r r')
    (entry : SchemeVal) :
    Alike T Eq Eq (describeCandidate entry) (describeCandidate entry) := by
  refine (alike_self _).bind_eq fun nick => ?_
  refine (alike_candidateLocation hT entry).bind_eq fun location => ?_
  refine (alike_self _).bind_eq fun actor => ?_
  exact (alike_self _).bind_eq fun name => alike_self _

/-! ## Reports -/

/-- How a candidate is described in a room. -/
def lineOf (s : Slots) (room : Option Ctx) (candidate : SchemeVal) : Except String String :=
  ((describeCandidate candidate s).run ⟨room, [], []⟩).1

omit [Host] [Steady] in
/-- A cached room is like itself. -/
theorem sameRoom_self (room : Option Ctx) : Option.Rel SameRoom room room := by
  cases room with
  | none => exact .none
  | some r => exact .some .refl

/-- A candidate is described the same in rooms that are alike. -/
theorem lineOf_eq {r r' : Option Ctx} (h : Option.Rel SameRoom r r') (s : Slots)
    (candidate : SchemeVal) : lineOf s r candidate = lineOf s r' candidate :=
  (alike_describeCandidate (fun _ _ => id) candidate s ⟨r, [], []⟩ ⟨r', [], []⟩ h).1.eq

/-- A description depends on the room that is cached, and leaves it there. -/
theorem describeCandidate_line {s : Slots} {f : Focus} {room : Option Ctx}
    (hr : f.lastRoom = room) (candidate : SchemeVal) :
    (describeCandidate candidate s).wp
      (fun line f' => f'.lastRoom = room ∧ lineOf s room candidate = .ok line)
      (fun e f' => f'.lastRoom = room ∧ lineOf s room candidate = .error e) f := by
  have hself : ∀ r r', r = room ∧ r' = room → Option.Rel SameRoom r r' := by
    rintro r r' ⟨rfl, rfl⟩
    exact sameRoom_self _
  obtain ⟨hout, hend, -⟩ :=
    alike_describeCandidate hself candidate s f ⟨room, [], []⟩ ⟨hr, rfl⟩
  have heq := hout.eq
  revert heq hend
  simp only [wp, lineOf]
  rcases (describeCandidate candidate s).run f with ⟨e | line, f'⟩
  · exact fun hend heq => ⟨hend, heq.symm⟩
  · exact fun hend heq => ⟨hend, heq.symm⟩

omit [Steady] in
/-- A primitive refuses what a candidate cannot be described with. -/
theorem lineOf_error {s : Slots} {room : Option Ctx} {candidate : SchemeVal} {e : String}
    (h : lineOf s room candidate = .error e) : PrimError e := by
  rcases candidate with _ | _ | _ | _ | _ | _ | _ | ctx
  case map =>
    refine (wp_iff_result _ fun r => ∀ e, r = .error e → PrimError e).1 ?_ e h
    refine describeCandidate_wp (fun _ _ _ _ => nofun) fun e he _ => ?_
    rintro _ ⟨⟩
    exact he
  all_goals
    cases h
    exact ⟨"map-ref", by simp, _, rfl⟩

/-- The lines of a report depend on the room that is cached. -/
theorem describeAll_lines {s : Slots} {room : Option Ctx} (candidates : List SchemeVal) {f : Focus}
    (hr : f.lastRoom = room) (title : String) :
    ((candidates.foldlM (fun text candidate => do
        return text ++ "\n  " ++ (← describeCandidate candidate)) title : View String) s).wp
      (fun text f' => f'.lastRoom = room ∧
        ∃ lines, candidates.mapM (lineOf s room) = .ok lines ∧ text = appendCandidates title lines)
      (fun e f' => f'.lastRoom = room ∧ candidates.mapM (lineOf s room) = .error e) f := by
  -- by induction on the candidates: a description leaves the room for the next one
  induction candidates generalizing f title with
  | nil => exact ⟨hr, [], rfl, rfl⟩
  | cons candidate candidates ih =>
    simp only [List.foldlM_cons, List.mapM_cons, view_bind, view_pure, wp_bind, wp_pure]
    refine (describeCandidate_line hr candidate).conseq ?_ ?_
    · rintro line f₁ _ ⟨hr₁, hline⟩
      refine (ih hr₁ _).conseq ?_ ?_
      · rintro text f₂ _ ⟨hr₂, lines, hlines, rfl⟩
        refine ⟨hr₂, line :: lines, ?_, rfl⟩
        rw [hline, hlines]
        rfl
      · rintro e f₂ _ ⟨hr₂, he⟩
        refine ⟨hr₂, ?_⟩
        rw [hline, he]
        rfl
    · rintro e f₁ _ ⟨hr₁, he⟩
      refine ⟨hr₁, ?_⟩
      rw [he]
      rfl

/-- The lines of two reports on the same candidates. -/
theorem alike_describeAll {r r' : Option Ctx} (hrr : Option.Rel SameRoom r r')
    {candidates candidates' : List SchemeVal} (hp : candidates.Perm candidates') (title : String) :
    Alike (fun x x' => x = r ∧ x' = r') SameError SameError
      (candidates.foldlM (fun text candidate => do
        return text ++ "\n  " ++ (← describeCandidate candidate)) title)
      (candidates'.foldlM (fun text candidate => do
        return text ++ "\n  " ++ (← describeCandidate candidate)) title) := by
  intro s
  -- Each line is the same in both rooms; only their order differs.
  have hlines := agree_mapM_perm (P := PrimError) (f := lineOf s r) (g := lineOf s r') hp
    fun candidate _ => by
      rw [lineOf_eq hrr]
      rcases h : lineOf s r' candidate with e | line
      · exact .error ⟨lineOf_error h, lineOf_error h⟩
      · exact .ok rfl
  refine relates_of_wp ?_
  rintro f f' ⟨hr, hr'⟩
  refine (describeAll_lines candidates hr title).conseq ?_ ?_
  · rintro _ f₁ _ ⟨hr₁, lines, hl, rfl⟩
    obtain ⟨lines', hl', hperm⟩ := (hl ▸ hlines).of_ok
    refine (describeAll_lines candidates' hr' title).conseq ?_ ?_
    · rintro _ f₂ _ ⟨hr₂, lines₂, hl₂, rfl⟩
      cases hl'.symm.trans hl₂
      exact ⟨.listed rfl hperm, hr₁, hr₂⟩
    · rintro e f₂ _ ⟨_, he⟩
      cases hl'.symm.trans he
  · rintro e f₁ _ ⟨hr₁, he⟩
    obtain ⟨e', he', hprim⟩ := (he ▸ hlines).of_error
    refine (describeAll_lines candidates' hr' title).conseq ?_ ?_
    · rintro _ f₂ _ ⟨_, lines₂, hl₂, _⟩
      cases he'.symm.trans hl₂
    · rintro e₂ f₂ _ ⟨hr₂, he₂⟩
      cases he'.symm.trans he₂
      exact ⟨.refused hprim.1 hprim.2, hr₁, hr₂⟩

/-- A report of the same candidates. -/
theorem alike_ambiguousError (hT : ∀ r r', T r r' → Option.Rel SameRoom r r') (word : SchemeVal)
    {candidates candidates' : List SchemeVal} (hp : candidates.Perm candidates') :
    Alike T SameError A (ambiguousError word candidates) (ambiguousError word candidates') := by
  refine alike_of_rooms fun r r' hr => ?_
  refine (alike_self _).bind_eq fun title => ?_
  exact (alike_describeAll (hT r r' hr) hp title).bind fun _ _ he => alike_throw he

omit [Steady] in
/-- The error for no match names the word alone. -/
theorem alike_noMatchError (word : SchemeVal) :
    Alike T SameError A (noMatchError word) (noMatchError word) :=
  (alike_self _).bind_eq fun _ => alike_throw .refl

end Candidates

/-! ## Pools -/

section Pools

variable [Host] [Steady]

/-- A pool that has the same entries in two snapshots that publish the same children. -/
def Regular (pool : Ctx → Except String (List SchemeVal)) : Prop :=
  ∀ r r', SameRoom r r' → Agree Eq Shuffled (pool r) (pool r')

omit [Steady] in
/-- The pools of a room do not depend on the order of its children. -/
theorem RoomPool.regular (pool : RoomPool) : Regular pool.entries := fun _ _ h => h.entries pool

omit [Host] [Steady] in
/-- Both cache the same snapshot. -/
theorem alike_rememberRoom (snapshot : SchemeVal) :
    Alike (Option.Rel SameRoom) Eq Eq (rememberRoom! snapshot) (rememberRoom! snapshot) := by
  rcases snapshot with _ | _ | _ | _ | _ | _ | _ | room
  case map =>
    exact (alike_remember fun _ _ _ => .some .refl).bind_eq fun _ => alike_pure rfl
  all_goals exact alike_pure rfl

/-- A pool of the room that is cached. -/
theorem alike_cachedRoomPool {pool : Ctx → Except String (List SchemeVal)} (h : Regular pool) :
    Alike (Option.Rel SameRoom) Eq Shuffled (cachedRoomPool pool) (cachedRoomPool pool) := by
  refine alike_getFocus.bind ?_
  rintro ⟨room, _, _⟩ ⟨room', _, _⟩ (hr | _)
  · exact alike_lift (h _ _ hr)
  · refine (alike_roomCall _ _).bind_eq fun reply => (alike_rememberRoom reply).bind_eq ?_
    rintro (_ | _ | _ | _ | _ | _ | _ | room)
    case map => exact alike_self _
    all_goals exact alike_pure (refl_of Shuffled [])

/-- The pool of a room is the same up to its order. -/
theorem alike_resolveRoomPool :
    Alike (Option.Rel SameRoom) Eq Shuffled resolveRoomPool resolveRoomPool :=
  alike_cachedRoomPool fun r r' h => by
    rw [h.exitPool]
    refine Agree.bind (A := Eq) (agree_self _) ?_
    rintro exits _ rfl
    exact .ok (h.roomChildPool.append_right exits)

end Pools

/-! ## Resolution -/

section Resolution

variable [Host]

omit [Host] in
/-- Pure code for each element is pure code for the list. -/
theorem view_mapM_lift (f : α → Except String β) (l : List α) :
    (l.mapM fun a => liftM (f a) : View (List β)) = liftM (l.mapM f) := by
  funext s
  induction l with
  | nil => rfl
  | cons a l ih =>
    simp only [List.mapM_cons, view_bind, view_lift, ih]
    rcases f a with e | b
    · rfl
    · rcases l.mapM f with e | bs <;> rfl

omit [Host] in
/-- The lookup of an actor raises where a primitive refuses an entry. -/
theorem findEntryByActor_error [Evaluator] {did : SchemeVal} {pool : List SchemeVal} {e : String}
    (h : findEntryByActor did pool = .error e) : PrimError e := by
  induction pool with
  | nil => cases h
  | cons entry pool ih =>
    cases entry
    case map ctx =>
      have hentry : entryActor (.map ctx) = .ok (ctxActor ctx) := rfl
      simp only [findEntryByActor, hentry, bind, Except.bind] at h
      split at h
      · cases h
      · exact ih h
    all_goals
      cases h
      exact ⟨"map-ref", by simp, [_], rfl⟩

omit [Host] in
/-- Looking a DID up fails only where a primitive does. -/
theorem candidateForDid_error [Evaluator] {pool : List SchemeVal} {did : SchemeVal} {e : String}
    (h : candidateForDid pool did = .error e) : PrimError e := by
  rw [candidateForDid] at h
  rcases hr : findEntryByActor did pool with e' | r
  · rw [hr] at h
    cases h
    exact findEntryByActor_error hr
  · rw [hr] at h
    cases r <;> cases h

variable [Steady] {pool pool' : List SchemeVal}

/-- A word refers to the same entry, or is missed or ambiguous in both. -/
theorem alike_resolveOneEntry (hT : ∀ r r', T r r' → Option.Rel SameRoom r r') (word : SchemeVal)
    (h : Shuffled pool pool') :
    Alike T SameError Eq (resolveOneEntry word pool) (resolveOneEntry word pool') := by
  have hself : ∀ did, Alike T SameError Eq (liftM (candidateForDid pool did) : View SchemeVal)
      (liftM (candidateForDid pool' did) : View SchemeVal) := fun did => by
    rw [h.candidateForDid]
    exact alike_self _
  refine (alike_self _).bind_eq fun did => alike_ite (hself word) ?_
  refine (alike_lift (h.resolveRef word)).same.bind fun hits hits' hp => ?_
  -- the actors that match are the same, so are their number and their candidates
  rcases hits with _ | ⟨did₁, _ | ⟨did₂, dids⟩⟩
  · obtain rfl := List.nil_perm.1 hp
    exact alike_noMatchError word
  · obtain rfl := List.singleton_perm.1 hp
    exact hself did₁
  · have hcandidates := agree_mapM_perm (P := PrimError) (f := candidateForDid pool)
      (g := candidateForDid pool') hp fun did _ => by
        rw [h.candidateForDid]
        rcases he : candidateForDid pool' did with e | entry
        · exact .error ⟨candidateForDid_error he, candidateForDid_error he⟩
        · exact .ok rfl
    rcases hits' with _ | ⟨did₁', _ | ⟨did₂', dids'⟩⟩
    · cases hp.length_eq
    · cases hp.length_eq
    refine Alike.bind (A := List.Perm) ?_ fun cs cs' hcs => alike_ambiguousError hT word hcs
    rw [view_mapM_lift, view_mapM_lift]
    exact alike_lift (hcandidates.mono (fun _ _ he => .refused he.1 he.2) fun _ _ => id)

/-- On a miss, both look again. -/
theorem alike_resolveOneEntryOrRefresh
    (hprim : ∀ e, PrimError e → stringContains e "no match for" = false) (word : SchemeVal)
    (h : Shuffled pool pool') {rebuild : View (List SchemeVal)}
    (hrebuild : Alike (Option.Rel SameRoom) Eq Shuffled rebuild rebuild) :
    Alike (Option.Rel SameRoom) SameError Eq (resolveOneEntryOrRefresh word pool rebuild)
      (resolveOneEntryOrRefresh word pool' rebuild) := by
  refine (alike_resolveOneEntry (fun _ _ => id) word h).tryCatch fun e e' he => ?_
  rw [he.missed hprim]
  refine alike_ite ?_ (alike_throw he)
  refine (alike_roomCall _ _).same.bind_eq fun reply => ?_
  refine (alike_rememberRoom reply).same.bind_eq fun _ => hrebuild.same.bind fun _ _ hpool => ?_
  exact alike_resolveOneEntry (fun _ _ => id) word hpool

/-- A word is resolved alike, with the room looked at again where needed. -/
theorem alike_resolveOneEntryFresh
    (hprim : ∀ e, PrimError e → stringContains e "no match for" = false) (word : SchemeVal)
    {pool : View (List SchemeVal)}
    (h : Alike (Option.Rel SameRoom) Eq Shuffled pool pool) :
    Alike (Option.Rel SameRoom) SameError Eq (resolveOneEntryFresh word pool)
      (resolveOneEntryFresh word pool) :=
  h.same.bind fun _ _ hpool => alike_resolveOneEntryOrRefresh hprim word hpool h

/-- A pool that is looked up in twice. -/
theorem alike_resolveAgainstOrFalse {pool : Ctx → Except String (List SchemeVal)}
    (h : Regular pool) (word : SchemeVal) (keys : List String) :
    Alike (Option.Rel SameRoom) Eq Shuffled (resolveAgainstOrFalse pool word keys)
      (resolveAgainstOrFalse pool word keys) := by
  refine alike_getFocus.bind ?_
  rintro ⟨room, _, _⟩ ⟨room', _, _⟩ hroom
  rcases hroom with hr | _
  on_goal 1 => refine (alike_lift (h _ _ hr)).bind ?_
  on_goal 2 => refine (alike_pure (refl_of Shuffled [])).bind ?_
  all_goals
    intro pool1 pool1' hpool1
    refine (alike_lift (hpool1.candidatesByKeys word keys)).bind fun hit1 hit1' hhit => ?_
    rw [hhit.perm.isEmpty_eq]
    refine alike_ite (alike_pure hhit) ?_
    refine (alike_roomCall _ _).bind_eq fun reply => (alike_rememberRoom reply).bind_eq ?_
    -- the fresh snapshot is the same in both
    rintro (_ | _ | _ | _ | _ | _ | _ | room)
    case map =>
      exact (alike_self _).bind_eq fun pool2 => alike_self _
    all_goals exact (alike_pure rfl).bind_eq fun pool2 => alike_self _

/-- The entry that a word hits, if there is one only. -/
theorem alike_resolveEntryAgainst {pool : Ctx → Except String (List SchemeVal)}
    (h : Regular pool) (word : SchemeVal) (keys : List String) :
    Alike (Option.Rel SameRoom) SameError Eq (resolveEntryAgainst pool word keys)
      (resolveEntryAgainst pool word keys) := by
  refine (alike_resolveAgainstOrFalse h word keys).same.bind fun hits hits' hh => ?_
  have hp := hh.perm
  rcases hits with _ | ⟨entry, _ | ⟨entry₂, entries⟩⟩
  · obtain rfl := List.nil_perm.1 hp
    exact alike_noMatchError word
  · obtain rfl := List.singleton_perm.1 hp
    exact alike_pure rfl
  · rcases hits' with _ | ⟨entry', _ | ⟨entry₂', entries'⟩⟩
    · cases hp.length_eq
    · cases hp.length_eq
    · exact alike_ambiguousError (fun _ _ => id) word hp

end Resolution

end Avatar

end Zscheme
