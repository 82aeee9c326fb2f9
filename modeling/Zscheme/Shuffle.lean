import Zscheme.Lib.Relate
import Zscheme.Reference

/-!
# Pools in another order

Two pools are `Shuffled` if they differ at most in the order of a stretch of ctx maps of
different actors, each named by a text. What is looked up in one of them is found in the
other, and a word refers to the same actors in both, in an order of their own.
-/

namespace Zscheme

namespace Runtime

open Prim Stdlib

/-- Two pools that differ at most in the order of a stretch of ctx maps of different
    actors, each a text. -/
inductive Shuffled : List SchemeVal → List SchemeVal → Prop
  | mk (before after : List SchemeVal) {l l' : List Ctx} (perm : l.Perm l')
      (nodup : (l.map ctxActor).Nodup) (texts : ∀ ctx ∈ l, (ctxActor ctx).string? = true) :
      Shuffled (before ++ l.map .map ++ after) (before ++ l'.map .map ++ after)

variable {pool pool' : List SchemeVal}

instance : Std.Refl Shuffled := ⟨fun pool => by
  have h := Shuffled.mk pool [] (.refl []) .nil (by simp)
  rwa [List.map_nil, List.append_nil, List.append_nil] at h⟩

namespace Shuffled

theorem perm (h : Shuffled pool pool') : pool.Perm pool' := by
  obtain ⟨before, after, h, _, _⟩ := h
  exact ((h.map _).append_left before).append_right after

theorem append_left (h : Shuffled pool pool') (more : List SchemeVal) :
    Shuffled (more ++ pool) (more ++ pool') := by
  obtain ⟨before, after, h, hn, ht⟩ := h
  have := Shuffled.mk (more ++ before) after h hn ht
  simpa only [List.append_assoc] using this

theorem append_right (h : Shuffled pool pool') (more : List SchemeVal) :
    Shuffled (pool ++ more) (pool' ++ more) := by
  obtain ⟨before, after, h, hn, ht⟩ := h
  have := Shuffled.mk before (after ++ more) h hn ht
  simpa only [List.append_assoc] using this

end Shuffled

/-! ## Filters -/

section Filter

variable {α ε : Type}

theorem filterAuxM_acc (f : α → Except ε Bool) (l acc : List α) :
    l.filterAuxM f acc = do return (← l.filterAuxM f []) ++ acc := by
  induction l generalizing acc with
  | nil => rfl
  | cons a l ih =>
    rw [List.filterAuxM, List.filterAuxM]
    rcases f a with e | _ | _
    · rfl
    · exact ih acc
    · refine (ih (a :: acc)).trans ?_
      change _ = (List.filterAuxM f l [a] >>= _)
      rw [ih [a]]
      rcases List.filterAuxM f l [] with _ | kept
      · rfl
      · exact congrArg Except.ok (by simp)

theorem filterM_append (f : α → Except ε Bool) (l l' : List α) :
    (l ++ l').filterM f = do return (← l.filterM f) ++ (← l'.filterM f) := by
  -- the loop keeps what passes in reverse, so that the tests go on from an accumulator
  have haux : ∀ acc, (l ++ l').filterAuxM f acc = (l.filterAuxM f acc >>= l'.filterAuxM f) := by
    induction l with
    | nil => exact fun _ => rfl
    | cons a l ih =>
      intro acc
      rw [List.cons_append, List.filterAuxM, List.filterAuxM]
      rcases f a with e | _ | _
      · rfl
      · exact ih acc
      · exact ih (a :: acc)
  simp only [List.filterM, haux]
  rcases List.filterAuxM f l [] with _ | kept
  · rfl
  change (List.filterAuxM f l' kept >>= _) = (List.filterAuxM f l' [] >>= _) >>= _
  rw [filterAuxM_acc]
  rcases List.filterAuxM f l' [] with _ | kept'
  · rfl
  · exact congrArg Except.ok (by simp)

end Filter

/-- A test that decides every ctx map, or raises the same error on each. -/
def Uniform (f : SchemeVal → Except String Bool) : Prop :=
  (∃ p : Ctx → Bool, ∀ ctx, f (.map ctx) = .ok (p ctx)) ∨ ∃ e, ∀ ctx, f (.map ctx) = .error e

/-- The same entries pass a test. -/
theorem Shuffled.filterM (h : Shuffled pool pool') {f : SchemeVal → Except String Bool}
    (hf : Uniform f) : Agree Eq Shuffled (pool.filterM f) (pool'.filterM f) := by
  obtain ⟨before, after, h, hn, ht⟩ := h
  rename_i l l'
  simp only [filterM_append]
  refine Agree.bind (A := Shuffled) (Agree.bind (A := Eq) (agree_self _) ?_) ?_
  · rintro kept _ rfl
    -- a test that raises does so at the first ctx map, whichever this is
    rcases hf with ⟨p, hp⟩ | ⟨e, he⟩
    · rw [filterM_map_ok hp, filterM_map_ok hp]
      refine .ok ?_
      have := Shuffled.mk kept [] (h.filter p) ((List.filter_sublist.map _).nodup hn)
        fun ctx hctx => ht ctx (List.mem_of_mem_filter hctx)
      rwa [List.append_nil, List.append_nil] at this
    · rcases l with _ | ⟨ctx, l⟩
      · obtain rfl := List.nil_perm.1 h
        exact agree_self _
      · obtain ⟨ctx', l₂, rfl⟩ : ∃ ctx' l₂, l' = ctx' :: l₂ :=
          List.exists_cons_of_ne_nil fun hl => by
            subst hl
            cases h.eq_nil
        simp only [List.filterM, List.map_cons, List.filterAuxM, he]
        exact .error rfl
  · intro a b hab
    refine Agree.bind (A := Eq) (agree_self _) ?_
    rintro kept _ rfl
    exact .ok (hab.append_right kept)

/-- Two lists of values that differ at most in the order of their texts. -/
structure Moved (l l' : List SchemeVal) : Prop where
  /-- The values are the same. -/
  perm : l.Perm l'
  /-- Those that are no texts come in the same order. -/
  rest : l.filter (!·.string?) = l'.filter (!·.string?)

namespace Moved

variable {l l' k k' : List SchemeVal}

theorem refl (l : List SchemeVal) : Moved l l := ⟨.refl l, rfl⟩

theorem append (h : Moved l l') (hk : Moved k k') : Moved (l ++ k) (l' ++ k') :=
  ⟨h.perm.append hk.perm, by rw [List.filter_append, List.filter_append, h.rest, hk.rest]⟩

/-- Texts in any order. -/
theorem of_texts (h : l.Perm l') (ht : ∀ v ∈ l, v.string? = true) : Moved l l' := by
  refine ⟨h, ?_⟩
  rw [List.filter_eq_nil_iff.2 (by simpa using ht),
    List.filter_eq_nil_iff.2 (by simpa using fun v hv => ht v (h.mem_iff.2 hv))]

end Moved

/-! ## Actors -/

variable [Evaluator]

/-- The actors of the entries. -/
theorem Shuffled.entryActors (h : Shuffled pool pool') :
    Agree Eq Moved (pool.mapM entryActor) (pool'.mapM entryActor) := by
  obtain ⟨before, after, h, _, ht⟩ := h
  rename_i l l'
  simp only [List.mapM_append, mapM_entryActor]
  refine Agree.bind (A := Moved) (Agree.bind (A := Eq) (agree_self _) ?_) ?_
  · rintro a _ rfl
    exact .ok ((Moved.refl a).append (.of_texts (h.map ctxActor) (by simpa using ht)))
  · intro a b hab
    refine Agree.bind (A := Eq) (agree_self _) ?_
    rintro c _ rfl
    exact .ok (hab.append (.refl c))

theorem findEntryByActor_append (did : SchemeVal) (l l' : List SchemeVal) :
    findEntryByActor did (l ++ l') = (do
      match ← findEntryByActor did l with
      | some entry => return some entry
      | none => findEntryByActor did l') := by
  induction l with
  | nil => rfl
  | cons v l ih =>
    rw [List.cons_append, findEntryByActor, findEntryByActor]
    rcases entryActor v with e | actor
    · rfl
    simp only [bind, Except.bind]
    split
    · rfl
    · exact ih

/-- Ctx maps of different actors: one that is looked up is the one of its actor. -/
theorem find?_ctxActor {l : List Ctx} (hn : (l.map ctxActor).Nodup)
    (ht : ∀ ctx ∈ l, (ctxActor ctx).string? = true) (did : SchemeVal) (ctx : Ctx) :
    (l.find? fun ctx => Evaluator.equal? (ctxActor ctx) did) = some ctx ↔
      ctx ∈ l ∧ ctxActor ctx = did := by
  have hequal {ctx : Ctx} (hctx : ctx ∈ l) :
      Evaluator.equal? (ctxActor ctx) did = true ↔ ctxActor ctx = did := by
    obtain ⟨s, hs⟩ := SchemeVal.string?_iff.1 (ht ctx hctx)
    rw [hs, str_equal?_iff, eq_comm]
  constructor
  · intro h
    have hmem := List.mem_of_find?_eq_some h
    exact ⟨hmem, (hequal hmem).1 (by simpa using List.find?_some h)⟩
  · rintro ⟨hmem, rfl⟩
    rcases h : l.find? fun ctx' => Evaluator.equal? (ctxActor ctx') (ctxActor ctx) with _ | ctx'
    · exact absurd ((hequal hmem).2 rfl) (List.find?_eq_none.1 h ctx hmem)
    · have hmem' := List.mem_of_find?_eq_some h
      have heq := (hequal hmem').1 (by simpa using List.find?_some h)
      rw [List.inj_on_of_nodup_map hn hmem' hmem heq]

/-- The entry of an actor is the same. -/
theorem Shuffled.findEntryByActor (h : Shuffled pool pool') (did : SchemeVal) :
    findEntryByActor did pool = findEntryByActor did pool' := by
  obtain ⟨before, after, h, hn, ht⟩ := h
  rename_i l l'
  have hfind : (l.find? fun ctx => Evaluator.equal? (ctxActor ctx) did) =
      l'.find? fun ctx => Evaluator.equal? (ctxActor ctx) did := by
    have hn' : (l'.map ctxActor).Nodup := (h.map ctxActor).nodup_iff.1 hn
    have ht' : ∀ ctx ∈ l', (ctxActor ctx).string? = true := fun ctx hc => ht ctx (h.mem_iff.2 hc)
    ext ctx
    rw [find?_ctxActor hn ht, find?_ctxActor hn' ht', h.mem_iff]
  simp only [findEntryByActor_append, findEntryByActor_map, hfind]

theorem Shuffled.candidateForDid (h : Shuffled pool pool') (did : SchemeVal) :
    candidateForDid pool did = candidateForDid pool' did := by
  rw [Runtime.candidateForDid, Runtime.candidateForDid, h.findEntryByActor]

/-! ## References -/

/-- Whether a ctx map matches can be decided, if the word is a text. -/
theorem uniform_nameMatches? (word : SchemeVal) (key : String) :
    Uniform (nameMatches? word · key) := by
  rcases word with word | _ | _ | _ | _ | _ | _ | _
  case str => exact .inl ⟨_, nameMatches?_eq word key⟩
  all_goals exact .inr ⟨_, fun _ => rfl⟩

/-- What a word hits. -/
theorem Shuffled.candidatesByKeys (h : Shuffled pool pool') (word : SchemeVal)
    (keys : List String) :
    Agree Eq Shuffled (candidatesByKeys word pool keys) (candidatesByKeys word pool' keys) := by
  induction keys with
  | nil => exact agree_self _
  | cons key keys ih =>
    refine (h.filterM (uniform_nameMatches? word key)).bind fun hits hits' hhits => ?_
    have hnil : hits.isEmpty = hits'.isEmpty := hhits.perm.isEmpty_eq
    rw [hnil]
    split
    · exact ih
    · exact .ok hhits

/-- The actors that a word hits. -/
theorem Shuffled.resolveAttr (h : Shuffled pool pool') (word : SchemeVal) (attr : String) :
    Agree Eq Moved (resolveAttr word pool attr) (resolveAttr word pool' attr) :=
  (h.candidatesByKeys word [attr]).bind fun _ _ hhits => hhits.entryActors

omit [Evaluator] in
theorem flattenList_eq (l : List SchemeVal) : flattenList l = l.flatMap flattenVal := by
  induction l with
  | nil => rfl
  | cons v l ih => rw [flattenList, ih, List.flatMap_cons]

section Moved

variable {l l' : List SchemeVal}

omit [Evaluator] in
/-- What is no text comes from what is no text. -/
theorem filter_flatMap (l : List SchemeVal) :
    (l.flatMap flattenVal).filter (!·.string?) =
      ((l.filter (!·.string?)).flatMap flattenVal).filter (!·.string?) := by
  induction l with
  | nil => rfl
  | cons v l ih =>
    rw [List.flatMap_cons, List.filter_append, ih, List.filter_cons]
    cases v <;> simp [SchemeVal.string?, flattenVal]

omit [Evaluator] in
theorem Moved.flatMap (h : Moved l l') : Moved (l.flatMap flattenVal) (l'.flatMap flattenVal) :=
  ⟨h.perm.flatMap_right _, by rw [filter_flatMap, filter_flatMap l', h.rest]⟩

/-- What is no text is `equal?` to no text. -/
theorem member?_filter {v : SchemeVal} (hv : v.string? = false) (l : List SchemeVal) :
    member? v l = member? v (l.filter (!·.string?)) := by
  rw [Bool.eq_iff_iff, member?, member?, List.any_eq_true, List.any_eq_true]
  simp only [List.mem_filter]
  constructor
  · rintro ⟨u, hu, h⟩
    refine ⟨u, ⟨hu, ?_⟩, h⟩
    cases u
    case str s =>
      rw [equal?_str_iff.1 h] at hv
      cases hv
    all_goals rfl
  · rintro ⟨u, hu, h⟩
    exact ⟨u, hu.1, h⟩

/-- What `unique-list` keeps of the other values. -/
theorem filter_uniqueList (l : List SchemeVal) :
    (uniqueList l).filter (!·.string?) = uniqueList (l.filter (!·.string?)) := by
  induction l with
  | nil => rfl
  | cons v l ih =>
    rw [uniqueList, List.filter_cons]
    cases hv : v.string? with
    | true => split <;> simp [hv, ih]
    | false =>
      rw [member?_filter hv]
      simp only [Bool.not_false, if_true, uniqueList]
      split <;> simp [hv, ih]

/-- What `unique-list` keeps of the texts. -/
theorem filter_uniqueList_texts (l : List SchemeVal) :
    (uniqueList l).filter (·.string?) = (l.filter (·.string?)).dedup := by
  induction l with
  | nil => rfl
  | cons v l ih =>
    rw [uniqueList, List.filter_cons]
    cases hv : v.string? with
    | false => split <;> simp [hv, ih]
    | true =>
      obtain ⟨s, rfl⟩ := SchemeVal.string?_iff.1 hv
      have hmem : member? (.str s) l = true ↔ .str s ∈ l.filter (·.string?) := by
        rw [member?_str, List.mem_filter, and_iff_left hv]
      simp only [if_true]
      split
      · next h => rw [ih, List.dedup_cons_of_mem (hmem.1 h)]
      · next h =>
        rw [List.filter_cons_of_pos hv, ih, List.dedup_cons_of_notMem fun hm => h (hmem.2 hm)]

theorem Moved.uniqueList (h : Moved l l') : (uniqueList l).Perm (uniqueList l') := by
  have hsplit (l : List SchemeVal) : (Stdlib.uniqueList l).Perm
      ((l.filter (·.string?)).dedup ++ Stdlib.uniqueList (l.filter (!·.string?))) := by
    rw [← filter_uniqueList_texts, ← filter_uniqueList]
    exact (List.filter_append_perm _ _).symm
  refine (hsplit l).trans (.trans ?_ (hsplit l').symm)
  rw [h.rest]
  exact ((h.perm.filter _).dedup).append_right _

end Moved

/-- The actors that a word refers to. -/
theorem Shuffled.resolveRef (h : Shuffled pool pool') (word : SchemeVal) :
    Agree Eq List.Perm (resolveRef word pool) (resolveRef word pool') := by
  refine (h.resolveAttr word "name").bind fun names names' hnames => ?_
  refine (h.resolveAttr word "nick").bind fun nicks nicks' hnicks => ?_
  refine (h.resolveAttr word "description").bind fun texts texts' htexts => .ok ?_
  refine Moved.uniqueList ?_
  simp only [flattenList, flattenVal, flattenList_eq, List.append_nil]
  exact hnames.flatMap.append (hnicks.flatMap.append htexts.flatMap)

end Runtime

end Zscheme
