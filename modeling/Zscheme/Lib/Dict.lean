import Mathlib.Data.List.Basic

/-!
# Dictionaries

A dictionary is a list of key-value pairs kept in key order, as a B-tree map
enumerates them. The operations are pure: they return the new dictionary. Their
lookup laws do not need the order: they hold of every list of pairs.
-/

namespace Zscheme

/-- Key-value pairs, in key order. -/
abbrev Dict (κ υ : Type*) := List (κ × υ)

namespace Dict

variable {κ υ : Type*} [DecidableEq κ]

/-- The value at `k`, if there is one. -/
def get? (m : Dict κ υ) (k : κ) : Option υ :=
  match m with
  | [] => none
  | (k', v) :: m => if k = k' then some v else get? m k

/-- The dictionary with `k` set to `v`. -/
def insert [LT κ] [DecidableLT κ] (m : Dict κ υ) (k : κ) (v : υ) : Dict κ υ :=
  match m with
  | [] => [(k, v)]
  | (k', v') :: m =>
    if k = k' then (k, v) :: m
    else if k < k' then (k, v) :: (k', v') :: m
    else (k', v') :: insert m k v

/-- The dictionary without `k`. -/
def delete (m : Dict κ υ) (k : κ) : Dict κ υ := m.filter fun p => decide (p.1 ≠ k)

@[simp] theorem get?_nil (k : κ) : get? ([] : Dict κ υ) k = none := rfl

theorem get?_cons (p : κ × υ) (m : Dict κ υ) (k : κ) :
    get? (p :: m) k = if k = p.1 then some p.2 else get? m k := rfl

/-- Looking up after an insertion. -/
theorem get?_insert [LT κ] [DecidableLT κ] (m : Dict κ υ) (k j : κ) (v : υ) :
    (m.insert k v).get? j = if j = k then some v else m.get? j := by
  induction m with
  | nil => rfl
  | cons p m ih =>
    obtain ⟨k', v'⟩ := p
    by_cases hk : k = k'
    · subst hk
      by_cases hj : j = k <;> simp [insert, get?_cons, hj]
    · by_cases hlt : k < k'
      · simp [insert, get?_cons, hk, hlt]
      · have hins : insert ((k', v') :: m) k v = (k', v') :: insert m k v := by
          simp [insert, hk, hlt]
        rw [hins, get?_cons, get?_cons, ih]
        by_cases hj : j = k
        · subst hj
          simp [hk]
        · simp [hj]

@[simp] theorem get?_insert_self [LT κ] [DecidableLT κ] (m : Dict κ υ) (k : κ) (v : υ) :
    (m.insert k v).get? k = some v := by rw [get?_insert, if_pos rfl]

/-- Of two insertions at a key the last one counts. -/
theorem insert_insert [LT κ] [DecidableLT κ] (m : Dict κ υ) (k : κ) (v v' : υ) :
    (m.insert k v).insert k v' = m.insert k v' := by
  induction m with
  | nil => simp [insert]
  | cons p m ih =>
    obtain ⟨k', u⟩ := p
    by_cases hk : k = k'
    · simp [insert, hk]
    · by_cases hlt : k < k' <;> simp [insert, hk, hlt, ih]

/-- Looking up after a deletion. -/
theorem get?_delete (m : Dict κ υ) (k j : κ) :
    (m.delete k).get? j = if j = k then none else m.get? j := by
  induction m with
  | nil => simp [delete]
  | cons p m ih =>
    obtain ⟨k', v'⟩ := p
    have hdel : delete ((k', v') :: m) k =
        if k' = k then delete m k else (k', v') :: delete m k := by
      by_cases hk : k' = k <;> simp [delete, hk]
    rw [hdel, get?_cons]
    by_cases hk : k' = k
    · subst hk
      rw [if_pos rfl, ih]
      by_cases hj : j = k' <;> simp [hj]
    · rw [if_neg hk, get?_cons, ih]
      by_cases hj : j = k
      · subst hj
        simp [Ne.symm hk]
      · simp [hj]

@[simp] theorem get?_delete_self (m : Dict κ υ) (k : κ) : (m.delete k).get? k = none := by
  rw [get?_delete, if_pos rfl]

/-! ## Order -/

section Order

variable [LT κ] [DecidableLT κ]

/-- The keys are in order, each of them once. -/
def Sorted (m : Dict κ υ) : Prop := m.Pairwise fun p q => p.1 < q.1

/-- The dictionary of some pairs, inserted one after the other. -/
def ofPairs (ps : List (κ × υ)) : Dict κ υ := ps.foldl (fun m p => m.insert p.1 p.2) []

variable [Std.Asymm fun a b : κ => a < b]

/-- A key above all others goes to the end. -/
theorem insert_of_lt {m : Dict κ υ} {k : κ} (v : υ) (h : ∀ p ∈ m, p.1 < k) :
    m.insert k v = m ++ [(k, v)] := by
  induction m with
  | nil => rfl
  | cons p m ih =>
    have hp : p.1 < k := h p List.mem_cons_self
    have hlt : ¬ k < p.1 := Std.Asymm.asymm _ _ hp
    have hne : k ≠ p.1 := by
      intro hk
      rw [← hk] at hp hlt
      exact hlt hp
    rw [insert, if_neg hne, if_neg hlt, ih fun q hq => h q (List.mem_cons_of_mem _ hq)]
    rfl

omit [Std.Asymm fun a b : κ => a < b] in
/-- What is in a dictionary after an insertion was inserted, or was there before. -/
theorem mem_insert {m : Dict κ υ} {k : κ} {v : υ} {p : κ × υ} (h : p ∈ m.insert k v) :
    p = (k, v) ∨ p ∈ m := by
  induction m with
  | nil => exact .inl (List.mem_singleton.1 h)
  | cons q m ih =>
    rw [insert] at h
    split at h
    · exact (List.mem_cons.1 h).imp id (List.mem_cons_of_mem q)
    · split at h
      · exact List.mem_cons.1 h
      · rcases List.mem_cons.1 h with rfl | h
        · exact .inr List.mem_cons_self
        · exact (ih h).imp id (List.mem_cons_of_mem q)

omit [Std.Asymm fun a b : κ => a < b] in
/-- A key that is not there comes with its value. -/
theorem insert_perm {m : Dict κ υ} {k : κ} (v : υ) (h : k ∉ m.map Prod.fst) :
    (m.insert k v).Perm ((k, v) :: m) := by
  induction m with
  | nil => rfl
  | cons p m ih =>
    rw [List.map_cons, List.mem_cons, not_or] at h
    rw [insert, if_neg h.1]
    split
    · rfl
    · exact ((ih h.2).cons p).trans (.swap (k, v) p m)

omit [Std.Asymm fun a b : κ => a < b] in
/-- The pairs of different keys are those that were inserted. -/
theorem ofPairs_perm {ps : List (κ × υ)} (h : (ps.map Prod.fst).Nodup) : (ofPairs ps).Perm ps := by
  have hfold : ∀ done : Dict κ υ, ((ps ++ done).map Prod.fst).Nodup →
      (ps.foldl (fun m p => m.insert p.1 p.2) done).Perm (ps ++ done) := by
    clear h
    induction ps with
    | nil => exact fun _ _ => .refl _
    | cons p ps ih =>
      intro done hn
      obtain ⟨hp, hrest⟩ := List.nodup_cons.1 hn
      have hins : (done.insert p.1 p.2).Perm (p :: done) :=
        insert_perm p.2 fun hmem => hp (by simp [hmem])
      have hmid : (ps ++ done.insert p.1 p.2).Perm (p :: (ps ++ done)) :=
        (hins.append_left ps).trans List.perm_middle
      exact (ih _ ((hmid.map Prod.fst).nodup_iff.2 hn)).trans hmid
  exact (hfold [] (by simpa using h)).trans (.of_eq ps.append_nil)

omit [DecidableLT κ] [Std.Asymm fun a b : κ => a < b] in
/-- A deletion keeps the order. -/
theorem Sorted.delete {m : Dict κ υ} (h : m.Sorted) (k : κ) : (m.delete k).Sorted :=
  List.Pairwise.filter _ h

omit [Std.Asymm fun a b : κ => a < b] in
/-- An insertion keeps the order. -/
theorem Sorted.insert [IsTrans κ fun a b : κ => a < b] [Std.Trichotomous fun a b : κ => a < b]
    {m : Dict κ υ} (h : m.Sorted) (k : κ) (v : υ) : (m.insert k v).Sorted := by
  induction m with
  | nil => exact List.pairwise_singleton _ _
  | cons p m ih =>
    obtain ⟨hp, hm⟩ := List.pairwise_cons.1 h
    rw [Dict.insert]
    split
    · next hk => exact List.pairwise_cons.2 ⟨fun q hq => hk ▸ hp q hq, hm⟩
    next hk =>
    split
    · next hlt =>
      refine List.pairwise_cons.2 ⟨fun q hq => ?_, h⟩
      rcases List.mem_cons.1 hq with rfl | hq
      · exact hlt
      · exact trans_of (fun a b : κ => a < b) hlt (hp q hq)
    · next hlt =>
      have hgt : p.1 < k := by
        by_contra hn
        exact hk (Std.Trichotomous.trichotomous k p.1 hlt hn)
      refine List.pairwise_cons.2 ⟨fun q hq => ?_, ih hm⟩
      rcases mem_insert hq with rfl | hq
      · exact hgt
      · exact hp q hq

omit [DecidableLT κ] in
/-- A key below all others is not there. -/
theorem get?_of_lt {m : Dict κ υ} {k : κ} (h : ∀ p ∈ m, k < p.1) : m.get? k = none := by
  induction m with
  | nil => rfl
  | cons p m ih =>
    have hne : k ≠ p.1 := by
      rintro rfl
      exact Std.Irrefl.irrefl (r := fun a b : κ => a < b) _ (h p List.mem_cons_self)
    rw [get?_cons, if_neg hne, ih fun q hq => h q (List.mem_cons_of_mem p hq)]

omit [DecidableLT κ] in
/-- A key that is there is not below the first one. -/
theorem Sorted.not_lt_head [IsTrans κ fun a b : κ => a < b] {p : κ × υ} {m : Dict κ υ} {k : κ}
    {v : υ} (h : Sorted (p :: m)) (hk : get? (p :: m) k = some v) : ¬ k < p.1 := by
  intro hlt
  have hnone : get? (p :: m) k = none := get?_of_lt fun q hq => by
    rcases List.mem_cons.1 hq with rfl | hq
    · exact hlt
    · exact trans_of (fun a b : κ => a < b) hlt ((List.pairwise_cons.1 h).1 q hq)
  rw [hk] at hnone
  cases hnone

omit [DecidableLT κ] in
/-- A sorted dictionary is determined by its lookups. -/
theorem Sorted.ext [IsTrans κ fun a b : κ => a < b] [Std.Trichotomous fun a b : κ => a < b]
    {m m' : Dict κ υ} (h : m.Sorted) (h' : m'.Sorted) (heq : ∀ k, m.get? k = m'.get? k) :
    m = m' := by
  have hhead : ∀ (p : κ × υ) (m : Dict κ υ), get? (p :: m) p.1 = some p.2 := fun p m => by
    rw [get?_cons, if_pos rfl]
  induction m generalizing m' with
  | nil =>
    rcases m' with _ | ⟨p, m'⟩
    · rfl
    · cases (heq p.1).trans (hhead p m')
  | cons p m ih =>
    rcases m' with _ | ⟨p', m'⟩
    · cases (hhead p m).symm.trans (heq p.1)
    -- the first keys are the same, as each of them is on the other side too
    have hlt : ¬ p.1 < p'.1 := h'.not_lt_head ((heq p.1).symm.trans (hhead p m))
    have hgt : ¬ p'.1 < p.1 := h.not_lt_head ((heq p'.1).trans (hhead p' m'))
    have hkey : p.1 = p'.1 :=
      Std.Trichotomous.trichotomous (r := fun a b : κ => a < b) _ _ hlt hgt
    have hval := heq p.1
    rw [hhead, get?_cons, if_pos hkey] at hval
    obtain rfl : p = p' := Prod.ext hkey (Option.some.inj hval)
    obtain ⟨hp, hm⟩ := List.pairwise_cons.1 h
    obtain ⟨hp', hm'⟩ := List.pairwise_cons.1 h'
    congr 1
    refine ih hm hm' fun k => ?_
    by_cases hk : k = p.1
    · rw [hk, get?_of_lt hp, get?_of_lt hp']
    · have hrest := heq k
      rwa [get?_cons, get?_cons, if_neg hk, if_neg hk] at hrest

/-- Inserting the pairs of a sorted dictionary in order builds it again. -/
theorem ofPairs_eq {m : Dict κ υ} (h : m.Sorted) : ofPairs m = m := by
  have hfold : ∀ done left : Dict κ υ, (done ++ left).Sorted →
      left.foldl (fun m p => m.insert p.1 p.2) done = done ++ left := by
    intro done left
    induction left generalizing done with
    | nil => intro _; simp
    | cons p left ih =>
      intro hs
      have hlt : ∀ q ∈ done, q.1 < p.1 := fun q hq =>
        (List.pairwise_append.1 hs).2.2 q hq p List.mem_cons_self
      rw [List.foldl_cons, insert_of_lt p.2 hlt, ih (done ++ [p]) (by simpa using hs)]
      simp
  exact hfold [] m h

end Order

/-! ## Changes -/

/-- What becomes of a key: it is set to a value, or deleted. -/
structure Change (κ υ : Type*) where
  /-- The key. -/
  key : κ
  /-- The value it is set to. -/
  value? : Option υ

/-- Lookups after some changes, the first of them first. -/
def replay (f : κ → Option υ) (es : List (Change κ υ)) : κ → Option υ :=
  es.foldl (fun f e => Function.update f e.key e.value?) f

/-- The last change of a key decides. -/
theorem replay_apply (f : κ → Option υ) (es : List (Change κ υ)) (k : κ) :
    replay f es k = ((es.reverse.find? fun e => e.key = k).map Change.value?).getD (f k) := by
  induction es generalizing f with
  | nil => rfl
  | cons e es ih =>
    have hcons : replay f (e :: es) = replay (Function.update f e.key e.value?) es := rfl
    rw [hcons, ih, List.reverse_cons, List.find?_append, List.find?_singleton]
    cases es.reverse.find? fun e => decide (e.key = k) with
    | some e' => rfl
    | none =>
      by_cases hk : e.key = k
      · subst hk
        simp
      · simp [hk, Function.update_of_ne (Ne.symm hk)]

theorem replay_append (f : κ → Option υ) (es es' : List (Change κ υ)) :
    replay f (es ++ es') = replay (replay f es) es' := List.foldl_append

/-- Changes of different keys commute. -/
theorem replay_comm (f : κ → Option υ) {e e' : Change κ υ} (h : e.key ≠ e'.key)
    (es : List (Change κ υ)) : replay f (e :: e' :: es) = replay f (e' :: e :: es) := by
  simp only [replay, List.foldl_cons, Function.update_comm h]

/-- A change that is made again does nothing. -/
theorem replay_again (f : κ → Option υ) (e : Change κ υ) (es : List (Change κ υ)) :
    replay f (e :: e :: es) = replay f (e :: es) := by
  simp only [replay, List.foldl_cons, Function.update_idem]

variable [LT κ] [DecidableLT κ]

/-- The dictionary after a change. -/
def change (m : Dict κ υ) (e : Change κ υ) : Dict κ υ :=
  match e.value? with
  | some v => m.insert e.key v
  | none => m.delete e.key

/-- Looking up after a change. -/
theorem get?_change (m : Dict κ υ) (e : Change κ υ) :
    (m.change e).get? = Function.update m.get? e.key e.value? := by
  funext k
  rw [Function.update_apply, change]
  split
  · next v hv => rw [get?_insert, hv]
  · next hv => rw [get?_delete, hv]

/-- Looking up after some changes. -/
theorem get?_changes (m : Dict κ υ) (es : List (Change κ υ)) :
    (es.foldl change m).get? = replay m.get? es := by
  induction es generalizing m with
  | nil => rfl
  | cons e es ih =>
    rw [List.foldl_cons, ih, get?_change]
    rfl

/-- Changes keep the order. -/
theorem Sorted.changes [IsTrans κ fun a b : κ => a < b] [Std.Trichotomous fun a b : κ => a < b]
    {m : Dict κ υ} (h : m.Sorted) (es : List (Change κ υ)) : Sorted (es.foldl change m) := by
  induction es generalizing m with
  | nil => exact h
  | cons e es ih =>
    refine ih (?_ : (m.change e).Sorted)
    rw [change]
    split
    · exact h.insert _ _
    · exact h.delete _

end Dict

end Zscheme
