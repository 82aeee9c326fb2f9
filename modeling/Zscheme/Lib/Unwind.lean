import Zscheme.Lib.System

/-!
# Unwinding

What an observer sees of a run of a labelled system: some of its steps show something, the
others are hidden (`seen`). The observer is interested in a part of the state. If hidden
steps do not change that part, and what a step shows decides what becomes of it, then two
runs that show the same make the same of it (`Unwinding.part_eq`), whichever hidden steps
they take, and wherever.
-/

namespace Zscheme.System

variable {σ α ω π : Type*} (S : System σ α) (obs : σ → α → Option ω)

/-- What the steps of a run show. -/
def seen (s : σ) : List α → List ω
  | [] => []
  | a :: l => (obs s a).toList ++ (S.next s a).elim [] fun s' => seen s' l

variable {S} {obs} in
theorem seen_cons {s s' : σ} {a : α} (h : S.next s a = some s') (l : List α) :
    S.seen obs s (a :: l) = (obs s a).toList ++ S.seen obs s' l := by
  rw [seen, h]
  rfl

/-- The hidden steps and the others, as the observer needs them: of runs whose steps all
    meet the condition `C`, in states with the invariant `I`. -/
structure Unwinding (C : α → Prop) (I : σ → Prop) (part : σ → π) : Prop where
  keep : ∀ {s s' : σ} {a : α}, I s → C a → S.next s a = some s' → I s'
  hidden : ∀ {s s' : σ} {a : α}, I s → C a → obs s a = none → S.next s a = some s' →
    part s' = part s
  shown : ∀ {s s' t t' : σ} {a b : α} {o : ω}, I s → I t → C a → C b → obs s a = some o →
    obs t b = some o → part s = part t → S.next s a = some s' → S.next t b = some t' →
    part s' = part t'

namespace Unwinding

variable {S} {obs} {C : α → Prop} {I : σ → Prop} {part : σ → π} {s s' t t' : σ} {l l' : List α}

/-- A run of hidden steps does not change the part. -/
theorem hide (h : S.Unwinding obs C I part) (hs : I s) (hC : ∀ a ∈ l, C a)
    (hl : S.exec s l = some s') (hseen : S.seen obs s l = []) : part s' = part s := by
  induction l generalizing s with
  | nil => exact Option.some.inj hl ▸ rfl
  | cons a l ih =>
    obtain ⟨t, ht, hl⟩ := Option.bind_eq_some_iff.1 hl
    rw [seen_cons ht, List.append_eq_nil_iff, Option.toList_eq_nil_iff] at hseen
    rw [List.forall_mem_cons] at hC
    rw [ih (h.keep hs hC.1 ht) hC.2 hl hseen.2, h.hidden hs hC.1 hseen.1 ht]

/-- The first step of a run that shows something. -/
theorem first (h : S.Unwinding obs C I part) (hs : I s) (hC : ∀ a ∈ l, C a)
    (hl : S.exec s l = some s') {o : ω} {os : List ω} (hseen : S.seen obs s l = o :: os) :
    ∃ u a v m, part u = part s ∧ I u ∧ C a ∧ obs u a = some o ∧ S.next u a = some v ∧
      (∀ b ∈ m, C b) ∧ S.exec v m = some s' ∧ S.seen obs v m = os := by
  induction l generalizing s with
  | nil => cases hseen
  | cons a l ih =>
    obtain ⟨t, ht, hl⟩ := Option.bind_eq_some_iff.1 hl
    rw [seen_cons ht] at hseen
    rw [List.forall_mem_cons] at hC
    cases hobs : obs s a with
    | some o' =>
      rw [hobs, Option.toList_some, List.singleton_append] at hseen
      obtain ⟨rfl, hos⟩ := List.cons.inj hseen
      exact ⟨s, a, t, l, rfl, hs, hC.1, hobs, ht, hC.2, hl, hos⟩
    | none =>
      rw [hobs, Option.toList_none, List.nil_append] at hseen
      obtain ⟨u, b, v, m, hpart, hrest⟩ := ih (h.keep hs hC.1 ht) hC.2 hl hseen
      exact ⟨u, b, v, m, hpart.trans (h.hidden hs hC.1 hobs ht), hrest⟩

/-- Two runs that show the same end in the same part of the state. -/
theorem part_eq (h : S.Unwinding obs C I part) (hs : I s) (ht : I t) (hC : ∀ a ∈ l, C a)
    (hC' : ∀ a ∈ l', C a) (hl : S.exec s l = some s') (hl' : S.exec t l' = some t')
    (hseen : S.seen obs s l = S.seen obs t l') (hpart : part s = part t) : part s' = part t' := by
  obtain ⟨os, hos⟩ : ∃ os, S.seen obs s l = os := ⟨_, rfl⟩
  induction os generalizing s t l l' with
  | nil => rw [h.hide hs hC hl hos, h.hide ht hC' hl' (hseen ▸ hos), hpart]
  | cons o os ih =>
    obtain ⟨u, a, v, m, hu, hIu, ha, hobs, hnext, hCm, hm, hos'⟩ := h.first hs hC hl hos
    obtain ⟨u', b, v', m', hu', hIu', hb, hobs', hnext', hCm', hm', hos''⟩ :=
      h.first ht hC' hl' (hseen ▸ hos)
    exact ih (h.keep hIu ha hnext) (h.keep hIu' hb hnext') hCm hCm' hm hm'
      (hos'.trans hos''.symm)
      (h.shown hIu hIu' ha hb hobs hobs' (hu.trans (hpart.trans hu'.symm)) hnext hnext') hos'

end Unwinding

end Zscheme.System
