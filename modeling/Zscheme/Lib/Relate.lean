import Mathlib.Data.List.Perm.Basic
import Zscheme.Lib.Program

/-!
# Two programs side by side

Two programs, each on a state of its own, *relate* if from related states they end in
related states, with outcomes that `Agree`: both return, values that are related, or both
raise, errors that are related. The rules follow the constructs of the language.

* `Agree.bind`, `agree_mapM`: the same for computations without a state;
* `agree_mapM_perm`: the elements of a list computed in another order. Which of several
  errors is raised depends on the order, so that these are only related by what holds of
  each.
-/

namespace Zscheme

variable {ε σ τ α β γ δ : Type}

/-- Both outcomes are values that are related, or both are errors that are. -/
inductive Agree (E : ε → ε → Prop) (A : α → β → Prop) : Except ε α → Except ε β → Prop
  | ok {a : α} {b : β} (h : A a b) : Agree E A (.ok a) (.ok b)
  | error {e e' : ε} (h : E e e') : Agree E A (.error e) (.error e')

section Agree

variable {E E' : ε → ε → Prop} {A A' : α → β → Prop} {B : γ → δ → Prop}

/-- Outcomes that agree still do by weaker relations. -/
theorem Agree.mono {x : Except ε α} {y : Except ε β} (h : Agree E A x y)
    (hE : ∀ e e', E e e' → E' e e') (hA : ∀ a b, A a b → A' a b) : Agree E' A' x y := by
  cases h with
  | ok h => exact .ok (hA _ _ h)
  | error h => exact .error (hE _ _ h)

/-- What agrees with a value is a value. -/
theorem Agree.of_ok {a : α} {y : Except ε β} (h : Agree E A (.ok a) y) :
    ∃ b, y = .ok b ∧ A a b := by
  cases h with
  | ok h => exact ⟨_, rfl, h⟩

/-- What agrees with an error is an error. -/
theorem Agree.of_error {e : ε} {y : Except ε β} (h : Agree E A (.error e) y) :
    ∃ e', y = .error e' ∧ E e e' := by
  cases h with
  | error h => exact ⟨_, rfl, h⟩

/-- And from the other side. -/
theorem Agree.of_error_right {x : Except ε α} {e' : ε} (h : Agree E A x (.error e')) :
    ∃ e, x = .error e ∧ E e e' := by
  cases h with
  | error h => exact ⟨_, rfl, h⟩

/-- To agree up to equality is to be equal. -/
theorem Agree.eq {x y : Except ε α} (h : Agree Eq Eq x y) : x = y := by
  cases h with
  | ok h => rw [h]
  | error h => rw [h]

/-- An outcome agrees with itself. -/
theorem agree_self [Std.Refl E] {A : α → α → Prop} [Std.Refl A] (x : Except ε α) :
    Agree E A x x := by
  rcases x with e | a
  · exact .error (refl_of E e)
  · exact .ok (refl_of A a)

/-- Outcomes that go on from values that agree. -/
theorem Agree.bind {x : Except ε α} {y : Except ε β} {f : α → Except ε γ} {g : β → Except ε δ}
    (h : Agree E A x y) (hf : ∀ a b, A a b → Agree E B (f a) (g b)) :
    Agree E B (x >>= f) (y >>= g) := by
  cases h with
  | ok h => exact hf _ _ h
  | error h => exact .error h

/-! ## Lists -/

/-- A list of computations returns what each of them returns, or raises the first error. -/
theorem mapM_cases (f : α → Except ε β) (l : List α) :
    (∀ a ∈ l, ∃ b, f a = .ok b) ∧ l.mapM f = .ok (l.filterMap fun a => (f a).toOption) ∨
      ∃ a ∈ l, ∃ e, f a = .error e ∧ l.mapM f = .error e := by
  induction l with
  | nil => exact .inl ⟨nofun, rfl⟩
  | cons a l ih =>
    rw [List.mapM_cons]
    rcases ha : f a with e | b
    · exact .inr ⟨a, List.mem_cons_self, e, ha, rfl⟩
    rcases ih with ⟨hall, hl⟩ | ⟨a', ha', e, he, hl⟩
    · refine .inl ⟨List.forall_mem_cons.2 ⟨⟨b, ha⟩, hall⟩, ?_⟩
      rw [hl, List.filterMap_cons_some (b := b) (by rw [ha]; rfl)]
      rfl
    · refine .inr ⟨a', List.mem_cons_of_mem _ ha', e, he, ?_⟩
      rw [hl]
      rfl

/-- The error is that of the first computation that raises. -/
theorem mapM_eq_error {f : α → Except ε β} {l : List α} {e : ε} :
    l.mapM f = .error e ↔ ∃ before a after, l = before ++ a :: after ∧
      (∀ b ∈ before, ∃ v, f b = .ok v) ∧ f a = .error e := by
  induction l with
  | nil =>
    refine iff_of_false nofun ?_
    rintro ⟨before, a, after, h, -⟩
    simp at h
  | cons a l ih =>
    rw [List.mapM_cons]
    rcases ha : f a with e' | v
    · change (Except.error e' : Except ε (List β)) = .error e ↔ _
      rw [Except.error.injEq]
      refine ⟨fun h => ⟨[], a, l, rfl, nofun, h ▸ ha⟩, ?_⟩
      rintro ⟨before, b, after, hl, hbefore, hb⟩
      rcases before with _ | ⟨b', before⟩
      · rw [(List.cons.inj hl).1, hb] at ha
        exact (Except.error.inj ha).symm
      · obtain ⟨v, hv⟩ := hbefore b' List.mem_cons_self
        rw [← (List.cons.inj hl).1, ha] at hv
        cases hv
    · have hrest : (do let v ← Except.ok v; let vs ← l.mapM f; return v :: vs) = .error e ↔
          l.mapM f = .error e := by
        rcases l.mapM f with e' | vs
        · exact Iff.rfl
        · exact iff_of_false nofun nofun
      rw [hrest, ih]
      constructor
      · rintro ⟨before, b, after, rfl, hbefore, hb⟩
        exact ⟨a :: before, b, after, rfl, List.forall_mem_cons.2 ⟨⟨v, ha⟩, hbefore⟩, hb⟩
      · rintro ⟨before, b, after, hl, hbefore, hb⟩
        rcases before with _ | ⟨b', before⟩
        · rw [(List.cons.inj hl).1, hb] at ha
          cases ha
        · exact ⟨before, b, after, (List.cons.inj hl).2, (List.forall_mem_cons.1 hbefore).2, hb⟩

/-- The same elements in another order: the values come in another order, or both raise. -/
theorem agree_mapM_perm {P : ε → Prop} {f g : α → Except ε β} {l l' : List α} (h : l.Perm l')
    (hfg : ∀ a ∈ l, Agree (fun e e' => P e ∧ P e') Eq (f a) (g a)) :
    Agree (fun e e' => P e ∧ P e') List.Perm (l.mapM f) (l'.mapM g) := by
  rcases mapM_cases f l with ⟨hok, hf⟩ | ⟨a, ha, e, he, hf⟩ <;>
    rcases mapM_cases g l' with ⟨hok', hg⟩ | ⟨a', ha', e', he', hg⟩ <;> rw [hf, hg]
  · refine .ok ((h.filterMap _).trans (.of_eq (List.filterMap_congr fun a ha => ?_)))
    obtain ⟨b, hb⟩ := hok a (h.mem_iff.2 ha)
    obtain ⟨_, hb', rfl⟩ := (hb ▸ hfg a (h.mem_iff.2 ha)).of_ok
    rw [hb, hb']
  · obtain ⟨b, hb⟩ := hok a' (h.mem_iff.2 ha')
    obtain ⟨e, he, _⟩ := (he' ▸ hfg a' (h.mem_iff.2 ha')).of_error_right
    cases hb.symm.trans he
  · obtain ⟨b, hb⟩ := hok' a (h.mem_iff.1 ha)
    obtain ⟨e', he', _⟩ := (he ▸ hfg a ha).of_error
    cases hb.symm.trans he'
  · obtain ⟨_, _, hP, _⟩ := (he ▸ hfg a ha).of_error
    obtain ⟨_, _, _, hP'⟩ := (he' ▸ hfg a' (h.mem_iff.2 ha')).of_error_right
    exact .error ⟨hP, hP'⟩

end Agree

namespace Program

variable [Preorder σ] [Preorder τ]

/-- From related states, the outcomes agree and the states at the end are related. -/
def Relates (R : σ → τ → Prop) (E : ε → ε → Prop) (A : α → β → Prop) (p : Program ε σ α)
    (q : Program ε τ β) : Prop :=
  ∀ s t, R s t → Agree E A (p.run s).1 (q.run t).1 ∧ R (p.run s).2 (q.run t).2

variable {R : σ → τ → Prop} {E E' : ε → ε → Prop} {A A' : α → β → Prop} {B : γ → δ → Prop}
  {p : Program ε σ α} {q : Program ε τ β}

/-- What both programs end in, the one after the other. -/
theorem relates_of_wp (h : ∀ s t, R s t →
    p.wp (fun a s' => q.wp (fun b t' => A a b ∧ R s' t') (fun _ _ => False) t)
      (fun e s' => q.wp (fun _ _ => False) (fun e' t' => E e e' ∧ R s' t') t) s) :
    Relates R E A p q := by
  intro s t hs
  have h := h s t hs
  revert h
  simp only [wp]
  rcases p.run s with ⟨e | a, s'⟩ <;> rcases q.run t with ⟨e' | b, t'⟩
  · exact fun h => ⟨.error h.1, h.2⟩
  · exact False.elim
  · exact False.elim
  · exact fun h => ⟨.ok h.1, h.2⟩

/-- Values that are related. -/
theorem relates_pure {a : α} {b : β} (h : A a b) :
    Relates R E A (pure a : Program ε σ α) (pure b : Program ε τ β) := fun _ _ hs => ⟨.ok h, hs⟩

/-- Errors that are related. -/
theorem relates_throw {e e' : ε} (h : E e e') :
    Relates R E A (throw e : Program ε σ α) (throw e' : Program ε τ β) :=
  fun _ _ hs => ⟨.error h, hs⟩

/-- Pure computations that agree. -/
theorem relates_lift {x : Except ε α} {y : Except ε β} (h : Agree E A x y) :
    Relates R E A (liftM x : Program ε σ α) (liftM y : Program ε τ β) := by
  cases h with
  | ok h => exact relates_pure h
  | error h => exact relates_throw h

/-- The states are related. -/
theorem relates_get : Relates R E R (get : Program ε σ σ) (get : Program ε τ τ) :=
  fun _ _ hs => ⟨.ok hs, hs⟩

/-- Updates that keep the states related. -/
theorem relates_update {f : σ → σ} {g : τ → τ} {hf : ∀ s, s ≤ f s} {hg : ∀ t, t ≤ g t}
    (h : ∀ s t, R s t → R (f s) (g t)) :
    Relates R E Eq (update f hf : Program ε σ Unit) (update g hg : Program ε τ Unit) :=
  fun s t hs => ⟨.ok rfl, h s t hs⟩

/-- Programs that are related still are by weaker relations. -/
theorem Relates.mono (h : Relates R E A p q) (hE : ∀ e e', E e e' → E' e e')
    (hA : ∀ a b, A a b → A' a b) : Relates R E' A' p q :=
  fun s t hs => ⟨(h s t hs).1.mono hE hA, (h s t hs).2⟩

/-- Programs that go on from values that are related. -/
theorem Relates.bind {f : α → Program ε σ γ} {g : β → Program ε τ δ} (h : Relates R E A p q)
    (hf : ∀ a b, A a b → Relates R E B (f a) (g b)) : Relates R E B (p >>= f) (q >>= g) := by
  intro s t hs
  obtain ⟨hout, hend⟩ := h s t hs
  change Agree E B ((Program.bind p f).run s).1 ((Program.bind q g).run t).1 ∧
    R ((Program.bind p f).run s).2 ((Program.bind q g).run t).2
  simp only [Program.bind]
  rcases hp : p.run s with ⟨_ | a, s'⟩ <;> rcases hq : q.run t with ⟨_ | b, t'⟩ <;>
    rw [hp, hq] at hout hend <;> cases hout
  case error.error.error he => exact ⟨.error he, hend⟩
  case ok.ok.ok ha => exact hf a b ha s' t' hend

/-- Handlers of errors that are related. -/
theorem Relates.tryCatch {f : ε → Program ε σ α} {g : ε → Program ε τ β} (h : Relates R E A p q)
    (hf : ∀ e e', E e e' → Relates R E A (f e) (g e')) :
    Relates R E A (tryCatch p f) (tryCatch q g) := by
  intro s t hs
  obtain ⟨hout, hend⟩ := h s t hs
  change Agree E A ((Program.tryCatch p f).run s).1 ((Program.tryCatch q g).run t).1 ∧
    R ((Program.tryCatch p f).run s).2 ((Program.tryCatch q g).run t).2
  simp only [Program.tryCatch]
  rcases hp : p.run s with ⟨e | _, s'⟩ <;> rcases hq : q.run t with ⟨e' | _, t'⟩ <;>
    rw [hp, hq] at hout hend <;> cases hout
  case error.error.error he => exact hf e e' he s' t' hend
  case ok.ok.ok ha => exact ⟨.ok ha, hend⟩

end Program

end Zscheme
