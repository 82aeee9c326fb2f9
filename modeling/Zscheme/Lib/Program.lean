import Mathlib.Order.Basic

/-!
# Monotone programs

A *program* takes a state, and returns a value or raises an error, in a new
state. The states are preordered, and a program carries the proof that it only
ever moves up: a log that is kept in the state can be appended to, never
rewritten. An error keeps the changes made before it was raised, and so does the
handler that catches it.

* `Program.wp p Q E s`: from `s`, the program returns with `Q` or raises with `E`;
  its rules follow the constructs of the language (`wp_bind`, `wp_tryCatch`, …).
* `wp_of_le`: what holds in every later state holds at the end of every program.
* `Program.Within R`: from every state the program stays within the relation `R`,
  whether it returns or raises; for a preorder `R` this is closed under the
  constructs of the language.
* `Program.Keeping P`: the relation of the programs that keep `P`, whatever their
  outcome;
* `Program.zoom`: a program on a part of the state, as a program on the whole.
-/

namespace Zscheme

/-- A program: from each state, its outcome and a later state. -/
structure Program (ε σ : Type) [Preorder σ] (α : Type) where
  /-- The outcome and the state in which it is reached. -/
  run : σ → Except ε α × σ
  /-- A program only moves up. -/
  mono : ∀ s, s ≤ (run s).2

namespace Program

variable {ε σ α β : Type} [Preorder σ]

/-- The program that returns `a`. -/
protected def pure (a : α) : Program ε σ α := ⟨fun s => (.ok a, s), fun _ => le_rfl⟩

/-- The program that goes on with the value of another, unless that one raises. -/
protected def bind (p : Program ε σ α) (f : α → Program ε σ β) : Program ε σ β where
  run s := match p.run s with
    | (.ok a, s') => (f a).run s'
    | (.error e, s') => (.error e, s')
  mono s := by
    have h := p.mono s
    rcases hp : p.run s with ⟨_ | a, s'⟩ <;> rw [hp] at h
    · exact h
    · exact h.trans ((f a).mono s')

/-- The program that raises `e`. -/
protected def throw (e : ε) : Program ε σ α := ⟨fun s => (.error e, s), fun _ => le_rfl⟩

/-- The program that goes on with the error of another, if that one raises. -/
protected def tryCatch (p : Program ε σ α) (f : ε → Program ε σ α) : Program ε σ α where
  run s := match p.run s with
    | (.ok a, s') => (.ok a, s')
    | (.error e, s') => (f e).run s'
  mono s := by
    have h := p.mono s
    rcases hp : p.run s with ⟨e | _, s'⟩ <;> rw [hp] at h
    · exact h.trans ((f e).mono s')
    · exact h

instance : Monad (Program ε σ) where
  pure := Program.pure
  bind := Program.bind

/-- A program is what it does from each state. -/
theorem ext {p q : Program ε σ α} (h : ∀ s, p.run s = q.run s) : p = q := by
  obtain ⟨p, _⟩ := p
  obtain ⟨q, _⟩ := q
  obtain rfl : p = q := funext h
  rfl

/-- A result mapped by the identity is the result. -/
protected theorem id_map (p : Program ε σ α) : id <$> p = p := ext fun s => by
  change (Program.bind p Program.pure).run s = p.run s
  simp only [Program.bind, Program.pure]
  rcases p.run s with ⟨_ | _, _⟩ <;> rfl

/-- Three programs in a row, grouped either way. -/
protected theorem bind_assoc {γ : Type} (p : Program ε σ α) (f : α → Program ε σ β)
    (g : β → Program ε σ γ) : p >>= f >>= g = p >>= fun a => f a >>= g := ext fun s => by
  change (Program.bind (Program.bind p f) g).run s =
    (Program.bind p fun a => Program.bind (f a) g).run s
  simp only [Program.bind]
  rcases p.run s with ⟨_ | _, _⟩ <;> rfl

instance : LawfulMonad (Program ε σ) :=
  .mk' _ Program.id_map (fun _ _ => ext fun _ => rfl) Program.bind_assoc

instance : MonadExceptOf ε (Program ε σ) where
  throw := Program.throw
  tryCatch := Program.tryCatch

instance : MonadLift (Except ε) (Program ε σ) where
  monadLift
    | .ok a => Program.pure a
    | .error e => Program.throw e

/-- The program that reads the state. -/
def get : Program ε σ σ := ⟨fun s => (.ok s, s), fun _ => le_rfl⟩

/-- The program that moves the state up. -/
def update (f : σ → σ) (hf : ∀ s, s ≤ f s) : Program ε σ Unit := ⟨fun s => (.ok (), f s), hf⟩

/-- A program on a part of the state, as a program on the whole. -/
def zoom {τ : Type} [Preorder τ] (part : σ → τ) (put : σ → τ → σ)
    (hput : ∀ s t, part s ≤ t → s ≤ put s t) (p : σ → Program ε τ α) : Program ε σ α where
  run s := (((p s).run (part s)).1, put s ((p s).run (part s)).2)
  mono s := hput s _ ((p s).mono _)

/-! ## Weakest preconditions -/

/-- From `s`, the program returns a value and a state in `Q`, or raises an error in
    a state in `E`. -/
def wp (p : Program ε σ α) (Q : α → σ → Prop) (E : ε → σ → Prop) (s : σ) : Prop :=
  match p.run s with
  | (.ok a, s') => Q a s'
  | (.error e, s') => E e s'

variable {Q Q' : α → σ → Prop} {E E' : ε → σ → Prop} {s : σ}

/-- A result is there at once. -/
@[simp] theorem wp_pure (a : α) : (pure a : Program ε σ α).wp Q E s ↔ Q a s := Iff.rfl

/-- An error is there at once. -/
@[simp] theorem wp_throw (e : ε) : (throw e : Program ε σ α).wp Q E s ↔ E e s := Iff.rfl

/-- The state is read as it is. -/
@[simp] theorem wp_get {Q : σ → σ → Prop} : (get : Program ε σ σ).wp Q E s ↔ Q s s := Iff.rfl

/-- An update only moves the state. -/
@[simp] theorem wp_update {Q : Unit → σ → Prop} (f : σ → σ) (hf : ∀ s, s ≤ f s) :
    (update f hf : Program ε σ Unit).wp Q E s ↔ Q () (f s) := Iff.rfl

/-- The second program starts where the first ends. -/
@[simp] theorem wp_bind {Q : β → σ → Prop} (p : Program ε σ α) (f : α → Program ε σ β) :
    (p >>= f).wp Q E s ↔ p.wp (fun a s' => (f a).wp Q E s') E s := by
  change (Program.bind p f).wp Q E s ↔ _
  simp only [wp, Program.bind]
  rcases p.run s with ⟨_ | _, _⟩ <;> exact Iff.rfl

/-- The handler starts where the error was raised. -/
@[simp] theorem wp_tryCatch (p : Program ε σ α) (f : ε → Program ε σ α) :
    (tryCatch p f).wp Q E s ↔ p.wp Q (fun e s' => (f e).wp Q E s') s := by
  change (Program.tryCatch p f).wp Q E s ↔ _
  simp only [wp, Program.tryCatch]
  rcases p.run s with ⟨_ | _, _⟩ <;> exact Iff.rfl

/-- A test is made before either branch. -/
@[simp] theorem wp_ite (c : Prop) [Decidable c] (p q : Program ε σ α) :
    (if c then p else q).wp Q E s ↔ if c then p.wp Q E s else q.wp Q E s := by
  split <;> exact Iff.rfl

/-- A program on a part of the state leaves the rest of it. -/
@[simp] theorem wp_zoom {τ : Type} [Preorder τ] (part : σ → τ) (put : σ → τ → σ)
    (hput : ∀ s t, part s ≤ t → s ≤ put s t) (p : σ → Program ε τ α) :
    (zoom part put hput p).wp Q E s ↔
      (p s).wp (fun a t => Q a (put s t)) (fun e t => E e (put s t)) (part s) := by
  simp only [wp, zoom]
  rcases (p s).run (part s) with ⟨_ | _, _⟩ <;> exact Iff.rfl

/-- A pure result or error leaves the state. -/
@[simp] theorem wp_lift (x : Except ε α) :
    (liftM x : Program ε σ α).wp Q E s ↔
      match x with | .ok a => Q a s | .error e => E e s := by
  rcases x with _ | _ <;> exact Iff.rfl

/-- The two cases of a pure computation. -/
theorem wp_lift_of {x : Except ε α} (hQ : ∀ a, x = .ok a → Q a s)
    (hE : ∀ e, x = .error e → E e s) : (liftM x : Program ε σ α).wp Q E s := by
  rw [wp_lift]
  rcases x with e | a
  · exact hE e rfl
  · exact hQ a rfl

/-- The rule of consequence: what is shown of the end may use that it is later
    than the start. -/
theorem wp.conseq {p : Program ε σ α} (h : p.wp Q E s)
    (hQ : ∀ a s', s ≤ s' → Q a s' → Q' a s') (hE : ∀ e s', s ≤ s' → E e s' → E' e s') :
    p.wp Q' E' s := by
  have hle := p.mono s
  revert h
  simp only [wp]
  rcases hp : p.run s with ⟨e | a, s'⟩ <;> rw [hp] at hle
  · exact hE e s' hle
  · exact hQ a s' hle

/-- What holds in every later state holds at the end of every program. -/
theorem wp_of_le {p : Program ε σ α} (hQ : ∀ a s', s ≤ s' → Q a s')
    (hE : ∀ e s', s ≤ s' → E e s') : p.wp Q E s := by
  have hle := p.mono s
  simp only [wp]
  rcases hp : p.run s with ⟨e | a, s'⟩ <;> rw [hp] at hle
  · exact hE e s' hle
  · exact hQ a s' hle

/-- Two postconditions at once. -/
theorem wp.and {p : Program ε σ α} (h : p.wp Q E s) (h' : p.wp Q' E' s) :
    p.wp (fun a s' => Q a s' ∧ Q' a s') (fun e s' => E e s' ∧ E' e s') s := by
  revert h h'
  simp only [wp]
  rcases p.run s with ⟨_ | _, _⟩ <;> exact And.intro

/-- A property of the outcome and the end. -/
theorem wp_iff_run (p : Program ε σ α) (P : Except ε α × σ → Prop) :
    p.wp (fun a s' => P (.ok a, s')) (fun e s' => P (.error e, s')) s ↔ P (p.run s) := by
  simp only [wp]
  rcases p.run s with ⟨_ | _, _⟩ <;> exact Iff.rfl

/-- A property of the end, whatever the outcome. -/
theorem wp_iff_end (p : Program ε σ α) (P : σ → Prop) :
    p.wp (fun _ => P) (fun _ => P) s ↔ P (p.run s).2 := by
  simp only [wp]
  rcases p.run s with ⟨_ | _, _⟩ <;> exact Iff.rfl

/-- A property of the outcome. -/
theorem wp_iff_result (p : Program ε σ α) (P : Except ε α → Prop) :
    p.wp (fun a _ => P (.ok a)) (fun e _ => P (.error e)) s ↔ P (p.run s).1 := by
  simp only [wp]
  rcases p.run s with ⟨_ | _, _⟩ <;> exact Iff.rfl

/-- A property of the end, and of whether the program returns. -/
theorem wp_iff_outcome (p : Program ε σ α) (P : Bool → σ → Prop) :
    p.wp (fun _ => P true) (fun _ => P false) s ↔ P (p.run s).1.isOk (p.run s).2 := by
  simp only [wp]
  rcases p.run s with ⟨_ | _, _⟩ <;> exact Iff.rfl

/-! ## Programs within a relation -/

/-- From every state, the program stays within `R`. -/
def Within (R : σ → σ → Prop) (p : Program ε σ α) : Prop := ∀ s, R s (p.run s).2

/-- Both ends of a program are where its relation allows. -/
theorem Within.wp {R : σ → σ → Prop} {p : Program ε σ α} (h : p.Within R) (s : σ) :
    p.wp (fun _ => R s) (fun _ => R s) s := (wp_iff_end p (R s)).2 (h s)

section Reflexive

variable {R : σ → σ → Prop} [Std.Refl R]

/-- A result moves nothing. -/
theorem within_pure (a : α) : (pure a : Program ε σ α).Within R := fun s => refl_of R s

/-- An error moves nothing. -/
theorem within_throw (e : ε) : (throw e : Program ε σ α).Within R := fun s => refl_of R s

/-- A read moves nothing. -/
theorem within_get : (get : Program ε σ σ).Within R := fun s => refl_of R s

/-- A pure result or error moves nothing. -/
theorem within_lift (x : Except ε α) : (liftM x : Program ε σ α).Within R := by
  rcases x with e | a
  · exact within_throw e
  · exact within_pure a

end Reflexive

section Transitive

variable {R : σ → σ → Prop} [IsTrans σ R]

/-- Two moves in a row are a move. -/
theorem Within.bind {p : Program ε σ α} {f : α → Program ε σ β} (hp : p.Within R)
    (hf : ∀ a, (f a).Within R) : (p >>= f).Within R := fun s => by
  refine (wp_iff_end _ _).1 ((wp_bind p f).2 ((hp.wp s).conseq ?_ ?_))
  · intro a s' _ h
    exact ((hf a).wp s').conseq (fun _ _ _ => trans_of R h) fun _ _ _ => trans_of R h
  · exact fun _ _ _ h => h

/-- A handler moves on from where the error was raised. -/
theorem Within.tryCatch {p : Program ε σ α} {f : ε → Program ε σ α} (hp : p.Within R)
    (hf : ∀ e, (f e).Within R) : (tryCatch p f).Within R := fun s => by
  refine (wp_iff_end _ _).1 ((wp_tryCatch p f).2 ((hp.wp s).conseq ?_ ?_))
  · exact fun _ _ _ h => h
  · intro e s' _ h
    exact ((hf e).wp s').conseq (fun _ _ _ => trans_of R h) fun _ _ _ => trans_of R h

end Transitive

/-- From a state with the property to a state with the property. -/
def Keeping (P : σ → Prop) (s s' : σ) : Prop := P s → P s'

instance (P : σ → Prop) : Std.Refl (Keeping P) := ⟨fun _ h => h⟩

instance (P : σ → Prop) : IsTrans σ (Keeping P) := ⟨fun _ _ _ h h' hs => h' (h hs)⟩

/-- A program within `Keeping P` keeps `P`, whatever the outcome. -/
theorem Within.keeps {P : σ → Prop} {p : Program ε σ α} (h : p.Within (Keeping P)) (hs : P s) :
    p.wp (fun _ => P) (fun _ => P) s :=
  (h.wp s).conseq (fun _ _ _ hk => hk hs) fun _ _ _ hk => hk hs

/-- A program keeps an invariant if both of its ends have it. -/
theorem within_keeping {P : σ → Prop} {p : Program ε σ α}
    (h : ∀ s, P s → p.wp (fun _ => P) (fun _ => P) s) : p.Within (Keeping P) :=
  fun s hs => (wp_iff_end p P).1 (h s hs)

end Program

end Zscheme
