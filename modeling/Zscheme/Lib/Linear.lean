import Mathlib.Data.List.Nodup

/-!
# Linearization

An object serves its operations one at a time: each changes the state and gets an answer
(`Object`). Its clients need not wait for each other: an operation is called, is served
some time later, and returns later still. A history lists these moments in order, and is
*timely* if each operation is called before it is served and served before it returns.

The operations in the order in which they were served then are a run of the object alone,
and one that respects real time: an operation that returned before another one was called
was served before it (`Timely.order`).
-/

namespace Zscheme

/-- An object with states `σ` that serves the operations `ι`, one at a time, and answers
    each with a `ρ`. -/
structure Object (σ ι ρ : Type*) where
  /-- The state after an operation, and the answer to it. -/
  serve : σ → ι → σ × ρ

namespace Object

variable {σ ι ρ : Type*} (O : Object σ ι ρ)

/-- The state after some operations, served one after the other. -/
def run (s : σ) : List ι → σ
  | [] => s
  | i :: l => run (O.serve s i).1 l

/-- The operations, each with the answer to it. -/
def answers (s : σ) : List ι → List (ι × ρ)
  | [] => []
  | i :: l => (i, (O.serve s i).2) :: answers (O.serve s i).1 l

theorem run_snoc (s : σ) (l : List ι) (i : ι) :
    O.run s (l ++ [i]) = (O.serve (O.run s l) i).1 := by
  induction l generalizing s with
  | nil => rfl
  | cons j l ih => exact ih _

theorem answers_snoc (s : σ) (l : List ι) (i : ι) :
    O.answers s (l ++ [i]) = O.answers s l ++ [(i, (O.serve (O.run s l) i).2)] := by
  induction l generalizing s with
  | nil => rfl
  | cons j l ih => exact congrArg (List.cons _) (ih _)

/-- Only what is served is answered. -/
theorem mem_of_answers {s : σ} {l : List ι} {i : ι} {r : ρ} (h : (i, r) ∈ O.answers s l) :
    i ∈ l := by
  induction l generalizing s with
  | nil => cases h
  | cons j l ih =>
    rcases List.mem_cons.1 h with h | h
    · exact (Prod.mk.inj h).1 ▸ List.mem_cons_self
    · exact List.mem_cons_of_mem _ (ih h)

end Object

/-- A moment of an operation. -/
inductive Moment (ι : Type*)
  | called (i : ι)
  | served (i : ι)
  | returned (i : ι)
  deriving DecidableEq

variable {ι : Type*} {h : List (Moment ι)} {i j : ι}

/-- The operation that is served. -/
def Moment.served? : Moment ι → Option ι
  | served i => some i
  | _ => none

/-- The operations that were served, in order. -/
def servedIn (h : List (Moment ι)) : List ι := h.filterMap Moment.served?

theorem mem_servedIn : i ∈ servedIn h ↔ .served i ∈ h := by
  rw [servedIn, List.mem_filterMap]
  constructor
  · rintro ⟨_ | j | _, hm, hj⟩
    case served => exact Option.some.inj hj ▸ hm
    all_goals cases hj
  · exact fun hi => ⟨_, hi, rfl⟩

@[simp] theorem servedIn_snoc (h : List (Moment ι)) (m : Moment ι) :
    servedIn (h ++ [m]) = servedIn h ++ m.served?.toList := by
  cases m <;> simp [servedIn, Moment.served?]

/-- In a list without repetitions, coming before is transitive. -/
theorem before_trans {α : Type*} {l : List α} {a b c : α} (hl : l.Nodup)
    (hab : [a, b].Sublist l) (hbc : [b, c].Sublist l) : [a, c].Sublist l := by
  induction l with
  | nil => cases hab
  | cons x l ih =>
    obtain ⟨hx, hl⟩ := List.nodup_cons.1 hl
    -- what comes first of all is not `b`, as `a` comes before it
    have hbl : b ∈ l := by
      cases hab with
      | cons _ h => exact h.subset (by simp)
      | cons_cons _ h => exact h.subset (by simp)
    have hrest : [b, c].Sublist l := by
      cases hbc with
      | cons _ h => exact h
      | cons_cons _ _ => exact absurd hbl hx
    cases hab with
    | cons _ h => exact (ih hl h hrest).cons _
    | cons_cons _ _ =>
      have hc : c ∈ l := hrest.subset (by simp)
      exact (List.singleton_sublist.2 hc).cons_cons _

/-- Each moment of an operation comes once, and after the ones it must follow. -/
structure Timely (h : List (Moment ι)) : Prop where
  nodup : h.Nodup
  served : ∀ i, .served i ∈ h → [.called i, .served i].Sublist h
  returned : ∀ i, .returned i ∈ h → [.served i, .returned i].Sublist h

namespace Timely

theorem nil : Timely ([] : List (Moment ι)) := ⟨.nil, nofun, nofun⟩

/-- One more moment, which comes after the one it must follow. -/
theorem snoc (ht : Timely h) {m : Moment ι} (hm : m ∉ h)
    (hserved : ∀ i, m = .served i → .called i ∈ h)
    (hreturned : ∀ i, m = .returned i → .served i ∈ h) : Timely (h ++ [m]) where
  nodup := List.nodup_append_comm.1 (List.nodup_cons.2 ⟨hm, ht.nodup⟩)
  served i hi := by
    rcases List.mem_append.1 hi with hi | hi
    · exact (ht.served i hi).trans (List.sublist_append_left _ _)
    · obtain rfl := List.mem_singleton.1 hi
      exact (List.singleton_sublist.2 (hserved i rfl)).append (.refl _)
  returned i hi := by
    rcases List.mem_append.1 hi with hi | hi
    · exact (ht.returned i hi).trans (List.sublist_append_left _ _)
    · obtain rfl := List.mem_singleton.1 hi
      exact (List.singleton_sublist.2 (hreturned i rfl)).append (.refl _)

/-- No operation is served twice. -/
theorem nodup_servedIn (ht : Timely h) : (servedIn h).Nodup := by
  refine ht.nodup.filterMap ?_
  rintro (_ | i | _) (_ | j | _) k hi hj
  case served.served => rw [Option.some.inj hi, Option.some.inj hj]
  all_goals simp [Moment.served?] at hi hj

/-- What returned before another operation was called was served before it. -/
theorem order (ht : Timely h) (hij : [.returned i, .called j].Sublist h)
    (hj : .served j ∈ h) : [i, j].Sublist (servedIn h) := by
  have hi : .returned i ∈ h := hij.subset (by simp)
  have hreturned : [.served i, .called j].Sublist h :=
    before_trans ht.nodup (ht.returned i hi) hij
  have hserved : [.served i, .served j].Sublist h :=
    before_trans ht.nodup hreturned (ht.served j hj)
  exact hserved.filterMap Moment.served?

end Timely

end Zscheme
