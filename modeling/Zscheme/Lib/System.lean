import Mathlib.Data.List.Basic

/-!
# Labelled systems and their runs

A *system* has initial states and a partial step function: in the state `s` the
label `a` is either not enabled (`next s a = none`), or leads to one state. All
nondeterminism is in the labels: which process moves, what the network delivers,
what an actor replies. A run is a list of labels (`exec`), and a claim about every
run, or every interleaving, is a claim about every list.

* `System.ReachableVia C`: the states reached by runs whose steps all meet the
  condition `C`, which sees the state before the step and its label;
  `System.Reachable` is the case of no condition.
* `ReachableVia.invariant`: the rule of invariants, what holds initially and is
  preserved by the steps that meet the condition holds in every such state.
* `System.Always P`: a run each of whose steps has the property `P`; a step property
  that implies another where an invariant holds implies it on whole runs
  (`Always.imp`, `always_congr`).
-/

namespace Zscheme

/-- A labelled system: its initial states, and its partial step function. -/
structure System (σ α : Type*) where
  /-- The initial states. -/
  init : σ → Prop
  /-- The state after a step with the given label, if it is enabled. -/
  next : σ → α → Option σ

namespace System

variable {σ α : Type*} (S : System σ α)

/-- The state after a run: the labels taken in order, all of them enabled. -/
def exec (s : σ) : List α → Option σ
  | [] => some s
  | a :: l => (S.next s a).bind fun s' => exec s' l

theorem exec_append (s : σ) (l l' : List α) :
    S.exec s (l ++ l') = (S.exec s l).bind fun s' => S.exec s' l' := by
  induction l generalizing s with
  | nil => rfl
  | cons a l ih => simp only [List.cons_append, exec, Option.bind_assoc, ih]

/-- The states reached by the runs whose steps all meet the condition `C`. -/
inductive ReachableVia (C : σ → α → Prop) : σ → Prop
  | init {s : σ} : S.init s → ReachableVia C s
  | step {s s' : σ} {a : α} : ReachableVia C s → C s a → S.next s a = some s' →
      ReachableVia C s'

/-- The reachable states. -/
abbrev Reachable : σ → Prop := S.ReachableVia fun _ _ => True

/-- Every step of the run has the property `P` (of the state before the step and
    its label). -/
def Always (P : σ → α → Prop) (s : σ) : List α → Prop
  | [] => True
  | a :: l => P s a ∧ ∀ s', S.next s a = some s' → Always P s' l

variable {S}

/-- The rule of invariants. -/
theorem ReachableVia.invariant {C : σ → α → Prop} {I : σ → Prop}
    (init : ∀ s, S.init s → I s)
    (step : ∀ s a s', I s → C s a → S.next s a = some s' → I s')
    {s : σ} (h : S.ReachableVia C s) : I s := by
  induction h with
  | init h₀ => exact init _ h₀
  | step _ hc hn ih => exact step _ _ _ ih hc hn

/-- Fewer steps reach fewer states. -/
theorem ReachableVia.mono {C D : σ → α → Prop} (hCD : ∀ s a, C s a → D s a) {s : σ}
    (h : S.ReachableVia C s) : S.ReachableVia D s := by
  induction h with
  | init h₀ => exact .init h₀
  | step _ hc hn ih => exact .step ih (hCD _ _ hc) hn

/-- Whatever a condition lets through is reachable. -/
theorem ReachableVia.reachable {C : σ → α → Prop} {s : σ} (h : S.ReachableVia C s) :
    S.Reachable s := h.mono fun _ _ _ => trivial

/-- A run from a reachable state, whose steps all meet the condition, stays within
    what the condition reaches. -/
theorem ReachableVia.exec {C : σ → α → Prop} {s s' : σ} {l : List α}
    (h : S.ReachableVia C s) (hl : S.exec s l = some s') (hC : S.Always C s l) :
    S.ReachableVia C s' := by
  induction l generalizing s with
  | nil =>
    obtain rfl := Option.some.inj hl
    exact h
  | cons a l ih =>
    obtain ⟨t, ht, hl⟩ := Option.bind_eq_some_iff.1 hl
    exact ih (.step h hC.1 ht) hl (hC.2 t ht)

/-- The case of labels that meet the condition in every state. -/
theorem ReachableVia.run {C : σ → α → Prop} {s s' : σ} {l : List α}
    (h : S.ReachableVia C s) (hC : ∀ a ∈ l, ∀ t, C t a) (hl : S.exec s l = some s') :
    S.ReachableVia C s' := by
  refine h.exec hl ?_
  clear h hl
  induction l generalizing s with
  | nil => trivial
  | cons a l ih =>
    rw [List.forall_mem_cons] at hC
    exact ⟨hC.1 s, fun t _ => ih hC.2⟩

/-- The end of a run from an initial state is reachable. -/
theorem reachable_of_exec {s s' : σ} {l : List α} (h₀ : S.init s)
    (hl : S.exec s l = some s') : S.Reachable s' :=
  (ReachableVia.init h₀).run (fun _ _ _ => trivial) hl

/-- A step property that implies another where an invariant holds implies it on whole
    runs. -/
theorem Always.imp {P Q : σ → α → Prop} {I : σ → Prop}
    (step : ∀ s a s', I s → S.next s a = some s' → I s')
    (hPQ : ∀ s a, I s → P s a → Q s a) {s : σ} (hs : I s) {l : List α}
    (h : S.Always P s l) : S.Always Q s l := by
  induction l generalizing s with
  | nil => trivial
  | cons a l ih =>
    exact ⟨hPQ s a hs h.1, fun s' hn => ih (step s a s' hs hn) (h.2 s' hn)⟩

/-- Two step properties that agree where an invariant holds agree on whole runs. -/
theorem always_congr {P Q : σ → α → Prop} {I : σ → Prop}
    (step : ∀ s a s', I s → S.next s a = some s' → I s')
    (hPQ : ∀ s a, I s → (P s a ↔ Q s a)) {s : σ} (hs : I s) (l : List α) :
    S.Always P s l ↔ S.Always Q s l :=
  ⟨fun h => h.imp step (fun s a hi => (hPQ s a hi).1) hs,
    fun h => h.imp step (fun s a hi => (hPQ s a hi).2) hs⟩

end System

end Zscheme
