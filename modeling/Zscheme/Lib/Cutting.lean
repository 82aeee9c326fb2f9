import Mathlib.Data.List.Basic

/-!
# Cutting a list into blocks

A list is cut, from the left, into *blocks*: a block ends with the first element at which
it is complete, and elements of a kind to be skipped are dropped where no block is under
way. What is complete is decided by the block alone (`Cutting`).

* `Cutting.blocks`, `Cutting.rest`: the blocks of a list, and the block under way at its end.
* `Cutting.stages`: what the blocks are after each element, where completeness is decided.
* `filterMap_blocks_eq_iff`: two cuttings give the same texts of blocks if and only if they
  decide alike at each stage, when a text tells a block from those that extend it.
-/

namespace Zscheme

/-- A way to cut a list into blocks. -/
structure Cutting (α : Type*) where
  /-- The elements that are dropped where no block is under way. -/
  skip : α → Bool
  /-- The blocks that end with their last element. -/
  complete : List α → Bool

namespace Cutting

variable {α β : Type*} (c d : Cutting α)

/-- The blocks of a list, with a block under way. -/
def blocksFrom : List α → List α → List (List α)
  | _, [] => []
  | block, a :: l =>
    if block.isEmpty && c.skip a then blocksFrom [] l
    else if c.complete (block ++ [a]) then (block ++ [a]) :: blocksFrom [] l
    else blocksFrom (block ++ [a]) l

/-- The block under way at the end of a list, with one under way at its start. -/
def restFrom : List α → List α → List α
  | block, [] => block
  | block, a :: l =>
    if block.isEmpty && c.skip a then restFrom [] l
    else if c.complete (block ++ [a]) then restFrom [] l
    else restFrom (block ++ [a]) l

/-- The blocks, as far as they go at each element that is not dropped. -/
def stagesFrom : List α → List α → List (List α)
  | _, [] => []
  | block, a :: l =>
    if block.isEmpty && c.skip a then stagesFrom [] l
    else (block ++ [a]) ::
      stagesFrom (if c.complete (block ++ [a]) then [] else block ++ [a]) l

/-- The blocks of a list. -/
abbrev blocks : List α → List (List α) := c.blocksFrom []

/-- The incomplete block at the end of a list. -/
abbrev rest : List α → List α := c.restFrom []

/-- The stages of the blocks of a list. -/
abbrev stages : List α → List (List α) := c.stagesFrom []

variable {c d}

/-- The elements that are not skipped are in the blocks, each in one and in order. -/
theorem filter_flatten_blocks (block l : List α) :
    ((c.blocksFrom block l).flatten ++ c.restFrom block l).filter (fun a => !c.skip a) =
      (block ++ l).filter (fun a => !c.skip a) := by
  induction l generalizing block with
  | nil => simp [blocksFrom, restFrom]
  | cons a l ih =>
    simp only [blocksFrom, restFrom]
    split_ifs with hskip hcomplete
    · obtain ⟨hblock, ha⟩ := Bool.and_eq_true_iff.1 hskip
      obtain rfl := List.isEmpty_iff.1 hblock
      simp [ih, ha]
    · rw [List.flatten_cons, List.append_assoc, List.filter_append, ih, ← List.filter_append]
      simp
    · rw [ih]
      simp

/-- The elements of a stage are in the list, in order. -/
theorem sublist_of_mem_stages {block l b : List α} (h : b ∈ c.stagesFrom block l) :
    b.Sublist (block ++ l) := by
  induction l generalizing block with
  | nil => exact absurd h List.not_mem_nil
  | cons a l ih =>
    rw [stagesFrom] at h
    split_ifs at h with hskip hcomplete
    · exact (ih h).trans (.trans (List.sublist_cons_self a l) (List.sublist_append_right _ _))
    · rcases List.mem_cons.1 h with rfl | h
      · exact List.sublist_append_left _ l |>.trans (by simp)
      · exact (ih h).trans (.trans (List.sublist_cons_self a l) (List.sublist_append_right _ _))
    · rcases List.mem_cons.1 h with rfl | h
      · exact List.sublist_append_left _ l |>.trans (by simp)
      · simpa using ih h

/-- The next block of a list extends the one under way. -/
theorem blocksFrom_cases {block : List α} (hblock : block ≠ []) (l : List α) :
    c.blocksFrom block l = [] ∨
      ∃ m bs, c.complete (block ++ m) = true ∧ c.blocksFrom block l = (block ++ m) :: bs := by
  induction l generalizing block with
  | nil => exact .inl rfl
  | cons a l ih =>
    have hempty : (block.isEmpty && c.skip a) = false := by
      rw [List.isEmpty_eq_false_iff.2 hblock, Bool.false_and]
    rw [blocksFrom, if_neg (by simp [hempty])]
    split_ifs with hcomplete
    · exact .inr ⟨[a], _, hcomplete, rfl⟩
    · rcases ih (by simp : block ++ [a] ≠ []) with hnil | ⟨m, bs, hm, heq⟩
      · exact .inl hnil
      · exact .inr ⟨a :: m, bs, by simpa using hm, by simpa using heq⟩

/-- Where the first cutting completes a block and the second does not, the texts of the
    block and of whatever the second makes of it are different. -/
def Separated (text : List α → Option β) (c d : Cutting α) : Prop :=
  ∀ block, c.complete block = true → d.complete block = false →
    (text block).isSome = true ∧ ∀ m, d.complete (block ++ m) = true →
      (text (block ++ m)).isSome = true ∧ text (block ++ m) ≠ text block

/-- Where the cuttings first disagree, their texts differ. -/
theorem Separated.ne {text : List α → Option β} (h : Separated text c d) {block : List α}
    (hblock : block ≠ []) (hc : c.complete block = true) (hd : d.complete block = false)
    (l : List α) (bs : List (List α)) :
    (block :: bs).filterMap text ≠ (d.blocksFrom block l).filterMap text := by
  obtain ⟨hsome, hext⟩ := h block hc hd
  obtain ⟨t, ht⟩ := Option.isSome_iff_exists.1 hsome
  rw [List.filterMap_cons_some ht]
  rcases blocksFrom_cases (c := d) hblock l with hnil | ⟨m, bs', hm, heq⟩
  · simp [hnil]
  · obtain ⟨hsome', hne⟩ := hext m hm
    obtain ⟨u, hu⟩ := Option.isSome_iff_exists.1 hsome'
    have htu : t ≠ u := fun htu => hne (by rw [hu, ht, htu])
    simp [heq, hu, htu]

/-- Two cuttings that skip alike give the same texts if and only if they decide alike at
    each stage. -/
theorem filterMap_blocks_eq_iff {text : List α → Option β} (hskip : c.skip = d.skip)
    (hcd : Separated text c d) (hdc : Separated text d c) (block l : List α) :
    (c.blocksFrom block l).filterMap text = (d.blocksFrom block l).filterMap text ↔
      ∀ b ∈ d.stagesFrom block l, c.complete b = d.complete b := by
  induction l generalizing block with
  | nil => simp [blocksFrom, stagesFrom]
  | cons a l ih =>
    have hne : block ++ [a] ≠ [] := by simp
    simp only [blocksFrom, stagesFrom, hskip]
    split_ifs with hs hc hd hd
    · exact ih []
    -- both complete the block
    · rw [List.forall_mem_cons, and_iff_right (hc.trans hd.symm), ← ih]
      cases ht : text (block ++ [a]) <;> simp [ht]
    -- one of them goes on
    · refine iff_of_false (hcd.ne hne hc (Bool.eq_false_iff.2 hd) l _) fun hall => hd ?_
      rw [← hall _ List.mem_cons_self, hc]
    · refine iff_of_false (hdc.ne hne hd (Bool.eq_false_iff.2 hc) l _).symm fun hall => hc ?_
      rw [hall _ List.mem_cons_self, hd]
    -- both go on
    · have hcd' : c.complete (block ++ [a]) = d.complete (block ++ [a]) := by
        rw [Bool.eq_false_iff.2 hc, Bool.eq_false_iff.2 hd]
      rw [List.forall_mem_cons, and_iff_right hcd', ← ih]

end Cutting

end Zscheme
