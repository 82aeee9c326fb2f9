import Zscheme.Scheme.Stdlib

/-!
# Splitting strings

The primitives index strings by bytes, and what `substring` gives where an index would
cut a character is the evaluator's choice. `string-split` only ever uses the indices that
`string-index` returns, so that it never cuts one: it is the splitting of the list of
characters (`stringSplit_eq`). So is `string-contains` about consecutive characters
(`stringContains_iff`).
-/

namespace Zscheme

namespace Stdlib

open Prim

/-! ## Bytes of lists of characters -/

/-- The number of bytes of some characters. -/
def bytes (cs : List Char) : Nat := (String.ofList cs).utf8ByteSize

@[simp] theorem bytes_nil : bytes [] = 0 := rfl

@[simp] theorem bytes_cons (c : Char) (cs : List Char) :
    bytes (c :: cs) = c.utf8Size + bytes cs := by
  rw [bytes, String.ofList_cons, String.utf8ByteSize_append, String.utf8ByteSize_singleton]
  rfl

theorem bytes_append (a b : List Char) : bytes (a ++ b) = bytes a + bytes b := by
  rw [bytes, String.ofList_append, String.utf8ByteSize_append]
  rfl

theorem bytes_concat (cs : List Char) (d : Char) : bytes (cs ++ [d]) = bytes cs + d.utf8Size := by
  rw [bytes_append, bytes_cons, bytes_nil]
  rfl

theorem stringLength_singleton (c : Char) : stringLength (String.singleton c) = c.utf8Size :=
  String.utf8ByteSize_singleton

theorem stringLength_ofList (cs : List Char) : stringLength (String.ofList cs) = bytes cs := rfl

theorem bytes_toList (s : String) : bytes s.toList = stringLength s := by
  rw [bytes, String.ofList_toList]
  rfl

/-- An index at which a character begins can be cut at. -/
theorem cut_append (a b : List Char) : cut (a ++ b) (bytes a) = some (a, b) := by
  induction a with
  | nil => exact cut.eq_1 b
  | cons c a ih =>
    have hpos : 0 < c.utf8Size := c.utf8Size_pos
    obtain ⟨n, hn⟩ : ∃ n, bytes (c :: a) = n + 1 := ⟨bytes (c :: a) - 1, by rw [bytes_cons]; omega⟩
    have hle : c.utf8Size ≤ n + 1 := by rw [← hn, bytes_cons]; omega
    have hsub : n + 1 - c.utf8Size = bytes a := by rw [← hn, bytes_cons]; omega
    rw [hn, List.cons_append, cut, if_pos hle, hsub, ih]
    rfl

/-- Nowhere else can it be cut. -/
theorem cut_eq_some {cs a b : List Char} {n : Nat} :
    cut cs n = some (a, b) ↔ cs = a ++ b ∧ bytes a = n := by
  refine ⟨fun h => ?_, fun ⟨hcs, hn⟩ => hcs ▸ hn ▸ cut_append a b⟩
  induction cs, n using cut.induct generalizing a with
  | case1 cs =>
    obtain ⟨rfl, rfl⟩ := Prod.mk.inj (Option.some.inj ((cut.eq_1 cs).symm.trans h))
    exact ⟨rfl, rfl⟩
  | case2 n => cases h
  | case3 c cs n hle ih =>
    rw [cut, if_pos hle, Option.map_eq_some_iff] at h
    obtain ⟨⟨a', b'⟩, hcut, hp⟩ := h
    obtain ⟨rfl, rfl⟩ := Prod.mk.inj hp
    obtain ⟨rfl, hbytes⟩ := ih hcut
    refine ⟨rfl, ?_⟩
    change bytes (c :: a') = n + 1
    rw [bytes_cons]
    omega
  | case4 c cs n hgt =>
    rw [cut, if_neg hgt] at h
    cases h

/-- A substring between two indices at which characters begin. -/
theorem slice_append (a b c : List Char) :
    slice (String.ofList (a ++ b ++ c)) (bytes a) (bytes (a ++ b)) = some (String.ofList b) := by
  have hle : bytes a ≤ bytes (a ++ b) := by rw [bytes_append]; omega
  have hsub : bytes (a ++ b) - bytes a = bytes b := by rw [bytes_append]; omega
  rw [slice, if_pos hle, String.toList_ofList, List.append_assoc, cut_append, Option.bind_some,
    hsub, cut_append]
  rfl

/-- What a substring is taken from. -/
theorem slice_eq_some {s t : String} {start stop : Nat} (h : slice s start stop = some t) :
    ∃ a b c, s.toList = a ++ b ++ c ∧ bytes a = start ∧ bytes b = stop - start ∧
      t = String.ofList b := by
  rw [slice] at h
  split at h
  case isFalse => cases h
  case isTrue =>
  obtain ⟨⟨a, rest⟩, hcut, h⟩ := Option.bind_eq_some_iff.1 h
  obtain ⟨⟨b, c⟩, hcut', rfl⟩ := Option.map_eq_some_iff.1 h
  obtain ⟨hs, ha⟩ := cut_eq_some.1 hcut
  obtain ⟨hrest, hb⟩ := cut_eq_some.1 hcut'
  refine ⟨a, b, c, ?_, ha, hb, rfl⟩
  rw [hs, List.append_assoc]
  exact congrArg (a ++ ·) hrest

/-- The index of the first occurrence of a character. -/
theorem indexOf_append {a : List Char} {d : Char} (h : d ∉ a) (b : List Char) :
    indexOf [d] (a ++ d :: b) = some (bytes a) := by
  induction a with
  | nil => simp [indexOf, List.isPrefixOf]
  | cons c a ih =>
    obtain ⟨hc, ha⟩ := not_or.1 fun hmem => h (List.mem_cons.2 hmem)
    have hne : (d == c) = false := beq_eq_false_iff_ne.2 hc
    simp [indexOf, List.isPrefixOf, hne, ih ha, Nat.add_comm]

theorem indexOf_eq_none {a : List Char} {d : Char} (h : d ∉ a) : indexOf [d] a = none := by
  induction a with
  | nil => rfl
  | cons c a ih =>
    obtain ⟨hc, ha⟩ := not_or.1 fun hmem => h (List.mem_cons.2 hmem)
    have hne : (d == c) = false := beq_eq_false_iff_ne.2 hc
    simp [indexOf, List.isPrefixOf, hne, ih ha]

theorem stringIndex_append {a : List Char} {d : Char} (h : d ∉ a) (b : List Char) :
    stringIndex (.ofList (a ++ d :: b)) (.singleton d) = some (bytes a) := by
  rw [stringIndex, String.toList_ofList, String.toList_singleton, indexOf_append h]

theorem stringIndex_eq_none {a : List Char} {d : Char} (h : d ∉ a) :
    stringIndex (.ofList a) (.singleton d) = none := by
  rw [stringIndex, String.toList_ofList, String.toList_singleton, indexOf_eq_none h]

/-! ## Searching -/

theorem indexOf_isSome (needle cs : List Char) :
    (indexOf needle cs).isSome = true ↔ needle <:+: cs := by
  induction cs with
  | nil => cases needle <;> simp [indexOf]
  | cons c cs ih =>
    rw [indexOf, List.infix_cons_iff, ← ih]
    split
    · next h => simp [List.isPrefixOf_iff_prefix.1 h]
    · next h =>
      have hn : ¬ needle <+: c :: cs := fun hp => h (List.isPrefixOf_iff_prefix.2 hp)
      simp [hn]

/-- A text is contained where its characters stand one after the other. -/
theorem stringContains_iff (hay needle : String) :
    stringContains hay needle = true ↔ needle.toList <:+: hay.toList := indexOf_isSome _ _

/-- Nothing is contained across a character it does not have. -/
theorem infix_append_cons {n a b : List Char} {d : Char} (h : d ∉ n) :
    n <:+: a ++ d :: b ↔ n <:+: a ∨ n <:+: b := by
  -- a prefix ends before the character, as it does not have it
  have hleft : ∀ a, n <+: a ++ d :: b → n <+: a := by
    intro a hn
    have hd : a ++ [d] <+: a ++ d :: b := ⟨b, by simp⟩
    rcases List.prefix_or_prefix_of_prefix hn hd with hn | hd
    · exact (List.prefix_concat_iff.1 hn).resolve_left fun heq => h (by simp [heq])
    · exact absurd (hd.subset (by simp)) h
  refine ⟨fun hn => ?_, ?_⟩
  · induction a with
    | nil =>
      rcases List.infix_cons_iff.1 hn with hn | hn
      · exact .inl (hleft [] hn).isInfix
      · exact .inr hn
    | cons c a ih =>
      rcases List.infix_cons_iff.1 hn with hn | hn
      · exact .inl (hleft (c :: a) hn).isInfix
      · exact (ih hn).imp_left fun hn => List.infix_cons_iff.2 (.inr hn)
  · rintro (hn | hn)
    · exact hn.trans List.infix_append_left
    · exact hn.trans ((List.suffix_cons d b).isInfix.trans List.infix_append_right)

/-! ## Splitting -/

variable [Evaluator]

theorem substring_append (a b c : List Char) :
    substring (String.ofList (a ++ b ++ c)) (bytes a) (bytes (a ++ b)) = .ok (String.ofList b) := by
  rw [substring, slice_append]

theorem substring_of_cut {s : String} {start stop : Nat} (h : slice s start stop = none) :
    substring s start stop =
      if Evaluator.cutRaises then refuse "substring" [s, .int (.ofNat start), .int (.ofNat stop)]
      else .ok "" := by
  rw [substring, h]

/-- A substring is a slice, or empty where there is none and this does not raise. -/
theorem substring_eq_ok {s t : String} {start stop : Nat} :
    substring s start stop = .ok t ↔ slice s start stop = some t ∨
      slice s start stop = none ∧ Evaluator.cutRaises = false ∧ t = "" := by
  rcases h : slice s start stop with _ | t'
  · rw [substring_of_cut h]
    by_cases hcut : Evaluator.cutRaises = true
    · simp [hcut, refuse]
    · simp [hcut, eq_comm]
  · simp [substring, h]

/-- The characters of a substring are some of the string. -/
theorem substring_subset {s t : String} {start stop : Nat} (h : substring s start stop = .ok t) :
    t.toList ⊆ s.toList := by
  rcases substring_eq_ok.1 h with h | ⟨-, -, rfl⟩
  · obtain ⟨a, b, c, hs, -, -, rfl⟩ := slice_eq_some h
    simp [hs]
  · simp

/-- What is before a character. -/
theorem substring_before (a b : List Char) (d : Char) :
    substring (String.ofList (a ++ d :: b)) 0 (bytes a) = .ok (String.ofList a) := by
  simpa using substring_append [] a (d :: b)

/-- What is after a character. -/
theorem substring_after (a b : List Char) (d : Char) :
    substring (String.ofList (a ++ d :: b)) (bytes (a ++ [d])) (bytes (a ++ d :: b)) =
      .ok (String.ofList b) := by
  simpa using substring_append (a ++ [d]) b []

/-- The loop of `string-split` at one character, from the characters that are left. -/
theorem stringSplitLoop_eq (d : Char) (fuel : Nat) (cs : List Char) (acc : List String)
    (hfuel : bytes cs < fuel) :
    stringSplitLoop (String.singleton d) fuel (String.ofList cs) acc =
      .ok (acc.reverse ++ (cs.splitOn d).map String.ofList) := by
  induction fuel generalizing cs acc with
  | zero => omega
  | succ fuel ih =>
    rw [stringSplitLoop]
    by_cases h : d ∈ cs
    · -- The next piece ends at the first occurrence of `d`.
      obtain ⟨a, b, rfl, ha⟩ := List.eq_append_cons_of_mem h
      have hdelim : bytes a + stringLength (String.singleton d) = bytes (a ++ [d]) := by
        rw [bytes_concat, stringLength_singleton]
      have hb : bytes b < fuel := by
        have hpos : 0 < d.utf8Size := d.utf8Size_pos
        rw [bytes_append, bytes_cons] at hfuel
        omega
      rw [stringIndex_append ha]
      simp only [hdelim, stringLength_ofList, substring_after, substring_before, bind, Except.bind]
      rw [ih b _ hb, List.splitOn_append_cons_self_of_not_mem ha]
      simp
    · rw [stringIndex_eq_none h, List.splitOn_eq_singleton h]
      simp

omit [Evaluator] in
/-- The pieces do not have the character, and every one but the first takes a byte. -/
theorem splitOn_pieces (d : Char) (cs : List Char) :
    (∀ piece ∈ cs.splitOn d, d ∉ piece) ∧ (cs.splitOn d).length ≤ bytes cs + 1 := by
  induction cs with
  | nil => simp
  | cons c cs ih =>
    obtain ⟨first, rest, hsplit⟩ := List.exists_cons_of_ne_nil (List.splitOn_ne_nil d cs)
    have hpos : 0 < c.utf8Size := c.utf8Size_pos
    rw [hsplit, List.forall_mem_cons, List.length_cons] at ih
    rw [List.splitOn_cons_eq_if_modifyHead, hsplit, bytes_cons]
    split
    · refine ⟨List.forall_mem_cons.2 ⟨List.not_mem_nil, List.forall_mem_cons.2 ih.1⟩, ?_⟩
      simp only [List.length_cons]
      omega
    · next hne =>
      have hd : d ≠ c := fun heq => hne (beq_iff_eq.2 heq.symm)
      rw [List.modifyHead_cons, List.length_cons]
      refine ⟨List.forall_mem_cons.2 ⟨?_, ih.1.2⟩, by omega⟩
      exact fun hmem => (List.mem_cons.1 hmem).elim hd ih.1.1

/-- `string-split` at one character splits the characters, and never raises. -/
theorem stringSplit_eq (s : String) (d : Char) : stringSplit s (String.singleton d) =
    .ok ((s.toList.splitOn d).map String.ofList) := by
  have h : bytes s.toList < stringLength s + 1 := by
    rw [bytes_toList]
    exact Nat.lt_succ_self _
  have := stringSplitLoop_eq d (stringLength s + 1) s.toList [] h
  rwa [String.ofList_toList] at this

end Stdlib

end Zscheme
