import Mathlib.Data.List.DropRight
import Mathlib.Data.List.Infix
import Zscheme.Scheme.Words

/-!
# Strings taken apart and put together

What the string procedures of the standard library do to any string.

* `stringSplit_stringJoin`: `string-split` and `string-join` are inverse;
* `tailN_iff`: `head-n` and `tail-n` give the first and the last lines if and only if
  there are as many lines as asked for, or the text is empty;
* `stringTrim_iff`: `string-trim` examines bytes one by one, so that it trims a string if
  and only if what it is to keep begins and ends with characters of one byte.
-/

namespace Zscheme

namespace Stdlib

open Prim

/-! ## Joining -/

/-- Joined strings have the delimiter between their characters. -/
theorem toList_stringJoin (l : List String) (delim : String) :
    (stringJoin l delim).toList = delim.toList.intercalate (l.map String.toList) := by
  rcases l with _ | ⟨s, l⟩
  · rfl
  rw [stringJoin]
  induction l generalizing s with
  | nil => simp
  | cons t l ih =>
    rw [List.foldl_cons, ih, List.map_cons, List.map_cons, List.map_cons,
      List.intercalate_cons_cons]
    rcases l with _ | ⟨u, l⟩ <;> simp [List.intercalate_cons_cons]

theorem stringJoin_eq (l : List String) (delim : String) :
    stringJoin l delim = delim.intercalate l := by
  rw [← String.toList_inj, toList_stringJoin, String.toList_intercalate]

/-! ## Splitting -/

/-- What is before the first occurrence does not contain the text. -/
theorem indexOf_eq_some {n cs : List Char} {i : Nat} (hn : n ≠ [])
    (h : indexOf n cs = some i) :
    ∃ a b, cs = a ++ (n ++ b) ∧ bytes a = i ∧ ¬ n <:+: a := by
  induction cs generalizing i with
  | nil =>
    rw [indexOf, if_neg (by simpa using hn)] at h
    cases h
  | cons c cs ih =>
    rw [indexOf] at h
    split at h
    · next hprefix =>
      obtain ⟨b, hb⟩ := List.isPrefixOf_iff_prefix.1 hprefix
      cases h
      exact ⟨[], b, hb.symm, rfl, fun h => hn (List.infix_nil.1 h)⟩
    · next hprefix =>
      obtain ⟨j, hj, rfl⟩ := Option.map_eq_some_iff.1 h
      obtain ⟨a, b, rfl, hbytes, ha⟩ := ih hj
      refine ⟨c :: a, b, rfl, by rw [bytes_cons, hbytes, Nat.add_comm], fun hinfix => ?_⟩
      rcases List.infix_cons_iff.1 hinfix with hstart | hinfix
      · exact hprefix (List.isPrefixOf_iff_prefix.2 (hstart.trans (List.prefix_append (c :: a) _)))
      · exact ha hinfix

variable [Evaluator]

/-- The loop of `string-split` takes the characters that are left apart. -/
theorem stringSplitLoop_pieces {delim : String} (hdelim : delim ≠ "") (fuel : Nat)
    (cs : List Char) (acc : List String) (hfuel : bytes cs < fuel) :
    ∃ pieces : List (List Char), pieces ≠ [] ∧ (∀ p ∈ pieces, ¬ delim.toList <:+: p) ∧
      delim.toList.intercalate pieces = cs ∧
      stringSplitLoop delim fuel (.ofList cs) acc = .ok (acc.reverse ++ pieces.map .ofList) := by
  have hne : delim.toList ≠ [] := mt String.toList_eq_nil_iff.1 hdelim
  induction fuel generalizing cs acc with
  | zero => omega
  | succ fuel ih =>
    rw [stringSplitLoop, stringIndex, String.toList_ofList]
    rcases hindex : indexOf delim.toList cs with _ | i
    · have hcs : ¬ delim.toList <:+: cs := by
        rw [← indexOf_isSome, hindex]
        exact Bool.false_ne_true
      exact ⟨[cs], List.cons_ne_nil _ _, by simpa using hcs, List.intercalate_singleton, by simp⟩
    · -- The next piece ends at the first occurrence of the delimiter.
      obtain ⟨a, b, rfl, rfl, ha⟩ := indexOf_eq_some hne hindex
      have hpos : 0 < bytes delim.toList := by
        rw [bytes_toList]
        exact Nat.pos_of_ne_zero (mt String.utf8ByteSize_eq_zero_iff.1 hdelim)
      have hbefore : substring (.ofList (a ++ (delim.toList ++ b))) 0 (bytes a) =
          .ok (.ofList a) := by
        simpa using substring_append [] a (delim.toList ++ b)
      have hafter : substring (.ofList (a ++ (delim.toList ++ b)))
          (bytes a + stringLength delim) (bytes (a ++ (delim.toList ++ b))) = .ok (.ofList b) := by
        have := substring_append (a ++ delim.toList) b []
        rwa [List.append_nil, bytes_append a, bytes_toList, List.append_assoc] at this
      have hb : bytes b < fuel := by
        rw [bytes_append, bytes_append] at hfuel
        omega
      obtain ⟨pieces, hpieces, hall, hjoin, hloop⟩ := ih b (.ofList a :: acc) hb
      refine ⟨a :: pieces, List.cons_ne_nil _ _, List.forall_mem_cons.2 ⟨ha, hall⟩, ?_, ?_⟩
      · rw [List.intercalate_cons_of_ne_nil hpieces, hjoin, List.append_assoc]
      · simp only [stringLength_ofList, hbefore, hafter, bind, Except.bind]
        rw [hloop]
        simp

/-- A string that was split is what its pieces join to. -/
theorem stringSplit_pieces (s : String) {delim : String} (hdelim : delim ≠ "") :
    ∃ pieces, stringSplit s delim = .ok pieces ∧ pieces ≠ [] ∧
      (∀ p ∈ pieces, stringContains p delim = false) ∧ stringJoin pieces delim = s := by
  have hfuel : bytes s.toList < stringLength s + 1 := by
    rw [bytes_toList]
    exact Nat.lt_succ_self _
  obtain ⟨pieces, hne, hall, hjoin, hloop⟩ :=
    stringSplitLoop_pieces hdelim (stringLength s + 1) s.toList [] hfuel
  rw [String.ofList_toList] at hloop
  refine ⟨pieces.map .ofList, hloop, by simpa using hne, ?_, ?_⟩
  · rw [List.forall_mem_map]
    intro p hp
    rw [Bool.eq_false_iff, Ne, stringContains_iff, String.toList_ofList]
    exact hall p hp
  · rw [← String.toList_inj, toList_stringJoin, List.map_map, ← hjoin]
    simp

/-- Pieces without the delimiter are what their join is split into. -/
theorem stringSplit_join {l : List String} {d : Char} (hl : l ≠ [])
    (h : ∀ p ∈ l, stringContains p (.singleton d) = false) :
    stringSplit (stringJoin l (.singleton d)) (.singleton d) = .ok l := by
  have hmem : ∀ p ∈ l.map String.toList, d ∉ p := by
    rw [List.forall_mem_map]
    intro p hp hd
    refine Bool.eq_false_iff.1 (h p hp) ((stringContains_iff _ _).2 ?_)
    rw [String.toList_singleton]
    exact (List.singleton_infix_iff d p.toList).2 hd
  rw [stringSplit_eq, toList_stringJoin, String.toList_singleton,
    List.splitOn_intercalate d hmem (by simpa using hl), List.map_map]
  simp

/-- `string-split` and `string-join` are inverse. -/
theorem stringSplit_stringJoin :
    (∀ s delim : String, delim ≠ "" → ∃ pieces, stringSplit s delim = .ok pieces ∧ pieces ≠ [] ∧
      (∀ p ∈ pieces, stringContains p delim = false) ∧ stringJoin pieces delim = s) ∧
    ∀ (l : List String) (d : Char), d.utf8Size = 1 → l ≠ [] →
      (∀ p ∈ l, stringContains p (.singleton d) = false) →
      stringSplit (stringJoin l (.singleton d)) (.singleton d) = .ok l :=
  ⟨fun s _ hdelim => stringSplit_pieces s hdelim, fun _ _ _ hl h => stringSplit_join hl h⟩

/-- An evaluator that reads no numbers and refuses to cut a character. -/
@[reducible] def plain : Evaluator where
  primError prim _ := prim ++ ": invalid arguments"
  unsetPath path := path ++ " is not set"
  downcase s := s
  floatText _ := ""
  readNumber _ := none
  displayText _ := ""
  errMsg _ := ""
  cutRaises := true
  equal? v w := v = w || v.null? && w.null?
  equal?_comm v w := by simp only [eq_comm (a := v), Bool.and_comm v.null?]
  equal?_str v s := by simp [SchemeVal.null?]
  equal?_bool v b := by simp [SchemeVal.null?]

omit [Evaluator] in
/-- Adjacent delimiters, and a delimiter of two characters. -/
theorem stringSplit_stringJoin_lamp :
    let _ := plain
    (∃ pieces, stringSplit "a, b, , c" ", " = .ok pieces ∧ pieces ≠ [] ∧
        (∀ p ∈ pieces, stringContains p ", " = false) ∧ stringJoin pieces ", " = "a, b, , c") ∧
      stringSplit (stringJoin ["blå", "", "lampe"] " ") " " = .ok ["blå", "", "lampe"] := by
  intro _
  have hjoin :=
    stringSplit_stringJoin.2 ["blå", "", "lampe"] ' ' rfl (by decide) (by decide +kernel)
  exact ⟨stringSplit_stringJoin.1 "a, b, , c" ", " (by decide), hjoin⟩

/-! ## Lines -/

/-- The lines of a text. -/
def lines (text : String) : List String := (text.toList.splitOn '\n').map .ofList

/-- `string-lines` -/
def stringLines (s : String) : Except String (List String) := stringSplit s "\n"

/-- `string-unlines` -/
def stringUnlines (l : List String) : String := stringJoin l "\n"

namespace Views

variable {α : Type}

/-- `take` -/
def take : Int → List α → List α
  | _, [] => []
  | n, x :: xs => if n = 0 then [] else x :: take (n - 1) xs

/-- `drop`. A count below zero never becomes zero. -/
def drop : Int → List α → List α
  | _, [] => []
  | n, x :: xs => if n = 0 then x :: xs else drop (n - 1) xs

/-- `head-n` -/
def headN (n : Int) (text : String) : Except String String := do
  return stringUnlines (take n (← stringLines text))

/-- `tail-n` -/
def tailN (n : Int) (text : String) : Except String String := do
  let lines ← stringLines text
  return stringUnlines (drop (lines.length - n) lines)

omit [Evaluator] in
theorem take_ofNat (n : Nat) (l : List α) : take n l = l.take n := by
  induction l generalizing n with
  | nil => simp [take]
  | cons x l ih =>
    cases n with
    | zero => rfl
    | succ n =>
      rw [take, if_neg (by omega), List.take_succ_cons, ← ih]
      simp

omit [Evaluator] in
theorem drop_ofNat (n : Nat) (l : List α) : drop n l = l.drop n := by
  induction l generalizing n with
  | nil => simp [drop]
  | cons x l ih =>
    cases n with
    | zero => rfl
    | succ n =>
      rw [drop, if_neg (by omega), List.drop_succ_cons, ← ih]
      simp

omit [Evaluator] in
/-- Nothing is left if the count is below zero. -/
theorem drop_of_neg {n : Int} (hn : n < 0) (l : List α) : drop n l = [] := by
  induction l generalizing n with
  | nil => rfl
  | cons x l ih => rw [drop, if_neg (by omega), ih (by omega)]

theorem stringLines_eq (text : String) : stringLines text = .ok (lines text) :=
  stringSplit_eq text '\n'

omit [Evaluator] in
theorem intercalate_lines (text : String) : "\n".intercalate (lines text) = text := by
  rw [← String.toList_inj, String.toList_intercalate, lines, List.map_map]
  simp

/-- `head-n` always gives the first lines. -/
theorem headN_eq (n : Nat) (text : String) :
    headN n text = .ok ("\n".intercalate ((lines text).take n)) := by
  rw [headN, stringLines_eq]
  exact congrArg Except.ok (by rw [stringUnlines, take_ofNat, stringJoin_eq])

theorem tailN_of_le {n : Nat} {text : String} (h : n ≤ (lines text).length) :
    tailN n text = .ok ("\n".intercalate ((lines text).rtake n)) := by
  have hcount : ((lines text).length : Int) - n = ((lines text).length - n : Nat) := by omega
  rw [tailN, stringLines_eq]
  exact congrArg Except.ok (by rw [hcount, stringUnlines, drop_ofNat, stringJoin_eq, List.rtake])

/-- If more lines are asked for than there are, none is given. -/
theorem tailN_of_lt {n : Nat} {text : String} (h : (lines text).length < n) :
    tailN n text = .ok "" := by
  rw [tailN, stringLines_eq]
  exact congrArg Except.ok (by rw [stringUnlines, drop_of_neg (by omega), stringJoin])

/-- `head-n` gives the first lines and `tail-n` the last lines, as many as asked for or as
    there are, if and only if there are as many, or the text is empty. -/
theorem tailN_iff (n : Nat) (text : String) :
    (headN n text = .ok ("\n".intercalate ((lines text).take n)) ∧
        tailN n text = .ok ("\n".intercalate ((lines text).rtake n))) ↔
      n ≤ (lines text).length ∨ text = "" := by
  rw [and_iff_right (headN_eq n text)]
  rcases Nat.lt_or_ge (lines text).length n with hn | hn
  · have hall : (lines text).rtake n = lines text := by
      rw [List.rtake, Nat.sub_eq_zero_of_le hn.le, List.drop_zero]
    rw [tailN_of_lt hn, hall, intercalate_lines, or_iff_right hn.not_ge]
    exact ⟨fun h => (Except.ok.inj h).symm, fun h => congrArg Except.ok h.symm⟩
  · exact iff_of_true (tailN_of_le hn) (.inl hn)

omit [Evaluator] in
/-- Two lines of one are none. -/
theorem tailN_too_many :
    let _ := plain
    tailN 2 "lamp" = .ok "" ∧ "\n".intercalate ((lines "lamp").rtake 2) = "lamp" := by
  decide +kernel

end Views

/-! ## Trimming -/

/-- The characters that `string-trim` removes. -/
def blank (c : Char) : Bool := c ∈ [' ', '\t', '\n', '\r']

/-- Whether the byte at an index is a blank, as `string-trim` finds it out. -/
def blankAt? (s : String) (i : Nat) : Except String Bool := do
  return stringContains " \t\n\r" (← substring s i (i + 1))

/-- The loop of `string-trim` for the start. -/
def trimStart (s : String) : Nat → Nat → Except String Nat
  | 0, i => refuse "string-trim" [s, .int (.ofNat i)]
  | fuel + 1, i => do
    if i = stringLength s then return i
    else if !(← blankAt? s i) then return i
    else trimStart s fuel (i + 1)

/-- The loop of `string-trim` for the end, which can get below zero. -/
def trimEnd (s : String) (start : Nat) : Nat → Int → Except String Int
  | 0, i => refuse "string-trim" [s, .int (.ofInt i)]
  | fuel + 1, i => do
    if i < start then return i + 1
    else if !(← blankAt? s i.toNat) then return i + 1
    else trimEnd s start fuel (i - 1)

/-- `string-trim`. Either loop looks at every byte at most once. -/
def stringTrim (s : String) : Except String String := do
  let len := stringLength s
  let start ← trimStart s (len + 1) 0
  let stop ← trimEnd s start (len + 1) (len - 1)
  substring s start stop.toNat

/-- The string without the blanks at its ends. -/
def trimmed (s : String) : String := .ofList ((s.toList.dropWhile blank).rdropWhile blank)

/-- What begins and ends with characters of one byte, between blanks. -/
def OneByteEnds (s : String) : Prop :=
  (∀ c ∈ s.toList.find? (!blank ·), c.utf8Size = 1) ∧
    ∀ c ∈ s.toList.reverse.find? (!blank ·), c.utf8Size = 1

section Trim

omit [Evaluator]

theorem utf8Size_of_blank {c : Char} (h : blank c = true) : c.utf8Size = 1 := by
  have h : c ∈ [' ', '\t', '\n', '\r'] := of_decide_eq_true h
  simp only [List.mem_cons, List.not_mem_nil, or_false] at h
  rcases h with rfl | rfl | rfl | rfl <;> rfl

theorem stringContains_blank (c : Char) : stringContains " \t\n\r" (.singleton c) = blank c := by
  rw [Bool.eq_iff_iff, stringContains_iff, String.toList_singleton, List.singleton_infix_iff]
  simp [blank]

end Trim

/-- A character of one byte is examined. -/
theorem blankAt?_of_one {c : Char} (hc : c.utf8Size = 1) (a b : List Char) :
    blankAt? (.ofList (a ++ c :: b)) (bytes a) = .ok (blank c) := by
  have hsub : substring (.ofList (a ++ c :: b)) (bytes a) (bytes a + 1) = .ok (.singleton c) := by
    have := substring_append a [c] b
    rwa [bytes_append, bytes_cons, hc, List.append_assoc] at this
  rw [blankAt?, hsub]
  exact congrArg Except.ok (stringContains_blank c)

omit [Evaluator] in
/-- Only a character of one byte is a slice of one byte. -/
theorem slice_one {cs : List Char} {i : Nat} {t : String}
    (h : slice (.ofList cs) i (i + 1) = some t) :
    ∃ a c b, cs = a ++ c :: b ∧ bytes a = i ∧ c.utf8Size = 1 := by
  obtain ⟨a, t, b, hcs, ha, ht, -⟩ := slice_eq_some h
  rw [String.toList_ofList] at hcs
  rw [Nat.add_sub_cancel_left] at ht
  rcases t with _ | ⟨c, t⟩
  · cases ht
  have hc : 0 < c.utf8Size := c.utf8Size_pos
  rw [bytes_cons] at ht
  exact ⟨a, c, t ++ b, by rw [hcs, List.append_assoc]; rfl, ha, by omega⟩

omit [Evaluator] in
/-- No slice of one byte begins within another character. -/
theorem slice_of_cut {c : Char} (hc : c.utf8Size ≠ 1) (a b : List Char) {i : Nat}
    (hle : bytes a ≤ i) (hlt : i < bytes a + c.utf8Size) :
    slice (.ofList (a ++ c :: b)) i (i + 1) = none := by
  rw [Option.eq_none_iff_forall_ne_some]
  intro t ht
  obtain ⟨a', d, b', heq, rfl, hd⟩ := slice_one ht
  -- the two characters are the same, or one of them ends before the other begins
  rcases List.append_eq_append_iff.1 heq with ⟨e, rfl, hrest⟩ | ⟨e, rfl, hrest⟩
  · rcases e with _ | ⟨x, e⟩
    · exact hc ((List.cons.inj hrest).1 ▸ hd)
    · obtain ⟨rfl, -⟩ := List.cons.inj hrest
      rw [bytes_append, bytes_cons] at hlt
      omega
  · rcases e with _ | ⟨x, e⟩
    · exact hc ((List.cons.inj hrest).1 ▸ hd)
    · obtain ⟨rfl, -⟩ := List.cons.inj hrest
      rw [bytes_append, bytes_cons] at hle
      omega

/-- So there the examination raises, or finds a blank. -/
theorem blankAt?_of_cut {c : Char} (hc : c.utf8Size ≠ 1) (a b : List Char) {i : Nat}
    (hle : bytes a ≤ i) (hlt : i < bytes a + c.utf8Size) :
    (∃ e, blankAt? (.ofList (a ++ c :: b)) i = .error e) ∨
      blankAt? (.ofList (a ++ c :: b)) i = .ok true := by
  rw [blankAt?, substring_of_cut (slice_of_cut hc a b hle hlt)]
  split
  · exact .inl ⟨_, rfl⟩
  · exact .inr (by rfl)

/-- What a loop does with the byte it examines. -/
theorem examine {s : String} {i : Nat} {c : Char} (h : blankAt? s i = .ok (blank c))
    {α : Type} (p q : Except String α) :
    (do if !(← blankAt? s i) then p else q) = if blank c then q else p := by
  rw [h]
  simp only [bind, Except.bind]
  cases blank c <;> rfl

section Loops

/-- The start is not before where the loop began. -/
theorem trimStart_le {s : String} {fuel i k : Nat} (h : trimStart s fuel i = .ok k) : i ≤ k := by
  induction fuel generalizing i with
  | zero => cases h
  | succ fuel ih =>
    rw [trimStart] at h
    split at h
    · exact (Except.ok.inj h).le
    · rcases hblank : blankAt? s i with e | b
      · rw [hblank] at h
        cases h
      · rw [hblank] at h
        cases b with
        | false => exact (Except.ok.inj h).le
        | true => exact (Nat.le_succ i).trans (ih h)

/-- The end is not after where the loop began. -/
theorem trimEnd_le {s : String} {start fuel : Nat} {i k : Int}
    (h : trimEnd s start fuel i = .ok k) : k ≤ i + 1 := by
  induction fuel generalizing i with
  | zero => cases h
  | succ fuel ih =>
    rw [trimEnd] at h
    split at h
    · exact Int.le_of_eq (Except.ok.inj h).symm
    · rcases hblank : blankAt? s i.toNat with e | b
      · rw [hblank] at h
        cases h
      · rw [hblank] at h
        cases b with
        | false => exact Int.le_of_eq (Except.ok.inj h).symm
        | true =>
          have := ih h
          omega

variable {p r : List Char}

/-- The start is after the first blanks. -/
theorem trimStart_eq {fuel : Nat} (hfuel : r.length < fuel)
    (hr : ∀ c ∈ r.find? (!blank ·), c.utf8Size = 1) :
    trimStart (.ofList (p ++ r)) fuel (bytes p) = .ok (bytes (p ++ r.takeWhile blank)) := by
  induction r generalizing p fuel with
  | nil =>
    obtain ⟨fuel, rfl⟩ : ∃ n, fuel = n + 1 := ⟨fuel - 1, by omega⟩
    rw [trimStart, if_pos (by rw [stringLength_ofList, List.append_nil]), List.takeWhile_nil,
      List.append_nil]
    rfl
  | cons c r ih =>
    obtain ⟨fuel, rfl⟩ : ∃ n, fuel = n + 1 := ⟨fuel - 1, by omega⟩
    have hne : bytes p ≠ stringLength (.ofList (p ++ c :: r)) := by
      have hpos : 0 < c.utf8Size := c.utf8Size_pos
      rw [stringLength_ofList, bytes_append, bytes_cons]
      omega
    have hc : c.utf8Size = 1 := by
      by_cases hblank : blank c = true
      · exact utf8Size_of_blank hblank
      · exact hr c (by rw [List.find?_cons_of_pos (by simpa using hblank)]; rfl)
    rw [trimStart, if_neg hne, examine (blankAt?_of_one hc p r), List.takeWhile_cons]
    by_cases hblank : blank c = true
    · have hstep : bytes p + 1 = bytes (p ++ [c]) := by rw [bytes_concat, hc]
      have := ih (p := p ++ [c]) (by simpa using hfuel)
        (by rwa [List.find?_cons_of_neg (by simpa using hblank)] at hr)
      rw [if_pos hblank, if_pos hblank, hstep]
      simpa using this
    · rw [if_neg hblank, if_neg hblank, List.append_nil]
      rfl

/-- A character that the start is to be before, and that has several bytes, is cut: the
    start is not there. -/
theorem trimStart_cut {fuel k : Nat}
    (hstart : trimStart (.ofList (p ++ r)) fuel (bytes p) = .ok k) {c : Char}
    (hfind : r.find? (!blank ·) = some c) (hc : c.utf8Size ≠ 1) :
    bytes (p ++ r.takeWhile blank) < k := by
  induction r generalizing p fuel with
  | nil => cases hfind
  | cons d r ih =>
    obtain _ | fuel := fuel
    · cases hstart
    have hpos : 0 < d.utf8Size := d.utf8Size_pos
    have hne : bytes p ≠ stringLength (.ofList (p ++ d :: r)) := by
      rw [stringLength_ofList, bytes_append, bytes_cons]
      omega
    rw [trimStart, if_neg hne] at hstart
    by_cases hblank : blank d = true
    · have hd := utf8Size_of_blank hblank
      have hstep : bytes p + 1 = bytes (p ++ [d]) := by rw [bytes_concat, hd]
      rw [List.find?_cons_of_neg (by simpa using hblank)] at hfind
      rw [examine (blankAt?_of_one hd p r), if_pos hblank, hstep] at hstart
      rw [List.takeWhile_cons_of_pos hblank]
      simpa using ih (p := p ++ [d]) (by simpa using hstart) hfind
    · rw [List.find?_cons_of_pos (by simpa using hblank)] at hfind
      obtain rfl := Option.some.inj hfind
      rw [List.takeWhile_cons_of_neg hblank, List.append_nil]
      rcases blankAt?_of_cut hc p r (Nat.le_refl _) (by omega) with ⟨e, he⟩ | he
      · rw [he] at hstart
        cases hstart
      · rw [he] at hstart
        exact trimStart_le hstart

variable {q : List Char}

/-- The end is before the last blanks. -/
theorem trimEnd_eq {fuel : Nat} (hfuel : r.length < fuel)
    (hr : ∀ c ∈ r.reverse.find? (!blank ·), c.utf8Size = 1) :
    trimEnd (.ofList (p ++ (r ++ q))) (bytes p) fuel (bytes (p ++ r) - 1) =
      .ok (bytes (p ++ r.rdropWhile blank)) := by
  induction r using List.reverseRecOn generalizing q fuel with
  | nil =>
    obtain ⟨fuel, rfl⟩ : ∃ n, fuel = n + 1 := ⟨fuel - 1, by omega⟩
    rw [trimEnd, List.append_nil, if_pos (by omega), List.rdropWhile_nil, List.append_nil,
      Int.sub_add_cancel]
    rfl
  | append_singleton r c ih =>
    obtain ⟨fuel, rfl⟩ : ∃ n, fuel = n + 1 := ⟨fuel - 1, by omega⟩
    rw [List.reverse_concat] at hr
    rw [List.length_append, List.length_singleton] at hfuel
    have hless : r.length < fuel := by omega
    have hc : c.utf8Size = 1 := by
      by_cases hblank : blank c = true
      · exact utf8Size_of_blank hblank
      · exact hr c (by rw [List.find?_cons_of_pos (by simpa using hblank)]; rfl)
    have hstep : ((bytes (p ++ (r ++ [c])) : Nat) : Int) - 1 = (bytes (p ++ r) : Nat) := by
      rw [← List.append_assoc, bytes_concat, hc]
      omega
    have hge : ¬ ((bytes (p ++ r) : Nat) : Int) < bytes p := by
      rw [bytes_append]
      omega
    have htext : p ++ (r ++ [c] ++ q) = (p ++ r) ++ c :: q := by simp
    rw [hstep, trimEnd, if_neg hge, Int.toNat_natCast, htext,
      examine (blankAt?_of_one hc (p ++ r) q), List.rdropWhile_concat]
    by_cases hblank : blank c = true
    · rw [List.find?_cons_of_neg (by simpa using hblank)] at hr
      rw [if_pos hblank, if_pos hblank, ← ih (q := c :: q) hless hr,
        List.append_assoc]
    · rw [if_neg hblank, if_neg hblank, ← hstep, Int.sub_add_cancel]
      rfl

/-- A character that the end is to be after, and that has several bytes, is cut: the end
    is not there. -/
theorem trimEnd_cut {fuel : Nat} {k : Int}
    (hend : trimEnd (.ofList (p ++ (r ++ q))) (bytes p) fuel (bytes (p ++ r) - 1) = .ok k)
    {c : Char} (hfind : r.reverse.find? (!blank ·) = some c) (hc : c.utf8Size ≠ 1) :
    k < bytes (p ++ r.rdropWhile blank) := by
  induction r using List.reverseRecOn generalizing q fuel with
  | nil => cases hfind
  | append_singleton r d ih =>
    obtain _ | fuel := fuel
    · cases hend
    rw [List.reverse_concat] at hfind
    have hpos : 0 < d.utf8Size := d.utf8Size_pos
    have hlast : bytes (p ++ (r ++ [d])) = bytes (p ++ r) + d.utf8Size := by
      rw [← List.append_assoc, bytes_concat]
    have htext : p ++ (r ++ [d] ++ q) = (p ++ r) ++ d :: q := by simp
    have hge : ¬ ((bytes (p ++ (r ++ [d])) : Nat) : Int) - 1 < bytes p := by
      rw [hlast, bytes_append]
      omega
    rw [trimEnd, if_neg hge, htext] at hend
    rw [List.rdropWhile_concat]
    by_cases hblank : blank d = true
    · have hd := utf8Size_of_blank hblank
      have hstep : ((bytes (p ++ (r ++ [d])) : Nat) : Int) - 1 = (bytes (p ++ r) : Nat) := by
        rw [hlast, hd]
        omega
      rw [List.find?_cons_of_neg (by simpa using hblank)] at hfind
      rw [hstep, Int.toNat_natCast, examine (blankAt?_of_one hd (p ++ r) q), if_pos hblank,
        List.append_assoc] at hend
      rw [if_pos hblank]
      exact ih (q := d :: q) hend hfind
    · rw [List.find?_cons_of_pos (by simpa using hblank)] at hfind
      obtain rfl := Option.some.inj hfind
      have hindex : (((bytes (p ++ (r ++ [d])) : Nat) : Int) - 1).toNat =
          bytes (p ++ r) + d.utf8Size - 1 := by rw [hlast]; omega
      rw [if_neg hblank, hlast]
      rw [hindex] at hend
      rcases blankAt?_of_cut hc (p ++ r) q (i := bytes (p ++ r) + d.utf8Size - 1)
        (by omega) (by omega) with ⟨e, he⟩ | he
      · rw [he] at hend
        cases hend
      · rw [he] at hend
        have := trimEnd_le hend
        rw [hlast] at this
        omega

/-- Wherever the start is, blanks at the end are not kept. -/
theorem trimEnd_before {start fuel : Nat} {k : Int} (hr : ∀ c ∈ r, blank c = true)
    (hend : trimEnd (.ofList (p ++ (r ++ q))) start fuel (bytes (p ++ r) - 1) = .ok k) :
    k ≤ start ∨ k ≤ bytes p := by
  induction r using List.reverseRecOn generalizing q fuel with
  | nil =>
    have := trimEnd_le hend
    rw [List.append_nil] at this
    omega
  | append_singleton r d ih =>
    obtain _ | fuel := fuel
    · cases hend
    have hd : blank d = true := hr d (by simp)
    have hstep : ((bytes (p ++ (r ++ [d])) : Nat) : Int) - 1 = (bytes (p ++ r) : Nat) := by
      rw [← List.append_assoc, bytes_concat, utf8Size_of_blank hd]
      omega
    have htext : p ++ (r ++ [d] ++ q) = (p ++ r) ++ d :: q := by simp
    rw [hstep, trimEnd] at hend
    split at hend
    · cases hend
      omega
    · rw [Int.toNat_natCast, htext, examine (blankAt?_of_one (utf8Size_of_blank hd) (p ++ r) q),
        if_pos hd, List.append_assoc] at hend
      exact ih (q := d :: q) (fun c hc => hr c (by simp [hc])) hend

end Loops

omit [Evaluator] in
theorem length_le_bytes (cs : List Char) : cs.length ≤ bytes cs := by
  induction cs with
  | nil => exact Nat.le_refl 0
  | cons c cs ih =>
    have hpos : 0 < c.utf8Size := c.utf8Size_pos
    rw [List.length_cons, bytes_cons]
    omega

omit [Evaluator] in
/-- The last of the characters is found without the first blanks. -/
theorem find?_dropWhile (cs : List Char) :
    (cs.dropWhile blank).reverse.find? (!blank ·) = cs.reverse.find? (!blank ·) := by
  have hnone : (cs.takeWhile blank).reverse.find? (!blank ·) = none := by
    rw [List.find?_eq_none]
    intro c hc
    simpa using List.mem_takeWhile_imp (List.mem_reverse.1 hc)
  conv_rhs => rw [← List.takeWhile_append_dropWhile (p := blank) (l := cs)]
  rw [List.reverse_append, List.find?_append, hnone, Option.or_none]

/-- Characters are not what is between two indices that leave one of them out. -/
theorem substring_ne {p core q : List Char} {c : Char} (hc : c ∈ core)
    {start : Nat} {stop : Int}
    (hstart : bytes p ≤ start) (hstop : stop ≤ start ∨ stop ≤ bytes (p ++ core))
    (hless : bytes p < start ∨ stop < bytes (p ++ core)) :
    substring (.ofList (p ++ core ++ q)) start stop.toNat ≠ .ok (.ofList core) := by
  intro h
  rcases substring_eq_ok.1 h with hslice | ⟨-, -, htext⟩
  · obtain ⟨a, t, b, -, -, ht, heq⟩ := slice_eq_some hslice
    obtain rfl : core = t := String.ofList_injective heq
    have hpos : 0 < bytes core := by
      have := length_le_bytes core
      have := List.length_pos_of_mem hc
      omega
    rw [bytes_append] at hstop hless
    omega
  · have hnil : core = [] := by simpa using congrArg String.toList htext
    rw [hnil] at hc
    cases hc

/-- A string is trimmed if and only if what it is to keep begins and ends with characters
    of one byte. -/
theorem stringTrim_iff (s : String) : stringTrim s = .ok (trimmed s) ↔ OneByteEnds s := by
  obtain ⟨cs, rfl⟩ : ∃ cs, s = .ofList cs := ⟨s.toList, String.ofList_toList.symm⟩
  let p := cs.takeWhile blank
  let r := cs.dropWhile blank
  let core := r.rdropWhile blank
  let q := r.rtakeWhile blank
  have hr : r = core ++ q := List.rdropWhile_append_rtakeWhile.symm
  have hcs : cs = p ++ r := List.takeWhile_append_dropWhile.symm
  have hq : ∀ c ∈ q, blank c = true := fun c hc => List.mem_rtakeWhile_imp hc
  have hlen : cs.length < bytes cs + 1 := Nat.lt_succ_of_le (length_le_bytes cs)
  have hrlen : r.length < bytes cs + 1 :=
    (List.IsSuffix.length_le (List.dropWhile_suffix blank)).trans_lt hlen
  -- a character that is no blank is kept
  have hkept {c : Char} (hc : c ∈ cs) (hblank : blank c ≠ true) : c ∈ core := by
    rw [hcs, hr, List.mem_append, List.mem_append] at hc
    rcases hc with hc | hc | hc
    · exact absurd (List.mem_takeWhile_imp hc) hblank
    · exact hc
    · exact absurd (hq c hc) hblank
  rw [OneByteEnds, trimmed, String.toList_ofList, ← find?_dropWhile]
  constructor
  · intro h
    rw [stringTrim, stringLength_ofList] at h
    rcases hfirst : trimStart (.ofList cs) (bytes cs + 1) 0 with e | start
    · rw [hfirst] at h
      cases h
    rw [hfirst] at h
    simp only [bind, Except.bind] at h
    rcases hlast : trimEnd (.ofList cs) start (bytes cs + 1) (bytes cs - 1) with e | stop
    · rw [hlast] at h
      cases h
    rw [hlast] at h
    have hsub : substring (.ofList (p ++ core ++ q)) start stop.toNat = .ok (.ofList core) := by
      rwa [List.append_assoc, ← hr, ← hcs]
    have hstop : stop ≤ start ∨ stop ≤ bytes (p ++ core) := by
      have hlast' := hlast
      rw [hcs, hr, ← List.append_assoc] at hlast'
      exact trimEnd_before (p := p ++ core) (q := []) hq (by rwa [List.append_nil])
    have hnot (c : Char) (hc : c ∈ cs.find? (!blank ·)) : c.utf8Size = 1 := by
      by_contra hsize
      have hlate := trimStart_cut (p := []) hfirst hc hsize
      rw [List.nil_append] at hlate
      have hblank := by simpa using List.find?_some hc
      exact substring_ne (hkept (List.mem_of_find?_eq_some hc) (by simp [hblank])) hlate.le hstop
        (.inl hlate) hsub
    refine ⟨hnot, fun c hc => ?_⟩
    by_contra hsize
    have hstart : start = bytes p := by
      have := trimStart_eq (p := []) hlen hnot
      rw [List.nil_append, List.nil_append, bytes_nil, hfirst] at this
      exact Except.ok.inj this
    rw [hstart] at hsub hlast hstop
    have hearly := trimEnd_cut (p := p) (q := []) (k := stop)
      (by rwa [List.append_nil, ← hcs]) hc hsize
    have hblank := by simpa using List.find?_some hc
    have hmem : c ∈ cs := hcs ▸ List.mem_append_right p
      (List.mem_reverse.1 (List.mem_of_find?_eq_some hc))
    exact substring_ne (hkept hmem (by simp [hblank])) (Nat.le_refl _) hstop (.inr hearly) hsub
  · rintro ⟨hstart, hend⟩
    have hfirst := trimStart_eq (p := []) hlen hstart
    simp only [List.nil_append, bytes_nil] at hfirst
    have hlast := trimEnd_eq (p := p) (q := []) hrlen hend
    have hkeep := substring_append p core q
    rw [List.append_assoc, ← hr, ← hcs] at hkeep
    rw [List.append_nil, ← hcs] at hlast
    rw [stringTrim, stringLength_ofList, hfirst]
    simp only [bind, Except.bind]
    rw [hlast]
    exact hkeep

omit [Evaluator] in
/-- A name that begins with a character of two bytes, where a cut is refused and where it
    is empty. -/
theorem trim_cuts :
    (let _ := plain
     stringTrim " Østen" = .error "substring: invalid arguments") ∧
    (let _ : Evaluator := { plain with cutRaises := false }
     stringTrim " Østen" = .ok "sten") ∧
    trimmed " Østen" = "Østen" := by
  refine ⟨?_, ?_, ?_⟩ <;> decide +kernel

end Stdlib

end Zscheme
