import Zscheme.Scheme.Strings

/-!
# Numerals

How numbers are written is left to the evaluator. What is said of it is that a numeral is
read as a number, and the text of a number as that number (`NumeralLaws`). `decimal` is an
evaluator that writes integers in decimal.
-/

namespace Zscheme

namespace Stdlib

open Prim

/-- What is said of numerals. -/
structure NumeralLaws [Evaluator] : Prop where
  number : ∀ text v, Evaluator.readNumber text = some v → v.number? = true
  read : ∀ v text, numberToString v = .ok text → Evaluator.readNumber text = some v

/-- The number that some digits are. -/
def readDigits (cs : List Char) : Option Nat :=
  if cs ≠ [] ∧ cs.all Char.isDigit then some (Nat.ofDigitChars 10 cs 0) else none

/-- Integers in decimal. What follows a `#` is the bits of a float. -/
def readDecimal (text : String) : Option SchemeVal :=
  match text.toList with
  | '-' :: cs => (readDigits cs).map fun (n : Nat) => .int (.ofInt (-n))
  | '#' :: cs => (readDigits cs).map fun (n : Nat) => .float (.ofNat n)
  | cs => (readDigits cs).map fun (n : Nat) => .int (.ofInt n)

/-- An evaluator that reads the numbers it writes. -/
@[reducible] def decimal : Evaluator :=
  { plain with floatText := fun bits => "#" ++ bits.toNat.repr, readNumber := readDecimal }

theorem readDigits_repr (n : Nat) : readDigits n.repr.toList = some n := by
  have hdigits : ∀ c ∈ Nat.toDigits 10 n, c.isDigit = true :=
    fun c => Nat.isDigit_of_mem_toDigits (by decide) (by decide)
  rw [readDigits, Nat.toList_repr, if_pos ⟨Nat.toDigits_ne_nil, List.all_eq_true.2 hdigits⟩,
    Nat.ofDigitChars_ten_toDigits]

theorem readDecimal_repr (n : Nat) : readDecimal n.repr = some (.int (.ofInt n)) := by
  have hread := readDigits_repr n
  rw [readDecimal]
  split
  · next h =>
    rw [h] at hread
    simp [readDigits] at hread
  · next h =>
    rw [h] at hread
    simp [readDigits] at hread
  · rw [hread]
    rfl

theorem readDecimal_int (n : Int64) : readDecimal (toString n.toInt) = some (.int n) := by
  rw [Int.toString_eq_repr, Int.repr_eq_if]
  split
  · next h => rw [readDecimal_repr, Int.toNat_of_nonneg h, Int64.ofInt_toInt]
  · next h =>
    have hneg : -((-n.toInt).toNat : Int) = n.toInt := by omega
    have hlist : ("-" ++ (-n.toInt).toNat.repr).toList = '-' :: (-n.toInt).toNat.repr.toList :=
      String.toList_append
    rw [readDecimal, hlist]
    simp only [readDigits_repr, Option.map_some, hneg, Int64.ofInt_toInt]

theorem readDecimal_float (bits : UInt64) :
    readDecimal ("#" ++ bits.toNat.repr) = some (.float bits) := by
  have hlist : ("#" ++ bits.toNat.repr).toList = '#' :: bits.toNat.repr.toList :=
    String.toList_append
  rw [readDecimal, hlist]
  simp only [readDigits_repr, Option.map_some, UInt64.ofNat_toNat]

theorem decimal_laws : @NumeralLaws decimal := by
  refine @NumeralLaws.mk decimal (fun text v h => ?_) fun v text h => ?_
  · have h : readDecimal text = some v := h
    rw [readDecimal] at h
    split at h <;> obtain ⟨n, -, rfl⟩ := Option.map_eq_some_iff.1 h <;> rfl
  · cases v with
    | int n =>
      cases h
      exact readDecimal_int n
    | float bits =>
      cases h
      exact readDecimal_float bits
    | str | bytes | bool | nil | list | map => cases h

end Stdlib

end Zscheme
