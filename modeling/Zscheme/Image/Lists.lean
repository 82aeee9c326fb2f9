import Mathlib.Algebra.Order.Ring.Int
import Mathlib.Data.Nat.Fib.Basic
import Zscheme.Image.Library
import Zscheme.Scheme.Strings

/-!
# The other list procedures of the generic library

What the procedures do that are not given a procedure. Integers are exact as long as they
fit (`Standing.int`); a list that is longer than any integer that fits is out of reach.
-/

namespace Zscheme

namespace Image

open Lambda Avatar

/-! ## Integers -/

/-- The integer fits. -/
def Fits (i : Int) : Prop := Int64.minValue.toInt ≤ i ∧ i ≤ Int64.maxValue.toInt

/-- The range of the machine integers. -/
theorem fits_iff {i : Int} : Fits i ↔ -2 ^ 63 ≤ i ∧ i < 2 ^ 63 := by
  rw [Fits, Int64.toInt_minValue, Int64.toInt_maxValue]
  omega

/-- An integer. -/
def Value.ofInt (i : Int) : Value := atom (.int (.ofInt i))

/-- Integers that fit. -/
def Standing.int : Standing Int := ⟨fun _ i v => Fits i ∧ v = Value.ofInt i, fun _ h => h⟩

/-- An integer in range is the machine integer that is made of it. -/
theorem toInt_of_fits {i : Int} (h : Fits i) : (Int64.ofInt i).toInt = i :=
  Int64.toInt_ofInt_of_le (fits_iff.1 h).1 (fits_iff.1 h).2

/-- Integers in range are told apart. -/
theorem ofInt_inj {i j : Int} (hi : Fits i) (hj : Fits j) :
    Int64.ofInt i = Int64.ofInt j ↔ i = j := by
  rw [← Int64.toInt_inj, toInt_of_fits hi, toInt_of_fits hj]

namespace Machine

variable [Host] {M : Machine} {i j : Int}

omit [Host] in
/-- A sum in range is the value of it. -/
theorem fits_eq (h : Fits i) : fits i = some (.int (.ofInt i)) := if_pos h

/-- `+` of integers whose sum is in range. -/
theorem prims_add (hi : Fits i) (hj : Fits j) (h : Fits (i + j)) :
    M.prims.call (.native (.builtin .add)) [Value.ofInt i, Value.ofInt j] =
      pure (.done (Value.ofInt (i + j))) := by
  have hvalue : M.value .add [Value.ofInt i, Value.ofInt j] = .ok (Value.ofInt (i + j)) := by
    simp only [value, datum, Value.ofInt, Value.atom, arith?, toInt_of_fits hi, toInt_of_fits hj,
      fits_eq h]
    rfl
  simp only [Interp.Prims.call, prims, hvalue]

/-- `-` of integers whose difference is in range. -/
theorem prims_sub (hi : Fits i) (hj : Fits j) (h : Fits (i - j)) :
    M.prims.call (.native (.builtin .sub)) [Value.ofInt i, Value.ofInt j] =
      pure (.done (Value.ofInt (i - j))) := by
  have hvalue : M.value .sub [Value.ofInt i, Value.ofInt j] = .ok (Value.ofInt (i - j)) := by
    simp only [value, datum, Value.ofInt, Value.atom, arith?, toInt_of_fits hi, toInt_of_fits hj,
      fits_eq h]
    rfl
  simp only [Interp.Prims.call, prims, hvalue]

/-- `=` of integers in range. -/
theorem prims_eq (hi : Fits i) (hj : Fits j) :
    M.prims.call (.native (.builtin .eq)) [Value.ofInt i, Value.ofInt j] =
      pure (.done (Value.ofBool (decide (i = j)))) := by
  have hvalue : M.value .eq [Value.ofInt i, Value.ofInt j] =
      .ok (Value.ofBool (decide (i = j))) := by
    simp only [value, datum, Value.ofInt, Value.atom, arith?, ofInt_inj hi hj]
    rfl
  simp only [Interp.Prims.call, prims, hvalue]

/-- `<` of integers in range. -/
theorem prims_lt (hi : Fits i) (hj : Fits j) :
    M.prims.call (.native (.builtin .lt)) [Value.ofInt i, Value.ofInt j] =
      pure (.done (Value.ofBool (decide (i < j)))) := by
  have hvalue : M.value .lt [Value.ofInt i, Value.ofInt j] =
      .ok (Value.ofBool (decide (i < j))) := by
    simp only [value, datum, Value.ofInt, Value.atom, arith?, Int64.lt_iff_toInt_lt,
      toInt_of_fits hi, toInt_of_fits hj]
    rfl
  simp only [Interp.Prims.call, prims, hvalue]

omit [Host] in
/-- The arithmetic that the library uses is there. -/
theorem Globals.Provides.arithmetic {G : Globals} (hG : G.Provides) :
    G "+" = some (.native (.builtin .add)) ∧ G "-" = some (.native (.builtin .sub)) ∧
      G "=" = some (.native (.builtin .eq)) ∧ G "<" = some (.native (.builtin .lt)) := by
  have hcore := hG.core
  simp [core] at hcore
  simp [hcore]

omit [Host] in
/-- The integers that stand in the library. -/
theorem ofInt_zero : Value.atom (.int 0) = Value.ofInt 0 := rfl

omit [Host] in
theorem ofInt_one : Value.atom (.int 1) = Value.ofInt 1 := rfl

omit [Host] in
theorem ofInt_two : Value.atom (.int 2) = Value.ofInt 2 := rfl

attribute [local simp] ofInt_zero ofInt_one ofInt_two

/-! ## Loops -/

section

-- The equations by which code that only calls builtins on the way is evaluated.
attribute [local simp] Interp.Prims.tail Interp.Prims.values Interp.Prims.value List.lookup_cons
  Image.call cond nil Image.bool Image.int

variable {G : Globals} {h : List Value} {α : Type} {R : Standing α} {as : List α} {l : Value}

omit [Host] in
/-- What is at most a number in range is in range. -/
theorem fits_of_le {m n : Nat} (h : m ≤ n) (hn : Fits n) : Fits m := by
  rw [fits_iff] at *
  omega

omit [Host] in
theorem fits_zero : Fits 0 := fits_iff.2 (by omega)

omit [Host] in
theorem fits_one : Fits 1 := fits_iff.2 (by omega)

/-- The empty list has no first element. -/
theorem prims_car_nil (h : l.elements? = some []) : M.prims.call (.native (.builtin .car)) [l] =
    throw (M.refusal .car [l]) := by
  rcases l with ⟨_ | _, _⟩ | _ | _ <;> cases h <;> rfl

/-- The empty list has no rest. -/
theorem prims_cdr_nil (h : l.elements? = some []) : M.prims.call (.native (.builtin .cdr)) [l] =
    throw (M.refusal .cdr [l]) := by
  rcases l with ⟨_ | _, _⟩ | _ | _ <;> cases h <;> rfl

omit [Host] in
@[simp] theorem truthy_ofInt (i : Int) : (Value.ofInt i).truthy = true := rfl

/-- The loop of `length`, with what has been counted. -/
theorem lengthLoop_does (hG : G.Provides) {ρ : Interp.Locals SchemeVal Label Native} {f : Value}
    (hf : M.interp.Unfolds G h f ["l", "n"] (("loop", f) :: ρ)
      (.ite (Image.call "null?" ["l"]) "n"
        (Image.call "loop" [Image.call "cdr" ["l"], Image.call "+" ["n", Image.int 1]])))
    (hρ : ∀ x ∈ ["null?", "cdr", "+"], ρ.lookup x = none)
    (hl : (Standing.lists R).Holds h as l) {n : Nat} (hn : Fits ((n + as.length : Nat) : Int)) :
    M.interp.Does G h (.apply f [l, Value.ofInt n]) Standing.int
      (pure ((n + as.length : Nat) : Int)) := by
  induction as generalizing h l n with
  | nil =>
    refine hf h (List.prefix_refl h) _ rfl _ _ _ (M.prims.returns (v := Value.ofInt n) ?_ ⟨hn, rfl⟩)
    have hnull := Value.null?_of_elements? (Standing.lists_nil.1 hl)
    simp [hρ, hG.builtins, hnull]
  | cons a as ih =>
    obtain ⟨x, xs, rfl, hx, hxs⟩ := Standing.lists_cons.1 hl
    refine hf h (List.prefix_refl h) _ rfl _ _ _ ?_
    have hadd := prims_add (M := M) (i := n) (j := 1) (fits_of_le (by omega) hn)
      (fits_iff.2 (by omega)) (fits_of_le (m := n + 1) (by simp) hn)
    refine .branch (v := Value.ofBool false) (M.prims.gives (by simp [hρ, hG.builtins])) ?_
    have hcount : n + (a :: as).length = n + 1 + as.length := by
      rw [List.length_cons]
      omega
    rw [hcount] at hn ⊢
    refine Interp.Means.call (u := f) (M.prims.gives (by simp)) (M.prims.givesAll ?_) (ih hf hxs hn)
    simp [hρ, hG.builtins, Globals.Provides.arithmetic hG, hadd]

/-- `length` counts. -/
theorem length_performs (hG : G.Provides) (hl : (Standing.lists R).Holds h as l)
    (hlen : Fits as.length) :
    M.Performs G h "length" [l] Standing.int (pure (as.length : Int)) := by
  have hdef := hG.defines Source.length (by simp [stdlib]) (by decide)
  have hinit : M.interp.GivesAll G h (["lst"].zip [l]) ["lst", Image.int 0] [l, Value.ofInt 0] :=
    M.prims.givesAll (by simp)
  refine performs_of_body hdef rfl (hinit.loop fun heap hh loop hloop => ?_)
  have hdoes := lengthLoop_does (n := 0) hG hloop (by simp) (hl.mono hh) (by simpa using hlen)
  simpa using hdoes

/-- `append` copies the first list in front of the second. -/
theorem append_performs {bs : List α} {l' : Value} (hG : G.Provides)
    (hl : (Standing.lists R).Holds h as l) (hl' : (Standing.lists R).Holds h bs l') :
    M.Performs G h "append" [l, l'] (Standing.lists R) (pure (as ++ bs)) := by
  have hdef := hG.defines Source.append (by simp [stdlib]) (by decide)
  induction as generalizing h l with
  | nil =>
    refine performs_null hG hdef rfl rfl rfl rfl ?_
    rw [Value.null?_of_elements? (Standing.lists_nil.1 hl)]
    exact .var rfl hl'
  | cons a as ih =>
    obtain ⟨x, xs, rfl, hx, hxs⟩ := Standing.lists_cons.1 hl
    refine performs_null hG hdef rfl rfl rfl rfl ?_
    let ρ := [("a", Value.list (x :: xs)), ("b", l')]
    have hrest : M.interp.Means G h ρ (Image.call "append" [Image.call "cdr" ["a"], "b"])
        (Standing.lists R) (pure (as ++ bs)) :=
      (ih hxs hl').call rfl (M.prims.givesAll (by simp [ρ, hG.builtins]))
    simpa [ρ] using cons_means hG hx hrest rfl rfl rfl

/-- The loop of `reverse`, with what has been reversed. -/
theorem reverseLoop_does (hG : G.Provides) {ρ : Interp.Locals SchemeVal Label Native} {f : Value}
    (hf : M.interp.Unfolds G h f ["l", "acc"] (("loop", f) :: ρ)
      (.ite (Image.call "null?" ["l"]) "acc"
        (Image.call "loop" [Image.call "cdr" ["l"],
          Image.call "cons" [Image.call "car" ["l"], "acc"]])))
    (hρ : ∀ x ∈ ["null?", "cdr", "car", "cons"], ρ.lookup x = none) {bs : List α} {acc : Value}
    (hl : (Standing.lists R).Holds h as l) (hacc : (Standing.lists R).Holds h bs acc) :
    M.interp.Does G h (.apply f [l, acc]) (Standing.lists R) (pure (as.reverse ++ bs)) := by
  induction as generalizing h l bs acc with
  | nil =>
    refine hf h (List.prefix_refl h) _ rfl _ _ _ (M.prims.returns (v := acc) ?_ hacc)
    have hnull := Value.null?_of_elements? (Standing.lists_nil.1 hl)
    simp [hρ, hG.builtins, hnull]
  | cons a as ih =>
    obtain ⟨x, xs, rfl, hx, hxs⟩ := Standing.lists_cons.1 hl
    obtain ⟨us, hus, has⟩ := hacc
    refine hf h (List.prefix_refl h) _ rfl _ _ _ ?_
    refine .branch (v := Value.ofBool false) (M.prims.gives (by simp [hρ, hG.builtins])) ?_
    have hmore : (Standing.lists R).Holds h (a :: bs) (Value.list (x :: us)) :=
      ⟨_, rfl, .cons hx has⟩
    have hpush := ih hf hxs hmore
    rw [List.reverse_cons, List.append_assoc]
    refine Interp.Means.call (u := f) (M.prims.gives (by simp)) (M.prims.givesAll ?_) hpush
    simp [hρ, hG.builtins, prims_cons hus]

/-- `reverse` turns a list around. -/
theorem reverse_performs (hG : G.Provides) (hl : (Standing.lists R).Holds h as l) :
    M.Performs G h "reverse" [l] (Standing.lists R) (pure as.reverse) := by
  have hdef := hG.defines Source.reverse (by simp [stdlib]) (by decide)
  have hinit : M.interp.GivesAll G h (["lst"].zip [l]) ["lst", nil] [l, Value.list []] :=
    M.prims.givesAll (by simp)
  refine performs_of_body hdef rfl (hinit.loop fun heap hh loop hloop => ?_)
  have hdoes := reverseLoop_does hG hloop (by simp) (hl.mono hh)
    (Standing.lists_nil.2 (Value.elements?_list []))
  simpa using hdoes

/-- An element by its index; an index that is too large raises. -/
theorem listRef_performs (hG : G.Provides) (hl : (Standing.lists R).Holds h as l) {i : Int}
    (hi : Fits i) (hpos : 0 ≤ i) : ∃ msg, M.Performs G h "list-ref" [l, Value.ofInt i] R
      (as[i.toNat]?.elim (throw msg) pure) := by
  have hdef := hG.defines Source.listRef (by simp [stdlib]) (by decide)
  have harith := Globals.Provides.arithmetic hG
  induction as generalizing l i with
  | nil =>
    have heq := prims_eq (M := M) hi fits_zero
    have hempty := Standing.lists_nil.1 hl
    by_cases hzero : i = 0
    · subst hzero
      refine ⟨M.refusal .car [l], performs_of_body hdef rfl ?_⟩
      refine .branch (v := Value.ofBool true) (M.prims.gives ?_) (M.prims.raises ?_)
      · simp [harith, heq]
      · simp [hG.builtins, prims_car_nil hempty]
    · refine ⟨M.refusal .cdr [l], performs_of_body hdef rfl ?_⟩
      refine .branch (v := Value.ofBool false) (M.prims.gives ?_) (M.prims.raises ?_)
      · simp [harith, heq, hzero]
      · have hname : G "list-ref" = Source.listRef.value G := hdef
        simp [hG.builtins, hname, Define.value, Source.listRef, prims_cdr_nil hempty]
  | cons a as ih =>
    obtain ⟨x, xs, rfl, hx, hxs⟩ := Standing.lists_cons.1 hl
    have heq := prims_eq (M := M) hi fits_zero
    by_cases hzero : i = 0
    · subst hzero
      refine ⟨"", performs_of_body hdef rfl
        (.branch (v := Value.ofBool true) (M.prims.gives ?_) ?_)⟩
      · simp [harith, heq]
      · exact M.prims.returns (v := x) (by simp [hG.builtins]) hx
    · have hpred : Fits (i - 1) := by
        rw [fits_iff] at *
        omega
      obtain ⟨msg, hrest⟩ := ih hxs hpred (by omega)
      refine ⟨msg, performs_of_body hdef rfl
        (.branch (v := Value.ofBool false) (M.prims.gives ?_) ?_)⟩
      · simp [harith, heq, hzero]
      · obtain ⟨n, rfl⟩ : ∃ n : Nat, i = n + 1 := ⟨(i - 1).toNat, by omega⟩
        have hsub := prims_sub (M := M) hi fits_one hpred
        simpa using hrest.call rfl (M.prims.givesAll (by simp [hG.builtins, harith, hsub]))

/-- `length`, `append`, `reverse` and `list-ref` are what they are called, for lists of
    anything. -/
theorem lists_perform (hG : G.Provides) {bs : List α} {l' : Value}
    (hl : (Standing.lists R).Holds h as l) (hl' : (Standing.lists R).Holds h bs l') :
    (Fits as.length → M.Performs G h "length" [l] Standing.int (pure (as.length : Int))) ∧
    M.Performs G h "append" [l, l'] (Standing.lists R) (pure (as ++ bs)) ∧
    M.Performs G h "reverse" [l] (Standing.lists R) (pure as.reverse) ∧
    ∀ i : Int, Fits i → 0 ≤ i →
      ∃ msg, M.Performs G h "list-ref" [l, Value.ofInt i] R (as[i.toNat]?.elim (throw msg) pure) :=
  ⟨length_performs hG hl, append_performs hG hl hl', reverse_performs hG hl,
    fun _ hi hpos => listRef_performs hG hl hi hpos⟩

omit [Host] in
/-- A list with a procedure in it, in the image. -/
theorem lists_perform_car :
    let _ : Host := scripted "did:ma:me" fun _ _ _ => .ok .nil
    let car := Val.native (.builtin .car)
    let l := Value.list [car, Value.ofBool true]
    plain.Performs plain.combined [] "reverse" [l] (Standing.lists .self)
      (pure [Value.ofBool true, car]) := by
  intro _ car l
  have hl : (Standing.lists .self).Holds [] [car, Value.ofBool true] l :=
    ⟨_, rfl, .cons rfl (.cons rfl .nil)⟩
  exact (lists_perform (M := plain) (provides_combined plain) hl hl).2.2.1

/-! ## Numbers -/

/-- `fib` returns a number below two as it is. -/
theorem fib_performs_of_lt (hG : G.Provides) {i : Int} (hi : Fits i) (hlt : i < 2) :
    M.Performs G h "fib" [Value.ofInt i] Standing.int (pure i) := by
  have hdef := hG.defines Source.fib (by simp [stdlib]) (by decide)
  have hless := prims_lt (M := M) hi (fits_iff.2 (by omega) : Fits 2)
  refine performs_of_body hdef rfl (.branch (v := Value.ofBool true) (M.prims.gives ?_) ?_)
  · simp [Globals.Provides.arithmetic hG, hless, hlt]
  · exact M.prims.returns (v := Value.ofInt i) (by simp) ⟨hi, rfl⟩

/-- `fib`, as long as the result fits. -/
theorem fib_performs (hG : G.Provides) {n : Nat} (hn : Fits n) (hfib : Fits (Nat.fib n)) :
    M.Performs G h "fib" [Value.ofInt n] Standing.int (pure (Nat.fib n : Int)) := by
  induction n using Nat.twoStepInduction with
  | zero => exact fib_performs_of_lt hG hn (by omega)
  | one => exact fib_performs_of_lt hG hn (by omega)
  | more n ih ih' =>
    have hdef := hG.defines Source.fib (by simp [stdlib]) (by decide)
    have harith := Globals.Provides.arithmetic hG
    have htwo : Fits 2 := fits_iff.2 (by omega)
    have hless := prims_lt (M := M) hn htwo
    rw [Nat.fib_add_two] at hfib ⊢
    have hprev : Fits n := fits_of_le (by omega) hn
    have hnext : Fits (n + 1 : Nat) := fits_of_le (by omega) hn
    have hfirst := ih' hnext (fits_of_le (by omega) hfib)
    have hsecond := ih hprev (fits_of_le (by omega) hfib)
    obtain ⟨i, hi⟩ : ∃ i : Int, i = (n + 1 + 1 : Nat) := ⟨_, rfl⟩
    have hone : ((n + 1 : Nat) : Int) = i - 1 := by omega
    have htwo' : (n : Int) = i - 2 := by omega
    have hlarge : ¬i < 2 := by omega
    rw [hone] at hnext hfirst
    rw [htwo'] at hprev hsecond
    rw [← hi] at hn hless ⊢
    have hsub := prims_sub (M := M) hn fits_one hnext
    have hsub' := prims_sub (M := M) hn htwo hprev
    let ρ := [("n", Value.ofInt i)]
    refine performs_of_body hdef rfl (.branch (v := Value.ofBool false) (M.prims.gives ?_) ?_)
    · simp [harith, hless, hlarge]
    · have hplus : M.interp.Gives G h ρ (.var "+") (.native (.builtin .add)) :=
        M.prims.gives (by simp [ρ, harith])
      have hpred : M.interp.GivesAll G h ρ [Image.call "-" ["n", Image.int 1]]
          [Value.ofInt (i - 1)] :=
        M.prims.givesAll (by simp [ρ, harith, hsub])
      have hpred' : M.interp.GivesAll G h ρ [Image.call "-" ["n", Image.int 2]]
          [Value.ofInt (i - 2)] :=
        M.prims.givesAll (by simp [ρ, harith, hsub'])
      have happ := hplus.app₂ (S := Standing.int)
        (q := fun _ _ => pure ((Nat.fib n + Nat.fib (n + 1) : Nat) : Int))
        (hfirst.call rfl hpred).fix (hsecond.call rfl hpred').fix
        fun heap hh _ v _ u hv hu => by
          obtain ⟨hfits, rfl⟩ := hv
          obtain ⟨hfits', rfl⟩ := hu
          have hadd := prims_add (M := M) hfits hfits' (by rwa [add_comm, ← Nat.cast_add])
          refine builtin_does hadd ⟨hfib, ?_⟩
          rw [add_comm, ← Nat.cast_add]
      simpa [ρ] using happ

omit [Host] in
/-- The largest Fibonacci number that fits. -/
theorem fib_performs_of_fits :
    let _ : Host := scripted "did:ma:me" fun _ _ _ => .ok .nil
    plain.Performs plain.alone [] "fib" [Value.ofInt (92 : Nat)] Standing.int
      (pure (Nat.fib 92 : Int)) := by
  intro _
  have hfib : Nat.fib 92 < 2 ^ 63 := by decide +kernel
  exact fib_performs (M := plain) (provides_alone plain) (fits_iff.2 (by omega))
    (fits_iff.2 (by omega))

/-! ## Prefixes and suffixes by length -/

/-- `take` of the generic library: a count below zero takes everything. -/
theorem take_performs (hG : G.Provides) (hdef : G "take" = Source.take.value G)
    (hl : (Standing.lists R).Holds h as l) {i : Int} (hi : Fits i) (hend : Fits (i - as.length)) :
    M.Performs G h "take" [Value.ofInt i, l] (Standing.lists R)
      (pure (Stdlib.Views.take i as)) := by
  have harith := Globals.Provides.arithmetic hG
  induction as generalizing l i with
  | nil =>
    have hnull := Value.null?_of_elements? (Standing.lists_nil.1 hl)
    refine performs_of_body hdef rfl (M.prims.returns (v := Value.list []) ?_
      (Standing.lists_nil.2 rfl))
    simp [hG.builtins, hnull]
  | cons a as ih =>
    obtain ⟨x, xs, rfl, hx, hxs⟩ := Standing.lists_cons.1 hl
    have heq := prims_eq (M := M) hi fits_zero
    refine performs_of_body hdef rfl (.branch (v := Value.ofBool (decide (i = 0))) ?_ ?_)
    · exact M.prims.gives (by simp [hG.builtins, harith, heq])
    · by_cases hzero : i = 0
      · simpa [hzero, Stdlib.Views.take] using Interp.Means.lit (Standing.lists_nil.2 rfl)
      · obtain ⟨hpred, hend'⟩ : Fits (i - 1) ∧ Fits (i - 1 - as.length) := by
          rw [List.length_cons] at hend
          simp only [fits_iff] at *
          omega
        have hsub := prims_sub (M := M) hi fits_one hpred
        let ρ := [("n", Value.ofInt i), ("lst", Value.list (x :: xs))]
        have hrest : M.interp.Means G h ρ
            (Image.call "take" [Image.call "-" ["n", Image.int 1], Image.call "cdr" ["lst"]])
            (Standing.lists R) (pure (Stdlib.Views.take (i - 1) as)) :=
          (ih hxs hpred hend').call rfl (M.prims.givesAll (by simp [ρ, hG.builtins, harith, hsub]))
        simpa [ρ, hzero, Stdlib.Views.take] using cons_means hG hx hrest rfl rfl rfl

/-- `drop` of the generic library: a count below zero drops everything. -/
theorem drop_performs (hG : G.Provides) (hdef : G "drop" = Source.drop.value G)
    (hl : (Standing.lists R).Holds h as l) {i : Int} (hi : Fits i) (hend : Fits (i - as.length)) :
    M.Performs G h "drop" [Value.ofInt i, l] (Standing.lists R)
      (pure (Stdlib.Views.drop i as)) := by
  have harith := Globals.Provides.arithmetic hG
  induction as generalizing l i with
  | nil =>
    have hnull := Value.null?_of_elements? (Standing.lists_nil.1 hl)
    exact performs_of_body hdef rfl (M.prims.returns (v := l) (by simp [hG.builtins, hnull]) hl)
  | cons a as ih =>
    have hl' := hl
    obtain ⟨x, xs, rfl, hx, hxs⟩ := Standing.lists_cons.1 hl
    have heq := prims_eq (M := M) hi fits_zero
    refine performs_of_body hdef rfl (.branch (v := Value.ofBool (decide (i = 0))) ?_ ?_)
    · exact M.prims.gives (by simp [hG.builtins, harith, heq])
    · by_cases hzero : i = 0
      · simpa [hzero, Stdlib.Views.drop] using Interp.Means.var rfl hl'
      · obtain ⟨hpred, hend'⟩ : Fits (i - 1) ∧ Fits (i - 1 - as.length) := by
          rw [List.length_cons] at hend
          simp only [fits_iff] at *
          omega
        have hsub := prims_sub (M := M) hi fits_one hpred
        have hrest : M.interp.Means G h [("n", Value.ofInt i), ("lst", Value.list (x :: xs))]
            (Image.call "drop" [Image.call "-" ["n", Image.int 1], Image.call "cdr" ["lst"]])
            (Standing.lists R) (pure (Stdlib.Views.drop (i - 1) as)) :=
          (ih hxs hpred hend').call rfl (M.prims.givesAll (by simp [hG.builtins, harith, hsub]))
        simpa [hzero, Stdlib.Views.drop] using hrest

end

end Machine

/-! ## Data -/

/-- Data for what it is. -/
def Standing.data : Standing SchemeVal := .of Value.ofScheme

/-- What may be missing: `#f` then. -/
def Standing.orFalse {α : Type} (R : Standing α) : Standing (Option α) where
  Holds h o v := o.elim (v = Value.ofBool false) fun a => R.Holds h a v
  mono := by
    rintro h h' (_ | a) v hh hv
    · exact hv
    · exact R.mono hh hv

namespace Machine

variable [Host] {M : Machine} {x y : SchemeVal}

/-- `equal?` is that of the evaluator. -/
theorem prims_equal :
    M.prims.call (.native (.builtin .equal?)) [Value.ofScheme x, Value.ofScheme y] =
      pure (.done (Value.ofBool (Evaluator.equal? x y))) := by
  have hvalue : M.value .equal? [Value.ofScheme x, Value.ofScheme y] =
      .ok (Value.ofBool (Evaluator.equal? x y)) := by
    simp only [value, datum, Value.toScheme?_ofScheme]
    rfl
  simp only [Interp.Prims.call, prims, hvalue]

omit [Host] in
theorem Globals.Provides.equal {G : Globals} (hG : G.Provides) :
    G "equal?" = some (.native (.builtin .equal?)) :=
  hG.core ("equal?", .equal?) (by simp [core])

section

-- The equations by which code that only calls builtins on the way is evaluated.
attribute [local simp] Interp.Prims.tail Interp.Prims.values Interp.Prims.value List.lookup_cons
  Image.call cond nil Image.bool Image.int

variable {G : Globals} {h : List Value} {xs ys : List SchemeVal} {l l' : Value}

/-- `member?`: the list from the first occurrence on, or `#f`. -/
theorem member?_performs (hG : G.Provides) (hl : (Standing.lists Standing.data).Holds h xs l) :
    M.Performs G h "member?" [Value.ofScheme x, l] (.orFalse (Standing.lists Standing.data))
      (pure (if Stdlib.member? x xs then some (xs.dropWhile (!Evaluator.equal? x ·))
        else none)) := by
  have hdef := hG.defines Source.member? (by simp [stdlib]) (by decide)
  induction xs generalizing l with
  | nil =>
    refine performs_null hG hdef rfl rfl rfl rfl ?_
    rw [Value.null?_of_elements? (Standing.lists_nil.1 hl)]
    exact .lit rfl
  | cons y ys ih =>
    have hl' := hl
    obtain ⟨_, vs, rfl, rfl, hvs⟩ := Standing.lists_cons.1 hl
    refine performs_null hG hdef rfl rfl rfl rfl ?_
    refine .branch (v := Value.ofBool (Evaluator.equal? x y)) (M.prims.gives ?_) ?_
    · simp [hG.builtins, Globals.Provides.equal hG, prims_equal]
    · by_cases hxy : Evaluator.equal? x y = true
      · simpa [hxy, Stdlib.member?] using Interp.Means.var
          (R := Standing.orFalse (Standing.lists Standing.data)) (a := some (y :: ys)) rfl hl'
      · have hcdr : M.interp.GivesAll G h
            [("item", Value.ofScheme x), ("lst", Value.list (Value.ofScheme y :: vs))]
            ["item", Image.call "cdr" ["lst"]] [Value.ofScheme x, Value.list vs] :=
          M.prims.givesAll (by simp [hG.builtins])
        have hrest := (ih hvs).call rfl hcdr
        simpa [hxy, Stdlib.member?] using hrest

omit [Host] in
/-- Where a list that is not empty is looked for, `#f` alone does not count as true. -/
theorem truthy_of_orFalse {α : Type} {R : Standing α} {o : Option (List α)} {v : Value}
    (hv : (Standing.orFalse (Standing.lists R)).Holds h o v) (ho : o ≠ some []) :
    Value.truthy v = o.isSome := by
  cases o with
  | none =>
    obtain rfl : v = Value.ofBool false := hv
    rfl
  | some as =>
    obtain ⟨a, as, rfl⟩ := List.exists_cons_of_ne_nil fun h => ho (congrArg some h)
    obtain ⟨_, _, rfl, _⟩ := Standing.lists_cons.1 hv
    rfl

/-- `unique-list` keeps the first of equal elements. -/
theorem uniqueList_performs (hG : G.Provides) (hl : (Standing.lists Standing.data).Holds h xs l) :
    M.Performs G h "unique-list" [l] (Standing.lists Standing.data)
      (pure (Stdlib.uniqueList xs)) := by
  have hdef := hG.defines Source.uniqueList (by simp [stdlib]) (by decide)
  induction xs generalizing h l with
  | nil =>
    refine performs_null hG hdef rfl rfl rfl rfl ?_
    rw [Value.null?_of_elements? (Standing.lists_nil.1 hl)]
    exact .lit (Standing.lists_nil.2 rfl)
  | cons y ys ih =>
    obtain ⟨_, vs, rfl, rfl, hvs⟩ := Standing.lists_cons.1 hl
    refine performs_null hG hdef rfl rfl rfl rfl ?_
    let ρ := [("lst", Value.list (Value.ofScheme y :: vs))]
    have hmember : M.interp.Means G h ρ
        (Image.call "member?" [Image.call "car" ["lst"], Image.call "cdr" ["lst"]]) _ _ :=
      (member?_performs (x := y) hG hvs).call rfl (M.prims.givesAll (by simp [ρ, hG.builtins]))
    have hrest : M.interp.Means G h ρ (Image.call "unique-list" [Image.call "cdr" ["lst"]])
        (Standing.lists Standing.data) (pure (Stdlib.uniqueList ys)) :=
      (ih hvs).call rfl (M.prims.givesAll (by simp [ρ, hG.builtins]))
    -- the list from the first occurrence on is not empty
    have hfound : (if Stdlib.member? y ys then some (ys.dropWhile (!Evaluator.equal? y ·))
        else none) ≠ some [] := by
      split
      · next hmem =>
        obtain ⟨z, hz, heq⟩ := List.any_eq_true.1 hmem
        exact fun hnil => by
          simpa [heq] using List.dropWhile_eq_nil_iff.1 (Option.some.inj hnil) z hz
      · simp
    have hite := hmember.fix.ite (t := Image.call "unique-list" [Image.call "cdr" ["lst"]])
      (e := Image.call "cons" [Image.call "car" ["lst"],
        Image.call "unique-list" [Image.call "cdr" ["lst"]]])
      (q := fun _ => pure (Stdlib.uniqueList (y :: ys)))
      (S := Standing.lists Standing.data) fun heap hh _ v hv => by
        rw [interp_truthy, truthy_of_orFalse hv hfound, Stdlib.uniqueList]
        by_cases hmem : Stdlib.member? y ys = true
        · simpa [hmem] using hrest.mono hh
        · have hkeep := cons_means (y := "lst") (a := y) hG rfl hrest rfl rfl rfl
          simpa [hmem] using hkeep.mono hh
    simpa [ρ] using hite

/-- `words-before-keyword` stops at the keyword. -/
theorem wordsBeforeKeyword_performs (hG : G.Provides)
    (hl : (Standing.lists Standing.data).Holds h xs l) :
    M.Performs G h "words-before-keyword" [l, Value.ofScheme x] (Standing.lists Standing.data)
      (pure (Stdlib.wordsBeforeKeyword x xs)) := by
  have hdef := hG.defines Source.wordsBeforeKeyword (by simp [stdlib]) (by decide)
  induction xs generalizing l with
  | nil =>
    refine performs_null hG hdef rfl rfl rfl rfl ?_
    rw [Value.null?_of_elements? (Standing.lists_nil.1 hl)]
    exact .lit (Standing.lists_nil.2 rfl)
  | cons y ys ih =>
    obtain ⟨_, vs, rfl, rfl, hvs⟩ := Standing.lists_cons.1 hl
    refine performs_null hG hdef rfl rfl rfl rfl ?_
    let ρ := [("words", Value.list (Value.ofScheme y :: vs)), ("keyword", Value.ofScheme x)]
    refine .branch (v := Value.ofBool (Evaluator.equal? y x)) (M.prims.gives ?_) ?_
    · simp [hG.builtins, Globals.Provides.equal hG, prims_equal]
    · by_cases hyx : Evaluator.equal? y x = true
      · simpa [hyx, Stdlib.wordsBeforeKeyword] using Interp.Means.lit (Standing.lists_nil.2 rfl)
      · have hrest : M.interp.Means G h ρ
            (Image.call "words-before-keyword" [Image.call "cdr" ["words"], "keyword"])
            (Standing.lists Standing.data) (pure (Stdlib.wordsBeforeKeyword x ys)) :=
          (ih hvs).call rfl (M.prims.givesAll (by simp [ρ, hG.builtins]))
        have hkeep := cons_means (y := "words") (a := y) hG rfl hrest rfl rfl rfl
        simpa [ρ, hyx, Stdlib.wordsBeforeKeyword] using hkeep

/-- `words-after-keyword` starts after it, or gives false. -/
theorem wordsAfterKeyword_performs (hG : G.Provides)
    (hl : (Standing.lists Standing.data).Holds h xs l) :
    M.Performs G h "words-after-keyword" [l, Value.ofScheme x]
      (.orFalse (Standing.lists Standing.data)) (pure (Stdlib.wordsAfterKeyword x xs)) := by
  have hdef := hG.defines Source.wordsAfterKeyword (by simp [stdlib]) (by decide)
  induction xs generalizing l with
  | nil =>
    refine performs_null hG hdef rfl rfl rfl rfl ?_
    rw [Value.null?_of_elements? (Standing.lists_nil.1 hl)]
    exact .lit rfl
  | cons y ys ih =>
    obtain ⟨_, vs, rfl, rfl, hvs⟩ := Standing.lists_cons.1 hl
    refine performs_null hG hdef rfl rfl rfl rfl ?_
    refine .branch (v := Value.ofBool (Evaluator.equal? y x)) (M.prims.gives ?_) ?_
    · simp [hG.builtins, Globals.Provides.equal hG, prims_equal]
    · by_cases hyx : Evaluator.equal? y x = true
      · have hcdr := M.prims.returns (R := Standing.orFalse (Standing.lists Standing.data))
          (G := G) (h := h)
          (ρ := [("words", Value.list (Value.ofScheme y :: vs)), ("keyword", Value.ofScheme x)])
          (e := Image.call "cdr" ["words"]) (v := Value.list vs) (a := some ys)
          (by simp [hG.builtins]) hvs
        simpa [hyx, Stdlib.wordsAfterKeyword] using hcdr
      · have hcdr : M.interp.GivesAll G h
            [("words", Value.list (Value.ofScheme y :: vs)), ("keyword", Value.ofScheme x)]
            [Image.call "cdr" ["words"], "keyword"] [Value.list vs, Value.ofScheme x] :=
          M.prims.givesAll (by simp [hG.builtins])
        have hrest := (ih hvs).call rfl hcdr
        simpa [hyx, Stdlib.wordsAfterKeyword] using hrest

/-- `list?` holds of pairs and of the empty list. -/
theorem list?_performs (hG : G.Provides) :
    M.Performs G h "list?" [Value.ofScheme x] (.is (Value.ofBool x.list?)) (pure ()) := by
  have hdef := hG.defines Source.list? (by simp [stdlib]) (by decide)
  have hpair : G "pair?" = some (.native (.builtin .pair?)) :=
    hG.core ("pair?", .pair?) (by simp [core])
  refine performs_of_body hdef rfl (M.prims.returns (v := Value.ofBool x.list?) ?_ rfl)
  rcases x with _ | _ | _ | _ | _ | _ | ⟨_ | _⟩ | _ <;>
    simp [hG.builtins, hpair, Value.null?, Value.pair?, SchemeVal.list?, Value.ofScheme,
      Value.ofSchemes, Value.list, Value.atom, Value.ofBool, Value.truthy]

omit [Host] in
/-- A list of data, as data. -/
theorem lists_ofSchemes (xs : List SchemeVal) :
    (Standing.lists Standing.data).Holds h xs (Value.ofScheme (.list xs)) := by
  refine ⟨Value.ofSchemes xs, rfl, ?_⟩
  induction xs with
  | nil => exact .nil
  | cons x xs ih => exact .cons rfl ih

/-- One turn of `flatten-list`. -/
theorem flattenList_cons (hG : G.Provides) {y : SchemeVal} {ys : List SchemeVal}
    (hl : (Standing.lists Standing.data).Holds h (y :: ys) l)
    (hfirst : y.list? = true → M.Performs G h "flatten-list" [Value.ofScheme y]
      (Standing.lists Standing.data) (pure (Stdlib.flattenVal y)))
    (hrest : ∀ l, (Standing.lists Standing.data).Holds h ys l →
      M.Performs G h "flatten-list" [l] (Standing.lists Standing.data)
        (pure (Stdlib.flattenList ys))) :
    M.Performs G h "flatten-list" [l] (Standing.lists Standing.data)
      (pure (Stdlib.flattenList (y :: ys))) := by
  have hdef := hG.defines Source.flattenList (by simp [stdlib]) (by decide)
  obtain ⟨_, vs, rfl, rfl, hvs⟩ := Standing.lists_cons.1 hl
  refine performs_null hG hdef rfl rfl rfl rfl ?_
  let ρ := [("vals", Value.list (Value.ofScheme y :: vs))]
  have htest : M.interp.Gives G h ρ (Image.call "list?" [Image.call "car" ["vals"]])
      (Value.ofBool y.list?) :=
    (list?_performs hG).call rfl (M.prims.givesAll (by simp [ρ, hG.builtins]))
  have hcdr : M.interp.Means G h ρ (Image.call "flatten-list" [Image.call "cdr" ["vals"]])
      (Standing.lists Standing.data) (pure (Stdlib.flattenList ys)) :=
    (hrest _ hvs).call rfl (M.prims.givesAll (by simp [ρ, hG.builtins]))
  refine .branch htest ?_
  by_cases hlist : y.list? = true
  · have hcar : M.interp.Means G h ρ (Image.call "flatten-list" [Image.call "car" ["vals"]])
        (Standing.lists Standing.data) (pure (Stdlib.flattenVal y)) :=
      (hfirst hlist).call rfl (M.prims.givesAll (by simp [ρ, hG.builtins]))
    have happ := performs_app₂ (p := "append") (R := Standing.lists Standing.data)
      (q := fun us vs => pure (us ++ vs)) (hG.defines Source.append (by simp [stdlib]) (by decide))
      rfl hcar hcdr fun _ _ _ _ _ _ hu hv => append_performs hG hu hv
    simpa [ρ, hlist, Stdlib.flattenList] using happ
  · have hflat : Stdlib.flattenVal y = [y] := by
      rcases y with _ | _ | _ | _ | _ | _ | _ | _ <;> first | rfl | exact absurd rfl hlist
    have hkeep := cons_means (y := "vals") (a := y) hG rfl hcdr rfl rfl rfl
    simpa [ρ, hlist, Stdlib.flattenList, hflat] using hkeep

/-- An empty list is flat. -/
theorem flattenList_nil (hG : G.Provides) (hl : (Standing.lists Standing.data).Holds h [] l) :
    M.Performs G h "flatten-list" [l] (Standing.lists Standing.data) (pure []) := by
  have hdef := hG.defines Source.flattenList (by simp [stdlib]) (by decide)
  refine performs_null hG hdef rfl rfl rfl rfl ?_
  rw [Value.null?_of_elements? (Standing.lists_nil.1 hl)]
  exact .lit (Standing.lists_nil.2 rfl)

mutual

/-- A nested list is flattened by induction on what it is made of. -/
theorem flattenVal_performs (hG : G.Provides) : ∀ y : SchemeVal, y.list? = true →
    M.Performs G h "flatten-list" [Value.ofScheme y] (Standing.lists Standing.data)
      (pure (Stdlib.flattenVal y))
  | .str _, hy | .bytes _, hy | .int _, hy | .float _, hy | .bool _, hy | .map _, hy => by cases hy
  | .nil, _ => flattenList_nil hG (Standing.lists_nil.2 rfl)
  | .list us, _ => flattenList_performs hG us (lists_ofSchemes us)

/-- `flatten-list` puts the leaves of nested lists in a row. -/
theorem flattenList_performs (hG : G.Provides) : ∀ (xs : List SchemeVal) {l : Value},
    (Standing.lists Standing.data).Holds h xs l →
    M.Performs G h "flatten-list" [l] (Standing.lists Standing.data)
      (pure (Stdlib.flattenList xs))
  | [], _, hl => flattenList_nil hG hl
  | y :: ys, _, hl => flattenList_cons hG hl (flattenVal_performs hG y)
      fun _ hl => flattenList_performs hG ys hl

end

/-- The list functions that the model of the avatar library calls are what the code of the
    library does with data. -/
theorem data_perform (hG : G.Provides) (x : SchemeVal)
    (hl : (Standing.lists Standing.data).Holds h xs l) :
    M.Performs G h "flatten-list" [l] (Standing.lists Standing.data)
      (pure (Stdlib.flattenList xs)) ∧
    M.Performs G h "unique-list" [l] (Standing.lists Standing.data)
      (pure (Stdlib.uniqueList xs)) ∧
    M.Performs G h "words-before-keyword" [l, Value.ofScheme x] (Standing.lists Standing.data)
      (pure (Stdlib.wordsBeforeKeyword x xs)) ∧
    M.Performs G h "words-after-keyword" [l, Value.ofScheme x]
      (.orFalse (Standing.lists Standing.data)) (pure (Stdlib.wordsAfterKeyword x xs)) ∧
    M.Performs G h "member?" [Value.ofScheme x, l] (.orFalse (Standing.lists Standing.data))
      (pure (if Stdlib.member? x xs then some (xs.dropWhile (!Evaluator.equal? x ·)) else none)) :=
  ⟨flattenList_performs hG xs hl, uniqueList_performs hG hl, wordsBeforeKeyword_performs hG hl,
    wordsAfterKeyword_performs hG hl, member?_performs hG hl⟩

omit [Host] in
/-- The words before `to`, in the image. -/
theorem data_perform_to :
    let _ : Host := scripted "did:ma:me" fun _ _ _ => .ok .nil
    let words : List SchemeVal := [.str "lamp", .str "to", .str "bob"]
    plain.Performs plain.combined [] "words-before-keyword"
      [Value.ofScheme (.list words), Value.ofScheme (.str "to")] (Standing.lists Standing.data)
      (pure [.str "lamp"]) := by
  intro _ words
  exact (data_perform (M := plain) (provides_combined plain) (.str "to")
    (lists_ofSchemes words)).2.2.1

end

end Machine

end Image

end Zscheme
