import Zscheme.Image.Lists
import Zscheme.Lib.Diverge

/-!
# What the string procedures of the generic library do

Strings are indexed by bytes. What holds of the string functions of `Scheme` holds of the
code of the library: it does what they do, as long as the length of the string fits.
-/

namespace Zscheme

namespace Image

open Lambda Avatar

/-! ## Builtins -/

/-- A string. -/
def Value.text (s : String) : Value := atom (.str s)

/-- Strings for what they are. -/
def Standing.text : Standing String := .of Value.text

namespace Machine

variable [Host] {M : Machine} {s t : String} {i j : Int}

omit [Host] in
theorem atom_str (s : String) : Value.atom (.str s) = Value.text s := rfl

attribute [local simp] atom_str ofInt_zero ofInt_one ofInt_two

/-- `string-length` counts as the evaluator does. -/
theorem prims_length : M.prims.call (.native (.builtin .stringLength)) [Value.text s] =
    pure (.done (Value.ofInt (Prim.stringLength s))) := by
  have hvalue : M.value .stringLength [Value.text s] = .ok (Value.ofInt (Prim.stringLength s)) := by
    rw [Value.ofInt, Int64.ofInt_eq_ofNat]
    rfl
  simp only [Interp.Prims.call, prims, hvalue]

/-- `string-index` finds the first occurrence, or gives false. -/
theorem prims_index : M.prims.call (.native (.builtin .stringIndex)) [Value.text s, Value.text t] =
    pure (.done ((Prim.stringIndex s t).elim (Value.ofBool false) fun n => Value.ofInt n)) := by
  have hvalue : M.value .stringIndex [Value.text s, Value.text t] =
      .ok ((Prim.stringIndex s t).elim (Value.ofBool false) fun n => Value.ofInt n) := by
    simp only [value, datum, Value.text, Value.atom, Value.ofInt, Int64.ofInt_eq_ofNat]
    rcases Prim.stringIndex s t with _ | n <;> rfl
  simp only [Interp.Prims.call, prims, hvalue]

/-- `string-append` joins any number of texts. -/
theorem prims_append (ss : List String) :
    M.prims.call (.native (.builtin .stringAppend)) (ss.map Value.text) =
      pure (.done (Value.text (String.join ss))) := by
  have htexts : (ss.map Value.text).mapM Value.text? = some ss := by
    induction ss with
    | nil => rfl
    | cons s ss ih =>
      rw [List.map_cons, List.mapM_cons, ih]
      rfl
  have hvalue : M.value .stringAppend (ss.map Value.text) = .ok (Value.text (String.join ss)) := by
    simp only [value, datum, htexts]
    rfl
  simp only [Interp.Prims.call, prims, hvalue]

/-- `string-append` of three texts. -/
theorem prims_append₃ {a b c : String} :
    M.prims.call (.native (.builtin .stringAppend)) [Value.text a, Value.text b, Value.text c] =
      pure (.done (Value.text (a ++ b ++ c))) := by
  have happ := prims_append (M := M) [a, b, c]
  simpa [String.join] using happ

/-- A part of a string, with the text that the machine has for an error. -/
theorem prims_substring {n m : Nat} (hn : Fits n) (hm : Fits m) :
    M.prims.call (.native (.builtin .substring)) [Value.text s, Value.ofInt n, Value.ofInt m] =
      match Prim.substring s n m with
      | .ok t => pure (.done (Value.text t))
      | .error _ => throw (M.refusal .substring [Value.text s, Value.ofInt n, Value.ofInt m]) := by
  have hvalue : M.value .substring [Value.text s, Value.ofInt n, Value.ofInt m] =
      ((Prim.substring s n m).mapError fun _ =>
        M.refusal .substring [Value.text s, Value.ofInt n, Value.ofInt m]).map Value.text := by
    simp only [value, datum, Value.text, Value.atom, Value.ofInt, toInt_of_fits hn,
      toInt_of_fits hm, Int.toNat?, Prim.substring]
    rcases Prim.slice s n m with _ | t
    · by_cases hcut : Evaluator.cutRaises = true
      · simp only [if_pos hcut]
        rfl
      · simp only [if_neg hcut]
        rfl
    · rfl
  simp only [Interp.Prims.call, prims, hvalue]
  rcases Prim.substring s n m with _ | t <;> rfl

/-- Whether something was found. -/
theorem prims_found {o : Option Nat} :
    M.prims.call (.native (.builtin .equal?))
        [o.elim (Value.ofBool false) fun n => Value.ofInt n, Value.ofBool false] =
      pure (.done (Value.ofBool o.isNone)) := by
  rcases o with _ | n
  · have hequal := prims_equal (M := M) (x := .bool false) (y := .bool false)
    simpa [Evaluator.equal?_bool] using hequal
  · have hequal := prims_equal (M := M) (x := .int (.ofInt n)) (y := .bool false)
    simpa [Evaluator.equal?_bool, Value.ofInt] using hequal

omit [Host] in
/-- The text primitives that the library uses are there. -/
theorem Globals.Provides.strings {G : Globals} (hG : G.Provides) :
    G "string-index" = some (.native (.builtin .stringIndex)) ∧
      G "string-length" = some (.native (.builtin .stringLength)) ∧
      G "string-append" = some (.native (.builtin .stringAppend)) ∧
      G "substring" = some (.native (.builtin .substring)) ∧
      G "equal?" = some (.native (.builtin .equal?)) := by
  have hcore := hG.core
  simp [core] at hcore
  simp [hcore]

/-! ## Splitting and joining -/

section

-- The equations by which code that only calls builtins on the way is evaluated.
attribute [local simp] Interp.Prims.tail Interp.Prims.values Interp.Prims.value List.lookup_cons
  Image.call cond nil Image.bool Image.int Image.str

variable {G : Globals} {h : List Value} {l : Value}

/-- `string-contains` asks for an index. -/
theorem stringContains_performs (hG : G.Provides) :
    M.Performs G h "string-contains" [Value.text s, Value.text t]
      (.is (Value.ofBool (Stdlib.stringContains s t))) (pure ()) := by
  have hdef := hG.defines Source.stringContains (by simp [stdlib]) (by decide)
  refine performs_of_body hdef rfl (M.prims.gives ?_)
  simp [hG.builtins, Globals.Provides.strings hG, prims_index, prims_found, Stdlib.stringContains]

/-- A part of a string is no longer than the string. -/
theorem length_le_of_substring {n m : Nat} (h : Prim.substring s n m = .ok t) :
    Prim.stringLength t ≤ Prim.stringLength s := by
  rcases Stdlib.substring_eq_ok.1 h with h | ⟨-, -, rfl⟩
  · obtain ⟨a, b, c, hs, _, _, rfl⟩ := Stdlib.slice_eq_some h
    rw [Stdlib.stringLength_ofList, ← Stdlib.bytes_toList, hs, Stdlib.bytes_append,
      Stdlib.bytes_append]
    omega
  · exact Nat.zero_le _

omit [Host] in
/-- What is found in a string ends within it. -/
theorem length_le_of_index {n : Nat} (h : Prim.stringIndex s t = some n) :
    n + Prim.stringLength t ≤ Prim.stringLength s := by
  rw [← Stdlib.bytes_toList, ← Stdlib.bytes_toList]
  by_cases hempty : t.toList = []
  · rw [Prim.stringIndex, hempty] at h
    have hn : n = 0 := by
      rcases hs : s.toList with _ | ⟨c, cs⟩ <;> rw [hs] at h <;> exact (Option.some.inj h).symm
    simp [hn, hempty]
  · obtain ⟨a, b, hs, rfl, _⟩ := Stdlib.indexOf_eq_some hempty h
    rw [hs, Stdlib.bytes_append, Stdlib.bytes_append]
    omega

/-- The loop of `string-split`, with the pieces so far. -/
theorem stringSplitLoop_does (hG : G.Provides) {ρ : Interp.Locals SchemeVal Label Native}
    {f : Value} (hf : M.interp.Unfolds G h f ["rest", "acc"] (("loop", f) :: ρ)
      (bindings [("idx", Image.call "string-index" ["rest", "delim"])] <|
        .ite (Image.call "equal?" ["idx", Image.bool false])
          (Image.call "reverse" [Image.call "cons" ["rest", "acc"]])
          (Image.call "loop" [
            Image.call "substring"
              ["rest", Image.call "+" ["idx", "dlen"], Image.call "string-length" ["rest"]],
            Image.call "cons" [Image.call "substring" ["rest", Image.int 0, "idx"], "acc"]])))
    {delim : String} (hdelim : ρ.lookup "delim" = some (Value.text delim))
    (hlen : ρ.lookup "dlen" = some (Value.ofInt (Prim.stringLength delim)))
    (hρ : ∀ x ∈ ["string-index", "equal?", "reverse", "cons", "substring", "+", "string-length"],
      ρ.lookup x = none)
    {fuel : Nat} {rest : String} {acc pieces : List String} {l : Value}
    (hfits : Fits (Prim.stringLength rest))
    (hacc : (Standing.lists Standing.text).Holds h acc l)
    (hsplit : Stdlib.stringSplitLoop delim fuel rest acc = .ok pieces) :
    M.interp.Does G h (.apply f [Value.text rest, l]) (Standing.lists Standing.text)
      (pure pieces) := by
  induction fuel generalizing rest acc l with
  | zero => cases hsplit
  | succ fuel ih =>
    obtain ⟨vs, hvs, hall⟩ := hacc
    refine hf h (List.prefix_refl h) _ rfl _ _ _ ?_
    have hstrings := Globals.Provides.strings hG
    have hinit : M.interp.GivesAll G h
        (["rest", "acc"].zip [Value.text rest, l] ++ ("loop", f) :: ρ)
        [Image.call "string-index" ["rest", "delim"]]
        [(Prim.stringIndex rest delim).elim (Value.ofBool false) fun n => Value.ofInt n] :=
      M.prims.givesAll (by simp [hρ, hdelim, hstrings, prims_index])
    refine hinit.let' rfl (.branch (v := Value.ofBool (Prim.stringIndex rest delim).isNone) ?_ ?_)
    · exact M.prims.gives (by simp [hρ, hstrings, prims_found])
    · rw [Stdlib.stringSplitLoop] at hsplit
      rcases hindex : Prim.stringIndex rest delim with _ | i <;> simp only [hindex] at hsplit ⊢
      · obtain rfl := Except.ok.inj hsplit
        have hcons : (Standing.lists Standing.text).Holds h (rest :: acc)
            (Value.list (Value.text rest :: vs)) := ⟨_, rfl, .cons rfl hall⟩
        refine (reverse_performs hG hcons).call ?_ (M.prims.givesAll ?_)
        · simp [hρ]
        · simp [hρ, hG.builtins, prims_cons hvs]
      · rcases hafter : Prim.substring rest (i + Prim.stringLength delim)
          (Prim.stringLength rest) with e | after <;> simp only [hafter] at hsplit
        · cases hsplit
        rcases hbefore : Prim.substring rest 0 i with e | before <;> simp only [hbefore] at hsplit
        · cases hsplit
        have hle := length_le_of_index hindex
        have hshort := length_le_of_substring hafter
        have hi : Fits i := fits_of_le (by omega) hfits
        have hdlen : Fits (Prim.stringLength delim) := fits_of_le (by omega) hfits
        have hsum : Fits (i + Prim.stringLength delim) := by
          exact_mod_cast fits_of_le hle hfits
        have hadd := prims_add (M := M) hi hdlen hsum
        have hsub := prims_substring (M := M) (s := rest) (n := i + Prim.stringLength delim)
          (by exact_mod_cast hsum) hfits
        have hsub' := prims_substring (M := M) (s := rest) (n := 0) fits_zero hi
        have hmore : (Standing.lists Standing.text).Holds h (before :: acc)
            (Value.list (Value.text before :: vs)) :=
          ⟨_, rfl, .cons rfl hall⟩
        have hrest := ih (fits_of_le hshort hfits) hmore hsplit
        refine Interp.Means.call (u := f) (M.prims.gives (by simp)) (M.prims.givesAll ?_) hrest
        simp only [hafter, hbefore, Nat.cast_add, Nat.cast_zero] at hsub hsub'
        simp [hρ, hlen, hG.builtins, Globals.Provides.arithmetic hG, hstrings, hadd, hsub, hsub',
          prims_length, prims_cons hvs]

/-- `string-split` gives the pieces, where there are any to give. -/
theorem stringSplit_performs (hG : G.Provides) (hfits : Fits (Prim.stringLength s))
    {pieces : List String} (hsplit : Stdlib.stringSplit s t = .ok pieces) :
    M.Performs G h "string-split" [Value.text s, Value.text t] (Standing.lists Standing.text)
      (pure pieces) := by
  have hdef := hG.defines Source.stringSplit (by simp [stdlib]) (by decide)
  have hlen : M.interp.GivesAll G h (["s", "delim"].zip [Value.text s, Value.text t])
      [Image.call "string-length" ["delim"]] [Value.ofInt (Prim.stringLength t)] :=
    M.prims.givesAll (by simp [Globals.Provides.strings hG, prims_length])
  have hinit : M.interp.GivesAll G h [("dlen", Value.ofInt (Prim.stringLength t)),
      ("s", Value.text s), ("delim", Value.text t)] [.var "s", nil]
      [Value.text s, Value.list []] :=
    M.prims.givesAll (by simp)
  refine performs_of_body hdef rfl (hlen.let' rfl (hinit.loop fun heap hh f hf => ?_))
  exact stringSplitLoop_does hG hf rfl rfl (by simp) hfits
    (Standing.lists_nil.2 (Value.elements?_list [])) hsplit

omit [Host] in
/-- The empty string is found at the start of every string. -/
theorem stringIndex_empty (s : String) : Prim.stringIndex s "" = some 0 := by
  rw [Prim.stringIndex]
  cases s.toList <;> rfl

/-- A text is the part from its start to its end. -/
theorem substring_whole (s : String) : Prim.substring s 0 (Prim.stringLength s) = .ok s := by
  have hwhole := Stdlib.substring_append [] s.toList []
  rwa [List.nil_append, List.append_nil, String.ofList_toList, Stdlib.bytes_toList] at hwhole

/-- The part from the start to the start is empty. -/
theorem substring_empty (s : String) : Prim.substring s 0 0 = .ok "" := by
  have hempty := Stdlib.substring_append [] [] s.toList
  rwa [List.nil_append, List.nil_append, String.ofList_toList] at hempty

/-- Without a delimiter, the loop of `string-split` takes nothing away. -/
theorem stringSplitLoop_outlasts (hG : G.Provides) {ρ : Interp.Locals SchemeVal Label Native}
    {f : Value}
    (hf : M.interp.Sinks G h f ["rest", "acc"] (("loop", f) :: ρ)
      (bindings [("idx", Image.call "string-index" ["rest", "delim"])] <|
        .ite (Image.call "equal?" ["idx", Image.bool false])
          (Image.call "reverse" [Image.call "cons" ["rest", "acc"]])
          (Image.call "loop" [
            Image.call "substring"
              ["rest", Image.call "+" ["idx", "dlen"], Image.call "string-length" ["rest"]],
            Image.call "cons" [Image.call "substring" ["rest", Image.int 0, "idx"], "acc"]])))
    (hdelim : ρ.lookup "delim" = some (Value.text ""))
    (hlen : ρ.lookup "dlen" = some (Value.ofInt 0))
    (hρ : ∀ x ∈ ["string-index", "equal?", "cons", "substring", "+", "string-length"],
      ρ.lookup x = none)
    (hfits : Fits (Prim.stringLength s)) {vs : List Value} (hl : l.elements? = some vs) (n : Nat) :
    M.interp.Outlasts G h n (.apply f [Value.text s, l]) := by
  induction n generalizing l vs with
  | zero => exact Interp.outlasts_zero _
  | succ n ih =>
    -- a turn takes more fuel than one
    refine Interp.Outlasts.of_le (n := n + 5) ?_ (by omega)
    refine hf h (List.prefix_refl h) _ rfl _ ?_
    have hstrings := Globals.Provides.strings hG
    have hindex : Prim.stringIndex s "" = some 0 := stringIndex_empty s
    have hall : Prim.substring s 0 (Prim.stringLength s) = .ok s := substring_whole s
    have hnone : Prim.substring s 0 0 = .ok "" := substring_empty s
    have hadd := prims_add (M := M) fits_zero fits_zero fits_zero
    have hsub := prims_substring (M := M) (s := s) fits_zero hfits
    have hsub' := prims_substring (M := M) (s := s) fits_zero fits_zero
    have hinit : M.interp.GivesAll G h (["rest", "acc"].zip [Value.text s, l] ++ ("loop", f) :: ρ)
        [Image.call "string-index" ["rest", "delim"]] [Value.ofInt 0] :=
      M.prims.givesAll (by simp [hρ, hdelim, hstrings, prims_index, hindex])
    refine .let' hinit rfl (.branch (v := Value.ofBool false) ?_ ?_)
    · have hfound := prims_found (M := M) (o := some 0)
      simp only [Option.elim_some, Nat.cast_zero] at hfound
      exact M.prims.gives (by simp [hρ, hstrings, hfound])
    · have hturn := ih (l := Value.list (Value.text "" :: vs)) rfl
      refine Interp.Lasts.call (u := f) (M.prims.gives (by simp)) (M.prims.givesAll ?_) hturn
      simp only [Nat.cast_zero, hall, hnone] at hsub hsub'
      simp [hρ, hlen, hG.builtins, Globals.Provides.arithmetic hG, hstrings, hadd, hsub, hsub',
        prims_length, prims_cons hl]

/-- Without a delimiter, `string-split` does not end. -/
theorem stringSplit_diverges (hG : G.Provides) (hfits : Fits (Prim.stringLength s)) :
    ∃ f, G "string-split" = some f ∧ ∀ heap w r,
      ¬M.interp.Ends (.apply f [Value.text s, Value.text ""]) ⟨G, heap, w⟩ r := by
  have hdef := hG.defines Source.stringSplit (by simp [stdlib]) (by decide)
  refine ⟨_, hdef, fun heap w r => ?_⟩
  refine Interp.not_ends (h := []) (fun n => ?_) (List.nil_prefix) w r
  have hcount := prims_length (M := M) (s := "")
  have hlen : M.interp.GivesAll G [] (["s", "delim"].zip [Value.text s, Value.text ""] ++ [])
      [Image.call "string-length" ["delim"]] [Value.ofInt 0] :=
    M.prims.givesAll (by simp [Globals.Provides.strings hG, hcount]; rfl)
  refine Interp.Outlasts.of_le (n := n + 4) ?_ (by omega)
  refine Interp.sinks_closure .nil [] (List.prefix_refl _) _ rfl _ (.let' hlen rfl ?_)
  have hinit : M.interp.GivesAll G [] [("dlen", Value.ofInt 0), ("s", Value.text s),
      ("delim", Value.text "")] [.var "s", nil] [Value.text s, Value.list []] :=
    M.prims.givesAll (by simp)
  refine .loop hinit ?_
  exact fun heap _ f hf => stringSplitLoop_outlasts hG hf rfl rfl (by simp) hfits
    (Value.elements?_list []) n

/-- The loop of `string-join`, with what is joined so far. -/
theorem stringJoinLoop_does (hG : G.Provides) {ρ : Interp.Locals SchemeVal Label Native} {f : Value}
    (hf : M.interp.Unfolds G h f ["rest", "acc"] (("loop", f) :: ρ)
      (.ite (Image.call "null?" ["rest"])
        "acc"
        (Image.call "loop" [Image.call "cdr" ["rest"],
          Image.call "string-append" ["acc", "delim", Image.call "car" ["rest"]]])))
    {delim : String} (hdelim : ρ.lookup "delim" = some (Value.text delim))
    (hρ : ∀ x ∈ ["null?", "cdr", "car", "string-append"], ρ.lookup x = none)
    {ss : List String} {acc : String} {l : Value}
    (hl : (Standing.lists Standing.text).Holds h ss l) :
    M.interp.Does G h (.apply f [l, Value.text acc]) Standing.text
      (pure (ss.foldl (fun acc t => acc ++ delim ++ t) acc)) := by
  induction ss generalizing acc l with
  | nil =>
    refine hf h (List.prefix_refl h) _ rfl _ _ _ (M.prims.returns (v := Value.text acc) ?_ rfl)
    have hnull := Value.null?_of_elements? (Standing.lists_nil.1 hl)
    simp [hρ, hG.builtins, hnull]
  | cons s ss ih =>
    obtain ⟨_, xs, rfl, rfl, hxs⟩ := Standing.lists_cons.1 hl
    refine hf h (List.prefix_refl h) _ rfl _ _ _ ?_
    refine .branch (v := Value.ofBool false) (M.prims.gives (by simp [hρ, hG.builtins])) ?_
    refine Interp.Means.call (u := f) (M.prims.gives (by simp)) (M.prims.givesAll ?_) (ih hxs)
    simp [hρ, hdelim, hG.builtins, Globals.Provides.strings hG, prims_append₃]

/-- `string-join` puts the separator between the texts. -/
theorem stringJoin_performs (hG : G.Provides) {ss : List String}
    (hl : (Standing.lists Standing.text).Holds h ss l) :
    M.Performs G h "string-join" [l, Value.text t] Standing.text
      (pure (Stdlib.stringJoin ss t)) := by
  have hdef := hG.defines Source.stringJoin (by simp [stdlib]) (by decide)
  rcases ss with _ | ⟨s, ss⟩
  · refine performs_null hG hdef rfl rfl rfl rfl ?_
    rw [Value.null?_of_elements? (Standing.lists_nil.1 hl)]
    exact .lit rfl
  · obtain ⟨_, xs, rfl, rfl, hxs⟩ := Standing.lists_cons.1 hl
    refine performs_null hG hdef rfl rfl rfl rfl ?_
    have hinit : M.interp.GivesAll G h [("lst", Value.list (Value.text s :: xs)),
        ("delim", Value.text t)] [Image.call "cdr" ["lst"], Image.call "car" ["lst"]]
        [Value.list xs, Value.text s] :=
      M.prims.givesAll (by simp [hG.builtins])
    refine hinit.loop fun heap hh f hf => ?_
    exact stringJoinLoop_does hG hf rfl (by simp) (hxs.mono hh)

/-- `(string-join (string-split s delim) delim)` is `s`, unless the delimiter is empty: then
    `string-split` does not end. -/
theorem stringSplit_total (hG : G.Provides) (hfits : Fits (Prim.stringLength s)) :
    (t ≠ "" → M.interp.Means G h [("s", Value.text s), ("delim", Value.text t)]
      (Image.call "string-join" [Image.call "string-split" ["s", "delim"], "delim"])
      Standing.text (pure s)) ∧
    (t = "" → ∃ f, G "string-split" = some f ∧ ∀ heap w r,
      ¬M.interp.Ends (.apply f [Value.text s, Value.text t]) ⟨G, heap, w⟩ r) := by
  refine ⟨fun ht => ?_, fun ht => ht ▸ stringSplit_diverges hG hfits⟩
  obtain ⟨pieces, hsplit, -, -, hjoin⟩ := Stdlib.stringSplit_pieces s ht
  have hpieces : M.interp.Means G h [("s", Value.text s), ("delim", Value.text t)]
      (Image.call "string-split" ["s", "delim"]) (Standing.lists Standing.text) (pure pieces) :=
    (stringSplit_performs hG hfits hsplit).call rfl (M.prims.givesAll (by simp))
  have hdelim : M.interp.Gives G h [("s", Value.text s), ("delim", Value.text t)] "delim"
      (Value.text t) :=
    M.prims.gives (by simp)
  have happ := performs_app₂ (p := "string-join") (R := Standing.text)
    (q := fun ss _ => pure (Stdlib.stringJoin ss t))
    (hG.defines Source.stringJoin (by simp [stdlib]) (by decide)) rfl hpieces hdelim
    fun heap hh ss v _ u hv hu => by
      obtain rfl : u = Value.text t := hu
      exact stringJoin_performs hG hv
  simpa [hjoin] using happ

omit [Host] in
/-- A list of words in the image, and no delimiter. -/
theorem stringSplit_total_words :
    let _ : Host := scripted "did:ma:me" fun _ _ _ => .ok .nil
    plain.interp.Means plain.combined []
        [("s", Value.text "take lamp"), ("delim", Value.text " ")]
        (Image.call "string-join" [Image.call "string-split" ["s", "delim"], "delim"])
        Standing.text (pure "take lamp") ∧
      ∃ f, plain.combined "string-split" = some f ∧ ∀ heap w r, ¬plain.interp.Ends
        (.apply f [Value.text "take lamp", Value.text ""]) ⟨plain.combined, heap, w⟩ r := by
  intro _
  have hfits : Fits (Prim.stringLength "take lamp") := fits_iff.2 (by decide)
  exact ⟨(stringSplit_total (provides_combined plain) hfits).1 (by decide),
    (stringSplit_total (h := []) (provides_combined plain) hfits).2 rfl⟩

/-! ## Lines -/

/-- `string-lines` splits at the line ends. -/
theorem stringLines_performs (hG : G.Provides) (hfits : Fits (Prim.stringLength s)) :
    M.Performs G h "string-lines" [Value.text s] (Standing.lists Standing.text)
      (pure (Stdlib.lines s)) := by
  have hdef := hG.defines Source.stringLines (by simp [stdlib]) (by decide)
  refine performs_of_body hdef rfl ?_
  exact (stringSplit_performs hG hfits (Stdlib.Views.stringLines_eq s)).call rfl
    (M.prims.givesAll (by simp))

/-- `string-unlines` joins with line ends. -/
theorem stringUnlines_performs (hG : G.Provides) {ss : List String}
    (hl : (Standing.lists Standing.text).Holds h ss l) :
    M.Performs G h "string-unlines" [l] Standing.text (pure (Stdlib.stringUnlines ss)) := by
  have hdef := hG.defines Source.stringUnlines (by simp [stdlib]) (by decide)
  exact performs_of_body hdef rfl
    ((stringJoin_performs hG hl).call rfl (M.prims.givesAll (by simp)))

/-! ## Words -/

/-- What may raise, as a deed. -/
def attempt {α : Type} : Except String α → Deed String World α
  | .ok a => pure a
  | .error msg => throw msg

omit [Host] in
/-- An attempt that succeeds is its result. -/
@[simp] theorem attempt_ok {α : Type} (a : α) : attempt (.ok a) = pure a := rfl

omit [Host] in
/-- Attempts in a row fail at the first that fails. -/
theorem attempt_mapM {α β : Type} (g : α → Except String β) (as : List α) :
    as.mapM (fun a => attempt (g a)) = attempt (as.mapM g) := by
  induction as with
  | nil => rfl
  | cons a as ih =>
    rw [List.mapM_cons, List.mapM_cons, ih]
    rcases g a with e | b
    · rfl
    · rcases as.mapM g with e | bs <;> rfl

@[simp] theorem prims_string? {v : Value} :
    M.prims.call (.native (.builtin .string?)) [v] = pure (.done (Value.ofBool v.string?)) := rfl

@[simp] theorem prims_number? {v : Value} :
    M.prims.call (.native (.builtin .number?)) [v] = pure (.done (Value.ofBool v.number?)) := rfl

@[simp] theorem prims_boolean? {v : Value} :
    M.prims.call (.native (.builtin .boolean?)) [v] = pure (.done (Value.ofBool v.boolean?)) := rfl

/-- What `join-words` makes of a word. -/
theorem wordText_means (hG : G.Provides) (x : SchemeVal)
    {ρ : Interp.Locals SchemeVal Label Native} (hx : ρ.lookup "word" = some (Value.ofScheme x))
    (hρ : ∀ x ∈ ["string?", "number?", "number->string", "boolean?", "null?", "error"],
      ρ.lookup x = none) :
    M.interp.Means G h ρ
      (cond [
        (Image.call "string?" ["word"], "word"),
        (Image.call "number?" ["word"], Image.call "number->string" ["word"]),
        (Image.call "boolean?" ["word"], .ite "word" (Image.str "#t") (Image.str "#f")),
        (Image.call "null?" ["word"], Image.str "")]
        (Image.call "error" [Image.str "join-words: not a word"]))
      Standing.text (attempt (Stdlib.wordText x)) := by
  have hcore := hG.core
  simp [core] at hcore
  cases x with
  | str s => exact M.prims.returns (v := Value.text s) (by simp [hcore, hρ, hx]; rfl) rfl
  | int n =>
    exact M.prims.returns (v := Value.text (toString n.toInt)) (by simp [hcore, hρ, hx]; rfl) rfl
  | float b =>
    exact M.prims.returns (v := Value.text (Evaluator.floatText b)) (by simp [hcore, hρ, hx]; rfl)
      rfl
  | bool b => cases b <;> exact M.prims.returns (by simp [hcore, hρ, hx]; rfl) rfl
  | nil => exact M.prims.returns (v := Value.text "") (by simp [hcore, hρ, hx]; rfl) rfl
  | bytes b => exact M.prims.raises (by simp [hcore, hρ, hx]; rfl)
  | list xs =>
    cases xs with
    | nil => exact M.prims.returns (v := Value.text "") (by simp [hcore, hρ, hx]; rfl) rfl
    | cons x xs => exact M.prims.raises (by simp [hcore, hρ, hx]; rfl)
  | map m => exact M.prims.raises (by simp [hcore, hρ, hx]; rfl)

/-- `join-words` writes each word as a text, and raises on what is none. -/
theorem joinWords_performs (hG : G.Provides) {xs : List SchemeVal}
    (hl : (Standing.lists Standing.data).Holds h xs l) :
    M.Performs G h "join-words" [l] Standing.text (attempt (Stdlib.joinWords xs)) := by
  have hdef := hG.defines Source.joinWords (by simp [stdlib]) (by decide)
  refine performs_of_body hdef rfl ?_
  have hwords : M.interp.GivesAll G h [("words", l)] ["words"] [l] := M.prims.givesAll (by simp)
  have hmap := performs_app (p := "map") (R := Standing.lists Standing.text)
    (q := fun _ => xs.mapM fun x => attempt (Stdlib.wordText x))
    (hG.defines Source.map (by simp [stdlib]) (by decide)) rfl
    (.cons (Interp.Means.lambda ["word"] _) hwords) fun heap hh _ vs hvs => by
      obtain ⟨f, _, rfl, hf, rfl⟩ := hvs
      refine map_performs hG (fun heap' hh' x vs hvs => ?_) (hl.mono hh)
      obtain ⟨_, rfl, rfl⟩ := hvs
      exact hf heap' hh' _ rfl _ _ _ (wordText_means hG x rfl (by simp))
  have hspace : M.interp.Gives G h [("words", l)] (Image.str " ") (Value.text " ") :=
    M.prims.gives (by simp)
  have hjoin := performs_app₂ (p := "string-join") (R := Standing.text)
    (q := fun ss _ => pure (Stdlib.stringJoin ss " "))
    (hG.defines Source.stringJoin (by simp [stdlib]) (by decide)) rfl hmap hspace
    fun heap hh ss v _ u hv hu => by
      obtain rfl : u = Value.text " " := hu
      exact stringJoin_performs hG hv
  have hdeed : attempt (Stdlib.joinWords xs) =
      xs.mapM (fun x => attempt (Stdlib.wordText x)) >>= fun ss =>
        pure (Stdlib.stringJoin ss " ") := by
    rw [attempt_mapM, Stdlib.joinWords]
    rcases xs.mapM Stdlib.wordText with e | ss <;> rfl
  rw [hdeed]
  simpa using hjoin

/-- The string functions that the model of the avatar library calls are what the code of the
    library does, with the errors it raises. -/
theorem strings_perform (hG : G.Provides) {ss : List String} {xs : List SchemeVal} {l' : Value}
    (hl : (Standing.lists Standing.text).Holds h ss l)
    (hl' : (Standing.lists Standing.data).Holds h xs l') :
    M.Performs G h "string-contains" [Value.text s, Value.text t]
      (.is (Value.ofBool (Stdlib.stringContains s t))) (pure ()) ∧
    M.Performs G h "string-join" [l, Value.text t] Standing.text (pure (Stdlib.stringJoin ss t)) ∧
    M.Performs G h "string-unlines" [l] Standing.text (pure (Stdlib.stringUnlines ss)) ∧
    M.Performs G h "join-words" [l'] Standing.text (attempt (Stdlib.joinWords xs)) :=
  ⟨stringContains_performs hG, stringJoin_performs hG hl, stringUnlines_performs hG hl,
    joinWords_performs hG hl'⟩

omit [Host] in
/-- `join-words` of words and a number, in the image. -/
theorem strings_perform_words :
    let _ : Host := scripted "did:ma:me" fun _ _ _ => .ok .nil
    let words : List SchemeVal := [.str "lamp", .int 2]
    plain.Performs plain.combined [] "join-words" [Value.ofScheme (.list words)] Standing.text
      (attempt (Stdlib.joinWords words)) := by
  intro _ words
  have hnone : (Standing.lists Standing.text).Holds [] [] (Value.atom .nil) :=
    ⟨_, (Value.elements?_list []), .nil⟩
  exact (strings_perform (M := plain) (s := "") (t := "") (provides_combined plain) hnone
    (lists_ofSchemes words)).2.2.2

/-! ## Views of a text -/

/-- `wc-lines` counts the lines. -/
theorem wcLines_performs (hG : G.Provides) (hfits : Fits (Prim.stringLength s))
    (hcount : Fits (Stdlib.lines s).length) :
    M.Performs G h "wc-lines" [Value.text s] Standing.int
      (pure ((Stdlib.lines s).length : Int)) := by
  have hdef := hG.defines Source.wcLines (by simp [stdlib]) (by decide)
  refine performs_of_body hdef rfl ?_
  have hlines : M.interp.Means G h [("text", Value.text s)] (Image.call "string-lines" ["text"])
      (Standing.lists Standing.text) (pure (Stdlib.lines s)) :=
    (stringLines_performs hG hfits).call rfl (M.prims.givesAll (by simp))
  have happ := performs_app₁ (p := "length") (R := Standing.int)
    (q := fun _ => pure ((Stdlib.lines s).length : Int))
    (hG.defines Source.length (by simp [stdlib]) (by decide)) rfl hlines.fix
    fun _ _ _ _ hv => length_performs hG hv hcount
  simpa using happ

/-- `head-n`, where `take` is that of the generic library. -/
theorem headN_performs (hG : G.Provides) (htake : G "take" = Source.take.value G)
    (hfits : Fits (Prim.stringLength s)) (hi : Fits i)
    (hend : Fits (i - (Stdlib.lines s).length)) :
    M.Performs G h "head-n" [Value.ofInt i, Value.text s] Standing.text
      (attempt (Stdlib.Views.headN i s)) := by
  have hdef := hG.defines Source.headN (by simp [stdlib]) (by decide)
  refine performs_of_body hdef rfl ?_
  let ρ := [("n", Value.ofInt i), ("text", Value.text s)]
  have hn : M.interp.Gives G h ρ "n" (Value.ofInt i) := M.prims.gives (by simp [ρ])
  have hlines : M.interp.Means G h ρ (Image.call "string-lines" ["text"])
      (Standing.lists Standing.text) (pure (Stdlib.lines s)) :=
    (stringLines_performs hG hfits).call rfl (M.prims.givesAll (by simp [ρ]))
  have htaken := performs_app₂ (p := "take") (R := Standing.lists Standing.text)
    (q := fun _ _ => pure (Stdlib.Views.take i (Stdlib.lines s))) htake rfl hn hlines.fix
    fun heap hh _ v _ u hv hu => by
      obtain rfl : v = Value.ofInt i := hv
      exact take_performs hG htake hu hi hend
  have hjoin := performs_app₁ (p := "string-unlines") (R := Standing.text)
    (q := fun ss => pure (Stdlib.stringUnlines ss))
    (hG.defines Source.stringUnlines (by simp [stdlib]) (by decide)) rfl htaken
    fun _ _ _ _ hv => stringUnlines_performs hG hv
  rw [Stdlib.Views.headN, Stdlib.Views.stringLines_eq]
  simpa [ρ] using hjoin

/-- What `tail-n` makes of the lines. -/
theorem tailNBody_means (hG : G.Provides) (hdrop : G "drop" = Source.drop.value G)
    (hcount : Fits (Stdlib.lines s).length) (hi : Fits i) (hneg : Fits (-i))
    (hend : Fits ((Stdlib.lines s).length - i))
    (hl : (Standing.lists Standing.text).Holds h (Stdlib.lines s) l)
    {ρ : Interp.Locals SchemeVal Label Native} (hlines : ρ.lookup "lines" = some l)
    (hn : ρ.lookup "n" = some (Value.ofInt i))
    (hρ : ∀ x ∈ ["string-unlines", "drop", "-", "length"], ρ.lookup x = none) :
    M.interp.Means G h ρ
      (Image.call "string-unlines"
        [Image.call "drop" [Image.call "-" [Image.call "length" ["lines"], "n"], "lines"]])
      Standing.text (attempt (Stdlib.Views.tailN i s)) := by
  let count : Int := (Stdlib.lines s).length
  have hlen : M.interp.Means G h ρ (Image.call "length" ["lines"]) Standing.int (pure count) :=
    (length_performs hG hl hcount).call (by simp [hρ]) (M.prims.givesAll (by simp [hlines]))
  have hsub : M.interp.Means G h ρ (Image.call "-" [Image.call "length" ["lines"], "n"])
      Standing.int (pure (count - i)) := by
    have hminus : M.interp.Gives G h ρ (.var "-") (.native (.builtin .sub)) :=
      M.prims.gives (by simp [hρ, Globals.Provides.arithmetic hG])
    have hamount : M.interp.Gives G h ρ "n" (Value.ofInt i) := M.prims.gives (by simp [hn])
    have happ := hminus.app₂ (S := Standing.int) (q := fun _ _ => pure (count - i)) hlen.fix
      hamount fun heap hh _ v _ u hv hu => by
        obtain ⟨-, rfl⟩ : Fits count ∧ v = Value.ofInt count := hv
        obtain rfl : u = Value.ofInt i := hu
        exact builtin_does (prims_sub hcount hi hend) ⟨hend, rfl⟩
    simpa using happ
  have hdropped := performs_app₂ (p := "drop") (R := Standing.lists Standing.text)
    (q := fun _ _ => pure (Stdlib.Views.drop (count - i) (Stdlib.lines s))) hdrop (by simp [hρ])
    hsub.fix (M.prims.gives (e := "lines") (v := l) (by simp [hlines]))
    fun heap hh _ v _ u hv hu => by
      obtain ⟨-, rfl⟩ : Fits (count - i) ∧ v = Value.ofInt (count - i) := hv
      obtain rfl : u = l := hu
      have hfits : Fits (count - i - (Stdlib.lines s).length) := by
        rwa [show count - i - (Stdlib.lines s).length = -i by omega]
      exact drop_performs hG hdrop (hl.mono hh) hend hfits
  have hjoin := performs_app₁ (p := "string-unlines") (R := Standing.text)
    (q := fun ss => pure (Stdlib.stringUnlines ss))
    (hG.defines Source.stringUnlines (by simp [stdlib]) (by decide)) (by simp [hρ]) hdropped
    fun _ _ _ _ hv => stringUnlines_performs hG hv
  rw [Stdlib.Views.tailN, Stdlib.Views.stringLines_eq]
  simpa using hjoin

/-- `tail-n`, where `drop` is that of the generic library. -/
theorem tailN_performs (hG : G.Provides) (hdrop : G "drop" = Source.drop.value G)
    (hfits : Fits (Prim.stringLength s)) (hcount : Fits (Stdlib.lines s).length) (hi : Fits i)
    (hneg : Fits (-i)) (hend : Fits ((Stdlib.lines s).length - i)) :
    M.Performs G h "tail-n" [Value.ofInt i, Value.text s] Standing.text
      (attempt (Stdlib.Views.tailN i s)) := by
  have hdef := hG.defines Source.tailN (by simp [stdlib]) (by decide)
  let ρ := [("n", Value.ofInt i), ("text", Value.text s)]
  have hlines : M.interp.Means G h ρ (Image.call "string-lines" ["text"])
      (Standing.lists Standing.text) (pure (Stdlib.lines s)) :=
    (stringLines_performs hG hfits).call rfl (M.prims.givesAll (by simp [ρ]))
  refine performs_of_body hdef rfl ?_
  have hall := Interp.MeansAll.cons hlines.fix (.nil (T := .is []) (a := ()) rfl)
  have hlet := Interp.MeansAll.let' ["lines"] (Image.call "string-unlines"
      [Image.call "drop" [Image.call "-" [Image.call "length" ["lines"], "n"], "lines"]])
    (S := Standing.text) (q := fun _ => attempt (Stdlib.Views.tailN i s)) hall
    fun heap hh _ vs hvs => by
      obtain ⟨v, _, rfl, hv, rfl⟩ := hvs
      exact ⟨rfl, tailNBody_means hG hdrop hcount hi hneg hend hv rfl rfl (by simp [ρ])⟩
  simpa [ρ, bindings] using hlet

/-- The first line ends at the first newline, if there is one. -/
theorem firstLine_cases (s : String) :
    (Prim.stringIndex s "\n" = none ∧ (Stdlib.lines s).headD "" = s) ∨
      ∃ i ≤ Prim.stringLength s, Prim.stringIndex s "\n" = some i ∧
        Prim.substring s 0 i = .ok ((Stdlib.lines s).headD "") := by
  obtain ⟨cs, rfl⟩ : ∃ cs, s = .ofList cs := ⟨s.toList, String.ofList_toList.symm⟩
  rw [Stdlib.lines, String.toList_ofList]
  by_cases hmem : '\n' ∈ cs
  · obtain ⟨a, b, rfl, ha⟩ := List.eq_append_cons_of_mem hmem
    refine .inr ⟨Stdlib.bytes a, ?_, Stdlib.stringIndex_append ha b, ?_⟩
    · rw [Stdlib.stringLength_ofList, Stdlib.bytes_append]
      omega
    · rw [List.splitOn_append_cons_self_of_not_mem ha]
      exact Stdlib.substring_append [] a ('\n' :: b)
  · refine .inl ⟨Stdlib.stringIndex_eq_none hmem, ?_⟩
    rw [List.splitOn_eq_singleton hmem]
    rfl

/-- `first-line` is empty when there is no line. -/
theorem firstLine_performs (hG : G.Provides) (hfits : Fits (Prim.stringLength s)) :
    M.Performs G h "first-line" [Value.text s] Standing.text
      (pure ((Stdlib.lines s).headD "")) := by
  have hdef := hG.defines Source.firstLine (by simp [stdlib]) (by decide)
  have hstrings := Globals.Provides.strings hG
  have hinit : M.interp.GivesAll G h (["text"].zip [Value.text s])
      [Image.call "string-index" ["text", Image.str "\n"]]
      [(Prim.stringIndex s "\n").elim (Value.ofBool false) fun n => Value.ofInt n] :=
    M.prims.givesAll (by simp [hstrings, prims_index])
  refine performs_of_body hdef rfl (hinit.let' rfl ?_)
  rcases firstLine_cases s with ⟨hindex, hline⟩ | ⟨i, hle, hindex, hpart⟩
  · rw [hindex, hline]
    refine .branch (v := Value.ofBool false) (M.prims.gives (by simp)) ?_
    exact M.prims.returns (v := Value.text s) (by simp) rfl
  · have hsub := prims_substring (M := M) (s := s) (n := 0) fits_zero (fits_of_le hle hfits)
    simp only [hpart, Nat.cast_zero] at hsub
    rw [hindex]
    refine .branch (v := Value.ofInt i) (M.prims.gives (by simp)) ?_
    exact M.prims.returns (v := Value.text ((Stdlib.lines s).headD ""))
      (by simp [hstrings, hsub]) rfl

/-- The views of a text by lines, where `take` and `drop` are those of the generic library. -/
theorem views_perform (hG : G.Provides) (htake : G "take" = Source.take.value G)
    (hdrop : G "drop" = Source.drop.value G) (hfits : Fits (Prim.stringLength s)) :
    M.Performs G h "string-lines" [Value.text s] (Standing.lists Standing.text)
      (pure (Stdlib.lines s)) ∧
    M.Performs G h "first-line" [Value.text s] Standing.text
      (pure ((Stdlib.lines s).headD "")) ∧
    (Fits (Stdlib.lines s).length →
      M.Performs G h "wc-lines" [Value.text s] Standing.int
        (pure ((Stdlib.lines s).length : Int))) ∧
    (∀ i : Int, Fits i → Fits (i - (Stdlib.lines s).length) →
      M.Performs G h "head-n" [Value.ofInt i, Value.text s] Standing.text
        (attempt (Stdlib.Views.headN i s))) ∧
    ∀ i : Int, Fits i → Fits (-i) → Fits (Stdlib.lines s).length →
      Fits ((Stdlib.lines s).length - i) →
      M.Performs G h "tail-n" [Value.ofInt i, Value.text s] Standing.text
        (attempt (Stdlib.Views.tailN i s)) :=
  ⟨stringLines_performs hG hfits, firstLine_performs hG hfits, wcLines_performs hG hfits,
    fun _ hi hend => headN_performs hG htake hfits hi hend,
    fun _ hi hneg hcount hend => tailN_performs hG hdrop hfits hcount hi hneg hend⟩

omit [Host] in
/-- The first line of a text, and what comes after it, with the library alone. -/
theorem views_perform_lines :
    let _ : Host := scripted "did:ma:me" fun _ _ _ => .ok .nil
    plain.Performs plain.alone [] "head-n" [Value.ofInt 1, Value.text "a\nb"] Standing.text
        (attempt (Stdlib.Views.headN 1 "a\nb")) ∧
      plain.Performs plain.alone [] "tail-n" [Value.ofInt 1, Value.text "a\nb"] Standing.text
        (attempt (Stdlib.Views.tailN 1 "a\nb")) := by
  intro _
  have hfits : Fits (Prim.stringLength "a\nb") := fits_iff.2 (by decide)
  have hcount : Fits (Stdlib.lines "a\nb").length := fits_iff.2 (by decide)
  have hrest : Fits (1 - (Stdlib.lines "a\nb").length : Int) := fits_iff.2 (by decide)
  have htake := plain.alone_defines Source.take (by simp [stdlib])
  have hdrop := plain.alone_defines Source.drop (by simp [stdlib])
  have hviews :=
    (views_perform (M := plain) (h := []) (provides_alone plain) htake hdrop hfits).2.2.2
  exact ⟨hviews.1 1 (fits_iff.2 (by decide)) hrest,
    hviews.2 1 (fits_iff.2 (by decide)) (fits_iff.2 (by decide)) hcount (fits_iff.2 (by decide))⟩

/-! ## Trimming -/

/-- An `or` of conditions. -/
theorem or_gives {ρ : Interp.Locals SchemeVal Label Native} {a b : Code} {x y : Bool}
    (ha : M.interp.Gives G h ρ a (Value.ofBool x))
    (hb : x = false → M.interp.Gives G h ρ b (Value.ofBool y)) :
    M.interp.Gives G h ρ (.or a b) (Value.ofBool (x || y)) := by
  refine Interp.Prims.Means.either ha (fun hx => ?_) fun hx => ?_
  · obtain rfl : x = true := hx
    exact .pure rfl
  · obtain rfl : x = false := hx
    exact hb rfl

section

variable {ρ : Interp.Locals SchemeVal Label Native} {y : String} {n : Nat}

/-- The test on a character, where one is cut out. -/
theorem notWhite_gives (hG : G.Provides) (hs : ρ.lookup "s" = some (Value.text s))
    (hy : ρ.lookup y = some (Value.ofInt n))
    (hρ : ∀ x ∈ ["not", "string-contains", "substring", "+"], ρ.lookup x = none)
    (hn : Fits (n + 1 : Nat)) {b : Bool} (hb : Stdlib.blankAt? s n = .ok b) :
    M.interp.Gives G h ρ (Source.notWhite y) (Value.ofBool !b) := by
  rw [Stdlib.blankAt?] at hb
  rcases hpart : Prim.substring s n (n + 1) with e | t <;> simp only [hpart] at hb
  · cases hb
  obtain rfl := Except.ok.inj hb
  have hn' : Fits n := fits_of_le (by omega) hn
  have hadd := prims_add (M := M) hn' fits_one (by exact_mod_cast hn)
  have hsub := prims_substring (M := M) (s := s) hn' hn
  simp only [hpart, Nat.cast_add, Nat.cast_one] at hsub
  have hargs : M.interp.GivesAll G h ρ [Image.str " \t\n\r",
      Image.call "substring" ["s", y, Image.call "+" [y, Image.int 1]]]
      [Value.text " \t\n\r", Value.text t] :=
    M.prims.givesAll (by
      simp [hρ, hs, hy, Globals.Provides.strings hG, Globals.Provides.arithmetic hG, hadd, hsub])
  have hcontains := (stringContains_performs (M := M) hG).call (by simp [hρ]) hargs
  have hnot : M.interp.Gives G h ρ (.var "not") (.native (.builtin .not)) :=
    M.prims.gives (by simp [hρ, hG.builtins])
  refine hnot.call (.cons hcontains (.nil rfl)) (builtin_does prims_not ?_)
  rw [Value.truthy_ofBool]
  rfl

variable (M) in
/-- The text of the error when the byte at an index is no character. -/
def cutText (s : String) (n : Nat) : String :=
  M.refusal .substring [Value.text s, Value.ofInt n, Value.ofInt (n + 1)]

/-- The test on a character, where none is cut out. -/
theorem notWhite_raises (hG : G.Provides) (hs : ρ.lookup "s" = some (Value.text s))
    (hy : ρ.lookup y = some (Value.ofInt n))
    (hρ : ∀ x ∈ ["not", "string-contains", "substring", "+"], ρ.lookup x = none)
    (hn : Fits (n + 1 : Nat)) {e : String} (he : Stdlib.blankAt? s n = .error e) {α : Type}
    {R : Standing α} : M.interp.Means G h ρ (Source.notWhite y) R (throw (M.cutText s n)) := by
  rw [Stdlib.blankAt?] at he
  rcases hpart : Prim.substring s n (n + 1) with e | t <;> simp only [hpart] at he
  · have hdef := hG.defines Source.stringContains (by simp [stdlib]) (by decide)
    have hname : G "string-contains" = Source.stringContains.value G := hdef
    have hn' : Fits n := fits_of_le (by omega) hn
    have hadd := prims_add (M := M) hn' fits_one (by exact_mod_cast hn)
    have hsub := prims_substring (M := M) (s := s) hn' hn
    simp only [hpart, Nat.cast_add, Nat.cast_one] at hsub
    refine M.prims.raises ?_
    simp [cutText, Source.notWhite, hρ, hs, hy, hname, Define.value, Source.stringContains,
      hG.builtins, Globals.Provides.strings hG, Globals.Provides.arithmetic hG, hadd, hsub]
  · cases he

end

/-- What fails, with a text that the evaluator has for it. -/
def attempt' {α : Type} (msg : String) (r : Except String α) : Deed String World α :=
  attempt (r.mapError fun _ => msg)

section

variable {ρ : Interp.Locals SchemeVal Label Native} {f : Value}

omit [Host] in
/-- An attempt that succeeds is its result. -/
@[simp] theorem attempt'_pure {α : Type} {msg : String} (a : α) :
    attempt' msg (pure a) = pure a := rfl

omit [Host] in
/-- An attempt that fails raises the given message. -/
@[simp] theorem attempt'_error {α : Type} {msg e : String} :
    attempt' msg (.error e : Except String α) = throw msg := rfl

/-- The test that ends a loop of `string-trim`: an index that is out of range, or one at
    which there is no blank. -/
theorem trimTest (hG : G.Provides) {y : String} {test stop next : Code} {b : Bool} {n : Nat}
    (htest : M.interp.Gives G h ρ test (Value.ofBool b))
    (hs : ρ.lookup "s" = some (Value.text s))
    (hy : b = false → ρ.lookup y = some (Value.ofInt n) ∧ Fits (n + 1 : Nat))
    (hρ : ∀ x ∈ ["not", "string-contains", "substring", "+"], ρ.lookup x = none) {msg : String}
    (hmsg : b = false → ∀ e, Stdlib.blankAt? s n = .error e → msg = M.cutText s n) {α : Type}
    {R : Standing α} {r r' : Except String α}
    (hstop : M.interp.Means G h ρ stop R (attempt' msg r))
    (hnext : b = false → Stdlib.blankAt? s n = .ok true →
      M.interp.Means G h ρ next R (attempt' msg r')) :
    M.interp.Means G h ρ (.ite (.or test (Source.notWhite y)) stop next) R
      (attempt' msg (if b then r else do if !(← Stdlib.blankAt? s n) then r else r')) := by
  cases b with
  | true =>
    have hor : M.interp.Gives G h ρ (.or test (Source.notWhite y)) (Value.ofBool true) :=
      or_gives (y := true) htest (by simp)
    exact .branch hor hstop
  | false =>
    obtain ⟨hy, hn⟩ := hy rfl
    rcases hblank : Stdlib.blankAt? s n with e | c
    · obtain rfl := hmsg rfl e hblank
      have hor : M.interp.Means G h ρ (.or test (Source.notWhite y)) R (throw (M.cutText s n)) :=
        Interp.Prims.Means.either htest (by simp) fun _ => notWhite_raises hG hs hy hρ hn hblank
      exact Interp.Means.ite_throw hor
    · have hwhite := notWhite_gives (M := M) (h := h) hG hs hy hρ hn hblank
      have hor := or_gives htest fun _ => hwhite
      cases c with
      | false => exact .branch hor hstop
      | true => exact .branch hor (hnext rfl hblank)

/-- The text of the error at an index, or one for what follows. -/
theorem exists_text {n : Nat} {P : String → Prop}
    (h : Stdlib.blankAt? s n = .ok true → ∃ msg, P msg) :
    ∃ msg, (∀ e, Stdlib.blankAt? s n = .error e → msg = M.cutText s n) ∧
      (Stdlib.blankAt? s n = .ok true → P msg) := by
  rcases hblank : Stdlib.blankAt? s n with e | b
  · exact ⟨M.cutText s n, by simp, by simp⟩
  · cases b with
    | false => exact ⟨"", by simp, by simp⟩
    | true =>
      obtain ⟨msg, hmsg⟩ := h hblank
      exact ⟨msg, by simp, fun _ => hmsg⟩

/-- The loop of `string-trim` for the start. -/
theorem trimStartLoop_does (hG : G.Provides) (hfits : Fits (Prim.stringLength s)) {fuel n : Nat}
    (hn : n ≤ Prim.stringLength s) (hfuel : Prim.stringLength s < n + fuel) :
    ∃ msg, ∀ {h : List Value} {ρ : Interp.Locals SchemeVal Label Native} {f : Value},
      M.interp.Unfolds G h f ["i"] (("loop", f) :: ρ)
        (.ite (.or (Image.call "=" ["i", "len"]) (Source.notWhite "i"))
          "i"
          (Image.call "loop" [Image.call "+" ["i", Image.int 1]])) →
      ρ.lookup "s" = some (Value.text s) →
      ρ.lookup "len" = some (Value.ofInt (Prim.stringLength s)) →
      (∀ x ∈ ["=", "not", "string-contains", "substring", "+"], ρ.lookup x = none) →
      M.interp.Does G h (.apply f [Value.ofInt n]) (.of fun n : Nat => Value.ofInt n)
        (attempt' msg (Stdlib.trimStart s fuel n)) := by
  induction fuel generalizing n with
  | zero => omega
  | succ fuel ih =>
    obtain ⟨msg, hmsg, hrest⟩ := exists_text (M := M) (s := s) (n := n) fun _ =>
      if hne : n = Prim.stringLength s then ⟨"", fun h => absurd hne h⟩
      else (ih (n := n + 1) (by omega) (by omega)).imp fun _ h _ => h
    refine ⟨msg, fun {h ρ f} hf hs hlen hρ => hf h (List.prefix_refl h) _ rfl _ _ _ ?_⟩
    let ρ' := ("i", Value.ofInt n) :: ("loop", f) :: ρ
    have hρ' : ∀ x ∈ ["not", "string-contains", "substring", "+"], ρ'.lookup x = none := by
      intro x hx
      simp at hx
      rcases hx with rfl | rfl | rfl | rfl <;> simp [ρ', hρ]
    have hequal := prims_eq (M := M) (fits_of_le hn hfits) hfits
    have htest : M.interp.Gives G h ρ' (Image.call "=" ["i", "len"])
        (Value.ofBool (decide (n = Prim.stringLength s))) :=
      M.prims.gives (by simp [ρ', hρ, hlen, Globals.Provides.arithmetic hG, hequal])
    have hindex : decide (n = Prim.stringLength s) = false →
        ρ'.lookup "i" = some (Value.ofInt n) ∧ Fits (n + 1 : Nat) := by
      intro hne
      have hne := of_decide_eq_false hne
      exact ⟨by simp [ρ'], fits_of_le (by omega) hfits⟩
    have hstop : M.interp.Means G h ρ' "i" (.of fun n : Nat => Value.ofInt n)
        (attempt' msg (pure n)) :=
      M.prims.returns (v := Value.ofInt n) (by simp [ρ']) rfl
    have hnext (hne : decide (n = Prim.stringLength s) = false)
        (hblank : Stdlib.blankAt? s n = .ok true) :
        M.interp.Means G h ρ' (Image.call "loop" [Image.call "+" ["i", Image.int 1]])
          (.of fun n : Nat => Value.ofInt n)
          (attempt' msg (Stdlib.trimStart s fuel (n + 1))) := by
      have hne := of_decide_eq_false hne
      have hadd := prims_add (M := M) (fits_of_le hn hfits) fits_one
        (fits_of_le (by omega : n + 1 ≤ Prim.stringLength s) hfits)
      refine Interp.Means.call (u := f) (M.prims.gives (by simp [ρ'])) (M.prims.givesAll ?_)
        (hrest hblank hne hf hs hlen hρ)
      simp [ρ', hρ, Globals.Provides.arithmetic hG, hadd]
    have hbody := trimTest (M := M) (y := "i") hG htest (by simp [ρ', hs]) hindex hρ'
      (fun _ => hmsg) hstop hnext
    simpa [Stdlib.trimStart, ρ'] using hbody

/-- The first character that is kept lies in the text. -/
theorem trimStart_le {fuel n m : Nat} (hn : n ≤ Prim.stringLength s)
    (h : Stdlib.trimStart s fuel n = .ok m) : m ≤ Prim.stringLength s := by
  induction fuel generalizing n with
  | zero => cases h
  | succ fuel ih =>
    rw [Stdlib.trimStart] at h
    split at h
    · obtain rfl := Except.ok.inj h
      exact hn
    · rename_i hne
      rcases hblank : Stdlib.blankAt? s n with e | b <;> simp only [hblank] at h
      · cases h
      · cases b with
        | false =>
          obtain rfl := Except.ok.inj h
          exact hn
        | true => exact ih (by omega) h

/-- The loop of `string-trim` for the end. -/
theorem trimEndLoop_does (hG : G.Provides) (hfits : Fits (Prim.stringLength s)) {start fuel : Nat}
    {i : Int} (hi : start ≤ i + 1) (hi' : i < Prim.stringLength s) (hfuel : i + 1 < start + fuel) :
    ∃ msg, ∀ {h : List Value} {ρ : Interp.Locals SchemeVal Label Native} {f : Value},
      M.interp.Unfolds G h f ["i"] (("loop", f) :: ρ)
        (.ite (.or (Image.call "<" ["i", "start"]) (Source.notWhite "i"))
          (Image.call "+" ["i", Image.int 1])
          (Image.call "loop" [Image.call "-" ["i", Image.int 1]])) →
      ρ.lookup "s" = some (Value.text s) → ρ.lookup "start" = some (Value.ofInt start) →
      (∀ x ∈ ["<", "not", "string-contains", "substring", "+", "-"], ρ.lookup x = none) →
      M.interp.Does G h (.apply f [Value.ofInt i]) (.of Value.ofInt)
        (attempt' msg (Stdlib.trimEnd s start fuel i)) := by
  induction fuel generalizing i with
  | zero => omega
  | succ fuel ih =>
    obtain ⟨msg, hmsg, hrest⟩ := exists_text (M := M) (n := i.toNat) fun _ =>
      if hlt : i < start then ⟨"", fun h => absurd hlt h⟩
      else (ih (i := i - 1) (by omega) (by omega) (by omega)).imp fun _ h _ => h
    refine ⟨msg, fun {h ρ f} hf hs hstart hρ => hf h (List.prefix_refl h) _ rfl _ _ _ ?_⟩
    let ρ' := ("i", Value.ofInt i) :: ("loop", f) :: ρ
    have hρ' : ∀ x ∈ ["not", "string-contains", "substring", "+"], ρ'.lookup x = none := by
      intro x hx
      simp at hx
      rcases hx with rfl | rfl | rfl | rfl <;> simp [ρ', hρ]
    obtain ⟨hfitsI, hfitsStart, hsucc⟩ : Fits i ∧ Fits start ∧ Fits (i + 1) := by
      simp only [fits_iff] at *
      omega
    have hless := prims_lt (M := M) hfitsI hfitsStart
    have htest : M.interp.Gives G h ρ' (Image.call "<" ["i", "start"])
        (Value.ofBool (decide (i < start))) :=
      M.prims.gives (by simp [ρ', hρ, hstart, Globals.Provides.arithmetic hG, hless])
    have hindex : decide (i < start) = false →
        ρ'.lookup "i" = some (Value.ofInt i.toNat) ∧ Fits (i.toNat + 1 : Nat) := by
      intro hge
      have hge := of_decide_eq_false hge
      have hnat : (i.toNat : Int) = i := by omega
      exact ⟨by simp [ρ', hnat], by rwa [Nat.cast_add, hnat]⟩
    have hadd := prims_add (M := M) hfitsI fits_one hsucc
    have hstop : M.interp.Means G h ρ' (Image.call "+" ["i", Image.int 1]) (.of Value.ofInt)
        (attempt' msg (pure (i + 1))) :=
      M.prims.returns (v := Value.ofInt (i + 1))
        (by simp [ρ', hρ, Globals.Provides.arithmetic hG, hadd]) rfl
    have hnext (hge : decide (i < start) = false) (hblank : Stdlib.blankAt? s i.toNat = .ok true) :
        M.interp.Means G h ρ' (Image.call "loop" [Image.call "-" ["i", Image.int 1]])
          (.of Value.ofInt) (attempt' msg (Stdlib.trimEnd s start fuel (i - 1))) := by
      have hge := of_decide_eq_false hge
      have hpred : Fits (i - 1) := by
        simp only [fits_iff] at *
        omega
      have hsub := prims_sub (M := M) hfitsI fits_one hpred
      refine Interp.Means.call (u := f) (M.prims.gives (by simp [ρ'])) (M.prims.givesAll ?_)
        (hrest hblank hge hf hs hstart hρ)
      simp [ρ', hρ, Globals.Provides.arithmetic hG, hsub]
    have hbody := trimTest (M := M) (y := "i") hG htest (by simp [ρ', hs]) hindex hρ'
      (fun _ => hmsg) hstop hnext
    simpa [Stdlib.trimEnd, ρ'] using hbody

/-- The last character that is kept lies after the first. -/
theorem trimEnd_bounds {start fuel : Nat} {i j : Int} (hi : start ≤ i + 1)
    (h : Stdlib.trimEnd s start fuel i = .ok j) : start ≤ j ∧ j ≤ i + 1 := by
  induction fuel generalizing i with
  | zero => cases h
  | succ fuel ih =>
    rw [Stdlib.trimEnd] at h
    split at h
    · obtain rfl := Except.ok.inj h
      exact ⟨hi, le_refl _⟩
    · rcases hblank : Stdlib.blankAt? s i.toNat with e | b <;> simp only [hblank] at h
      · cases h
      · cases b with
        | false =>
          obtain rfl := Except.ok.inj h
          exact ⟨hi, le_refl _⟩
        | true =>
          have hrest := ih (by omega) h
          omega

/-- `string-trim` does what the function does, but for the texts of the errors. -/
theorem stringTrim_performs (hG : G.Provides) (hfits : Fits (Prim.stringLength s)) :
    ∃ msg, M.Performs G h "string-trim" [Value.text s] Standing.text
      (attempt' msg (Stdlib.stringTrim s)) := by
  have hdef := hG.defines Source.stringTrim (by simp [stdlib]) (by decide)
  have harith := Globals.Provides.arithmetic hG
  have hstrings := Globals.Provides.strings hG
  have hlen : M.interp.GivesAll G h [("s", Value.text s)] [Image.call "string-length" ["s"]]
      [Value.ofInt (Prim.stringLength s)] :=
    M.prims.givesAll (by simp [hstrings, prims_length])
  have hfirst : M.interp.GivesAll G h
      [("len", Value.ofInt (Prim.stringLength s)), ("s", Value.text s)] [Image.int 0]
      [Value.ofInt (0 : Nat)] :=
    M.prims.givesAll (by simp)
  have hfuel : Prim.stringLength s < 0 + (Prim.stringLength s + 1) := by omega
  obtain ⟨msg, hloop⟩ := trimStartLoop_does (M := M) hG hfits (Nat.zero_le _) hfuel
  have hstart := hfirst.loop fun heap hh f hf => hloop hf rfl rfl (by simp)
  rcases hbegin : Stdlib.trimStart s (Prim.stringLength s + 1) 0 with e | start
  · have htrim : Stdlib.stringTrim s = .error e := by rw [Stdlib.stringTrim, hbegin]; rfl
    rw [hbegin] at hstart
    rw [htrim]
    exact ⟨msg, performs_of_body hdef rfl (hlen.let' rfl (.let_throw hstart))⟩
  · have hle := trimStart_le (Nat.zero_le _) hbegin
    rw [hbegin] at hstart
    have hlast : Fits (Prim.stringLength s - 1 : Int) := by
      simp only [fits_iff] at *
      omega
    have hsub := prims_sub (M := M) hfits fits_one hlast
    have hend' : (Prim.stringLength s - 1 : Int) + 1 < start + (Prim.stringLength s + 1 : Nat) := by
      omega
    obtain ⟨msg', hloop'⟩ := trimEndLoop_does (M := M) hG hfits (by omega) (by omega) hend'
    have hstarted : M.interp.GivesAll G h _ [_] [Value.ofInt start] := .cons hstart.fix (.nil rfl)
    let ρ := [("start", Value.ofInt start), ("len", Value.ofInt (Prim.stringLength s)),
      ("s", Value.text s)]
    have hpred : M.interp.GivesAll G h ρ [Image.call "-" ["len", Image.int 1]]
        [Value.ofInt (Prim.stringLength s - 1)] :=
      M.prims.givesAll (by simp [ρ, harith, hsub])
    have hend := hpred.loop fun heap hh f hf => hloop' hf rfl rfl (by simp [ρ])
    rcases hfinish : Stdlib.trimEnd s start (Prim.stringLength s + 1) (Prim.stringLength s - 1) with
      e | stop
    · have htrim : Stdlib.stringTrim s = .error e := by
        rw [Stdlib.stringTrim, hbegin]
        change Stdlib.trimEnd s start _ _ >>= _ = _
        rw [hfinish]
        rfl
      rw [hfinish] at hend
      rw [htrim]
      exact ⟨msg', performs_of_body hdef rfl (hlen.let' rfl (hstarted.let' rfl (.let_throw hend)))⟩
    · have htrim : Stdlib.stringTrim s = Prim.substring s start stop.toNat := by
        rw [Stdlib.stringTrim, hbegin]
        change Stdlib.trimEnd s start _ _ >>= _ = _
        rw [hfinish]
        rfl
      obtain ⟨hge, hstop⟩ := trimEnd_bounds (by omega) hfinish
      obtain ⟨m, rfl⟩ : ∃ m : Nat, stop = m := ⟨stop.toNat, by omega⟩
      rw [hfinish] at hend
      rw [htrim, Int.toNat_natCast]
      have hsub' := prims_substring (M := M) (s := s) (fits_of_le hle hfits)
        (fits_of_le (m := m) (by omega) hfits)
      have hended : M.interp.GivesAll G h ρ [_] [Value.ofInt m] := .cons hend.fix (.nil rfl)
      refine ⟨M.refusal .substring [Value.text s, Value.ofInt start, Value.ofInt m],
        performs_of_body hdef rfl (hlen.let' rfl (hstarted.let' rfl (hended.let' rfl ?_)))⟩
      rcases hpart : Prim.substring s start m with e | t <;> simp only [hpart] at hsub' ⊢
      · exact M.prims.raises (by simp [ρ, hstrings, hsub'])
      · exact M.prims.returns (v := Value.text t) (by simp [ρ, hstrings, hsub']) rfl

omit [Host] in
/-- A word with blanks around it, in the image. -/
theorem stringTrim_performs_word :
    let _ : Host := scripted "did:ma:me" fun _ _ _ => .ok .nil
    ∃ msg, plain.Performs plain.combined [] "string-trim" [Value.text " lamp\n"] Standing.text
      (attempt' msg (Stdlib.stringTrim " lamp\n")) := by
  intro _
  exact stringTrim_performs (M := plain) (provides_combined plain) (fits_iff.2 (by decide))

end

end

end Machine

end Image

end Zscheme
