import Mathlib.Data.List.Basic

/-!
# Lisp values

The values of the Emacs frontend, the primitives that it takes them apart with, and the
coding system `utf-8`.

Decoding text does two things. Bytes become characters, and then the line ends are
converted: the name `utf-8`, unlike `utf-8-unix`, leaves it to the text which convention
it follows (`eolSeen`, `EolSeen.type`). Encoding converts no line ends.

* `decodeUtf8_encodeUtf8`: encoded characters are decoded;
* `decodeEol_eq_iff`: the conversion leaves a text alone if and only if it keeps its
  line ends (`KeepsLines`).
-/

namespace Zscheme.Emacs

/-- A character of a Lisp string. -/
inductive LispChar
  | char (c : Char)
  /-- A byte that is part of no character. -/
  | raw (b : UInt8)
  deriving DecidableEq

/-- The number that a character is. -/
def LispChar.code : LispChar → Nat
  | char c => c.toNat
  | raw b => 0x3fff00 + b.toNat

/-- A Lisp value. -/
inductive Lisp
  | sym (name : String)
  | int (n : Int)
  | str (s : List LispChar)
  | cons (car cdr : Lisp)
  deriving DecidableEq

/-- What a function signals instead of returning. -/
inductive Signal
  | argsOutOfRange
  | wrongTypeArgument (predicate : String) (value : Lisp)
  /-- `(error format args …)`. -/
  | error (format : String) (args : List Lisp)
  deriving DecidableEq

@[simp] theorem ok_bind {α β : Type} (a : α) (f : α → Except Signal β) :
    (Except.ok a >>= f) = f a := rfl

/-- The characters of a text. -/
def chars (s : String) : List LispChar := s.toList.map .char

namespace Lisp

/-- The symbol `nil`, which is the empty list. -/
abbrev nil : Lisp := .sym "nil"

/-- A string literal. -/
def text (s : String) : Lisp := .str (chars s)

/-- The list of some values. -/
def list : List Lisp → Lisp
  | [] => nil
  | v :: vs => .cons v (list vs)

@[simp] theorem list_nil : list [] = nil := rfl

@[simp] theorem list_cons (v : Lisp) (vs : List Lisp) : list (v :: vs) = .cons v (list vs) := rfl

/-- `car` -/
def car : Lisp → Except Signal Lisp
  | .cons a _ => .ok a
  | .sym "nil" => .ok nil
  | v => .error (.wrongTypeArgument "listp" v)

/-- `cdr` -/
def cdr : Lisp → Except Signal Lisp
  | .cons _ d => .ok d
  | .sym "nil" => .ok nil
  | v => .error (.wrongTypeArgument "listp" v)

/-- The length of a list. -/
def safeLength : Lisp → Except Signal Nat
  | .cons _ d => do return (← safeLength d) + 1
  | .sym "nil" => .ok 0
  | v => .error (.wrongTypeArgument "listp" v)

/-- The length of a sequence: of a string, or else of a list. -/
def length : Lisp → Except Signal Nat
  | .str s => .ok s.length
  | v => safeLength v

/-- The first pair of an association list whose car is the key. -/
def assoc (key : Lisp) : Lisp → Except Signal Lisp
  | .cons (.cons k v) alist => if k = key then .ok (.cons k v) else assoc key alist
  | .cons _ alist => assoc key alist
  | .sym "nil" => .ok nil
  | v => .error (.wrongTypeArgument "listp" v)

/-- The strings of a value. -/
def strings : Lisp → List (List LispChar)
  | .sym _ => []
  | .int _ => []
  | .str s => [s]
  | .cons a d => strings a ++ strings d

/-- The value with each of its strings changed. -/
def mapStrings (f : List LispChar → List LispChar) : Lisp → Lisp
  | .sym name => .sym name
  | .int n => .int n
  | .str s => .str (f s)
  | .cons a d => .cons (mapStrings f a) (mapStrings f d)

/-- The length of a list is that of its elements. -/
@[simp] theorem length_list (vs : List Lisp) : (list vs).length = .ok vs.length := by
  have hsafe : (list vs).safeLength = .ok vs.length := by
    induction vs with
    | nil => rfl
    | cons v vs ih =>
      rw [list, safeLength, ih]
      rfl
  cases vs with
  | nil => rfl
  | cons v vs => exact hsafe

/-- In a list each element is mapped. -/
@[simp] theorem mapStrings_list (f : List LispChar → List LispChar) (vs : List Lisp) :
    (list vs).mapStrings f = list (vs.map (mapStrings f)) := by
  induction vs with
  | nil => rfl
  | cons v vs ih => rw [list, mapStrings, ih, List.map_cons, list]

/-- A value is left alone if and only if each of its strings is. -/
theorem mapStrings_eq_iff (f : List LispChar → List LispChar) (v : Lisp) :
    v.mapStrings f = v ↔ ∀ s ∈ v.strings, f s = s := by
  induction v with
  | sym | int => simp [mapStrings, strings]
  | str s => simp [mapStrings, strings]
  | cons a d iha ihd =>
    rw [mapStrings, Lisp.cons.injEq, iha, ihd, strings, List.forall_mem_append]

end Lisp

/-! ## Characters and bytes -/

/-- The bytes of some characters. -/
def encodeUtf8 : List LispChar → List UInt8
  | [] => []
  | .char c :: s => String.utf8EncodeChar c ++ encodeUtf8 s
  | .raw b :: s => b :: encodeUtf8 s

/-- The character at the front of some bytes. -/
def frontChar (bs : List UInt8) : Option Char := ByteArray.utf8DecodeChar? bs.toByteArray 0

/-- The characters of some bytes, of which the first few, as many as `skip`, belong to a
    character that has been read. A byte that begins no character stands for itself. -/
def decodeRest : (skip : Nat) → List UInt8 → List LispChar
  | _, [] => []
  | skip + 1, _ :: bs => decodeRest skip bs
  | 0, b :: bs =>
    match frontChar (b :: bs) with
    | some c => .char c :: decodeRest (c.utf8Size - 1) bs
    | none => .raw b :: decodeRest 0 bs

/-- The characters of some bytes. -/
def decodeUtf8 (bs : List UInt8) : List LispChar := decodeRest 0 bs

/-- Bytes that are skipped are behind. -/
theorem decodeRest_append (skipped bs : List UInt8) :
    decodeRest skipped.length (skipped ++ bs) = decodeRest 0 bs := by
  induction skipped with
  | nil => rfl
  | cons b skipped ih => rw [List.length_cons, List.cons_append, decodeRest, ih]

/-- An encoded character is decoded. -/
theorem decodeRest_utf8EncodeChar (c : Char) (bs : List UInt8) :
    decodeRest 0 (String.utf8EncodeChar c ++ bs) = .char c :: decodeRest 0 bs := by
  have hc : frontChar (String.utf8EncodeChar c ++ bs) = some c := by
    rw [frontChar, List.toByteArray_append]
    exact ByteArray.utf8DecodeChar?_utf8EncodeChar_append
  have hlen := String.length_utf8EncodeChar c
  have hpos := c.utf8Size_pos
  cases hbs : String.utf8EncodeChar c with
  | nil =>
    rw [hbs, List.length_nil] at hlen
    omega
  | cons b skipped =>
    rw [hbs, List.cons_append] at hc
    rw [hbs, List.length_cons] at hlen
    have hskip : c.utf8Size - 1 = skipped.length := by omega
    rw [List.cons_append, decodeRest, hc]
    simp only [hskip, decodeRest_append]

/-- The characters of a text are decoded from their bytes. -/
theorem decodeUtf8_encodeUtf8 (s : String) : decodeUtf8 (encodeUtf8 (chars s)) = chars s := by
  rw [decodeUtf8, chars]
  induction s.toList with
  | nil => rfl
  | cons c s ih => rw [List.map_cons, encodeUtf8, decodeRest_utf8EncodeChar, ih]

/-! ## Line ends -/

/-- Which line ends a text has. -/
structure EolSeen where
  /-- A line feed that follows no carriage return. -/
  lf : Bool
  /-- A carriage return and a line feed. -/
  crlf : Bool
  /-- A carriage return that no line feed follows. -/
  cr : Bool

/-- The kinds of line ends in a text. -/
def eolSeen : List LispChar → EolSeen
  | .char '\r' :: .char '\n' :: s => { eolSeen s with crlf := true }
  | .char '\r' :: s => { eolSeen s with cr := true }
  | .char '\n' :: s => { eolSeen s with lf := true }
  | _ :: s => eolSeen s
  | [] => ⟨false, false, false⟩

/-- A convention for line ends. -/
inductive EolType
  | unix
  | dos
  | mac

/-- The convention that a text is taken to follow: where more than one has been seen it
    is that of Unix, but for stray carriage returns in a text that ends its lines with
    both. -/
def EolSeen.type : EolSeen → EolType
  | ⟨false, true, _⟩ => .dos
  | ⟨false, false, true⟩ => .mac
  | _ => .unix

/-- The text without the carriage returns that are before a line feed. -/
def dropReturns : List LispChar → List LispChar
  | .char '\r' :: .char '\n' :: s => .char '\n' :: dropReturns s
  | c :: s => c :: dropReturns s
  | [] => []

/-- The text, its line ends by the convention read as line feeds. -/
def EolType.decode (s : List LispChar) : EolType → List LispChar
  | unix => s
  | dos => dropReturns s
  | mac => s.map fun c => if c = .char '\r' then .char '\n' else c

/-- The text with line feeds for its line ends. -/
def decodeEol (s : List LispChar) : List LispChar := (eolSeen s).type.decode s

/-- The text has a line feed that is not right after a carriage return. -/
def BareLineFeed (s : List LispChar) : Prop :=
  ∃ a b, s = a ++ .char '\n' :: b ∧ a.getLast? ≠ some (.char '\r')

/-- The text keeps its line ends when it is decoded: it has no carriage return, or a line
    feed that is not right after one. -/
def KeepsLines (s : List LispChar) : Prop := .char '\r' ∉ s ∨ BareLineFeed s

/-- A character in front leaves it bare, unless it is a return before a line feed. -/
theorem BareLineFeed.cons {c : LispChar} {s : List LispChar} (h : BareLineFeed s)
    (hc : c ≠ .char '\r' ∨ s.head? ≠ some (.char '\n')) : BareLineFeed (c :: s) := by
  obtain ⟨a, b, rfl, ha⟩ := h
  refine ⟨c :: a, b, rfl, ?_⟩
  cases a with
  | nil => simpa using hc
  | cons x a => rwa [List.getLast?_cons_cons]

/-- It is in the rest if the first character is no line feed. -/
theorem BareLineFeed.of_cons {c : LispChar} {s : List LispChar} (h : BareLineFeed (c :: s))
    (hc : c ≠ .char '\n') : BareLineFeed s := by
  obtain ⟨a, b, hs, ha⟩ := h
  cases a with
  | nil => exact absurd (List.cons.inj hs).1 hc
  | cons x a =>
    refine ⟨a, b, (List.cons.inj hs).2, fun hlast => ha ?_⟩
    rw [List.getLast?_cons, hlast]
    rfl

/-- A line feed that no return stands before is seen. -/
theorem bareLineFeed_iff (s : List LispChar) : BareLineFeed s ↔ (eolSeen s).lf = true := by
  fun_induction eolSeen s with
  | case1 s _ ih =>
    rw [← ih]
    constructor
    · rintro ⟨a, b, hs, ha⟩
      -- a return and a line feed: what is before them is empty, the return, or longer
      match a with
      | [] => exact absurd (List.cons.inj hs).1 (by decide)
      | [x] =>
        refine absurd ?_ ha
        rw [← (List.cons.inj hs).1]
        rfl
      | x :: y :: a =>
        refine ⟨a, b, (List.cons.inj (List.cons.inj hs).2).2, fun hlast => ha ?_⟩
        rw [List.getLast?_cons, List.getLast?_cons, hlast]
        rfl
    · rintro ⟨a, b, rfl, ha⟩
      refine ⟨.char '\r' :: .char '\n' :: a, b, rfl, ?_⟩
      cases a with
      | nil => decide
      | cons x a => rwa [List.getLast?_cons_cons, List.getLast?_cons_cons]
  | case2 s hlf _ ih =>
    rw [← ih]
    refine ⟨fun h => h.of_cons (by decide), fun h => h.cons (.inr ?_)⟩
    intro hhead
    obtain ⟨s', rfl⟩ := List.head?_eq_some_iff.1 hhead
    exact hlf s' rfl
  | case3 s _ ih => exact iff_of_true ⟨[], s, rfl, nofun⟩ rfl
  | case4 c s _ hcr hlf ih =>
    rw [← ih]
    exact ⟨fun h => h.of_cons fun hc => hlf hc, fun h => h.cons (.inl fun hc => hcr hc)⟩
  | case5 => simp [BareLineFeed]

instance (s : List LispChar) : Decidable (KeepsLines s) :=
  decidable_of_iff (.char '\r' ∉ s ∨ (eolSeen s).lf = true)
    (or_congr_right (bareLineFeed_iff s).symm)

/-- A return is seen alone, or before a line feed. -/
theorem return_mem_iff (s : List LispChar) :
    .char '\r' ∈ s ↔ (eolSeen s).crlf = true ∨ (eolSeen s).cr = true := by
  fun_induction eolSeen s with
  | case1 s ih => simp
  | case2 s _ ih => simp
  | case3 s _ ih => simpa using ih
  | case4 c s _ hcr _ ih =>
    rw [List.mem_cons, ih, or_iff_right fun h => hcr h.symm]
  | case5 => simp

/-- Nothing is added. -/
theorem length_dropReturns_le (s : List LispChar) : (dropReturns s).length ≤ s.length := by
  fun_induction dropReturns s with
  | case1 s ih => simp only [List.length_cons]; omega
  | case2 c s _ ih => simpa using ih
  | case3 => exact Nat.le_refl _

/-- A text that has a carriage return before a line feed loses it. -/
theorem dropReturns_ne {s : List LispChar} (h : (eolSeen s).crlf = true) : dropReturns s ≠ s := by
  fun_induction eolSeen s with
  | case1 s ih =>
    intro heq
    -- a return is dropped, so that the result is shorter
    have hlen := congrArg List.length heq
    have hle := length_dropReturns_le s
    rw [dropReturns] at hlen
    simp only [List.length_cons] at hlen
    omega
  | case2 s hlf _ ih =>
    rw [dropReturns]
    · exact fun heq => ih h (List.cons.inj heq).2
    · exact fun s' _ hs' => hlf s' hs'
  | case3 s _ ih =>
    rw [dropReturns]
    · exact fun heq => ih h (List.cons.inj heq).2
    · nofun
  | case4 c s hcrlf _ _ ih =>
    rw [dropReturns]
    · exact fun heq => ih h (List.cons.inj heq).2
    · exact hcrlf
  | case5 => exact absurd h Bool.false_ne_true

/-- A text is left alone if and only if it keeps its line ends. -/
theorem decodeEol_eq_iff (s : List LispChar) : decodeEol s = s ↔ KeepsLines s := by
  have hmem := return_mem_iff s
  rw [decodeEol, KeepsLines, bareLineFeed_iff, hmem]
  rcases hseen : eolSeen s with ⟨lf, crlf, cr⟩
  rw [hseen] at hmem
  cases lf with
  | true => simp [EolSeen.type, EolType.decode]
  | false =>
    cases crlf with
    | true => simpa [EolSeen.type, EolType.decode] using dropReturns_ne (by rw [hseen])
    | false =>
      cases cr with
      | true =>
        -- lone returns: each of them becomes a line feed
        have hr : .char '\r' ∈ s := hmem.2 (.inr rfl)
        simp only [EolSeen.type, EolType.decode]
        refine iff_of_false (fun heq => ?_) (by simp)
        rw [← heq] at hr
        obtain ⟨c, -, hc⟩ := List.mem_map.1 hr
        split at hc
        · exact absurd hc (by decide)
        · contradiction
      | false => simp [EolSeen.type, EolType.decode]

/-- `(decode-coding-string bytes 'utf-8)`. -/
def decodeCodingString (bs : List UInt8) : List LispChar := decodeEol (decodeUtf8 bs)

example : decodeCodingString (encodeUtf8 (chars "a\r\nå")) = chars "a\nå" := by decide +kernel

end Zscheme.Emacs
