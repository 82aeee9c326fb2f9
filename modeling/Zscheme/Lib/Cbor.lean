import Mathlib.Data.List.Basic
import Mathlib.Algebra.Order.Ring.Int

/-!
# CBOR

Data items and their preferred encoding: definite lengths, and every length and
integer in as few bytes as it fits.

* `Cbor.encode`: the bytes of an item.
* `Cbor.decodeItem`: the item at the front of some bytes, and what follows it.
* `decodeItem_encode`: what was encoded is decoded, whatever follows it, so that
  encodings are self-delimiting.

Lengths have 64 bits. As the encoding of an item is longer than each of its parts,
one bound on its length covers all of them.
-/

namespace Zscheme

/-! ## Big-endian numbers -/

/-- The low `w` bytes of a number, the most significant first. -/
def toBeBytes : Nat → Nat → List UInt8
  | 0, _ => []
  | w + 1, n => UInt8.ofNat (n / 256 ^ w) :: toBeBytes w n

/-- The number that some bytes spell, the most significant first. -/
def fromBeBytes (b : List UInt8) : Nat := b.foldl (fun n x => n * 256 + x.toNat) 0

/-- A number of a given width has that many bytes. -/
@[simp] theorem length_toBeBytes (w n : Nat) : (toBeBytes w n).length = w := by
  induction w with
  | zero => rfl
  | succ w ih => rw [toBeBytes, List.length_cons, ih]

/-- The bytes are read back, after any number read before. -/
theorem foldl_toBeBytes (w n a : Nat) :
    (toBeBytes w n).foldl (fun n x => n * 256 + x.toNat) a = a * 256 ^ w + n % 256 ^ w := by
  induction w generalizing a with
  | zero => simp [toBeBytes, Nat.mod_one]
  | succ w ih =>
    have hx : (UInt8.ofNat (n / 256 ^ w)).toNat = n / 256 ^ w % 256 := UInt8.toNat_ofNat'
    rw [toBeBytes, List.foldl_cons, ih, hx, Nat.pow_succ, Nat.mod_mul, Nat.add_mul,
      Nat.mul_assoc, Nat.mul_comm 256, Nat.mul_comm (256 ^ w) (_ % 256)]
    omega

/-- A number that fits in its bytes is read back from them. -/
theorem fromBeBytes_toBeBytes {w n : Nat} (h : n < 256 ^ w) :
    fromBeBytes (toBeBytes w n) = n := by
  rw [fromBeBytes, foldl_toBeBytes, Nat.zero_mul, Nat.zero_add, Nat.mod_eq_of_lt h]

/-- What is read from some bytes is bounded by their number. -/
theorem foldl_fromBeBytes_lt (b : List UInt8) (a : Nat) :
    b.foldl (fun n x => n * 256 + x.toNat) a < (a + 1) * 256 ^ b.length := by
  induction b generalizing a with
  | nil => simp
  | cons x b ih =>
    have hx : x.toNat < 256 := x.toNat_lt
    rw [List.foldl_cons, List.length_cons, Nat.pow_succ', ← Nat.mul_assoc]
    exact Nat.lt_of_lt_of_le (ih _) (Nat.mul_le_mul_right _ (by omega))

/-- Bytes spell a number that fits in them. -/
theorem fromBeBytes_lt (b : List UInt8) : fromBeBytes b < 256 ^ b.length := by
  rw [fromBeBytes, ← Nat.one_mul (256 ^ b.length)]
  exact foldl_fromBeBytes_lt b 0

/-- The first `n` bytes and the others, if there are that many. -/
def splitBytes (n : Nat) (bs : List UInt8) : Option (List UInt8 × List UInt8) :=
  if bs.length < n then none else some (bs.take n, bs.drop n)

/-- The bytes that were put in front are taken off. -/
theorem splitBytes_append {n : Nat} {b : List UInt8} (h : b.length = n) (rest : List UInt8) :
    splitBytes n (b ++ rest) = some (b, rest) := by
  subst h
  simp [splitBytes]

/-- What is taken off has the length that was asked for. -/
theorem splitBytes_eq_some {n : Nat} {bs b rest : List UInt8}
    (h : splitBytes n bs = some (b, rest)) : b.length = n ∧ bs = b ++ rest := by
  rw [splitBytes] at h
  split at h
  · cases h
  · cases h
    refine ⟨?_, (List.take_append_drop n bs).symm⟩
    rw [List.length_take]
    omega

/-! ## Text -/

/-- The UTF-8 bytes of a string. -/
def utf8 (s : String) : List UInt8 := s.toByteArray.data.toList

/-- The string with the given UTF-8 bytes, if there is one. -/
def ofUtf8? (b : List UInt8) : Option String := String.fromUTF8? ⟨b.toArray⟩

/-- The length of an encoding, as the core library counts it. -/
@[simp] theorem length_utf8 (s : String) : (utf8 s).length = s.utf8ByteSize := by
  rw [← String.size_toByteArray]
  exact Array.length_toList

/-- An encoded text is read back. -/
@[simp] theorem ofUtf8?_utf8 (s : String) : ofUtf8? (utf8 s) = some s := by
  have h : (⟨(utf8 s).toArray⟩ : ByteArray) = s.toByteArray := by simp [utf8]
  rw [ofUtf8?, h, String.fromUTF8?, dif_pos s.isValidUTF8]
  rfl

/-- Only its own bytes are read as a string. -/
theorem ofUtf8?_eq_some {b : List UInt8} {s : String} (h : ofUtf8? b = some s) : b = utf8 s := by
  rw [ofUtf8?, String.fromUTF8?] at h
  split at h
  · cases h
    rfl
  · cases h

/-- Texts are encoded one after the other. -/
theorem utf8_append (s t : String) : utf8 (s ++ t) = utf8 s ++ utf8 t := by
  simp [utf8]

/-- An ASCII character is one byte. -/
theorem utf8_ofList_cons {c : Char} (h : c.toNat ≤ 127) (cs : List Char) :
    utf8 (String.ofList (c :: cs)) = UInt8.ofNat c.toNat :: utf8 (String.ofList cs) := by
  rw [String.ofList_cons, utf8_append, String.singleton_eq_ofList]
  simp [utf8, List.utf8Encode, String.utf8EncodeChar, h]

/-- A byte of a number in decimal notation. -/
def DecimalByte (b : UInt8) : Prop := b = 0x2d ∨ 0x30 ≤ b ∧ b ≤ 0x39

/-- A byte from 64 on is neither a digit nor a sign. -/
theorem not_decimalByte {b : UInt8} (h : 64 ≤ b.toNat) : ¬ DecimalByte b := by
  rintro (rfl | ⟨_, hle⟩)
  · exact absurd h (by decide)
  · have hle : b.toNat ≤ 57 := UInt8.le_iff_toNat_le.1 hle
    omega

/-- A number is written in digits, at least one. -/
theorem utf8_toString_nat (n : Nat) : ∃ b bs, utf8 (toString n) = b :: bs ∧ DecimalByte b := by
  rw [Nat.toString_eq_ofList_toDigits]
  rcases hd : Nat.toDigits 10 n with _ | ⟨c, cs⟩
  · exact absurd hd Nat.toDigits_ne_nil
  have hc : c.isDigit = true :=
    Nat.isDigit_of_mem_toDigits (by decide) (by decide) (hd ▸ List.mem_cons_self)
  have hc : 48 ≤ c.toNat ∧ c.toNat ≤ 57 := by simpa [Char.isDigit, UInt32.le_iff_toNat_le] using hc
  refine ⟨_, _, utf8_ofList_cons (by omega) cs, .inr ?_⟩
  have hb : (UInt8.ofNat c.toNat).toNat = c.toNat := by
    rw [UInt8.toNat_ofNat']
    omega
  rw [UInt8.le_iff_toNat_le, UInt8.le_iff_toNat_le, hb]
  exact hc

/-- The decimal notation of an integer begins with a sign or a digit. -/
theorem utf8_toString_int (n : Int) : ∃ b bs, utf8 (toString n) = b :: bs ∧ DecimalByte b := by
  cases n with
  | ofNat n => exact utf8_toString_nat n
  | negSucc n =>
    refine ⟨0x2d, utf8 (toString (n + 1)), ?_, .inl rfl⟩
    exact utf8_append "-" (toString (n + 1))

/-! ## Items -/

/-- A CBOR data item. Floats are given by their 64 bits. -/
inductive Cbor
  | uint (n : UInt64)
  /-- The integer `-1 - n`. -/
  | nint (n : UInt64)
  | bytes (b : List UInt8)
  | text (s : String)
  | array (xs : List Cbor)
  | map (m : List (Cbor × Cbor))
  | bool (b : Bool)
  | null
  | float (bits : UInt64)

namespace Cbor

/-- The head of an item: its major type, and an argument in as few bytes as it fits. -/
def head (major n : Nat) : List UInt8 :=
  if n < 24 then [UInt8.ofNat (32 * major + n)]
  else if n < 256 ^ 1 then UInt8.ofNat (32 * major + 24) :: toBeBytes 1 n
  else if n < 256 ^ 2 then UInt8.ofNat (32 * major + 25) :: toBeBytes 2 n
  else if n < 256 ^ 4 then UInt8.ofNat (32 * major + 26) :: toBeBytes 4 n
  else UInt8.ofNat (32 * major + 27) :: toBeBytes 8 n

/-- How many bytes the argument of a head has after the first one. -/
def argWidth : Nat → Option Nat
  | 24 => some 1
  | 25 => some 2
  | 26 => some 4
  | 27 => some 8
  | _ => none

/-- A head that has been read. -/
structure Head where
  /-- The major type. -/
  major : Nat
  /-- The low five bits of the first byte. -/
  info : Nat
  /-- The argument. -/
  arg : Nat

/-- The head at the front of some bytes, and what follows it. -/
def readHead : List UInt8 → Option (Head × List UInt8)
  | [] => none
  | b :: bs =>
    let major := b.toNat / 32
    let info := b.toNat % 32
    if info < 24 then some (⟨major, info, info⟩, bs)
    else do
      let w ← argWidth info
      let (arg, bs) ← splitBytes w bs
      return (⟨major, info, fromBeBytes arg⟩, bs)

/-- A head with its number in the bytes that follow is read back. -/
theorem readHead_cons {major info w n : Nat} (hm : major < 8) (hi : ¬info < 24) (hi' : info < 32)
    (hw : argWidth info = some w) (hn : n < 256 ^ w) (rest : List UInt8) :
    readHead (UInt8.ofNat (32 * major + info) :: toBeBytes w n ++ rest) =
      some (⟨major, info, n⟩, rest) := by
  have hb : (UInt8.ofNat (32 * major + info)).toNat = 32 * major + info := by
    rw [UInt8.toNat_ofNat']
    omega
  have hmaj : (32 * major + info) / 32 = major := by omega
  have hinf : (32 * major + info) % 32 = info := by omega
  simp only [List.cons_append, readHead, hb, hmaj, hinf, if_neg hi, hw, Option.bind_eq_bind,
    Option.bind_some, splitBytes_append (length_toBeBytes w n), fromBeBytes_toBeBytes hn]
  rfl

/-- A head is read back, whatever follows it. -/
theorem readHead_head {major n : Nat} (hm : major < 8) (hn : n < 256 ^ 8) :
    ∃ info, (n < 24 → info = n) ∧
      ∀ rest, readHead (head major n ++ rest) = some (⟨major, info, n⟩, rest) := by
  simp only [head]
  split_ifs with h₀ h₁ h₂ h₄
  · refine ⟨n, fun _ => rfl, fun rest => ?_⟩
    have hb : (UInt8.ofNat (32 * major + n)).toNat = 32 * major + n := by
      rw [UInt8.toNat_ofNat']
      omega
    have hmaj : (32 * major + n) / 32 = major := by omega
    have hinf : (32 * major + n) % 32 = n := by omega
    simp only [List.cons_append, List.nil_append, readHead, hb, hmaj, hinf, if_pos h₀]
  · exact ⟨24, fun h => absurd h h₀, readHead_cons hm (by decide) (by decide) rfl h₁⟩
  · exact ⟨25, fun h => absurd h h₀, readHead_cons hm (by decide) (by decide) rfl h₂⟩
  · exact ⟨26, fun h => absurd h h₀, readHead_cons hm (by decide) (by decide) rfl h₄⟩
  · exact ⟨27, fun h => absurd h h₀, readHead_cons hm (by decide) (by decide) rfl hn⟩

/-- No head is empty. -/
theorem length_head_pos (major n : Nat) : 0 < (head major n).length := by
  simp only [head]
  split_ifs <;> simp

/-- A head takes nine bytes at most. -/
theorem length_head_le (major n : Nat) : (head major n).length ≤ 9 := by
  simp only [head]
  split_ifs <;> simp

/-! ## Encoding -/

mutual

/-- The bytes of an item. -/
def encode : Cbor → List UInt8
  | uint n => head 0 n.toNat
  | nint n => head 1 n.toNat
  | bytes b => head 2 b.length ++ b
  | text s => head 3 s.utf8ByteSize ++ utf8 s
  | array xs => head 4 xs.length ++ encodeAll xs
  | map m => head 5 m.length ++ encodePairs m
  | bool b => head 7 (if b then 21 else 20)
  | null => head 7 22
  | float bits => UInt8.ofNat (32 * 7 + 27) :: toBeBytes 8 bits.toNat

/-- The bytes of some items, in order. -/
def encodeAll : List Cbor → List UInt8
  | [] => []
  | x :: xs => encode x ++ encodeAll xs

/-- The bytes of the entries of a map, in order. -/
def encodePairs : List (Cbor × Cbor) → List UInt8
  | [] => []
  | (k, v) :: m => encode k ++ encode v ++ encodePairs m

end

/-- No encoding is empty. -/
theorem length_encode_pos (x : Cbor) : 0 < (encode x).length := by
  have hadd : ∀ major n k : Nat, 0 < (head major n).length + k :=
    fun major n k => Nat.add_pos_left (length_head_pos major n) k
  cases x <;> simp only [encode, List.length_append, length_head_pos, hadd]
  exact Nat.succ_pos _

/-- A list has no more items than bytes. -/
theorem length_le_encodeAll (xs : List Cbor) : xs.length ≤ (encodeAll xs).length := by
  induction xs with
  | nil => exact Nat.zero_le _
  | cons x xs ih =>
    have := length_encode_pos x
    simp only [encodeAll, List.length_append, List.length_cons]
    omega

/-- A map has no more entries than bytes. -/
theorem length_le_encodePairs (m : List (Cbor × Cbor)) : m.length ≤ (encodePairs m).length := by
  induction m with
  | nil => exact Nat.zero_le _
  | cons p m ih =>
    have := length_encode_pos p.1
    simp only [encodePairs, List.length_append, List.length_cons]
    omega

/-! ## Decoding -/

section Decode

/- The decoder of the items inside the one being decoded. -/
variable (dec : List UInt8 → Option (Cbor × List UInt8))

/-- The first `n` items of some bytes. -/
def decodeAll : Nat → List UInt8 → Option (List Cbor × List UInt8)
  | 0, bs => some ([], bs)
  | n + 1, bs => do
    let (x, bs) ← dec bs
    let (xs, bs) ← decodeAll n bs
    return (x :: xs, bs)

/-- The first `n` entries of a map. -/
def decodePairs : Nat → List UInt8 → Option (List (Cbor × Cbor) × List UInt8)
  | 0, bs => some ([], bs)
  | n + 1, bs => do
    let (k, bs) ← dec bs
    let (v, bs) ← dec bs
    let (m, bs) ← decodePairs n bs
    return ((k, v) :: m, bs)

/-- The item with a given head, from what follows the head. -/
def decodeBody (h : Head) (bs : List UInt8) : Option (Cbor × List UInt8) :=
  match h.major with
  | 0 => some (uint (.ofNat h.arg), bs)
  | 1 => some (nint (.ofNat h.arg), bs)
  | 2 => (splitBytes h.arg bs).map fun (b, bs) => (bytes b, bs)
  | 3 => do
    let (b, bs) ← splitBytes h.arg bs
    let s ← ofUtf8? b
    return (text s, bs)
  | 4 => (decodeAll dec h.arg bs).map fun (xs, bs) => (array xs, bs)
  | 5 => (decodePairs dec h.arg bs).map fun (m, bs) => (map m, bs)
  | 7 => match h.info with
    | 20 => some (bool false, bs)
    | 21 => some (bool true, bs)
    | 22 => some (null, bs)
    | 27 => some (float (.ofNat h.arg), bs)
    | _ => none
  | _ => none

end Decode

/-- The item at the front of some bytes, and what follows it. The number bounds how
    deep items may be nested. -/
def decodeItem : Nat → List UInt8 → Option (Cbor × List UInt8)
  | 0, _ => none
  | depth + 1, bs => do
    let (h, bs) ← readHead bs
    decodeBody (decodeItem depth) h bs

/-- The first item of some bytes, whatever follows it. -/
def decode (bs : List UInt8) : Option Cbor := (decodeItem bs.length bs).map Prod.fst

/-! ## The round trip -/

/-- An item is decoded if what follows its head is. -/
theorem decodeItem_head {major n d : Nat} {b rest : List UInt8} {x : Cbor}
    (hm : major < 8) (hn : n < 256 ^ 8)
    (h : ∀ info, (n < 24 → info = n) →
      decodeBody (decodeItem d) ⟨major, info, n⟩ (b ++ rest) = some (x, rest)) :
    decodeItem (d + 1) (head major n ++ b ++ rest) = some (x, rest) := by
  obtain ⟨info, hinfo, hread⟩ := readHead_head hm hn
  rw [List.append_assoc, decodeItem, hread]
  exact h info hinfo

/-- The case of an item that is only a head. -/
theorem decodeItem_head_nil {major n d : Nat} {rest : List UInt8} {x : Cbor}
    (hm : major < 8) (hn : n < 256 ^ 8)
    (h : ∀ info, (n < 24 → info = n) →
      decodeBody (decodeItem d) ⟨major, info, n⟩ rest = some (x, rest)) :
    decodeItem (d + 1) (head major n ++ rest) = some (x, rest) := by
  simpa only [List.append_nil] using decodeItem_head (b := []) hm hn h

mutual

/-- An encoded item is decoded, whatever follows it. -/
theorem decodeItem_encode (x : Cbor) {d : Nat} (hd : (encode x).length ≤ d)
    (hn : (encode x).length < 256 ^ 8) (rest : List UInt8) :
    decodeItem d (encode x ++ rest) = some (x, rest) := by
  -- The depth left is at least the length: each head takes a byte, so it lasts.
  obtain ⟨d, rfl⟩ : ∃ e, d = e + 1 := ⟨d - 1, by have := length_encode_pos x; omega⟩
  match x with
  | uint n =>
    rw [encode]
    refine decodeItem_head_nil (by decide) n.toNat_lt fun _ _ => ?_
    simp [decodeBody]
  | nint n =>
    rw [encode]
    refine decodeItem_head_nil (by decide) n.toNat_lt fun _ _ => ?_
    simp [decodeBody]
  | bytes b =>
    have hb : b.length < 256 ^ 8 := by
      simp only [encode, List.length_append] at hn
      omega
    rw [encode]
    refine decodeItem_head (by decide) hb fun _ _ => ?_
    simp [decodeBody, splitBytes_append]
  | text s =>
    have hs : s.utf8ByteSize < 256 ^ 8 := by
      simp only [encode, List.length_append, length_utf8] at hn
      omega
    rw [encode]
    refine decodeItem_head (by decide) hs fun _ _ => ?_
    simp [decodeBody, splitBytes_append (length_utf8 s)]
  | array xs =>
    have hle := length_le_encodeAll xs
    have hpos := length_head_pos 4 xs.length
    simp only [encode, List.length_append] at hn hd
    rw [encode]
    refine decodeItem_head (by decide) (by omega) fun _ _ => ?_
    simp [decodeBody, decodeAll_encodeAll xs (d := d) (by omega) (by omega)]
  | map m =>
    have hle := length_le_encodePairs m
    have hpos := length_head_pos 5 m.length
    simp only [encode, List.length_append] at hn hd
    rw [encode]
    refine decodeItem_head (by decide) (by omega) fun _ _ => ?_
    simp [decodeBody, decodePairs_encodePairs m (d := d) (by omega) (by omega)]
  | bool b =>
    rw [encode]
    refine decodeItem_head_nil (by decide) (by cases b <;> decide) fun info hinfo => ?_
    cases b <;> simp [decodeBody, hinfo]
  | null =>
    rw [encode]
    refine decodeItem_head_nil (by decide) (by decide) fun info hinfo => ?_
    simp [decodeBody, hinfo]
  | float bits =>
    have hread : readHead (encode (float bits) ++ rest) = some (⟨7, 27, bits.toNat⟩, rest) := by
      rw [encode]
      exact readHead_cons (by decide) (by decide) (by decide) rfl bits.toNat_lt rest
    rw [decodeItem, hread]
    simp [decodeBody]

/-- Encoded items are decoded, whatever follows them. -/
theorem decodeAll_encodeAll (xs : List Cbor) {d : Nat} (hd : (encodeAll xs).length ≤ d)
    (hn : (encodeAll xs).length < 256 ^ 8) (rest : List UInt8) :
    decodeAll (decodeItem d) xs.length (encodeAll xs ++ rest) = some (xs, rest) := by
  match xs with
  | [] => rfl
  | x :: xs =>
    simp only [encodeAll, List.length_append] at hd hn
    simp only [encodeAll, List.append_assoc, List.length_cons, decodeAll,
      decodeItem_encode x (d := d) (by omega) (by omega), Option.bind_eq_bind,
      Option.bind_some, decodeAll_encodeAll xs (d := d) (by omega) (by omega)]
    rfl

/-- The encoded entries of a map are decoded, whatever follows them. -/
theorem decodePairs_encodePairs (m : List (Cbor × Cbor)) {d : Nat}
    (hd : (encodePairs m).length ≤ d) (hn : (encodePairs m).length < 256 ^ 8)
    (rest : List UInt8) :
    decodePairs (decodeItem d) m.length (encodePairs m ++ rest) = some (m, rest) := by
  match m with
  | [] => rfl
  | (k, v) :: m =>
    simp only [encodePairs, List.length_append] at hd hn
    simp only [encodePairs, List.append_assoc, List.length_cons, decodePairs,
      decodeItem_encode k (d := d) (by omega) (by omega),
      decodeItem_encode v (d := d) (by omega) (by omega), Option.bind_eq_bind,
      Option.bind_some, decodePairs_encodePairs m (d := d) (by omega) (by omega)]
    rfl

end

/-- The first item of an encoding, whatever follows it, is the item encoded. -/
theorem decode_encode_append (x : Cbor) (hn : (encode x).length < 256 ^ 8) (rest : List UInt8) :
    decode (encode x ++ rest) = some x := by
  rw [decode, decodeItem_encode x (by simp) hn]
  rfl

/-- What is encoded is decoded, if its length can be written down. -/
theorem decode_encode (x : Cbor) (hn : (encode x).length < 256 ^ 8) :
    decode (encode x) = some x := by simpa using decode_encode_append x hn []

end Cbor

end Zscheme
