import Zscheme.Lib.Cbor

/-!
# Dynamic CBOR values

The values of CBOR as `ciborium::Value` has them: an integer is what 64 bits and a sign
can hold, a map keeps its entries in order, and a tag is kept beside what it tags.

* `Item`: the data items, and the values they stand for. An argument may be longer than
  it need be, a length may be left open, and a big number may be an integer; what the
  reader of an item makes of it is one of these values, if it reads it at all.
* `Value.toCbor?`, `Value.ofCbor`: the values without tags, as items in their preferred
  encoding.
-/

namespace Zscheme

namespace Ciborium

/-- The integers of CBOR (`ciborium::value::Integer`). -/
def Integer := { n : Int // -2 ^ 64 ≤ n ∧ n < 2 ^ 64 }

/-- `Integer::from` of an `i64`. -/
def Integer.ofInt64 (n : Int64) : Integer :=
  ⟨n.toInt, by have := n.le_toInt; omega, by have := n.toInt_lt; omega⟩

/-- `i64::try_from` of an integer. -/
def Integer.toInt64? (n : Integer) : Option Int64 :=
  if -2 ^ 63 ≤ n.val ∧ n.val < 2 ^ 63 then some (Int64.ofInt n.val) else none

@[simp] theorem Integer.toInt64?_ofInt64 (n : Int64) : (ofInt64 n).toInt64? = some n := by
  have h : -2 ^ 63 ≤ (ofInt64 n).val ∧ (ofInt64 n).val < 2 ^ 63 := ⟨n.le_toInt, n.toInt_lt⟩
  rw [toInt64?, if_pos h]
  exact congrArg some n.ofInt_toInt

/-- `ciborium::Value` -/
inductive Value
  | integer (n : Integer)
  | bytes (b : List UInt8)
  | float (bits : UInt64)
  | text (s : String)
  | bool (b : Bool)
  | null
  | tag (t : UInt64) (v : Value)
  | array (xs : List Value)
  | map (m : List (Value × Value))

/-! ## Data items -/

/-- The bytes of a head: a major type, and an argument in any width it fits in. -/
inductive Head (major : Nat) : Nat → List UInt8 → Prop
  | short {n : Nat} : n < 24 → Head major n [UInt8.ofNat (32 * major + n)]
  | long {n info w : Nat} : Cbor.argWidth info = some w → n < 256 ^ w →
      Head major n (UInt8.ofNat (32 * major + info) :: toBeBytes w n)

/-- The chunks of a byte string of open length, up to the break. -/
inductive ByteChunks : List UInt8 → List UInt8 → Prop
  | stop : ByteChunks [] [0xff]
  | chunk {s t b bs : List UInt8} : Head 2 s.length b → ByteChunks t bs →
      ByteChunks (s ++ t) (b ++ s ++ bs)

/-- The chunks of a text of open length, up to the break. -/
inductive TextChunks : String → List UInt8 → Prop
  | stop : TextChunks "" [0xff]
  | chunk {s t : String} {b bs : List UInt8} : Head 3 s.utf8ByteSize b → TextChunks t bs →
      TextChunks (s ++ t) (b ++ utf8 s ++ bs)

/- The double that a shorter float stands for. -/
variable (widen : List UInt8 → UInt64)

mutual

/-- A value, and the bytes of a data item that stands for it. -/
inductive Item : Value → List UInt8 → Prop
  | uint {n : Integer} {k : Nat} {b : List UInt8} : n.val = k → Head 0 k b → Item (.integer n) b
  | nint {n : Integer} {k : Nat} {b : List UInt8} : n.val = -1 - k → Head 1 k b →
      Item (.integer n) b
  | bytes {s b : List UInt8} : Head 2 s.length b → Item (.bytes s) (b ++ s)
  | openBytes {s bs : List UInt8} : ByteChunks s bs → Item (.bytes s) (0x5f :: bs)
  | text {s : String} {b : List UInt8} : Head 3 s.utf8ByteSize b → Item (.text s) (b ++ utf8 s)
  | openText {s : String} {bs : List UInt8} : TextChunks s bs → Item (.text s) (0x7f :: bs)
  | array {xs : List Value} {b bs : List UInt8} : Head 4 xs.length b → Items xs bs →
      Item (.array xs) (b ++ bs)
  | openArray {xs : List Value} {bs : List UInt8} : Items xs bs →
      Item (.array xs) (0x9f :: (bs ++ [0xff]))
  | map {m : List (Value × Value)} {b bs : List UInt8} : Head 5 m.length b → Entries m bs →
      Item (.map m) (b ++ bs)
  | openMap {m : List (Value × Value)} {bs : List UInt8} : Entries m bs →
      Item (.map m) (0xbf :: (bs ++ [0xff]))
  | tag {t : UInt64} {v : Value} {b bs : List UInt8} : Head 6 t.toNat b → Item v bs →
      Item (.tag t v) (b ++ bs)
  | bignum {n : Integer} {s b bs : List UInt8} : n.val = fromBeBytes s → Head 6 2 b →
      Item (.bytes s) bs → Item (.integer n) (b ++ bs)
  | negBignum {n : Integer} {s b bs : List UInt8} : n.val = -1 - fromBeBytes s → Head 6 3 b →
      Item (.bytes s) bs → Item (.integer n) (b ++ bs)
  | false : Item (.bool false) [0xf4]
  | true : Item (.bool true) [0xf5]
  | null : Item .null [0xf6]
  | undefined : Item .null [0xf7]
  | half {s : List UInt8} : s.length = 2 → Item (.float (widen s)) (0xf9 :: s)
  | single {s : List UInt8} : s.length = 4 → Item (.float (widen s)) (0xfa :: s)
  | double (bits : UInt64) : Item (.float bits) (0xfb :: toBeBytes 8 bits.toNat)

/-- Values, and the bytes of items that stand for them. -/
inductive Items : List Value → List UInt8 → Prop
  | nil : Items [] []
  | cons {x : Value} {xs : List Value} {b bs : List UInt8} : Item x b → Items xs bs →
      Items (x :: xs) (b ++ bs)

/-- Entries, and the bytes of items that stand for them. -/
inductive Entries : List (Value × Value) → List UInt8 → Prop
  | nil : Entries [] []
  | cons {k v : Value} {m : List (Value × Value)} {b b' bs : List UInt8} : Item k b → Item v b' →
      Entries m bs → Entries ((k, v) :: m) (b ++ b' ++ bs)

end

/-! ### The first byte -/

/-- The major type is in the first byte of a head. -/
theorem Head.first {major n : Nat} {b : List UInt8} (h : Head major n b) (hm : major < 8) :
    ∃ x bs, b = x :: bs ∧ x.toNat / 32 = major := by
  have hdiv : ∀ info, info < 32 → (UInt8.ofNat (32 * major + info)).toNat / 32 = major := by
    intro info hi
    rw [UInt8.toNat_ofNat']
    omega
  cases h with
  | short hn => exact ⟨_, _, rfl, hdiv n (by omega)⟩
  | @long info w hw =>
    refine ⟨_, _, rfl, hdiv info ?_⟩
    simp only [Cbor.argWidth] at hw
    split at hw <;> first | omega | cases hw

/-- Only the longest arguments do not fit in an `i64`. -/
theorem Head.first_of_ge {major n : Nat} {b : List UInt8} (h : Head major n b)
    (hn : 2 ^ 63 ≤ n) : ∃ bs, b = UInt8.ofNat (32 * major + 27) :: bs := by
  cases h with
  | short hlt => omega
  | @long info w hw hlt =>
    simp only [Cbor.argWidth] at hw
    split at hw <;> cases hw
    · omega
    · omega
    · omega
    · exact ⟨_, rfl⟩

variable {widen}

/-- No item is empty. -/
theorem Item.ne_nil {v : Value} {b : List UInt8} (h : Item widen v b) : b ≠ [] := by
  cases h with
  | uint _ hh | nint _ hh =>
    obtain ⟨x, bs, rfl, _⟩ := hh.first (by decide)
    exact nofun
  | bytes hh | text hh | array hh | map hh | tag hh | bignum _ hh | negBignum _ hh =>
    obtain ⟨x, bs, rfl, _⟩ := hh.first (by decide)
    exact nofun
  | _ => exact nofun

/-- The item of a negative integer is nothing but its head. -/
theorem Item.head_of_negative {v : Value} {y : UInt8} {bs : List UInt8}
    (h : Item widen v (y :: bs)) (hy : y.toNat / 32 = 1) : ∃ k, Head 1 k (y :: bs) := by
  generalize hb : y :: bs = b at h
  cases h with
  | nint _ hh => exact ⟨_, hh⟩
  | uint _ hh =>
    obtain ⟨x, xs, rfl, hx⟩ := hh.first (by decide)
    cases hb
    omega
  | bytes hh | text hh | array hh | map hh | tag hh | bignum _ hh | negBignum _ hh =>
    obtain ⟨x, xs, rfl, hx⟩ := hh.first (by decide)
    cases hb
    omega
  | _ =>
    cases hb
    exact absurd hy (by decide)

/-- An array begins with its major type. -/
theorem Item.first_array {xs : List Value} {b : List UInt8} (h : Item widen (.array xs) b) :
    ∃ x bs, b = x :: bs ∧ x.toNat / 32 = 4 := by
  cases h with
  | array hh =>
    obtain ⟨x, bs, rfl, hx⟩ := hh.first (by decide)
    exact ⟨x, _, rfl, hx⟩
  | openArray => exact ⟨0x9f, _, rfl, rfl⟩

/-- Any item of an array is shorter than the array. -/
theorem Items.length_le {xs : List Value} {b : List UInt8} (h : Items widen xs b) {x : Value}
    (hx : x ∈ xs) : ∃ b', Item widen x b' ∧ b'.length ≤ b.length := by
  induction xs generalizing b with
  | nil => cases hx
  | cons y xs ih =>
    rcases h with _ | ⟨hy, hxs⟩
    rcases List.mem_cons.1 hx with rfl | hx
    · exact ⟨_, hy, by simp⟩
    · obtain ⟨b', hb, hle⟩ := ih hxs hx
      exact ⟨b', hb, by simp only [List.length_append]; omega⟩

theorem Item.length_of_array {xs : List Value} {b : List UInt8} (h : Item widen (.array xs) b)
    {x : Value} (hx : x ∈ xs) : ∃ b', Item widen x b' ∧ b'.length ≤ b.length := by
  cases h with
  | array _ hs =>
    obtain ⟨b', hb, hle⟩ := hs.length_le hx
    exact ⟨b', hb, by simp only [List.length_append]; omega⟩
  | openArray hs =>
    obtain ⟨b', hb, hle⟩ := hs.length_le hx
    exact ⟨b', hb, by simp only [List.length_cons, List.length_append]; omega⟩

theorem TextChunks.length {s : String} {b : List UInt8} (h : TextChunks s b) :
    s.utf8ByteSize < b.length := by
  induction h with
  | stop => decide
  | chunk _ _ ih =>
    simp only [String.utf8ByteSize_append, List.length_append, length_utf8]
    omega

/-- A text is shorter than an item that stands for it. -/
theorem Item.length_text {s : String} {b : List UInt8} (h : Item widen (.text s) b) :
    s.utf8ByteSize < b.length := by
  cases h with
  | text hh =>
    obtain ⟨x, bs, rfl, _⟩ := hh.first (by decide)
    simp only [List.length_append, List.length_cons, length_utf8]
    omega
  | openText hs =>
    have := hs.length
    simp only [List.length_cons]
    omega

/-- An integer that fits in no `i64` does not begin like a decimal number. -/
theorem Item.first_integer {n : Integer} {b : List UInt8} (h : Item widen (.integer n) b)
    (hn : n.toInt64? = none) : ∃ x bs, b = x :: bs ∧ ¬ DecimalByte x := by
  have hn : ¬ (-2 ^ 63 ≤ n.val ∧ n.val < 2 ^ 63) := by
    intro hin
    rw [Integer.toInt64?, if_pos hin] at hn
    cases hn
  cases h with
  | uint hk hh =>
    obtain ⟨bs, rfl⟩ := hh.first_of_ge (by omega)
    exact ⟨_, _, rfl, by simp only [DecimalByte]; decide⟩
  | nint hk hh =>
    obtain ⟨bs, rfl⟩ := hh.first_of_ge (by omega)
    exact ⟨_, _, rfl, by simp only [DecimalByte]; decide⟩
  | bignum _ hh _ | negBignum _ hh _ =>
    obtain ⟨x, bs, rfl, hx⟩ := hh.first (by decide)
    exact ⟨x, _, rfl, not_decimalByte (by omega)⟩

/-- What a tag is on is shorter than the tagged item, which does not begin like a
    decimal number. -/
theorem Item.of_tag {t : UInt64} {v : Value} {b : List UInt8} (h : Item widen (.tag t v) b) :
    (∃ b', Item widen v b' ∧ b'.length ≤ b.length) ∧ ∃ x bs, b = x :: bs ∧ ¬ DecimalByte x := by
  cases h with
  | @tag _ _ _ bs hh hv =>
    refine ⟨⟨bs, hv, by simp⟩, ?_⟩
    obtain ⟨x, bs', rfl, hx⟩ := hh.first (by decide)
    exact ⟨x, _, rfl, not_decimalByte (by omega)⟩

/-! ## Values as items -/

mutual

/-- The item of a value without tags. -/
def Value.toCbor? : Value → Option Cbor
  | .integer n => some <|
    if 0 ≤ n.val then .uint (.ofNat n.val.toNat) else .nint (.ofNat (-1 - n.val).toNat)
  | .bytes b => some (.bytes b)
  | .float bits => some (.float bits)
  | .text s => some (.text s)
  | .bool b => some (.bool b)
  | .null => some .null
  | .tag _ _ => none
  | .array xs => (toCborAll? xs).map .array
  | .map m => (toCborPairs? m).map .map

/-- The items of values without tags. -/
def Value.toCborAll? : List Value → Option (List Cbor)
  | [] => some []
  | x :: xs => do return (← toCbor? x) :: (← toCborAll? xs)

/-- The items of entries without tags. -/
def Value.toCborPairs? : List (Value × Value) → Option (List (Cbor × Cbor))
  | [] => some []
  | (k, v) :: m => do return (← toCbor? k, ← toCbor? v) :: (← toCborPairs? m)

end

/-- The integer of CBOR with these 64 bits. -/
def Integer.ofUInt64 (n : UInt64) : Integer := ⟨n.toNat, by omega, by have := n.toNat_lt; omega⟩

/-- The negative integer of CBOR with these 64 bits. -/
def Integer.negOfUInt64 (n : UInt64) : Integer :=
  ⟨-1 - n.toNat, by have := n.toNat_lt; omega, by omega⟩

mutual

/-- The value of an item. -/
def Value.ofCbor : Cbor → Value
  | .uint n => .integer (.ofUInt64 n)
  | .nint n => .integer (.negOfUInt64 n)
  | .bytes b => .bytes b
  | .text s => .text s
  | .array xs => .array (ofCborAll xs)
  | .map m => .map (ofCborPairs m)
  | .bool b => .bool b
  | .null => .null
  | .float bits => .float bits

/-- The values of items. -/
def Value.ofCborAll : List Cbor → List Value
  | [] => []
  | x :: xs => ofCbor x :: ofCborAll xs

/-- The values of entries. -/
def Value.ofCborPairs : List (Cbor × Cbor) → List (Value × Value)
  | [] => []
  | (k, v) :: m => (ofCbor k, ofCbor v) :: ofCborPairs m

end

mutual

theorem Value.ofCbor_toCbor? : ∀ (v : Value) {x : Cbor}, v.toCbor? = some x → ofCbor x = v
  | .integer n, x, h => by
    obtain rfl := Option.some.inj h
    -- the range of an integer is that of its argument
    have hn := n.property
    split
    · next hpos =>
      refine congrArg Value.integer (Subtype.ext ?_)
      have hlt : n.val.toNat < 2 ^ 64 := by omega
      simp only [Integer.ofUInt64, UInt64.toNat_ofNat', Nat.mod_eq_of_lt hlt]
      omega
    · next hneg =>
      refine congrArg Value.integer (Subtype.ext ?_)
      have hlt : (-1 - n.val).toNat < 2 ^ 64 := by omega
      simp only [Integer.negOfUInt64, UInt64.toNat_ofNat', Nat.mod_eq_of_lt hlt]
      omega
  | .bytes _, _, h | .float _, _, h | .text _, _, h | .bool _, _, h | .null, _, h => by
    obtain rfl := Option.some.inj h
    rfl
  | .tag _ _, _, h => nomatch h
  | .array xs, x, h => by
    obtain ⟨ys, hys, rfl⟩ := Option.map_eq_some_iff.1 h
    rw [ofCbor, ofCborAll_toCbor? xs hys]
  | .map m, x, h => by
    obtain ⟨ys, hys, rfl⟩ := Option.map_eq_some_iff.1 h
    rw [ofCbor, ofCborPairs_toCbor? m hys]

theorem Value.ofCborAll_toCbor? : ∀ (xs : List Value) {ys : List Cbor},
    toCborAll? xs = some ys → ofCborAll ys = xs
  | [], _, h => by
    obtain rfl := Option.some.inj h
    rfl
  | x :: xs, _, h => by
    obtain ⟨y, hy, h⟩ := Option.bind_eq_some_iff.1 h
    obtain ⟨ys, hys, h⟩ := Option.bind_eq_some_iff.1 h
    obtain rfl := Option.some.inj h
    rw [ofCborAll, ofCbor_toCbor? x hy, ofCborAll_toCbor? xs hys]

theorem Value.ofCborPairs_toCbor? : ∀ (m : List (Value × Value)) {ys : List (Cbor × Cbor)},
    toCborPairs? m = some ys → ofCborPairs ys = m
  | [], _, h => by
    obtain rfl := Option.some.inj h
    rfl
  | (k, v) :: m, _, h => by
    obtain ⟨k', hk, h⟩ := Option.bind_eq_some_iff.1 h
    obtain ⟨v', hv, h⟩ := Option.bind_eq_some_iff.1 h
    obtain ⟨ys, hys, h⟩ := Option.bind_eq_some_iff.1 h
    obtain rfl := Option.some.inj h
    rw [ofCborPairs, ofCbor_toCbor? k hk, ofCbor_toCbor? v hv, ofCborPairs_toCbor? m hys]

end

end Ciborium

end Zscheme
