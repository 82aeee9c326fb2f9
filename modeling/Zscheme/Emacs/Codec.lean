import Zscheme.Emacs.Lisp
import Zscheme.Lib.Cbor

/-!
# The codec of the Emacs frontend

`ma-ipc.el` has a CBOR codec of its own, for the part of the format that the protocol
uses (`encode`, `decode`).

* `encode_lisp`: it encodes a value as the item that the value stands for;
* `decodeFrom_of_decodeItem`: it decodes an item as the value that stands for the item,
  but for the line ends of its strings;
* `decode_encode_iff`: a value makes the round trip if and only if each of its strings
  keeps its line ends.
-/

namespace Zscheme.Emacs

/-! ## Encoding -/

/-- `unibyte-string`. -/
def unibyteString (bytes : List Nat) : List UInt8 := bytes.map UInt8.ofNat

/-- `ma-ipc--encode-uint` -/
def encodeUint (major n : Nat) : List UInt8 :=
  if n < 24 then unibyteString [(major <<< 5) + n]
  else if n < 256 then unibyteString [(major <<< 5) + 24, n]
  else if n < 65536 then unibyteString [(major <<< 5) + 25, n >>> 8 &&& 255, n &&& 255]
  else if n < 4294967296 then
    unibyteString [(major <<< 5) + 26,
      n >>> 24 &&& 255, n >>> 16 &&& 255, n >>> 8 &&& 255, n &&& 255]
  else
    unibyteString [(major <<< 5) + 27,
      n >>> 56 &&& 255, n >>> 48 &&& 255, n >>> 40 &&& 255, n >>> 32 &&& 255,
      n >>> 24 &&& 255, n >>> 16 &&& 255, n >>> 8 &&& 255, n &&& 255]

mutual

/-- `ma-ipc--encode` -/
def encode : Lisp → Except Signal (List UInt8)
  | .sym name =>
    if name = "nil" then .ok (unibyteString [0xf6])
    else if name = "t" then .ok (unibyteString [0xf5])
    else if name = ":false" then .ok (unibyteString [0xf4])
    else .error (.error "Cannot CBOR-encode value: %S" [.sym name])
  | .int n => .ok (if 0 ≤ n then encodeUint 0 n.toNat else encodeUint 1 (-1 - n).toNat)
  | .str s =>
    let bytes := encodeUtf8 s
    .ok (encodeUint 3 bytes.length ++ bytes)
  | .cons head items =>
    if head = .sym ":array" then do
      let n ← items.length
      return encodeUint 4 n ++ (← encodeItems items)
    else if head = .sym ":map" then do
      let n ← items.length
      return encodeUint 5 n ++ (← encodePairs items)
    else .error (.error "Cannot CBOR-encode value: %S" [.cons head items])

/-- The encodings of the elements of a sequence. -/
def encodeItems : Lisp → Except Signal (List UInt8)
  | .cons value items => do return (← encode value) ++ (← encodeItems items)
  | .str s => .ok (s.flatMap fun c => encodeUint 0 c.code)
  | .sym "nil" => .ok []
  | v => .error (.wrongTypeArgument "listp" v)

/-- The encodings of the pairs in a sequence. -/
def encodePairs : Lisp → Except Signal (List UInt8)
  | .cons (.cons key value) pairs => do
    return (← encode key) ++ (← encode value) ++ (← encodePairs pairs)
  | .cons (.sym "nil") pairs => do
    return unibyteString [0xf6] ++ unibyteString [0xf6] ++ (← encodePairs pairs)
  | .cons pair _ => .error (.wrongTypeArgument "listp" pair)
  | .str (c :: _) => .error (.wrongTypeArgument "listp" (.int c.code))
  | .str [] => .ok []
  | .sym "nil" => .ok []
  | v => .error (.wrongTypeArgument "listp" v)

end

/-! ## Decoding -/

/-- `ma-ipc--u8` -/
def u8 (s : List UInt8) (i : Nat) : Except Signal Nat :=
  match s[i]? with
  | some b => .ok b.toNat
  | none => .error .argsOutOfRange

/-- `ma-ipc--u16` -/
def u16 (s : List UInt8) (i : Nat) : Except Signal Nat := do
  return ((← u8 s i) <<< 8) + (← u8 s (i + 1))

/-- `ma-ipc--u32` -/
def u32 (s : List UInt8) (i : Nat) : Except Signal Nat := do
  return ((← u8 s i) <<< 24) + ((← u8 s (i + 1)) <<< 16) + ((← u8 s (i + 2)) <<< 8) +
    (← u8 s (i + 3))

/-- The argument of a head, and the index after it. -/
def readUint (s : List UInt8) (i ai : Nat) : Except Signal (Nat × Nat) :=
  if ai < 24 then .ok (ai, i)
  else if ai = 24 then do return (← u8 s i, i + 1)
  else if ai = 25 then do return (← u16 s i, i + 2)
  else if ai = 26 then do return (← u32 s i, i + 4)
  else if ai = 27 then do
    let hi ← u32 s i
    let lo ← u32 s (i + 4)
    return (hi * 4294967296 + lo, i + 8)
  else .error (.error "Unsupported CBOR additional information: %s" [.int ai])

/-- `substring` of a unibyte string. -/
def substring (s : List UInt8) (start stop : Nat) : Except Signal (List UInt8) :=
  if stop ≤ s.length then .ok ((s.drop start).take (stop - start)) else .error .argsOutOfRange

section Loops

/- The decoder of what is inside the item being decoded, from an index on. -/
variable (dec : Nat → Except Signal (Lisp × Nat))

/-- The loop for the items of an array, with `decode` for each. -/
def decodeItems : Nat → Nat → Except Signal (List Lisp × Nat)
  | 0, next => .ok ([], next)
  | len + 1, next => do
    let (value, after) ← dec next
    let (items, next) ← decodeItems len after
    return (value :: items, next)

/-- The loop for the pairs of a map. -/
def decodePairs : Nat → Nat → Except Signal (List Lisp × Nat)
  | 0, next => .ok ([], next)
  | len + 1, next => do
    let (key, afterKey) ← dec next
    let (value, afterValue) ← dec afterKey
    let (pairs, next) ← decodePairs len afterValue
    return (.cons key value :: pairs, next)

end Loops

/-- The value of the item at an index, and the index after it. The depth bounds how deep
    items may be nested: at each level the index is one further, so that a depth above
    the length of the string ends where the string does. -/
def decodeFrom (s : List UInt8) : (depth i : Nat) → Except Signal (Lisp × Nat)
  | 0, _ => .error .argsOutOfRange
  | depth + 1, i => do
    let head ← u8 s i
    let major := head >>> 5
    let ai := head &&& 31
    let i := i + 1
    match major with
    | 0 => do
      let (n, next) ← readUint s i ai
      return (.int n, next)
    | 1 => do
      let (n, next) ← readUint s i ai
      return (.int (-1 - n), next)
    | 3 => do
      let (len, next) ← readUint s i ai
      let bytes ← substring s next (next + len)
      return (.str (decodeCodingString bytes), next + len)
    | 4 => do
      let (len, next) ← readUint s i ai
      let (items, next) ← decodeItems (decodeFrom s depth) len next
      return (.cons (.sym ":array") (.list items), next)
    | 5 => do
      let (len, next) ← readUint s i ai
      let (pairs, next) ← decodePairs (decodeFrom s depth) len next
      return (.cons (.sym ":map") (.list pairs), next)
    | 7 =>
      if ai = 20 then .ok (.sym ":false", i)
      else if ai = 21 then .ok (.sym "t", i)
      else if ai = 22 then .ok (.nil, i)
      else .error (.error "Unsupported CBOR simple value: %s" [.int ai])
    | _ => .error (.error "Unsupported CBOR major type: %s" [.int major])

/-- `ma-ipc--decode`, with fuel for the nesting. -/
def decode (s : List UInt8) (start : Nat) : Except Signal (Lisp × Nat) :=
  decodeFrom s (s.length + 1) start

/-! ## The items that values stand for -/

mutual

/-- The value that stands for an item, if there is one. -/
def lisp : Cbor → Option Lisp
  | .uint n => some (.int n.toNat)
  | .nint n => some (.int (-1 - n.toNat))
  | .text s => some (.text s)
  | .array xs => (lispItems xs).map fun items => .cons (.sym ":array") (.list items)
  | .map m => (lispPairs m).map fun pairs => .cons (.sym ":map") (.list pairs)
  | .bool b => some (.sym (if b then "t" else ":false"))
  | .null => some .nil
  | .bytes _ => none
  | .float _ => none

/-- The values that items are decoded to. -/
def lispItems : List Cbor → Option (List Lisp)
  | [] => some []
  | x :: xs => do
    let value ← lisp x
    let items ← lispItems xs
    return value :: items

/-- The pairs that a map is decoded to. -/
def lispPairs : List (Cbor × Cbor) → Option (List Lisp)
  | [] => some []
  | (k, v) :: m => do
    let key ← lisp k
    let value ← lisp v
    let pairs ← lispPairs m
    return .cons key value :: pairs

end

section

variable {k v x : Cbor} {xs : List Cbor} {m : List (Cbor × Cbor)}

/-- The first of them, and the rest. -/
theorem lispItems_cons {vs : List Lisp} (h : lispItems (x :: xs) = some vs) :
    ∃ value items, lisp x = some value ∧ lispItems xs = some items ∧ vs = value :: items := by
  simp only [lispItems, Option.bind_eq_bind, Option.bind_eq_some_iff] at h
  obtain ⟨value, hvalue, items, hitems, h⟩ := h
  exact ⟨value, items, hvalue, hitems, (Option.some.inj h).symm⟩

/-- The first pair, and the rest. -/
theorem lispPairs_cons {vs : List Lisp} (h : lispPairs ((k, v) :: m) = some vs) :
    ∃ key value pairs, lisp k = some key ∧ lisp v = some value ∧ lispPairs m = some pairs ∧
      vs = .cons key value :: pairs := by
  simp only [lispPairs, Option.bind_eq_bind, Option.bind_eq_some_iff] at h
  obtain ⟨key, hkey, value, hvalue, pairs, hpairs, h⟩ := h
  exact ⟨key, value, pairs, hkey, hvalue, hpairs, (Option.some.inj h).symm⟩

/-- There is a value for each item. -/
theorem length_lispItems {vs : List Lisp} (h : lispItems xs = some vs) :
    vs.length = xs.length := by
  induction xs generalizing vs with
  | nil =>
    cases h
    rfl
  | cons x xs ih =>
    obtain ⟨value, items, -, hitems, rfl⟩ := lispItems_cons h
    rw [List.length_cons, List.length_cons, ih hitems]

/-- There is a pair for each pair. -/
theorem length_lispPairs {vs : List Lisp} (h : lispPairs m = some vs) : vs.length = m.length := by
  induction m generalizing vs with
  | nil =>
    cases h
    rfl
  | cons p m ih =>
    obtain ⟨key, value, pairs, -, -, hpairs, rfl⟩ := lispPairs_cons h
    rw [List.length_cons, List.length_cons, ih hpairs]

end

/-- A byte is what is left of a number by its mask. -/
theorem ofNat_and (n : Nat) : UInt8.ofNat (n &&& 255) = UInt8.ofNat n := by
  have h := Nat.and_two_pow_sub_one_eq_mod n 8
  rw [show 255 = 2 ^ 8 - 1 from rfl, h]
  exact UInt8.ofNat_mod_size

/-- The argument of a head has its least width. -/
theorem encodeUint_eq (major n : Nat) : encodeUint major n = Cbor.head major n := by
  have hmajor : major <<< 5 = 32 * major := by rw [Nat.shiftLeft_eq, Nat.mul_comm]
  simp only [encodeUint, Cbor.head, unibyteString, List.map_cons, List.map_nil, ofNat_and,
    Nat.shiftRight_eq_div_pow, hmajor, toBeBytes, Nat.reducePow, Nat.div_one]

/-- Characters are encoded as Rust has them. -/
theorem encodeUtf8_chars (s : String) : encodeUtf8 (chars s) = utf8 s := by
  have hflat (cs : List Char) : encodeUtf8 (cs.map .char) = cs.flatMap String.utf8EncodeChar := by
    induction cs with
    | nil => rfl
    | cons c cs ih => rw [List.map_cons, encodeUtf8, ih, List.flatMap_cons]
  rw [chars, hflat, utf8, ← String.utf8Encode_toList, List.utf8Encode]
  simp

/-- What was encoded is decoded, but for its line ends. -/
theorem decodeCodingString_utf8 (s : String) :
    decodeCodingString (utf8 s) = decodeEol (chars s) := by
  rw [decodeCodingString, ← encodeUtf8_chars, decodeUtf8_encodeUtf8]

mutual

/-- A value is encoded as the item that it stands for. -/
theorem encode_lisp (x : Cbor) {v : Lisp} (h : lisp x = some v) : encode v = .ok x.encode := by
  match x with
  | .uint n =>
    cases h
    simp [encode, encodeUint_eq, Cbor.encode]
  | .nint n =>
    cases h
    -- the argument of a negative integer is the distance from `-1`
    have hneg : ¬(0 : Int) ≤ -1 - n.toNat := by omega
    have harg : (-1 - (-1 - (n.toNat : Int))).toNat = n.toNat := by omega
    rw [encode, if_neg hneg, harg, encodeUint_eq, Cbor.encode]
  | .text s =>
    cases h
    rw [Lisp.text, encode, encodeUtf8_chars, encodeUint_eq, length_utf8, Cbor.encode]
  | .array xs =>
    obtain ⟨items, hitems, rfl⟩ := Option.map_eq_some_iff.1 h
    rw [encode, if_pos rfl, Lisp.length_list, encodeItems_lisp xs hitems, Cbor.encode,
      ← length_lispItems hitems, ← encodeUint_eq]
    rfl
  | .map m =>
    obtain ⟨pairs, hpairs, rfl⟩ := Option.map_eq_some_iff.1 h
    rw [encode, if_neg (by decide), if_pos rfl, Lisp.length_list, encodePairs_lisp m hpairs,
      Cbor.encode, ← length_lispPairs hpairs, ← encodeUint_eq]
    rfl
  | .bool b =>
    cases h
    cases b <;> rfl
  | .null =>
    cases h
    rfl

/-- Items are encoded as on the other side. -/
theorem encodeItems_lisp (xs : List Cbor) {vs : List Lisp} (h : lispItems xs = some vs) :
    encodeItems (.list vs) = .ok (Cbor.encodeAll xs) := by
  match xs with
  | [] =>
    cases h
    rfl
  | x :: xs =>
    obtain ⟨value, items, hvalue, hitems, rfl⟩ := lispItems_cons h
    rw [Lisp.list, encodeItems, encode_lisp x hvalue, encodeItems_lisp xs hitems, Cbor.encodeAll]
    rfl

/-- So are pairs. -/
theorem encodePairs_lisp (m : List (Cbor × Cbor)) {vs : List Lisp} (h : lispPairs m = some vs) :
    encodePairs (.list vs) = .ok (Cbor.encodePairs m) := by
  match m with
  | [] =>
    cases h
    rfl
  | (k, v) :: m =>
    obtain ⟨key, value, pairs, hkey, hvalue, hpairs, rfl⟩ := lispPairs_cons h
    rw [Lisp.list, encodePairs, encode_lisp k hkey, encode_lisp v hvalue,
      encodePairs_lisp m hpairs, Cbor.encodePairs]
    rfl

end

/-! ## The decoder follows the one of the library -/

section Follow

variable {s : List UInt8} {i j n : Nat} {b bs : List UInt8}

/-- What there is to read from an index on is some bytes and then some more. -/
structure At (s : List UInt8) (i : Nat) (bs : List UInt8) : Prop where
  le : i ≤ s.length
  drop : s.drop i = bs

/-- What follows the first part is behind it. -/
theorem At.append (h : At s i (b ++ bs)) : At s (i + b.length) bs where
  le := by
    have hlen := congrArg List.length h.drop
    have hle := h.le
    rw [List.length_drop, List.length_append] at hlen
    omega
  drop := by rw [← List.drop_drop, h.drop, List.drop_left]

/-- The byte there is read. -/
theorem At.u8 {x : UInt8} (h : At s i (x :: bs)) : u8 s i = .ok x.toNat := by
  have hx : s[i]? = some x := by
    rw [← Nat.add_zero i, ← List.getElem?_drop, h.drop]
    rfl
  rw [Emacs.u8, hx]

/-- What follows one byte is behind it. -/
theorem At.next {x : UInt8} (h : At s i (x :: bs)) : At s (i + 1) bs := h.append (b := [x])

/-- Two bytes are read, the higher first. -/
theorem At.u16 {x₀ x₁ : UInt8} (h : At s i (x₀ :: x₁ :: bs)) :
    u16 s i = .ok (fromBeBytes [x₀, x₁]) := by
  rw [Emacs.u16, h.u8, h.next.u8]
  simp only [fromBeBytes, List.foldl_cons, List.foldl_nil, Nat.shiftLeft_eq]
  refine congrArg Except.ok ?_
  omega

/-- Four bytes are. -/
theorem At.u32 {x₀ x₁ x₂ x₃ : UInt8} (h : At s i (x₀ :: x₁ :: x₂ :: x₃ :: bs)) :
    u32 s i = .ok (fromBeBytes [x₀, x₁, x₂, x₃]) := by
  rw [Emacs.u32, h.u8, h.next.u8, h.next.next.u8, h.next.next.next.u8]
  simp only [fromBeBytes, List.foldl_cons, List.foldl_nil, Nat.shiftLeft_eq]
  refine congrArg Except.ok ?_
  omega

/-- The argument that follows the first byte of a head. -/
theorem At.readUint_width {info w : Nat} (hw : Cbor.argWidth info = some w) (hlen : b.length = w)
    (hat : At s i (b ++ bs)) : readUint s i info = .ok (fromBeBytes b, i + w) := by
  simp only [Cbor.argWidth] at hw
  split at hw <;> cases hw
  · obtain ⟨x, rfl⟩ := List.length_eq_one_iff.1 hlen
    simp [readUint, hat.u8, fromBeBytes]
  · obtain ⟨x₀, x₁, rfl⟩ := List.length_eq_two.1 hlen
    simp [readUint, hat.u16]
  · obtain ⟨x₀, x₁, x₂, x₃, rfl⟩ := List.length_eq_four.1 hlen
    simp [readUint, hat.u32]
  · rcases b with _ | ⟨x₀, _ | ⟨x₁, _ | ⟨x₂, _ | ⟨x₃, b⟩⟩⟩⟩
    case cons.cons.cons.cons =>
      obtain ⟨x₄, x₅, x₆, x₇, rfl⟩ : ∃ x₄ x₅ x₆ x₇, b = [x₄, x₅, x₆, x₇] := by
        simpa [List.length_eq_four] using hlen
      have hlo : At s (i + 4) _ := At.append (b := [x₀, x₁, x₂, x₃]) hat
      have harg : fromBeBytes [x₀, x₁, x₂, x₃] * 4294967296 + fromBeBytes [x₄, x₅, x₆, x₇] =
          fromBeBytes [x₀, x₁, x₂, x₃, x₄, x₅, x₆, x₇] := by
        simp only [fromBeBytes, List.foldl_cons, List.foldl_nil]
        omega
      simp [readUint, hat.u32, hlo.u32, harg]
    all_goals cases hlen

/-- The argument of a head is read as the library reads it. -/
theorem At.readUint {h : Cbor.Head} {head : UInt8} (hat : At s i (head :: bs))
    (hread : Cbor.readHead (head :: bs) = some (h, b)) :
    h.major = head.toNat / 32 ∧ h.info = head.toNat % 32 ∧ h.arg < 2 ^ 64 ∧
      ∃ j, readUint s (i + 1) h.info = .ok (h.arg, j) ∧ At s j b := by
  have hhead : head.toNat < 256 := head.toNat_lt
  simp only [Cbor.readHead] at hread
  split_ifs at hread with hinfo
  -- the argument is in the head, or in the bytes after it
  · cases hread
    refine ⟨rfl, rfl, ?_, i + 1, if_pos hinfo, hat.next⟩
    show head.toNat % 32 < 2 ^ 64
    omega
  · simp only [Option.bind_eq_bind, Option.bind_eq_some_iff] at hread
    obtain ⟨w, hw, ⟨arg, rest⟩, hsplit, hread⟩ := hread
    cases hread
    obtain ⟨hlen, rfl⟩ := splitBytes_eq_some hsplit
    refine ⟨rfl, rfl, ?_, i + 1 + w, hat.next.readUint_width hw hlen, hlen ▸ hat.next.append⟩
    have hw : w ≤ 8 := by
      simp only [Cbor.argWidth] at hw
      split at hw <;> cases hw <;> decide
    calc fromBeBytes arg < 256 ^ arg.length := fromBeBytes_lt arg
      _ ≤ 256 ^ 8 := Nat.pow_le_pow_right (by decide) (hlen ▸ hw)

/-- A decoder follows one of the library's: where that reads an item that a value stands
    for, it returns the value, with the line ends of its strings converted. -/
def Follows (s : List UInt8) (dec : Nat → Except Signal (Lisp × Nat))
    (dec' : List UInt8 → Option (Cbor × List UInt8)) : Prop :=
  ∀ {i bs x b v}, At s i bs → dec' bs = some (x, b) → lisp x = some v →
    ∃ j, dec i = .ok (v.mapStrings decodeEol, j) ∧ At s j b

/-- The items of an array are read as on the other side. -/
theorem Follows.decodeItems {dec : Nat → Except Signal (Lisp × Nat)}
    {dec' : List UInt8 → Option (Cbor × List UInt8)} (hdec : Follows s dec dec')
    {xs : List Cbor} {vs : List Lisp} (hat : At s i bs)
    (hread : Cbor.decodeAll dec' n bs = some (xs, b)) (hvs : lispItems xs = some vs) :
    ∃ j, decodeItems dec n i = .ok (vs.map (·.mapStrings decodeEol), j) ∧ At s j b := by
  induction n generalizing i bs xs vs with
  | zero =>
    cases hread
    cases hvs
    exact ⟨i, rfl, hat⟩
  | succ n ih =>
    simp only [Cbor.decodeAll, Option.bind_eq_bind, Option.bind_eq_some_iff] at hread
    obtain ⟨⟨x, b₁⟩, hx, ⟨xs', b₂⟩, hxs, hread⟩ := hread
    cases hread
    obtain ⟨value, items, hvalue, hitems, rfl⟩ := lispItems_cons hvs
    obtain ⟨j₁, hj₁, hat₁⟩ := hdec hat hx hvalue
    obtain ⟨j₂, hj₂, hat₂⟩ := ih hat₁ hxs hitems
    refine ⟨j₂, ?_, hat₂⟩
    rw [Emacs.decodeItems, hj₁]
    simp [hj₂]

/-- So are the pairs of a map. -/
theorem Follows.decodePairs {dec : Nat → Except Signal (Lisp × Nat)}
    {dec' : List UInt8 → Option (Cbor × List UInt8)} (hdec : Follows s dec dec')
    {m : List (Cbor × Cbor)} {vs : List Lisp} (hat : At s i bs)
    (hread : Cbor.decodePairs dec' n bs = some (m, b)) (hvs : lispPairs m = some vs) :
    ∃ j, decodePairs dec n i = .ok (vs.map (·.mapStrings decodeEol), j) ∧ At s j b := by
  induction n generalizing i bs m vs with
  | zero =>
    cases hread
    cases hvs
    exact ⟨i, rfl, hat⟩
  | succ n ih =>
    simp only [Cbor.decodePairs, Option.bind_eq_bind, Option.bind_eq_some_iff] at hread
    obtain ⟨⟨k, b₁⟩, hk, ⟨x, b₂⟩, hx, ⟨m', b₃⟩, hm, hread⟩ := hread
    cases hread
    obtain ⟨key, value, pairs, hkey, hvalue, hpairs, rfl⟩ := lispPairs_cons hvs
    obtain ⟨j₁, hj₁, hat₁⟩ := hdec hat hk hkey
    obtain ⟨j₂, hj₂, hat₂⟩ := hdec hat₁ hx hvalue
    obtain ⟨j₃, hj₃, hat₃⟩ := ih hat₂ hm hpairs
    refine ⟨j₃, ?_, hat₃⟩
    rw [Emacs.decodePairs, hj₁]
    simp [hj₂, hj₃, Lisp.mapStrings]

/-- The part there is cut out. -/
theorem At.substring (h : At s i (b ++ bs)) : substring s i (i + b.length) = .ok b := by
  have hle := h.append.le
  rw [Emacs.substring, if_pos hle, h.drop, Nat.add_sub_cancel_left, List.take_left]

/-- The decoder of the frontend follows the one of the library, at each depth. -/
theorem decodeFrom_follows (s : List UInt8) (d : Nat) :
    Follows s (decodeFrom s d) (Cbor.decodeItem d) := by
  induction d with
  | zero => nofun
  | succ d ih =>
    intro i bs x b v hat hx hv
    simp only [Cbor.decodeItem, Option.bind_eq_bind, Option.bind_eq_some_iff] at hx
    obtain ⟨⟨h, rest⟩, hread, hx⟩ := hx
    cases bs with
    | nil => cases hread
    | cons head bs =>
    obtain ⟨hmajor, hinfo, harg, j, hj, hat'⟩ := hat.readUint hread
    have hmajor : head.toNat >>> 5 = h.major := by rw [hmajor, Nat.shiftRight_eq_div_pow]
    have hinfo : head.toNat &&& 31 = h.info := by
      rw [hinfo]
      exact Nat.and_two_pow_sub_one_eq_mod _ 5
    have harg : (UInt64.ofNat h.arg).toNat = h.arg := UInt64.toNat_ofNat_of_lt' harg
    simp only [decodeFrom, hat.u8, ok_bind, hmajor, hinfo, hj]
    simp only [Cbor.decodeBody] at hx
    split at hx
    -- an unsigned integer
    next heq =>
      cases hx
      cases hv
      refine ⟨j, ?_, hat'⟩
      rw [heq, harg]
      rfl
    -- a negative integer
    next heq =>
      cases hx
      cases hv
      refine ⟨j, ?_, hat'⟩
      rw [heq, harg]
      rfl
    -- a byte string, which no value stands for
    next =>
      obtain ⟨_, _, hx⟩ := Option.map_eq_some_iff.1 hx
      cases hx
      cases hv
    -- a text
    next heq =>
      simp only [Option.bind_eq_bind, Option.bind_eq_some_iff] at hx
      obtain ⟨⟨bytes, _⟩, hsplit, str, hstr, hx⟩ := hx
      cases hx
      cases hv
      obtain ⟨hlen, rfl⟩ := splitBytes_eq_some hsplit
      have hstr : bytes = utf8 str := ofUtf8?_eq_some hstr
      refine ⟨j + h.arg, ?_, hlen ▸ hat'.append⟩
      have hsub := hat'.substring
      rw [hlen] at hsub
      rw [heq]
      simp only [ok_bind, hsub, hstr, decodeCodingString_utf8]
      rfl
    -- an array
    next heq =>
      obtain ⟨⟨xs, _⟩, hxs, hx⟩ := Option.map_eq_some_iff.1 hx
      cases hx
      obtain ⟨vs, hvs, rfl⟩ := Option.map_eq_some_iff.1 hv
      obtain ⟨j', hj', hat'⟩ := ih.decodeItems hat' hxs hvs
      refine ⟨j', ?_, hat'⟩
      rw [heq]
      simp [hj', Lisp.mapStrings]
    -- a map
    next heq =>
      obtain ⟨⟨m, _⟩, hm, hx⟩ := Option.map_eq_some_iff.1 hx
      cases hx
      obtain ⟨vs, hvs, rfl⟩ := Option.map_eq_some_iff.1 hv
      obtain ⟨j', hj', hat'⟩ := ih.decodePairs hat' hm hvs
      refine ⟨j', ?_, hat'⟩
      rw [heq]
      simp [hj', Lisp.mapStrings]
    -- a simple value, in the head itself
    next heq =>
      rw [heq]
      have hat₁ (hlt : h.info < 24) : At s (i + 1) rest := by
        rw [readUint, if_pos hlt] at hj
        exact (Prod.mk.inj (Except.ok.inj hj)).2 ▸ hat'
      split at hx
      case h_1 hinfo | h_2 hinfo | h_3 hinfo =>
        cases hx
        cases hv
        rw [hinfo] at hat₁ ⊢
        exact ⟨i + 1, rfl, hat₁ (by decide)⟩
      next =>
        cases hx
        cases hv
      next => cases hx
    next => cases hx

end Follow

/-- The encoding of an item is decoded as the value that stands for the item, with the
    line ends of its strings converted. -/
theorem decode_encode {x : Cbor} {v : Lisp} (hv : lisp x = some v)
    (hlen : x.encode.length < 256 ^ 8) (rest : List UInt8) :
    decode (x.encode ++ rest) 0 = .ok (v.mapStrings decodeEol, x.encode.length) := by
  have hat : At (x.encode ++ rest) 0 (x.encode ++ rest) := ⟨Nat.zero_le _, rfl⟩
  have hread : Cbor.decodeItem ((x.encode ++ rest).length + 1) (x.encode ++ rest) =
      some (x, rest) := by
    refine Cbor.decodeItem_encode x ?_ hlen rest
    rw [List.length_append]
    omega
  obtain ⟨j, hj, hat'⟩ := decodeFrom_follows _ _ hat hread hv
  have hlen' := congrArg List.length hat'.drop
  have hle := hat'.le
  rw [List.length_drop, List.length_append] at hlen'
  rw [List.length_append] at hle
  have hj' : j = x.encode.length := by omega
  rw [decode, hj, hj']

/-! ## The round trip -/

/-- The values that the codec is for. -/
inductive Encodable : Lisp → Prop
  | nil : Encodable .nil
  | t : Encodable (.sym "t")
  | false : Encodable (.sym ":false")
  | int {n : Int} : -2 ^ 64 ≤ n → n < 2 ^ 64 → Encodable (.int n)
  | text (s : String) : Encodable (.text s)
  | array {vs : List Lisp} : (∀ v ∈ vs, Encodable v) → Encodable (.cons (.sym ":array") (.list vs))
  | map {m : List (Lisp × Lisp)} : (∀ p ∈ m, Encodable p.1) → (∀ p ∈ m, Encodable p.2) →
    Encodable (.cons (.sym ":map") (.list (m.map fun p => .cons p.1 p.2)))

/-- Some item stands for each of them. -/
theorem Encodable.exists_lisp {v : Lisp} (h : Encodable v) : ∃ x, lisp x = some v := by
  induction h with
  | nil => exact ⟨.null, rfl⟩
  | t => exact ⟨.bool Bool.true, rfl⟩
  | false => exact ⟨.bool Bool.false, rfl⟩
  | @int n hlo hhi =>
    by_cases hn : 0 ≤ n
    · refine ⟨.uint (.ofNat n.toNat), ?_⟩
      have hlt : n.toNat < 2 ^ 64 := by omega
      rw [lisp, UInt64.toNat_ofNat_of_lt' hlt, Int.toNat_of_nonneg hn]
    · refine ⟨.nint (.ofNat (-1 - n).toNat), ?_⟩
      have hlt : (-1 - n).toNat < 2 ^ 64 := by omega
      rw [lisp, UInt64.toNat_ofNat_of_lt' hlt, Int.toNat_of_nonneg (by omega)]
      congr
      omega
  | text s => exact ⟨.text s, rfl⟩
  | @array vs _ ih =>
    -- the items one by one, by induction on the list
    have hxs : ∃ xs, lispItems xs = some vs := by
      clear * - ih
      induction vs with
      | nil => exact ⟨[], rfl⟩
      | cons v vs ihvs =>
        obtain ⟨x, hx⟩ := ih v List.mem_cons_self
        obtain ⟨xs, hxs⟩ := ihvs fun v hv => ih v (List.mem_cons_of_mem _ hv)
        exact ⟨x :: xs, by simp [lispItems, hx, hxs]⟩
    obtain ⟨xs, hxs⟩ := hxs
    exact ⟨.array xs, by simp [lisp, hxs]⟩
  | @map m _ _ ihk ihv =>
    have hm : ∃ m', lispPairs m' = some (m.map fun p => .cons p.1 p.2) := by
      clear * - ihk ihv
      induction m with
      | nil => exact ⟨[], rfl⟩
      | cons p m ihm =>
        obtain ⟨k, hk⟩ := ihk p List.mem_cons_self
        obtain ⟨x, hx⟩ := ihv p List.mem_cons_self
        obtain ⟨m', hm'⟩ := ihm (fun p hp => ihk p (List.mem_cons_of_mem _ hp))
          fun p hp => ihv p (List.mem_cons_of_mem _ hp)
        exact ⟨(k, x) :: m', by simp [lispPairs, hk, hx, hm']⟩
    obtain ⟨m', hm'⟩ := hm
    exact ⟨.map m', by simp [lisp, hm']⟩

/-- The length of the longest string, `most-positive-fixnum`. -/
def mostPositiveFixnum : Nat := 2 ^ 61 - 1

/-- A value makes the round trip, whatever follows its encoding, if and only if each of
    its strings keeps its line ends. -/
theorem decode_encode_iff {v : Lisp} (hv : Encodable v)
    (hlen : ∀ bytes, encode v = .ok bytes → bytes.length ≤ mostPositiveFixnum)
    (rest : List UInt8) :
    (∃ bytes, encode v = .ok bytes ∧ decode (bytes ++ rest) 0 = .ok (v, bytes.length)) ↔
      ∀ s ∈ v.strings, KeepsLines s := by
  obtain ⟨x, hx⟩ := hv.exists_lisp
  have henc := encode_lisp x hx
  have hlen : x.encode.length ≤ 2 ^ 61 - 1 := hlen _ henc
  have hdec := decode_encode hx (by omega) rest
  calc (∃ bytes, encode v = .ok bytes ∧ decode (bytes ++ rest) 0 = .ok (v, bytes.length))
      ↔ decode (x.encode ++ rest) 0 = .ok (v, x.encode.length) := by
        rw [henc]
        simp
    _ ↔ v.mapStrings decodeEol = v := by
        rw [hdec]
        simp
    _ ↔ ∀ s ∈ v.strings, KeepsLines s := by
        simp only [Lisp.mapStrings_eq_iff, decodeEol_eq_iff]

/-- A map makes the round trip, and what follows it is left. -/
theorem decode_encode_map :
    let v : Lisp := .cons (.sym ":map") (.list [.cons (.text "n\r\n\n") (.int (-300))])
    ∃ bytes, encode v = .ok bytes ∧ decode (bytes ++ [0xff]) 0 = .ok (v, bytes.length) := by
  have hv : Encodable (.cons (.sym ":map") (.list [.cons (.text "n\r\n\n") (.int (-300))])) := by
    refine Encodable.map (m := [(.text "n\r\n\n", .int (-300))]) (fun p hp => ?_) fun p hp => ?_
    · cases List.mem_singleton.1 hp
      exact .text _
    · cases List.mem_singleton.1 hp
      exact .int (by decide) (by decide)
  refine (decode_encode_iff hv (fun bytes h => ?_) [0xff]).2 (by decide +kernel)
  cases h
  decide +kernel

/-- A text whose line ends are those of DOS comes back with others. -/
theorem decode_encode_dos :
    encode (.text "a\r\nb") = .ok [0x64, 0x61, 0x0d, 0x0a, 0x62] ∧
      decode ([0x64, 0x61, 0x0d, 0x0a, 0x62] ++ []) 0 = .ok (.text "a\nb", 5) ∧
      Lisp.text "a\nb" ≠ .text "a\r\nb" := by
  decide +kernel

end Zscheme.Emacs
