import Zscheme.Context.Convert
import Zscheme.Ipc.Frame

/-!
# What a reply says

`decode_reply` reads the payload of a reply: a term `:ok` with what it carries, a term
`:error` with a reason, any other value as it is, and a payload that is no CBOR as a
text. CBOR itself (`ciborium`) is a parameter.

* `decodeReply_terms`: every term is told apart, and a call fails exactly on an array
  headed by `:error`.
* `decodeReply_text_iff`: a text arrives as it was sent exactly if it does not begin
  with a data item that is decoded, as what follows the item is not looked at.
-/

namespace Zscheme

open Ciborium

namespace Context

/-! ## Decoding a reply -/

/-- How many bytes follow the first byte of a character, and the bounds of the one right
    after it. -/
def utf8Lead (b : UInt8) : Option (Nat × UInt8 × UInt8) :=
  if b < 0x80 then some (0, 0x80, 0xbf)
  else if 0xc2 ≤ b ∧ b ≤ 0xdf then some (1, 0x80, 0xbf)
  else if b = 0xe0 then some (2, 0xa0, 0xbf)
  else if b = 0xed then some (2, 0x80, 0x9f)
  else if 0xe1 ≤ b ∧ b ≤ 0xef then some (2, 0x80, 0xbf)
  else if b = 0xf0 then some (3, 0x90, 0xbf)
  else if 0xf1 ≤ b ∧ b ≤ 0xf3 then some (3, 0x80, 0xbf)
  else if b = 0xf4 then some (3, 0x80, 0x8f)
  else none

/-- How many of the next `n` bytes continue a character, the first one within bounds. -/
def continued (n : Nat) (low high : UInt8) : List UInt8 → Nat
  | [] => 0
  | b :: bs => match n with
    | 0 => 0
    | n + 1 => if low ≤ b ∧ b ≤ high then continued n 0x80 0xbf bs + 1 else 0

/-- The text of some bytes, where the longest start of a character that is not completed
    is replaced, and so is every byte that starts none. -/
def replaceInvalid : Nat → List UInt8 → String
  | _, [] => ""
  | 0, _ => ""
  | fuel + 1, b :: bs => match utf8Lead b with
    | none => "\uFFFD" ++ replaceInvalid fuel bs
    | some (n, low, high) =>
      let k := continued n low high bs
      (if k = n then (ofUtf8? (b :: bs.take n)).getD "\uFFFD" else "\uFFFD") ++
        replaceInvalid fuel (bs.drop k)

/-- `String::from_utf8_lossy` -/
def fromUtf8Lossy (b : List UInt8) : String := (ofUtf8? b).getD (replaceInvalid b.length b)

@[simp] theorem fromUtf8Lossy_utf8 (t : String) : fromUtf8Lossy (utf8 t) = t := by
  simp [fromUtf8Lossy]

/- `ciborium::de::from_reader`, `none` for an error. -/
variable (fromReader : List UInt8 → Option Value)

/-- `decode_reply` -/
def decodeReply (payload : List UInt8) : Except String SchemeVal :=
  match fromReader payload with
  | none => .ok (.str (fromUtf8Lossy payload))
  | some val => match val with
    | .text s => if s = ":ok" then .ok (.str s) else .ok (cborToSchemeVal val)
    | .array (.text verb :: rest) =>
      if verb = ":ok" then match rest with
        | v :: _ => .ok (cborToSchemeVal v)
        | [] => .ok (.str ":ok")
      else if verb = ":error" then match rest with
        | .text s :: _ => .error s
        | _ => .error (fromUtf8Lossy payload)
      else .ok (cborToSchemeVal val)
    | _ => .ok (cborToSchemeVal val)

variable {fromReader} {payload : List UInt8} {x : Value} {rest : List Value}

/-! ## Terms -/

theorem decodeReply_ok : fromReader payload = some (.array (.text ":ok" :: rest)) →
    decodeReply fromReader payload =
      .ok (match rest with | x :: _ => cborToSchemeVal x | [] => .str ":ok") := by
  intro h
  rcases rest with _ | ⟨x, rest⟩ <;> simp [decodeReply, h]

theorem decodeReply_error : fromReader payload = some (.array (.text ":error" :: rest)) →
    decodeReply fromReader payload =
      .error (match rest with | .text s :: _ => s | _ => fromUtf8Lossy payload) := by
  intro h
  have hne : ":error" ≠ ":ok" := by decide
  simp only [decodeReply, h, if_neg hne, if_true]
  split <;> rfl

/-- An array that says what became of the call. -/
def Value.IsTerm (x : Value) (verb : String) : Prop := ∃ rest, x = .array (.text verb :: rest)

/-- Any other value is the value of the call. -/
theorem decodeReply_value (h : fromReader payload = some x) (hok : ¬ Value.IsTerm x ":ok")
    (herror : ¬ Value.IsTerm x ":error") :
    decodeReply fromReader payload = .ok (cborToSchemeVal x) := by
  simp only [decodeReply, h]
  split
  · split <;> rfl
  · next verb rest =>
    have h₁ : verb ≠ ":ok" := fun hv => hok ⟨rest, by rw [hv]⟩
    have h₂ : verb ≠ ":error" := fun hv => herror ⟨rest, by rw [hv]⟩
    rw [if_neg h₁, if_neg h₂]
  · rfl

/-- A call fails exactly on an array headed by `:error`. -/
theorem decodeReply_fails_iff (h : fromReader payload = some x) :
    (∃ e, decodeReply fromReader payload = .error e) ↔ Value.IsTerm x ":error" := by
  constructor
  · intro ⟨e, he⟩
    by_contra hn
    by_cases hok : Value.IsTerm x ":ok"
    · obtain ⟨rest, rfl⟩ := hok
      cases (decodeReply_ok h).symm.trans he
    · cases (decodeReply_value h hok hn).symm.trans he
  · rintro ⟨rest, rfl⟩
    exact ⟨_, decodeReply_error h⟩

/-- A value that is sent is a term if it is a list headed by the verb. -/
theorem schemeValToCbor_isTerm {v : SchemeVal} {verb : String} :
    Value.IsTerm (schemeValToCbor v) verb ↔ ∃ rest, v = .list (.str verb :: rest) := by
  constructor
  · rintro ⟨rest, h⟩
    rcases v with _ | _ | _ | _ | _ | _ | items | _
    case list =>
      rcases items with _ | ⟨head, items⟩
      · cases h
      · rw [schemeValToCbor, listToCbor, Value.array.injEq, List.cons.injEq] at h
        rcases head with s | _ | _ | _ | _ | _ | _ | _
        case str =>
          obtain rfl := Value.text.inj h.1
          exact ⟨items, rfl⟩
        all_goals cases h.1
    all_goals cases h
  · rintro ⟨rest, rfl⟩
    exact ⟨listToCbor rest, rfl⟩

/-- Every reply that is a term is told from the others. -/
theorem decodeReply_terms (c : Ipc.Codec Value) :
    (∀ v payload, v.Ordered →
      c.encode (schemeValToCbor (.list [.str ":ok", v])) = some payload →
        decodeReply c.decode payload = .ok v) ∧
    (∀ s payload, c.encode (schemeValToCbor (.list [.str ":error", .str s])) = some payload →
        decodeReply c.decode payload = .error s) ∧
    (∀ v payload, v = .str ":ok" ∨ v = .list [.str ":ok"] →
      c.encode (schemeValToCbor v) = some payload →
        decodeReply c.decode payload = .ok (.str ":ok")) ∧
    (∀ v payload, v.Ordered →
      (∀ rest, v ≠ .list (.str ":ok" :: rest) ∧ v ≠ .list (.str ":error" :: rest)) →
      c.encode (schemeValToCbor v) = some payload → decodeReply c.decode payload = .ok v) ∧
    (∀ x payload, c.encode x = some payload →
      ((∃ e, decodeReply c.decode payload = .error e) ↔
        ∃ rest, x = .array (.text ":error" :: rest))) := by
  refine ⟨fun v payload hv h => ?_, fun s payload h => ?_, fun v payload hv h => ?_,
    fun v payload hv hterm h => ?_, fun x payload h => ?_⟩
  · rw [decodeReply_ok (c.decode_encode _ _ h)]
    exact congrArg Except.ok (cborToSchemeVal_toCbor v hv)
  · exact decodeReply_error (c.decode_encode _ _ h)
  · rcases hv with rfl | rfl
    · simp [decodeReply, c.decode_encode _ _ h, schemeValToCbor]
    · exact decodeReply_ok (c.decode_encode _ _ h)
  · rw [decodeReply_value (c.decode_encode _ _ h), cborToSchemeVal_toCbor v hv]
    · rw [schemeValToCbor_isTerm]
      rintro ⟨rest, rfl⟩
      exact (hterm rest).1 rfl
    · rw [schemeValToCbor_isTerm]
      rintro ⟨rest, rfl⟩
      exact (hterm rest).2 rfl
  · exact decodeReply_fails_iff (c.decode_encode _ _ h)

/-- CBOR values without tags, encoded and decoded. -/
def Value.codec : Ipc.Codec Value where
  encode v := v.toCbor?.bind fun x => if x.encode.length < 256 ^ 8 then some x.encode else none
  decode b := (Cbor.decode b).map Value.ofCbor
  decode_encode v b h := by
    obtain ⟨x, hx, h⟩ := Option.bind_eq_some_iff.1 h
    obtain ⟨hlen, h⟩ := Option.ite_none_right_eq_some.1 h
    obtain rfl := Option.some.inj h
    rw [Cbor.decode_encode x hlen, Option.map_some, Value.ofCbor_toCbor? v hx]

/-! ## Texts -/

/-- A text that an item is converted to is shorter than the item, or it is the decimal
    notation of an integer and does not begin as the item does. -/
theorem length_of_item {widen : List UInt8 → UInt64} {t : String} : ∀ (x : Value) {b : List UInt8},
    Item widen x b → cborToSchemeVal x = .str t →
      t.utf8ByteSize < b.length ∨
        (∃ n : Int, t = toString n) ∧ ∃ y bs, b = y :: bs ∧ ¬ DecimalByte y
  | .text s, b, hi, h => by
    obtain rfl := SchemeVal.str.inj h
    exact .inl hi.length_text
  | .integer n, b, hi, h => by
    -- an integer that is out of range becomes a text, in decimal
    rw [cborToSchemeVal] at h
    split at h
    · cases h
    · next hn =>
      obtain rfl := SchemeVal.str.inj h
      exact .inr ⟨⟨n.val, rfl⟩, hi.first_integer hn⟩
  | .tag _ v, b, hi, h => by
    obtain ⟨⟨b', hi', hle⟩, hfirst⟩ := hi.of_tag
    rw [cborToSchemeVal] at h
    rcases length_of_item v hi' h with hlt | ⟨hn, _⟩
    · exact .inl (by omega)
    · exact .inr ⟨hn, hfirst⟩
  | .map _, _, _, h => by
    rw [cborToSchemeVal] at h
    split at h <;> cases h
  | .bytes _, _, _, h | .float _, _, _, h | .bool _, _, _, h | .null, _, _, h
  | .array _, _, _, h => by
    rw [cborToSchemeVal] at h
    cases h

/-- How a reader of CBOR reads the bytes of a text. -/
structure ReadsTexts (widen : List UInt8 → UInt64) (fromReader : List UInt8 → Option Value) :
    Prop where
  /-- It decodes the first data item. -/
  first : ∀ t x, fromReader (utf8 t) = some x →
    ∃ item rest, utf8 t = item ++ rest ∧ Item widen x item
  /-- It does not look at what follows. -/
  alone : ∀ t x item rest, utf8 t = item ++ rest → Item widen x item →
    fromReader (utf8 t) = fromReader item

/-- A text that begins with a data item that is decoded does not arrive. -/
theorem decodeReply_text_ne {widen : List UInt8 → UInt64} {t : String} {item rest : List UInt8}
    (h : fromReader (utf8 t) = some x) (ht : utf8 t = item ++ rest) (hi : Item widen x item) :
    decodeReply fromReader (utf8 t) ≠ .ok (.str t) := by
  have hlen : item.length ≤ t.utf8ByteSize := by
    rw [← length_utf8, ht, List.length_append]
    exact Nat.le_add_right _ _
  have hfirst : ∀ n : Int, t = toString n → ∀ y bs, item = y :: bs → DecimalByte y := by
    rintro n rfl y bs rfl
    obtain ⟨z, zs, hz, hdec⟩ := utf8_toString_int n
    rw [ht, List.cons_append] at hz
    exact (List.cons.inj hz).1 ▸ hdec
  intro hok
  by_cases hterm : Value.IsTerm x ":ok"
  · obtain ⟨items, rfl⟩ := hterm
    obtain ⟨y, bs, hy, hmajor⟩ := hi.first_array
    have hy64 : 64 ≤ y.toNat := by omega
    have hok := Except.ok.inj ((decodeReply_ok h).symm.trans hok)
    rcases items with _ | ⟨v, items⟩
    · -- The text is `:ok`, which is no array.
      obtain rfl := SchemeVal.str.inj hok
      rw [hy] at ht
      have hcolon : y = 0x3a := (List.cons.inj ht).1.symm
      rw [hcolon] at hmajor
      cases hmajor
    · obtain ⟨b, hb, hle⟩ := hi.length_of_array (x := v) (by simp)
      rcases length_of_item v hb hok with hlt | ⟨⟨n, hn⟩, _⟩
      · omega
      · exact not_decimalByte hy64 (hfirst n hn y bs hy)
  by_cases herror : Value.IsTerm x ":error"
  · obtain ⟨items, rfl⟩ := herror
    cases (decodeReply_error h).symm.trans hok
  · have hok := Except.ok.inj ((decodeReply_value h hterm herror).symm.trans hok)
    rcases length_of_item x hi hok with hlt | ⟨⟨n, hn⟩, y, bs, hy, hdec⟩
    · omega
    · exact hdec (hfirst n hn y bs hy)

/-- A text arrives as it was sent if and only if it does not begin with a data item that
    is decoded. -/
theorem decodeReply_text_iff {widen : List UInt8 → UInt64} (h : ReadsTexts widen fromReader)
    (t : String) : decodeReply fromReader (utf8 t) = .ok (.str t) ↔
      ¬ ∃ item rest x, utf8 t = item ++ rest ∧ Item widen x item ∧ fromReader item = some x := by
  constructor
  · rintro hok ⟨item, rest, x, ht, hi, hx⟩
    have hread : fromReader (utf8 t) = some x := (h.alone t x item rest ht hi).trans hx
    exact decodeReply_text_ne hread ht hi hok
  · intro hn
    rcases hread : fromReader (utf8 t) with _ | x
    · simp [decodeReply, hread]
    · obtain ⟨item, rest, ht, hi⟩ := h.first t x hread
      exact absurd ⟨item, rest, x, ht, hi, (h.alone t x item rest ht hi).symm.trans hread⟩ hn

/-! ## A text that is read as a number -/

/-- Reads the negative integers that have one byte, and nothing else. -/
def readNegative : List UInt8 → Option Value
  | b :: _ => if 0x20 ≤ b ∧ b < 0x38 then some (.integer (.negOfUInt64 (.ofNat (b.toNat - 32))))
    else none
  | [] => none

theorem readNegative_readsTexts (widen : List UInt8 → UInt64) :
    ReadsTexts widen readNegative where
  first t x h := by
    rcases ht : utf8 t with _ | ⟨b, bs⟩
    · rw [ht] at h
      cases h
    rw [ht] at h
    obtain ⟨hb, h⟩ := Option.ite_none_right_eq_some.1 h
    obtain rfl := Option.some.inj h
    have hlow : 32 ≤ b.toNat := UInt8.le_iff_toNat_le.1 hb.1
    have hhigh : b.toNat < 56 := UInt8.lt_iff_toNat_lt.1 hb.2
    refine ⟨[b], bs, rfl, .nint (k := b.toNat - 32) ?_ ?_⟩
    · have hk : (UInt64.ofNat (b.toNat - 32)).toNat = b.toNat - 32 := by
        rw [UInt64.toNat_ofNat']
        omega
      simp only [Integer.negOfUInt64, hk]
    · have hhead : Head 1 (b.toNat - 32) [UInt8.ofNat (32 * 1 + (b.toNat - 32))] :=
        .short (by omega)
      rwa [show 32 * 1 + (b.toNat - 32) = b.toNat by omega, UInt8.ofNat_toNat] at hhead
  alone t x item rest ht hi := by
    obtain ⟨b, bs, rfl⟩ := List.exists_cons_of_ne_nil hi.ne_nil
    rw [ht]
    rfl

/-- A word whose first letter announces more bytes than follow. -/
theorem decodeReply_text_hello :
    decodeReply readNegative (utf8 "hello") = .ok (.str "hello") ↔
      ¬ ∃ item rest x, utf8 "hello" = item ++ rest ∧ Item (fun _ => 0) x item ∧
        readNegative item = some x :=
  decodeReply_text_iff (readNegative_readsTexts _) "hello"

/-- The text `12` is not one data item, and arrives as the integer −18. -/
theorem decodeReply_text_twelve :
    (¬ ∃ x, Item (fun _ => 0) x (utf8 "12")) ∧
      ReadsTexts (fun _ => 0) readNegative ∧
      decodeReply readNegative (utf8 "12") = .ok (.int (-18)) := by
  refine ⟨?_, readNegative_readsTexts _, rfl⟩
  rintro ⟨x, hx⟩
  have hx : Item (fun _ => 0) x [0x31, 0x32] := hx
  obtain ⟨k, hk⟩ := hx.head_of_negative (by decide)
  generalize hb : [(0x31 : UInt8), 0x32] = b at hk
  cases hk with
  | short _ => exact absurd (congrArg List.length hb) (by simp)
  | @long info w hw _ =>
    have hinfo : UInt8.ofNat (32 * 1 + info) = 0x31 := (List.cons.inj hb).1.symm
    simp only [Cbor.argWidth] at hw
    split at hw
    all_goals first | exact absurd hinfo (by decide) | cases hw

/-- A refusal is decoded as the reason it gives. -/
theorem decodeReply_terms_refused :
    ∃ payload, Value.codec.encode (.array [.text ":error", .text "no"]) = some payload ∧
      decodeReply Value.codec.decode payload = .error "no" := by
  refine ⟨_, rfl, ?_⟩
  exact (decodeReply_terms Value.codec).2.1 "no" _ rfl

end Context

end Zscheme
