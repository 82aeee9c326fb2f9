import Zscheme.Scheme.Value

/-!
# Primitives of the evaluator

The primitives the libraries are written with. They raise on arguments of the
wrong type. Strings are indexed by bytes. What the documentation leaves to the
evaluator is the parameter `Evaluator`: the texts of its errors, case folding, how
numbers and structured values are written, what `substring` gives for a range that
cuts a character or ends after the string, and which structured values `equal?`
identifies.

An error is the text that `guard` binds.
-/

namespace Zscheme

/-- What the evaluator decides on its own. -/
class Evaluator where
  /-- The text of the error of a primitive that refuses its arguments. -/
  primError : String → List SchemeVal → String
  /-- The text of the error of reading a local path that is not set. -/
  unsetPath : String → String
  /-- `string-downcase`. -/
  downcase : String → String
  /-- `number->string` of a float, by its bits. -/
  floatText : UInt64 → String
  /-- `string->number`, `none` standing for `#f`. -/
  readNumber : String → Option SchemeVal
  /-- How `display` writes a value that is not a string. -/
  displayText : SchemeVal → String
  /-- `err-msg`: the reason in a reply that reports an error. -/
  errMsg : SchemeVal → String
  /-- Whether `substring` raises on a range that cuts a character or that the string does
      not have; otherwise it gives the empty text there. -/
  cutRaises : Bool
  /-- `equal?` -/
  equal? : SchemeVal → SchemeVal → Bool
  /-- `equal?` is symmetric. -/
  equal?_comm : ∀ v w, equal? v w = equal? w v
  /-- Only the string itself is equal to a string. -/
  equal?_str : ∀ v s, equal? v (.str s) = decide (v = .str s)
  /-- Only the truth value itself is equal to a truth value. -/
  equal?_bool : ∀ v b, equal? v (.bool b) = decide (v = .bool b)

/-- Only the text itself is equal to a text. -/
@[simp] theorem equal?_str_iff [Evaluator] {v : SchemeVal} {s : String} :
    Evaluator.equal? v (.str s) = true ↔ v = .str s := by
  rw [Evaluator.equal?_str, decide_eq_true_iff]

@[simp] theorem str_equal?_iff [Evaluator] {v : SchemeVal} {s : String} :
    Evaluator.equal? (.str s) v = true ↔ v = .str s := by
  rw [Evaluator.equal?_comm, equal?_str_iff]

instance : Coe String SchemeVal := ⟨.str⟩

namespace SchemeVal

/-- Every value counts as true but `#f` and `nil`. -/
def truthy : SchemeVal → Bool
  | .bool b => b
  | .nil => false
  | _ => true

/-- `null?` -/
def null? : SchemeVal → Bool
  | .nil => true
  | .list [] => true
  | _ => false

/-- `pair?` -/
def pair? : SchemeVal → Bool
  | .list (_ :: _) => true
  | _ => false

/-- `list?` -/
def list? : SchemeVal → Bool
  | .nil => true
  | .list _ => true
  | _ => false

/-- `string?` -/
def string? : SchemeVal → Bool
  | .str _ => true
  | _ => false

theorem string?_iff {v : SchemeVal} : v.string? = true ↔ ∃ s, v = .str s := by
  cases v <;> simp [string?]

/-- `map?` -/
def map? : SchemeVal → Bool
  | .map _ => true
  | _ => false

/-- `number?` -/
def number? : SchemeVal → Bool
  | .int _ => true
  | .float _ => true
  | _ => false

end SchemeVal

namespace Prim

/-! ## Strings -/

/-- The first `n` bytes of a string and what follows them, if `n` is within the
    string and not inside a character. -/
def cut : List Char → Nat → Option (List Char × List Char)
  | cs, 0 => some ([], cs)
  | [], _ + 1 => none
  | c :: cs, n + 1 =>
    if c.utf8Size ≤ n + 1 then (cut cs (n + 1 - c.utf8Size)).map fun p => (c :: p.1, p.2)
    else none

/-- The bytes of a string from `start` to `stop`, `none` where one of the two is
    inside a character or not in the string. -/
def slice (s : String) (start stop : Nat) : Option String :=
  if start ≤ stop then
    (cut s.toList start).bind fun p =>
      (cut p.2 (stop - start)).map fun q => String.ofList q.1
  else none

/-- The byte index of the first occurrence of `needle`. -/
def indexOf (needle : List Char) : List Char → Option Nat
  | [] => if needle.isEmpty then some 0 else none
  | c :: cs =>
    if needle.isPrefixOf (c :: cs) then some 0
    else (indexOf needle cs).map (· + c.utf8Size)

/-- `string-index` -/
def stringIndex (hay needle : String) : Option Nat := indexOf needle.toList hay.toList

/-- `string-length` -/
def stringLength (s : String) : Nat := s.utf8ByteSize

/-- `make-map` -/
def makeMap (entries : List (String × SchemeVal)) : Dict String SchemeVal :=
  entries.foldl (fun m p => m.insert p.1 p.2) []

variable [Evaluator] {α : Type}

/-- A primitive refuses its arguments. -/
def refuse (prim : String) (args : List SchemeVal) : Except String α :=
  .error (Evaluator.primError prim args)

/-- `substring` -/
def substring (s : String) (start stop : Nat) : Except String String :=
  match slice s start stop with
  | some t => .ok t
  | none =>
    if Evaluator.cutRaises then refuse "substring" [s, .int (.ofNat start), .int (.ofNat stop)]
    else .ok ""

/-- The string a primitive is given. -/
def asString (prim : String) : SchemeVal → Except String String
  | .str s => .ok s
  | v => refuse prim [v]

/-- `string-append` -/
def stringAppend (vs : List SchemeVal) : Except String String := do
  let ss ← vs.mapM (asString "string-append")
  return String.join ss

/-- `string-downcase` -/
def stringDowncase (v : SchemeVal) : Except String String := do
  return Evaluator.downcase (← asString "string-downcase" v)

/-- `number->string` -/
def numberToString : SchemeVal → Except String String
  | .int n => .ok (toString n.toInt)
  | .float b => .ok (Evaluator.floatText b)
  | v => refuse "number->string" [v]

/-- `string->number` -/
def stringToNumber (v : SchemeVal) : Except String (Option SchemeVal) := do
  return Evaluator.readNumber (← asString "string->number" v)

/-! ## Lists -/

/-- `car` -/
def car : SchemeVal → Except String SchemeVal
  | .list (x :: _) => .ok x
  | v => refuse "car" [v]

/-- `cdr` -/
def cdr : SchemeVal → Except String SchemeVal
  | .list (_ :: xs) => .ok (.list xs)
  | v => refuse "cdr" [v]

/-- The elements of a proper list. -/
def elements (prim : String) : SchemeVal → Except String (List SchemeVal)
  | .list xs => .ok xs
  | .nil => .ok []
  | v => refuse prim [v]

/-! ## Maps -/

/-- The entries of a map. -/
def asMap (prim : String) : SchemeVal → Except String (Dict String SchemeVal)
  | .map m => .ok m
  | v => refuse prim [v]

/-- `map-ref` with a default. -/
def mapRef (m : SchemeVal) (key : String) (default : SchemeVal) : Except String SchemeVal := do
  let m ← asMap "map-ref" m
  return (m.get? key).getD default

/-- `map-keys` -/
def mapKeys (m : SchemeVal) : Except String (List String) := do
  return (← asMap "map-keys" m).map Prod.fst

/-- What `display` writes. -/
def displayText : SchemeVal → String
  | .str s => s
  | v => Evaluator.displayText v

end Prim

end Zscheme
