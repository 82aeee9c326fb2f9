import Zscheme.Avatar.Run
import Zscheme.Image.Source
import Zscheme.Lib.Rebind

/-!
# The evaluator of the image

The language of `Lib.Lambda` over the values of the evaluator: data, labelled by what
kind it is, closures, and native procedures. Those are the builtins the generic library
is written with, the other builtins, and the two procedures of the avatar library that
take a name the generic library has defined: `take` and `drop`.

A builtin raises on arguments of the wrong type. What the documentation leaves to the
evaluator is the parameter `Machine`. A machine carries the proof that its builtins make
no code: the procedures in what they return or call are among their arguments.
-/

namespace Zscheme

namespace Image

open Lambda Avatar

/-! ## Values -/

/-- What a piece of data is. -/
inductive Label
  | str (s : String)
  | bytes (b : List UInt8)
  | int (n : Int64)
  | float (bits : UInt64)
  | bool (b : Bool)
  | nil
  | list
  | map (keys : List String)
  | path (text : String)
  | actor (text : String)

/-- The builtins; those `stdlib.zscheme` is written with, and the others. -/
inductive Builtin
  | car | cdr | cons | null? | pair? | equal?
  | stringIndex | substring | stringLength | stringAppend | string?
  | number? | boolean? | numberToString
  | add | sub | div | mod | eq | lt | gt | not | error | eval
  | other (name : String)

/-- The native procedures: the builtins, and `take` and `drop` of the avatar library. -/
inductive Native
  | builtin (b : Builtin)
  | take
  | drop

/-- The values of the evaluator. -/
abbrev Value := Val SchemeVal Label Native

namespace Value

/-- A list. -/
def list (xs : List Value) : Value := .node .list xs

/-- A piece of data without parts. -/
def atom (a : Label) : Value := .node a []

mutual

/-- A value that can be sent, as a value of the evaluator. -/
def ofScheme : SchemeVal → Value
  | .str s => atom (.str s)
  | .bytes b => atom (.bytes b)
  | .int n => atom (.int n)
  | .float b => atom (.float b)
  | .bool b => atom (.bool b)
  | .nil => atom .nil
  | .list xs => list (ofSchemes xs)
  | .map m => .node (.map (m.map Prod.fst)) (ofEntries m)

/-- The elements of a list. -/
def ofSchemes : List SchemeVal → List Value
  | [] => []
  | x :: xs => ofScheme x :: ofSchemes xs

/-- The values of a map. -/
def ofEntries : List (String × SchemeVal) → List Value
  | [] => []
  | (_, x) :: m => ofScheme x :: ofEntries m

end

mutual

/-- A value as one that can be sent, if it can. -/
def toScheme? : Value → Option SchemeVal
  | .node (.str s) _ => some (.str s)
  | .node (.bytes b) _ => some (.bytes b)
  | .node (.int n) _ => some (.int n)
  | .node (.float b) _ => some (.float b)
  | .node (.bool b) _ => some (.bool b)
  | .node .nil _ => some .nil
  | .node .list xs => (toSchemes? xs).map .list
  | .node (.map keys) xs => (toSchemes? xs).map fun vs => .map (keys.zip vs)
  | .node (.path _) _ | .node (.actor _) _ | .closure _ | .native _ => none

/-- Values as values that can be sent. -/
def toSchemes? : List Value → Option (List SchemeVal)
  | [] => some []
  | x :: xs => do return (← toScheme? x) :: (← toSchemes? xs)

end

mutual

/-- Data can be sent. -/
@[simp] theorem toScheme?_ofScheme : ∀ v : SchemeVal, (ofScheme v).toScheme? = some v
  | .str _ | .bytes _ | .int _ | .float _ | .bool _ | .nil => rfl
  | .list xs => by
    change (toSchemes? (ofSchemes xs)).map SchemeVal.list = _
    rw [toSchemes?_ofSchemes]
    rfl
  | .map m => by
    change (toSchemes? (ofEntries m)).map (fun vs => SchemeVal.map ((m.map Prod.fst).zip vs)) = _
    rw [toSchemes?_ofEntries, Option.map_some, List.zip_map']
    simp

/-- So is a list of them. -/
theorem toSchemes?_ofSchemes : ∀ xs : List SchemeVal, toSchemes? (ofSchemes xs) = some xs
  | [] => rfl
  | x :: xs => by
    change (do return (← (ofScheme x).toScheme?) :: (← toSchemes? (ofSchemes xs))) = _
    rw [toScheme?_ofScheme, toSchemes?_ofSchemes]
    rfl

/-- And the values of a map. -/
theorem toSchemes?_ofEntries : ∀ m : List (String × SchemeVal),
    toSchemes? (ofEntries m) = some (m.map Prod.snd)
  | [] => rfl
  | (k, x) :: m => by
    change (do return (← (ofScheme x).toScheme?) :: (← toSchemes? (ofEntries m))) = _
    rw [toScheme?_ofScheme, toSchemes?_ofEntries]
    rfl

end

/-- Every value counts as true but `#f` and `()`. -/
def truthy : Value → Bool
  | .node (.bool b) _ => b
  | .node .nil _ => false
  | _ => true

/-- `null?` -/
def null? : Value → Bool
  | .node .nil _ => true
  | .node .list [] => true
  | _ => false

/-- `pair?` -/
def pair? : Value → Bool
  | .node .list (_ :: _) => true
  | _ => false

/-- `string?` -/
def string? : Value → Bool
  | .node (.str _) _ => true
  | _ => false

/-- `number?` -/
def number? : Value → Bool
  | .node (.int _) _ => true
  | .node (.float _) _ => true
  | _ => false

/-- `boolean?` -/
def boolean? : Value → Bool
  | .node (.bool _) _ => true
  | _ => false

/-- The text of a string. -/
def text? : Value → Option String
  | .node (.str s) _ => some s
  | _ => none

/-- `#t` or `#f` -/
def ofBool (b : Bool) : Value := atom (.bool b)

@[simp] theorem ofScheme_nil : ofScheme .nil = atom .nil := rfl

/-- The empty list is a list, and not the atom nil. -/
@[simp] theorem ofScheme_list_nil : ofScheme (.list []) = list [] := rfl

@[simp] theorem ofScheme_int (n : Int64) : ofScheme (.int n) = atom (.int n) := rfl

@[simp] theorem ofScheme_str (s : String) : ofScheme (.str s) = atom (.str s) := rfl

@[simp] theorem ofScheme_bool (b : Bool) : ofScheme (.bool b) = ofBool b := rfl

/-- A string has its text. -/
@[simp] theorem text?_str (s : String) : text? (atom (.str s)) = some s := rfl

@[simp] theorem truthy_ofBool (b : Bool) : truthy (ofBool b) = b := rfl

@[simp] theorem null?_nil : null? (atom .nil) = true := rfl

/-- A list is `null?` if it is empty. -/
@[simp] theorem null?_list (xs : List Value) : null? (list xs) = xs.isEmpty := by
  cases xs <;> rfl

end Value

/-! ## Builtins -/

/-- How a native procedure of the evaluator ends. -/
abbrev Ending := Step SchemeVal Label Native

/-- The ending makes no code: a procedure in it is one that satisfies what the procedures
    in the arguments do. -/
def Ending.MadeOf (args : List Value) (r : Ending) : Prop :=
  ∀ P Q, (∀ a ∈ args, a.All P Q) →
    match r with
    | .done v => v.All P Q
    | .apply f vs => f.All P Q ∧ ∀ v ∈ vs, v.All P Q
    | .eval _ => False

/-- What the evaluator decides on its own. -/
structure Machine where
  /-- The names of the other builtins. -/
  binds : String → Bool
  /-- What the other builtins do. -/
  other : String → List Value → World → Except String Ending × World
  /-- `include` apart, no builtin of these makes code. -/
  other_makes : ∀ {name args w r}, name ≠ "include" →
    (other name args w).1 = .ok r → r.MadeOf args
  /-- The application of data: a path, an actor, an address. -/
  send : Value → List Value → World → Except String SchemeVal × World
  /-- `take` and `drop` of the avatar library with a word that cannot be sent. -/
  unsendable : Native → List Value → World → Except String SchemeVal × World
  /-- Arithmetic beyond the integers that fit. -/
  number : Builtin → List Value → Except String SchemeVal
  /-- Equality of values that cannot be sent. -/
  equal : Value → Value → Bool
  /-- What `eval` makes of a value. -/
  read : Value → Option Code
  /-- The text of the error of a builtin that refuses its arguments. -/
  refusal : Builtin → List Value → String
  /-- The text of the error of a closure that refuses its arguments. -/
  arity : Closure SchemeVal → List Value → String
  /-- The text of the error of a variable that is not bound. -/
  unbound : String → String
  /-- What a value that is not one string is raised as. -/
  raised : List Value → String
  /-- What the later layers bind their names to, `take` and `drop` apart. -/
  layer : String → Value

namespace Machine

/-- The names of the builtins `stdlib.zscheme` is written with. -/
def core : List (String × Builtin) := [
  ("car", .car), ("cdr", .cdr), ("cons", .cons), ("null?", .null?), ("pair?", .pair?),
  ("equal?", .equal?), ("string-index", .stringIndex), ("substring", .substring),
  ("string-length", .stringLength), ("string-append", .stringAppend), ("string?", .string?),
  ("number?", .number?), ("boolean?", .boolean?), ("number->string", .numberToString),
  ("+", .add), ("-", .sub), ("/", .div), ("mod", .mod), ("=", .eq), ("<", .lt), (">", .gt),
  ("not", .not), ("error", .error), ("eval", .eval)]

/-- An integer that fits. -/
def fits (n : Int) : Option SchemeVal :=
  if Int64.minValue.toInt ≤ n ∧ n ≤ Int64.maxValue.toInt then some (.int (.ofInt n)) else none

/-- Arithmetic on integers. -/
def arith? : Builtin → List Value → Option SchemeVal
  | .add, [.node (.int m) _, .node (.int n) _] => fits (m.toInt + n.toInt)
  | .sub, [.node (.int m) _, .node (.int n) _] => fits (m.toInt - n.toInt)
  | .sub, [.node (.int n) _] => fits (-n.toInt)
  | .eq, [.node (.int m) _, .node (.int n) _] => some (.bool (m = n))
  | .lt, [.node (.int m) _, .node (.int n) _] => some (.bool (m < n))
  | .gt, [.node (.int m) _, .node (.int n) _] => some (.bool (n < m))
  | _, _ => none

variable [Host] (M : Machine)

/-- A builtin that returns data of its own. -/
def datum (b : Builtin) (args : List Value) : Except String SchemeVal :=
  match b, args with
  | .null?, [v] => .ok (.bool v.null?)
  | .pair?, [v] => .ok (.bool v.pair?)
  | .equal?, [u, v] =>
    match u.toScheme?, v.toScheme? with
    | some x, some y => .ok (.bool (Evaluator.equal? x y))
    | _, _ => .ok (.bool (M.equal u v))
  | .stringIndex, [.node (.str hay) _, .node (.str needle) _] =>
    match Prim.stringIndex hay needle with
    | some i => .ok (.int (.ofNat i))
    | none => .ok (.bool false)
  | .substring, [.node (.str s) _, .node (.int start) _, .node (.int stop) _] =>
    match start.toInt.toNat?, stop.toInt.toNat? with
    | some i, some j =>
      match Prim.slice s i j with
      | some t => .ok (.str t)
      | none => if Evaluator.cutRaises then .error (M.refusal b args) else .ok (.str "")
    | _, _ => .error (M.refusal b args)
  | .stringLength, [.node (.str s) _] => .ok (.int (.ofNat (Prim.stringLength s)))
  | .stringAppend, args =>
    match args.mapM Value.text? with
    | some ss => .ok (.str (String.join ss))
    | none => .error (M.refusal b args)
  | .string?, [v] => .ok (.bool v.string?)
  | .number?, [v] => .ok (.bool v.number?)
  | .boolean?, [v] => .ok (.bool v.boolean?)
  | .numberToString, [.node (.int n) _] => .ok (.str (toString n.toInt))
  | .numberToString, [.node (.float x) _] => .ok (.str (Evaluator.floatText x))
  | .not, [v] => .ok (.bool !v.truthy)
  | .error, [.node (.str s) _] => .error s
  | .error, args => .error (M.raised args)
  | .add, args | .sub, args | .div, args | .mod, args | .eq, args | .lt, args | .gt, args =>
    match arith? b args with
    | some v => .ok v
    | none => M.number b args
  | b, args => .error (M.refusal b args)

/-- A builtin that returns a value. -/
def value (b : Builtin) (args : List Value) : Except String Value :=
  match b, args with
  | .car, [.node .list (x :: _)] => .ok x
  | .cdr, [.node .list (_ :: xs)] => .ok (.list xs)
  | .cons, [x, .node .list xs] => .ok (.list (x :: xs))
  | .cons, [x, .node .nil _] => .ok (.list [x])
  | b, args => (M.datum b args).map .ofScheme

/-- A builtin. -/
def builtin (args : List Value) (w : World) : Builtin → Except String Ending × World
  | .other name => M.other name args w
  | .eval =>
    match args.mapM M.read with
    | some [e] => (.ok (.eval e), w)
    | _ => (.error (M.refusal .eval args), w)
  | b => ((M.value b args).map .done, w)

/-- A procedure of the avatar library, given the values the evaluator has for its words. -/
def command (f : Native) (run : List SchemeVal → Act SchemeVal) (args : List Value) (w : World) :
    Except String SchemeVal × World :=
  match Value.toSchemes? args with
  | some words => (run words).run w
  | none => M.unsendable f args w

/-- What comes back as data. -/
def returned (r : Except String SchemeVal × World) : Except String Ending × World :=
  (r.1.map fun v => .done (Value.ofScheme v), r.2)

/-- The evaluator, as the language is built on it. -/
def interp : Interp SchemeVal Label Native String World where
  quote := Value.ofScheme
  list := Value.list
  void := Value.atom .nil
  caught e := Value.atom (.str e)
  raised v := (Value.text? v).getD (M.raised [v])
  truthy := Value.truthy
  unbound := M.unbound
  arity := M.arity
  call f args w :=
    match f with
    | .native (.builtin b) => M.builtin args w b
    | .native .take => returned (M.command .take Avatar.take args w)
    | .native .drop => returned (M.command .drop Avatar.drop args w)
    | f => returned (M.send f args w)

/-! ## Symbolic execution -/

section

variable {M} {w : World}

@[simp] theorem interp_quote (d : SchemeVal) : M.interp.quote d = Value.ofScheme d := rfl

@[simp] theorem interp_void : M.interp.void = Value.atom .nil := rfl

/-- What is true is so for the machine. -/
@[simp] theorem interp_truthy (v : Value) : M.interp.truthy v = v.truthy := rfl

@[simp] theorem call_null? (v : Value) :
    M.interp.call (.native (.builtin .null?)) [v] w = (.ok (.done (Value.ofBool v.null?)), w) := rfl

/-- The first of a list. -/
@[simp] theorem call_car (v : Value) (vs : List Value) :
    M.interp.call (.native (.builtin .car)) [Value.list (v :: vs)] w = (.ok (.done v), w) := rfl

/-- The rest of a list. -/
@[simp] theorem call_cdr (v : Value) (vs : List Value) :
    M.interp.call (.native (.builtin .cdr)) [Value.list (v :: vs)] w =
      (.ok (.done (Value.list vs)), w) := rfl

/-- One more at the front of a list. -/
@[simp] theorem call_cons (v : Value) (vs : List Value) :
    M.interp.call (.native (.builtin .cons)) [v, Value.list vs] w =
      (.ok (.done (Value.list (v :: vs))), w) := rfl

/-- One value at the front of nil is a list. -/
@[simp] theorem call_cons_nil (v : Value) :
    M.interp.call (.native (.builtin .cons)) [v, Value.atom .nil] w =
      (.ok (.done (Value.list [v])), w) := rfl

/-- Integers are compared. -/
@[simp] theorem call_eq (m n : Int64) :
    M.interp.call (.native (.builtin .eq)) [Value.atom (.int m), Value.atom (.int n)] w =
      (.ok (.done (Value.ofBool (m = n))), w) := rfl

/-- `eval` evaluates what is an expression, and refuses the rest. -/
@[simp] theorem call_eval (v : Value) :
    M.interp.call (.native (.builtin .eval)) [v] w =
      match M.read v with
      | some e => (.ok (.eval e), w)
      | none => (.error (M.refusal .eval [v]), w) := by
  simp only [interp, builtin, List.mapM_cons, List.mapM_nil]
  rcases M.read v with _ | _ <;> rfl

/-- `string-append` takes strings alone. -/
@[simp] theorem call_stringAppend (args : List Value) :
    M.interp.call (.native (.builtin .stringAppend)) args w =
      match args.mapM Value.text? with
      | some ss => (.ok (.done (Value.atom (.str (String.join ss)))), w)
      | none => (.error (M.refusal .stringAppend args), w) := by
  simp only [interp, builtin, value, datum]
  rcases args.mapM Value.text? with _ | _ <;> rfl

end

/-- A machine with no other builtins and no other layers. -/
def plain : Machine where
  binds _ := false
  other name _ w := (.error (name ++ " is not bound"), w)
  other_makes _ h := nomatch h
  send _ _ w := (.error "nothing is sent", w)
  unsendable _ _ w := (.error "join-words: not a word", w)
  number _ _ := .error "not an integer"
  equal _ _ := false
  read _ := none
  refusal _ _ := "invalid arguments"
  arity _ _ := "wrong number of arguments"
  unbound x := x ++ " is not bound"
  raised _ := "error"
  layer _ := Value.atom .nil

end Machine

end Image

end Zscheme
