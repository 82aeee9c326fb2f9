import Zscheme.Lib.Dict

/-!
# Values and errors of the evaluator

`SchemeVal` and `SchemeErr` are the value and error types of the evaluator
(`ma_zscheme`), as this repository uses them: every value that can be sent to an
actor or come back in a reply. Closures are left out, as they cannot be sent. A
float is only ever passed on: it is represented by its bits.
-/

namespace Zscheme

/-- `SchemeVal`: the values a script sends and receives. -/
inductive SchemeVal
  | str (s : String)
  | bytes (b : List UInt8)
  | int (n : Int64)
  | float (bits : UInt64)
  | bool (b : Bool)
  | nil
  | list (xs : List SchemeVal)
  | map (m : List (String × SchemeVal))

/-- `SchemeErr`: how an evaluation fails. -/
inductive SchemeErr
  | runtime (msg : String)
  | maError (msg : String)
  | undefined (sym : String)
  | arity (name expected got : String)
  | parseError (msg : String)
  deriving DecidableEq

namespace SchemeVal

mutual

/-- Structural equality of values is decidable. -/
def decEq : (a b : SchemeVal) → Decidable (a = b)
  | .str a, .str b => if h : a = b then isTrue (h ▸ rfl) else isFalse fun e => h (by injection e)
  | .bytes a, .bytes b =>
    if h : a = b then isTrue (h ▸ rfl) else isFalse fun e => h (by injection e)
  | .int a, .int b => if h : a = b then isTrue (h ▸ rfl) else isFalse fun e => h (by injection e)
  | .float a, .float b =>
    if h : a = b then isTrue (h ▸ rfl) else isFalse fun e => h (by injection e)
  | .bool a, .bool b => if h : a = b then isTrue (h ▸ rfl) else isFalse fun e => h (by injection e)
  | .nil, .nil => isTrue rfl
  | .list a, .list b => match decEqList a b with
    | isTrue h => isTrue (h ▸ rfl)
    | isFalse h => isFalse fun e => h (by injection e)
  | .map a, .map b => match decEqDict a b with
    | isTrue h => isTrue (h ▸ rfl)
    | isFalse h => isFalse fun e => h (by injection e)
  | .str _, .bytes _ | .str _, .int _ | .str _, .float _ | .str _, .bool _ | .str _, .nil
  | .str _, .list _ | .str _, .map _ => isFalse nofun
  | .bytes _, .str _ | .bytes _, .int _ | .bytes _, .float _ | .bytes _, .bool _ | .bytes _, .nil
  | .bytes _, .list _ | .bytes _, .map _ => isFalse nofun
  | .int _, .str _ | .int _, .bytes _ | .int _, .float _ | .int _, .bool _ | .int _, .nil
  | .int _, .list _ | .int _, .map _ => isFalse nofun
  | .float _, .str _ | .float _, .bytes _ | .float _, .int _ | .float _, .bool _ | .float _, .nil
  | .float _, .list _ | .float _, .map _ => isFalse nofun
  | .bool _, .str _ | .bool _, .bytes _ | .bool _, .int _ | .bool _, .float _ | .bool _, .nil
  | .bool _, .list _ | .bool _, .map _ => isFalse nofun
  | .nil, .str _ | .nil, .bytes _ | .nil, .int _ | .nil, .float _ | .nil, .bool _
  | .nil, .list _ | .nil, .map _ => isFalse nofun
  | .list _, .str _ | .list _, .bytes _ | .list _, .int _ | .list _, .float _ | .list _, .bool _
  | .list _, .nil | .list _, .map _ => isFalse nofun
  | .map _, .str _ | .map _, .bytes _ | .map _, .int _ | .map _, .float _ | .map _, .bool _
  | .map _, .nil | .map _, .list _ => isFalse nofun

/-- Structural equality of lists of values is decidable. -/
def decEqList : (a b : List SchemeVal) → Decidable (a = b)
  | [], [] => isTrue rfl
  | [], _ :: _ => isFalse nofun
  | _ :: _, [] => isFalse nofun
  | a :: as, b :: bs => match decEq a b, decEqList as bs with
    | isTrue h, isTrue h' => isTrue (h ▸ h' ▸ rfl)
    | isFalse h, _ => isFalse fun e => h (by injection e)
    | _, isFalse h => isFalse fun e => h (by injection e)

/-- Structural equality of dictionaries of values is decidable. -/
def decEqDict : (a b : List (String × SchemeVal)) → Decidable (a = b)
  | [], [] => isTrue rfl
  | [], _ :: _ => isFalse nofun
  | _ :: _, [] => isFalse nofun
  | (k, a) :: as, (k', b) :: bs =>
    if hk : k = k' then
      match decEq a b, decEqDict as bs with
      | isTrue h, isTrue h' => isTrue (hk ▸ h ▸ h' ▸ rfl)
      | isFalse h, _ => isFalse fun e => h (by injection e with e; injection e)
      | _, isFalse h => isFalse fun e => h (by injection e)
    else isFalse fun e => hk (by injection e with e; injection e)

end

instance : DecidableEq SchemeVal := decEq

end SchemeVal

end Zscheme
