import Zscheme.Scheme.Prims

/-!
# The standard library

The procedures of `stdlib.zscheme` the other libraries use. Those that are the
ordinary list functions (`map`, `filter`, `append`, `reverse`, `fold`, `length`)
are Lean's own.
-/

namespace Zscheme

namespace Stdlib

open Prim

mutual

/-- What a value contributes to a flattened list. -/
def flattenVal : SchemeVal → List SchemeVal
  | .list vs => flattenList vs
  | .nil => []
  | .str s => [.str s]
  | .bytes b => [.bytes b]
  | .int n => [.int n]
  | .float b => [.float b]
  | .bool b => [.bool b]
  | .map m => [.map m]

/-- `flatten-list` -/
def flattenList : List SchemeVal → List SchemeVal
  | [] => []
  | v :: vs => flattenVal v ++ flattenList vs

end

/-- `string-contains` -/
def stringContains (hay needle : String) : Bool := (stringIndex hay needle).isSome

/-- `string-join` -/
def stringJoin (lst : List String) (delim : String) : String :=
  match lst with
  | [] => ""
  | s :: rest => rest.foldl (fun acc t => acc ++ delim ++ t) s

variable [Evaluator]

/-- `member?` -/
def member? (item : SchemeVal) (lst : List SchemeVal) : Bool := lst.any (Evaluator.equal? item ·)

/-- `unique-list`: keeps the last occurrence of each value. -/
def uniqueList : List SchemeVal → List SchemeVal
  | [] => []
  | v :: vs => if member? v vs then uniqueList vs else v :: uniqueList vs

/-- `words-before-keyword` -/
def wordsBeforeKeyword (keyword : SchemeVal) : List SchemeVal → List SchemeVal
  | [] => []
  | w :: words =>
    if Evaluator.equal? w keyword then [] else w :: wordsBeforeKeyword keyword words

/-- `words-after-keyword`, `none` standing for `#f`. -/
def wordsAfterKeyword (keyword : SchemeVal) : List SchemeVal → Option (List SchemeVal)
  | [] => none
  | w :: words =>
    if Evaluator.equal? w keyword then some words else wordsAfterKeyword keyword words

/-- The loop of `string-split`. Each turn consumes a non-empty delimiter; with an
    empty one the source never returns. -/
def stringSplitLoop (delim : String) : Nat → String → List String → Except String (List String)
  | 0, rest, _ => refuse "string-split" [rest, delim]
  | fuel + 1, rest, acc =>
    match stringIndex rest delim with
    | none => .ok (rest :: acc).reverse
    | some idx => do
      let rest' ← substring rest (idx + stringLength delim) (stringLength rest)
      stringSplitLoop delim fuel rest' ((← substring rest 0 idx) :: acc)

/-- `string-split` -/
def stringSplit (s delim : String) : Except String (List String) :=
  stringSplitLoop delim (stringLength s + 1) s []

/-- The text of a word, as `join-words` normalises it. -/
def wordText : SchemeVal → Except String String
  | .str w => .ok w
  | .int n => numberToString (.int n)
  | .float b => numberToString (.float b)
  | .bool b => .ok (if b then "#t" else "#f")
  | v => if v.null? then .ok "" else .error "join-words: not a word"

/-- `join-words` -/
def joinWords (words : List SchemeVal) : Except String String := do
  return stringJoin (← words.mapM wordText) " "

end Stdlib

end Zscheme
