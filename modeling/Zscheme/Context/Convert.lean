import Zscheme.Lib.Ciborium
import Zscheme.Scheme.Value

/-!
# Values on the wire

Every argument of an actor call is converted to CBOR, and every reply back. What was
converted comes back as it was (`cborToSchemeVal_schemeValToCbor`): the cases of the
decoder that lose something (an integer out of range, a map with a key that is no text,
a tag) are not reached by what the encoder makes.
-/

namespace Zscheme

open Ciborium

namespace SchemeVal

mutual

/-- Every map, at every depth, is in key order, as a B-tree map is. -/
def Ordered : SchemeVal → Prop
  | .list xs => OrderedList xs
  | .map m => Dict.Sorted m ∧ OrderedPairs m
  | _ => True

/-- The maps of the elements are in key order. -/
def OrderedList : List SchemeVal → Prop
  | [] => True
  | x :: xs => Ordered x ∧ OrderedList xs

/-- The maps of the values are in key order. -/
def OrderedPairs : List (String × SchemeVal) → Prop
  | [] => True
  | (_, x) :: m => Ordered x ∧ OrderedPairs m

end

end SchemeVal

namespace Context

/-! ## The conversions -/

mutual

/-- `scheme_val_to_cbor` -/
def schemeValToCbor : SchemeVal → Value
  | .str s => .text s
  | .bytes b => .bytes b
  | .int n => .integer (.ofInt64 n)
  | .float f => .float f
  | .bool b => .bool b
  | .nil => .null
  | .list items => .array (listToCbor items)
  | .map m => .map (pairsToCbor m)

/-- The elements of a list. -/
def listToCbor : List SchemeVal → List Value
  | [] => []
  | x :: xs => schemeValToCbor x :: listToCbor xs

/-- The entries of a map, under the texts of their keys. -/
def pairsToCbor : List (String × SchemeVal) → List (Value × Value)
  | [] => []
  | (key, value) :: m => (.text key, schemeValToCbor value) :: pairsToCbor m

end

mutual

/-- `cbor_to_scheme_val` -/
def cborToSchemeVal : Value → SchemeVal
  | .text s => .str s
  | .bytes b => .bytes b
  | .integer n => match n.toInt64? with
    | some i => .int i
    | none => .str (toString n.val)
  | .float f => .float f
  | .bool b => .bool b
  | .null => .nil
  | .array items => .list (cborToList items)
  | .map pairs => match cborToPairs? pairs with
    | some m => .map (Dict.ofPairs m)
    -- A key that is no text: the map becomes a list of its entries.
    | none => .list (cborToEntries pairs)
  | .tag _ inner => cborToSchemeVal inner

/-- The elements of an array. -/
def cborToList : List Value → List SchemeVal
  | [] => []
  | x :: xs => cborToSchemeVal x :: cborToList xs

/-- The entries of a map, if all keys are texts. -/
def cborToPairs? : List (Value × Value) → Option (List (String × SchemeVal))
  | [] => some []
  | (.text key, value) :: pairs =>
    (cborToPairs? pairs).map fun m => (key, cborToSchemeVal value) :: m
  | _ => none

/-- Each entry of a map as a list of the key and the value. -/
def cborToEntries : List (Value × Value) → List SchemeVal
  | [] => []
  | (key, value) :: pairs =>
    .list [cborToSchemeVal key, cborToSchemeVal value] :: cborToEntries pairs

end

/-! ## The round trip -/

mutual

/-- Converting a value to CBOR and back gives the value. -/
theorem cborToSchemeVal_toCbor : ∀ v : SchemeVal, v.Ordered →
    cborToSchemeVal (schemeValToCbor v) = v
  | .str _, _ | .bytes _, _ | .float _, _ | .bool _, _ | .nil, _ => rfl
  | .int n, _ => by simp [schemeValToCbor, cborToSchemeVal]
  | .list items, h => by
    rw [schemeValToCbor, cborToSchemeVal, cborToList_toCbor items h]
  | .map m, h => by
    rw [schemeValToCbor, cborToSchemeVal, cborToPairs?_toCbor m h.2]
    simp only [Dict.ofPairs_eq h.1]

theorem cborToList_toCbor : ∀ xs : List SchemeVal, SchemeVal.OrderedList xs →
    cborToList (listToCbor xs) = xs
  | [], _ => rfl
  | x :: xs, h => by
    rw [listToCbor, cborToList, cborToSchemeVal_toCbor x h.1, cborToList_toCbor xs h.2]

theorem cborToPairs?_toCbor : ∀ m : List (String × SchemeVal), SchemeVal.OrderedPairs m →
    cborToPairs? (pairsToCbor m) = some m
  | [], _ => rfl
  | (key, value) :: m, h => by
    rw [pairsToCbor, cborToPairs?, cborToPairs?_toCbor m h.2, cborToSchemeVal_toCbor value h.1]
    rfl

end

/-- What is sent comes back as it was, and no two values are sent alike. -/
theorem cborToSchemeVal_schemeValToCbor {v : SchemeVal} (h : v.Ordered) :
    cborToSchemeVal (schemeValToCbor v) = v ∧
      ∀ u : SchemeVal, u.Ordered → schemeValToCbor u = schemeValToCbor v → u = v := by
  refine ⟨cborToSchemeVal_toCbor v h, fun u hu heq => ?_⟩
  rw [← cborToSchemeVal_toCbor u hu, heq, cborToSchemeVal_toCbor v h]

/-- A map of a list with nil and the empty list, the least integer, and an empty map. -/
theorem cborToSchemeVal_nested :
    let v : SchemeVal := .map [("a", .list [.nil, .list []]), ("b", .int Int64.minValue),
      ("c", .map [])]
    cborToSchemeVal (schemeValToCbor v) = v := by
  intro v
  have hlist : SchemeVal.OrderedList [.nil, .list []] := ⟨trivial, trivial, trivial⟩
  have hmap : (SchemeVal.map []).Ordered := ⟨List.Pairwise.nil, trivial⟩
  have hsorted : Dict.Sorted [("a", SchemeVal.list [.nil, .list []]),
      ("b", .int Int64.minValue), ("c", .map [])] := by
    simp only [Dict.Sorted]
    decide
  have hv : v.Ordered := ⟨hsorted, hlist, trivial, hmap, trivial⟩
  exact (cborToSchemeVal_schemeValToCbor hv).1

end Context

end Zscheme
