import Zscheme.Image.Machine

/-!
# The startup image

The image is the concatenation of the generic library and the three layers over it. A
`define` binds its name for all callers, so that a name a later layer takes is lost to
the procedures of the generic library that mention it.
-/

namespace Zscheme

namespace Image

open Lambda Avatar

/-- A table of globals. -/
abbrev Globals := String → Option Value

/-- The value a `define` binds its name to. -/
def Define.value (G : Globals) : Define → Option Value
  | .procedure _ params body => some (.closure ⟨params, none, body, []⟩)
  | .synonym _ value => G value

/-- A source, evaluated form after form. -/
def load (G : Globals) (source : List Define) : Globals :=
  source.foldl (fun G d => Function.update G d.name (d.value G)) G

namespace Machine

variable (M : Machine)

/-- What the evaluator binds a name to. -/
def globals : Globals := fun x =>
  match core.lookup x with
  | some b => some (.native (.builtin b))
  | none => if M.binds x then some (.native (.builtin (.other x))) else none

/-- What a later layer binds one of its names to. -/
def layered : String → Value
  | "take" => .native .take
  | "drop" => .native .drop
  | x => M.layer x

/-- The globals with `stdlib.zscheme` alone. -/
def alone : Globals := load M.globals stdlib

/-- The globals with the whole image. -/
def combined : Globals :=
  layerNames.foldl (fun G x => Function.update G x (some (M.layered x))) M.alone

variable [Host]

/-- With the globals `G`, the procedure `p` returns `v` for some arguments, in a heap and
    a world. -/
def Returns (G : Globals) (p : String) (args heap : List Value) (w : World) (v : Value) : Prop :=
  ∃ f, G p = some f ∧ M.interp.Returns (.apply f args) ⟨G, heap, w⟩ v

end Machine

end Image

end Zscheme
