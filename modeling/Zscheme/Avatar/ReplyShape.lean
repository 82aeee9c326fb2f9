import Zscheme.Context.Reply
import Zscheme.Avatar.Dispatch

/-!
# Reply shapes

A successful reply with a payload comes as the payload alone where the host unwraps it,
as `decode_reply` does, and as a term `:ok` with the payload where it does not. Three
procedures tell the cases apart, each in its own way: `show-dig-reply` takes a payload for
the bare ack where it reads `:ok`, `display-reply` shows the list of the payload of a
term, and `trigger-actor-did` (`triggerActorDid_eq`) finds no actor in a payload, and in a
term compares with a symbol that nothing binds (`consumers_agree_iff`).
-/

namespace Zscheme

namespace Avatar

open Prim Stdlib Zscheme.Runtime Program Ciborium

/-- The reply of a host that unwraps it. -/
def flattened (payload : String) : SchemeVal := .str payload

/-- The reply as it was sent. -/
def tuple (payload : String) : SchemeVal := .list [":ok", .str payload]

/-- This host is one that unwraps. -/
theorem decodeReply_flattened {fromReader : List UInt8 → Option Value} {bytes : List UInt8}
    {payload : String} (h : fromReader bytes = some (.array [.text ":ok", .text payload])) :
    Context.decodeReply fromReader bytes = .ok (flattened payload) := Context.decodeReply_ok h

variable [Host]

/-! ## The three consumers -/

/-- What `tell` and the property commands do with a reply. -/
def tellReply (reply : SchemeVal) : View Unit := do
  let _ ← displayReply reply

/-- What `trigger-actor-did` makes of the reply of the room. -/
def triggerOf (reply : SchemeVal) : View (Option String) := do
  if reply.pair? then
    if Evaluator.equal? (← car reply) (← unquotedOk) then
      match ← car (← cdr reply) with
      | .str did => return if did ≠ "none" then some did else none
      | _ => return none
    else return none
  else return none

/-- It asks the room, and makes that of the reply. -/
theorem triggerActorDid_eq : triggerActorDid = (do triggerOf (← roomCall "trigger?" [])) := rfl

variable (p : String)

theorem showDigReply_flattened : showDigReply (flattened p) = do
    if p ≠ ":ok" ∧ p ≠ "" then display (.str p)
    return .nil := rfl

theorem showDigReply_tuple : showDigReply (tuple p) = do
    if p ≠ "" then display (.str p)
    return .nil := by
  have hne : (SchemeVal.truthy (.str p) = true ∧ SchemeVal.str p ≠ "") ↔ p ≠ "" :=
    (and_iff_right rfl).trans (not_congr ⟨SchemeVal.str.inj, congrArg SchemeVal.str⟩)
  change (do
    if SchemeVal.truthy (.str p) = true ∧ SchemeVal.str p ≠ "" then display (.str p)
    return SchemeVal.nil) = _
  by_cases h : p = ""
  · rw [if_neg (hne.not.2 (not_not.2 h)), if_neg (not_not.2 h)]
  · rw [if_pos (hne.2 h), if_pos h]

theorem tellReply_flattened :
    tellReply (flattened p) = if p = ":ok" then pure () else display (.str p) := by
  by_cases h : p = ":ok"
  · subst h
    rfl
  · have hok : ok? (flattened p) = false :=
      decide_eq_false fun heq => h (SchemeVal.str.inj heq)
    rw [if_neg h, tellReply, displayReply, hok]
    rfl

theorem tellReply_tuple : tellReply (tuple p) = display (.list [.str p]) := rfl

theorem triggerOf_flattened : triggerOf (flattened p) = pure none := rfl

theorem triggerOf_tuple : triggerOf (tuple p) = throw "undefined: :ok" := rfl

/-! ## Agreement -/

variable {p}

omit [Host] in
/-- What a view adds to the trace. -/
theorem trace_congr {α : Type} {v v' : View α} (h : v = v') (s : Slots) (f : Focus) :
    ((v s).run f).2.trace = ((v' s).run f).2.trace := by rw [h]

/-- What is shown is not shown if nothing is. -/
theorem display_ne_pure (v : SchemeVal) : display v ≠ pure () := by
  intro h
  have htrace := trace_congr h (World.entered "").slots ⟨none, [], []⟩
  cases htrace

/-- Values that are shown alike have the same text. -/
theorem display_inj {v v' : SchemeVal} :
    display v = display v' ↔ displayText v = displayText v' := by
  constructor
  · intro h
    have htrace := trace_congr h (World.entered "").slots ⟨none, [], []⟩
    exact Effect.display.inj (List.cons.inj htrace).1
  · intro h
    rw [display, display, h]

theorem showDigReply_agree : showDigReply (flattened p) = showDigReply (tuple p) ↔ p ≠ ":ok" := by
  rw [showDigReply_flattened, showDigReply_tuple]
  constructor
  · rintro h rfl
    have htrace := trace_congr h (World.entered "").slots ⟨none, [], []⟩
    cases htrace
  · intro h
    simp only [h, ne_eq, not_false_eq_true, true_and]

theorem tellReply_agree : tellReply (flattened p) = tellReply (tuple p) ↔
    p ≠ ":ok" ∧ displayText (.list [.str p]) = p := by
  rw [tellReply_flattened, tellReply_tuple]
  split
  · next h => exact iff_of_false (display_ne_pure _).symm fun hp => hp.1 h
  · next h => exact display_inj.trans (eq_comm.trans (and_iff_right h).symm)

theorem triggerOf_not_agree : triggerOf (flattened p) ≠ triggerOf (tuple p) := by
  rw [triggerOf_flattened, triggerOf_tuple]
  intro h
  have hresult := congrArg (fun v => ((v (World.entered "").slots).run ⟨none, [], []⟩).1) h
  cases hresult

/-- Two of them treat the two shapes alike except for certain texts, the third for none. -/
theorem consumers_agree_iff (p : String) :
    (∀ (fromReader : List UInt8 → Option Value) (bytes : List UInt8),
      fromReader bytes = some (.array [.text ":ok", .text p]) →
      Context.decodeReply fromReader bytes = .ok (flattened p)) ∧
    (showDigReply (flattened p) = showDigReply (tuple p) ↔ p ≠ ":ok") ∧
    (tellReply (flattened p) = tellReply (tuple p) ↔
      p ≠ ":ok" ∧ displayText (.list [.str p]) = p) ∧
    triggerOf (flattened p) ≠ triggerOf (tuple p) ∧
    ¬ (showDigReply (flattened p) = showDigReply (tuple p) ∧
      tellReply (flattened p) = tellReply (tuple p) ∧
      triggerOf (flattened p) = triggerOf (tuple p)) := by
  refine ⟨fun _ _ => decodeReply_flattened, showDigReply_agree, tellReply_agree,
    triggerOf_not_agree, ?_⟩
  rintro ⟨_, _, htrigger⟩
  exact triggerOf_not_agree htrigger

omit [Host] in
/-- The room answers with the address of its trigger: from a host that unwraps the reply,
    there is none; from another, the lookup raises. -/
theorem trigger_not_found :
    let answer (reply : SchemeVal) : Host := scripted "did:ma:me" fun _ _ _ => .ok reply
    let slots := (World.entered "did:ma:hall").slots
    let found (host : Host) := ((@triggerActorDid host slots).run ⟨none, [], []⟩).1
    found (answer (flattened "did:ma:hall#bell")) = .ok none ∧
      found (answer (tuple "did:ma:hall#bell")) = .error "undefined: :ok" := by
  exact ⟨rfl, rfl⟩

end Avatar

end Zscheme
