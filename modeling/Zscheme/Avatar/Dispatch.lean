import Zscheme.Avatar.Stable

/-!
# Dispatch

What is delivered of an event. A handler runs inside a guard that shows its error, so the
delivery of an event is that of its handler (`event_wp`, `roomEvent_wp`), and it returns
whatever the payload is. Only the name of a room event is looked up outside the guard:
the delivery raises exactly if this is no text, or missing (`onEvent_returns_iff`).
-/

namespace Zscheme

namespace Avatar

open Prim Stdlib Zscheme.Runtime Program

variable [Host] {w : World} {handlers : String → Option (List SchemeVal → Act Unit)}
  {name : String} {args : List SchemeVal} {handler : List SchemeVal → Act Unit}

/-- A handler whose error is shown. -/
def guarded (name : String) (p : Act Unit) : Act Unit :=
  tryCatch p fun e => display (.str ("event " ++ name ++ ": " ++ e))

/-- What is delivered to a handler. -/
theorem dispatchEvent_eq (hh : handlers name = some handler) :
    dispatchEvent handlers (.str name) (.list args) = guarded name (handler args) :=
  dispatchEvent_some hh _

/-- A property that does not depend on what is shown holds after a guarded handler, if it
    holds after the handler, whatever its outcome. -/
theorem guarded_wp {P : World → Prop} (hshow : ∀ w text, P w → P (w.push (.display text)))
    {p : Act Unit} (hp : p.wp (fun _ => P) (fun _ => P) w) :
    (guarded name p).wp (fun _ => P) (fun _ => P) w := by
  refine (wp_tryCatch _ _).2 (hp.conseq (fun _ _ _ h => h) fun e w' _ h => ?_)
  rw [wp_display]
  exact hshow _ _ h

/-- The delivery of a room event is its handler, and the text of its error. -/
theorem roomEvent_wp {P : World → Prop} (hshow : ∀ w text, P w → P (w.push (.display text)))
    (hh : roomEventHandlers name = some handler)
    (hp : (handler args).wp (fun _ => P) (fun _ => P) w) :
    P ((Op.event ":event" (.list (.str name :: args))).run.run w).2 := by
  have hrun : (Op.event ":event" (.list (.str name :: args))).run = guarded name (handler args) :=
    dispatchEvent_eq hh
  rw [hrun]
  exact (wp_iff_end _ _).1 (guarded_wp hshow hp)

/-- So is the delivery of any other event. -/
theorem event_wp {P : World → Prop} (hshow : ∀ w text, P w → P (w.push (.display text)))
    (hne : name ≠ ":event") (hh : eventHandlers name = some handler)
    (hp : (handler args).wp (fun _ => P) (fun _ => P) w) :
    P ((Op.event (.str name) (.list args)).run.run w).2 := by
  have hrun : (Op.event (.str name) (.list args)).run = guarded name (handler args) := by
    change onEvent (.str name) (.list args) = _
    simp only [onEvent]
    rw [if_neg fun h => hne (SchemeVal.str.inj h)]
    exact dispatchEvent_eq hh
  rw [hrun]
  exact (wp_iff_end _ _).1 (guarded_wp hshow hp)

/-! ## What cannot be delivered -/

/-- A guarded handler returns. -/
theorem guarded_returns (name : String) (p : Act Unit) (w : World) :
    ∃ v, ((guarded name p).run w).1 = .ok v := by
  change ∃ v, ((Program.tryCatch p _).run w).1 = .ok v
  simp only [Program.tryCatch]
  split
  · exact ⟨_, rfl⟩
  · exact ⟨(), rfl⟩

/-- An event that is named by a text is delivered, whatever its arguments are. -/
theorem dispatchEvent_returns (name : String) (args : SchemeVal) :
    ∃ v, ((dispatchEvent handlers (.str name) args).run w).1 = .ok v := by
  rcases hh : handlers name with _ | handler
  · rw [dispatchEvent_none hh]
    exact ⟨(), rfl⟩
  · rw [dispatchEvent_some hh]
    exact guarded_returns name _ w

/-- An event that is not named by a text raises. -/
theorem dispatchEvent_raises {event : SchemeVal} (h : ∀ name, event ≠ .str name)
    (args : SchemeVal) : ¬ ∃ v, ((dispatchEvent handlers event args).run w).1 = .ok v := by
  rcases event with name | _ | _ | _ | _ | _ | _ | _
  case str => exact absurd rfl (h name)
  all_goals
    rintro ⟨v, hv⟩
    cases hv

/-- The delivery of an event returns exactly if it is no room event, or a room event that
    is named by a text. -/
theorem onEvent_returns_iff (event : String) (args : SchemeVal) (w : World) :
    (∃ v, ((onEvent (.str event) args).run w).1 = .ok v) ↔
      (event = ":event" → ∃ name rest, args = .list (.str name :: rest)) := by
  by_cases he : event = ":event"
  case neg =>
    simp only [onEvent]
    rw [if_neg fun h => he (SchemeVal.str.inj h)]
    exact iff_of_true (dispatchEvent_returns event args) fun h => absurd h he
  subst he
  refine Iff.trans ?_ (forall_prop_of_true rfl).symm
  -- The name of a room event is the first of its arguments, or `#f`.
  by_cases hargs : ∃ name rest, args = .list (name :: rest)
  · obtain ⟨name, rest, rfl⟩ := hargs
    by_cases hname : ∃ n, name = .str n
    · obtain ⟨n, rfl⟩ := hname
      exact iff_of_true (dispatchEvent_returns n _) ⟨n, rest, rfl⟩
    · refine iff_of_false (dispatchEvent_raises (fun n hn => hname ⟨n, hn⟩) _) ?_
      rintro ⟨n, rest', heq⟩
      exact hname ⟨n, (List.cons.inj (SchemeVal.list.inj heq)).1⟩
  · have hrun : onEvent (.str ":event") args =
        dispatchEvent roomEventHandlers (.bool false) .nil := by
      simp only [onEvent, if_true]
      split
      · next name rest => exact absurd ⟨name, rest, rfl⟩ hargs
      · rfl
    rw [hrun]
    have hne : ∀ name, SchemeVal.bool false ≠ .str name := by simp
    refine iff_of_false (dispatchEvent_raises hne _) ?_
    rintro ⟨n, rest, heq⟩
    exact hargs ⟨_, _, heq⟩

omit [Host] in
/-- A room event whose name is a number, and one that has no name. -/
theorem onEvent_raises :
    let _ : Host := scripted "did:ma:me" fun _ _ _ => .ok .nil
    let w := World.entered "did:ma:hall"
    (¬ ∃ v, ((onEvent ":event" (.list [.int 42])).run w).1 = .ok v) ∧
      ¬ ∃ v, ((onEvent ":event" (.list [])).run w).1 = .ok v := by
  intro _ w
  refine ⟨?_, ?_⟩
  all_goals
    rintro ⟨v, hv⟩
    cases hv

end Avatar

end Zscheme
