import Zscheme.Avatar.Closed

/-!
# What a view does outside

A view `Emits P` if all that it does outside has the property `P`, whether it returns or
raises. This is closed under the constructs of the language, so that it follows the text
of a procedure; for the procedures of the resolver it is enough that `P` holds of its
questions (`emits_inquires`).
-/

namespace Zscheme

namespace Avatar

open Prim Stdlib Zscheme.Runtime Program

variable {α β : Type} {P : Effect → Prop}

/-- What was added to the trace has the property. -/
def Adds (P : Effect → Prop) (f f' : Focus) : Prop :=
  ∃ l, f'.trace = l ++ f.trace ∧ ∀ e ∈ l, P e

instance : Std.Refl (Adds P) := ⟨fun _ => ⟨[], rfl, nofun⟩⟩

instance : IsTrans Focus (Adds P) := ⟨by
  rintro f f' f'' ⟨l, h, hl⟩ ⟨l', h', hl'⟩
  exact ⟨l' ++ l, by rw [h', h, List.append_assoc], List.forall_mem_append.2 ⟨hl', hl⟩⟩⟩

/-- From every slots and focus, the view adds effects with the property. -/
def Emits (P : Effect → Prop) (v : View α) : Prop := ∀ s, (v s).Within (Adds P)

/-! ## Constructs -/

/-- A value does nothing outside. -/
theorem emits_pure (a : α) : Emits P (pure a : View α) := fun _ => within_pure a

/-- Nor does an error. -/
theorem emits_throw (e : String) : Emits P (throw e : View α) := fun _ => within_throw e

/-- Nor does a pure computation. -/
theorem emits_lift (x : Except String α) : Emits P (liftM x : View α) := fun _ => within_lift x

/-- Two views, one after the other. -/
theorem Emits.bind {v : View α} {f : α → View β} (hv : Emits P v) (hf : ∀ a, Emits P (f a)) :
    Emits P (v >>= f) := fun s => (hv s).bind fun a => hf a s

/-- A view that is guarded. -/
theorem Emits.tryCatch {v : View α} {f : String → View α} (hv : Emits P v)
    (hf : ∀ e, Emits P (f e)) : Emits P (tryCatch v f) := fun s => (hv s).tryCatch fun e => hf e s

theorem emits_ite {c : Prop} [Decidable c] {v v' : View α} (hv : Emits P v) (hv' : Emits P v') :
    Emits P (if c then v else v') := by split <;> assumption

/-- To read the slots does nothing outside. -/
theorem emits_getSlots : Emits P getSlots := fun s => within_pure s

/-- Nor does it to read the focus. -/
theorem emits_getFocus : Emits P getFocus := fun _ => within_get

/-- Nor to change it, but for its trace. -/
theorem emits_modifyFocus (f : Focus → Focus) (hf : ∀ x, (f x).trace = x.trace) :
    Emits P (modifyFocus f hf) := fun _ x => ⟨[], hf x, nofun⟩

/-- One effect. -/
theorem emits_emit {e : Effect} (he : P e) : Emits P (emit e) :=
  fun _ _ => ⟨[e], rfl, List.forall_mem_singleton.2 he⟩

/-- The effects are added to those before. -/
theorem Emits.wp {v : View α} (h : Emits P v) (s : Slots) (f : Focus) :
    (v s).wp (fun _ => Adds P f) (fun _ => Adds P f) f := Within.wp (h s) f

/-! ## Effects -/

variable [Host]

/-- To display is one effect. -/
theorem emits_display (h : ∀ text, P (.display text)) (v : SchemeVal) : Emits P (display v) :=
  emits_emit (h _)

/-- A call has its one effect, if it is made at all. -/
theorem emits_actorCall {actor method : SchemeVal} {args : List SchemeVal}
    (h : ∀ x m r, actor = .str x → method = .str m → P (.call x m args r)) :
    Emits P (actorCall actor method args) := by
  rcases actorCall_cases actor method args with ⟨e, hraise⟩ | ⟨x, m, hx, hm, hcall⟩
  · rw [hraise]
    exact emits_throw e
  · rw [hcall]
    refine emits_getFocus.bind fun f => ?_
    exact (emits_emit (h x m _ hx hm)).bind fun _ => emits_lift _

/-! ## The resolver -/

omit [Host] in
/-- It is closed, whatever is to hold of the effects. -/
theorem emits_closed : Closed fun _ v => Emits P v where
  pure := emits_pure
  throw := emits_throw
  lift := emits_lift
  bind := .bind
  tryCatch := .tryCatch
  slots hf _ := emits_getSlots.bind hf
  focus := emits_getFocus
  remember _ := emits_modifyFocus _ _

/-- The room is called, if there is one. -/
theorem emits_roomCall {method : SchemeVal} {args : List SchemeVal}
    (h : ∀ x m r, method = .str m → P (.call x m args r)) : Emits P (roomCall method args) :=
  emits_closed.room.bind fun _ => emits_actorCall fun x m r _ hm => h x m r hm

section Resolver

variable (hP : ∀ e : Effect, e.Lookup → P e)

include hP

omit [Host] in
/-- The resolver asks, and does nothing else. -/
theorem emits_inquires : Inquires fun _ v => Emits P v where
  toClosed := emits_closed
  ask _ he := emits_emit (hP _ he)

variable (hshow : ∀ text, P (.display text))

include hshow

/-- To look around the room is asked, and what it is like is shown. -/
theorem emits_lookAround : Emits P lookAround := by
  refine (emits_inquires hP).lookRoom.bind fun _ => ?_
  refine (emits_closed.rememberRoom _).bind fun snapshot => ?_
  split
  · exact ((emits_lift _).bind fun _ => emits_display hshow _).bind fun _ => emits_pure _
  · exact (emits_display hshow _).bind fun _ => emits_pure _

/-- After an entry the room is looked at, or the result is shown. -/
theorem emits_showEntry (result : SchemeVal) : Emits P (showEntry result) :=
  emits_ite ((emits_lookAround hP hshow).bind fun _ => emits_pure _)
    ((emits_display hshow _).bind fun _ => emits_pure _)

end Resolver

/-! ## Acts -/

/-- From every state, the act adds effects with the property. -/
def ActEmits (P : Effect → Prop) (p : Act α) : Prop := p.Within fun w w' => Adds P w.focus w'.focus

section Acts

instance : Std.Refl fun w w' : World => Adds P w.focus w'.focus :=
  ⟨fun w => refl_of (Adds P) w.focus⟩

instance : IsTrans World fun w w' => Adds P w.focus w'.focus := ⟨fun _ _ _ => trans_of (Adds P)⟩

omit [Host] in
/-- A view is an act that leaves the slots. -/
theorem Emits.act {v : View α} (h : Emits P v) : ActEmits P (liftM v : Act α) :=
  fun w => h w.slots w.focus

omit [Host] in
theorem actEmits_pure (a : α) : ActEmits P (pure a : Act α) := within_pure a

omit [Host] in
theorem actEmits_throw (e : String) : ActEmits P (throw e : Act α) := within_throw e

omit [Host] in
theorem actEmits_lift (x : Except String α) : ActEmits P (liftM x : Act α) := within_lift x

omit [Host] in
/-- Two acts, one after the other. -/
theorem ActEmits.bind {p : Act α} {f : α → Act β} (hp : ActEmits P p)
    (hf : ∀ a, ActEmits P (f a)) : ActEmits P (p >>= f) := Within.bind hp hf

omit [Host] in
/-- An act that is guarded. -/
theorem ActEmits.tryCatch {p : Act α} {f : String → Act α} (hp : ActEmits P p)
    (hf : ∀ e, ActEmits P (f e)) : ActEmits P (tryCatch p f) := Within.tryCatch hp hf

omit [Host] in
theorem actEmits_ite {c : Prop} [Decidable c] {p p' : Act α} (hp : ActEmits P p)
    (hp' : ActEmits P p') : ActEmits P (if c then p else p') := by split <;> assumption

omit [Host] in
/-- To change the slots does nothing outside. -/
theorem actEmits_modifySlots (f : Slots → Slots) : ActEmits P (modifySlots f) :=
  fun w => refl_of (Adds P) w.focus

omit [Host] in
/-- What was done between the two states has the property. -/
theorem Adds.effects {w w' : World} (h : Adds P w.focus w'.focus) : ∀ e ∈ w.effects w', P e := by
  obtain ⟨l, hl, hP⟩ := h
  rwa [World.effects_eq hl]

end Acts

/-! ## From given slots -/

/-- From these slots, the view adds effects with the property. -/
def EmitsAt (s : Slots) (P : Effect → Prop) (v : View α) : Prop := (v s).Within (Adds P)

/-- From these slots, the act adds effects with the property. -/
def ActEmitsAt (s : Slots) (P : Effect → Prop) (p : Act α) : Prop :=
  ∀ f, p.wp (fun _ w => Adds P f w.focus) (fun _ w => Adds P f w.focus) ⟨s, f⟩

section At

variable {s : Slots}

omit [Host]

/-- What holds from all slots holds from these. -/
theorem Emits.emitsAt {v : View α} (h : Emits P v) : EmitsAt s P v := h s

/-- So it does for acts. -/
theorem ActEmits.emitsAt {p : Act α} (h : ActEmits P p) : ActEmitsAt s P p := fun f => h.wp ⟨s, f⟩

/-- And what holds from each of them holds from all. -/
theorem actEmits_of_at {p : Act α} (h : ∀ s, ActEmitsAt s P p) : ActEmits P p :=
  fun w => (wp_iff_end p fun w' => Adds P w.focus w'.focus).1 (h w.slots w.focus)

/-- Both views start from the slots. -/
theorem EmitsAt.bind {v : View α} {f : α → View β} (hv : EmitsAt s P v)
    (hf : ∀ a, EmitsAt s P (f a)) : EmitsAt s P (v >>= f) := Within.bind hv hf

theorem emitsAt_ite {c : Prop} [Decidable c] {v v' : View α} (hv : EmitsAt s P v)
    (hv' : EmitsAt s P v') : EmitsAt s P (if c then v else v') := by split <;> assumption

/-- What follows a pure computation may use its value. -/
theorem emitsAt_bind_lift {x : Except String α} {f : α → View β}
    (h : ∀ a, x = .ok a → EmitsAt s P (f a)) : EmitsAt s P (liftM x >>= f) := by
  rcases x with e | a
  · exact within_throw e
  · exact h a rfl

/-- An act that is a view starts from them too. -/
theorem EmitsAt.act {v : View α} (h : EmitsAt s P v) : ActEmitsAt s P (liftM v : Act α) :=
  fun f => (wp_view v).2 (Within.wp h f)

/-- A view leaves the slots for what follows. -/
theorem EmitsAt.act_bind {v : View α} {g : α → Act β} (hv : EmitsAt s P v)
    (hg : ∀ a, ActEmitsAt s P (g a)) : ActEmitsAt s P ((liftM v : Act α) >>= g) := fun f => by
  rw [wp_bind, wp_view]
  refine (Within.wp hv f).conseq (fun a f' _ h => ?_) fun _ _ _ h => h
  exact (hg a f').conseq (fun _ _ _ => trans_of (Adds P) h) fun _ _ _ => trans_of (Adds P) h

/-- What follows starts from slots that are not known. -/
theorem ActEmitsAt.bind {p : Act α} {g : α → Act β} (hp : ActEmitsAt s P p)
    (hg : ∀ a, ActEmits P (g a)) : ActEmitsAt s P (p >>= g) := fun f => by
  rw [wp_bind]
  refine (hp f).conseq (fun a w _ h => ?_) fun _ _ _ h => h
  exact ((hg a).wp w).conseq (fun _ _ _ => trans_of (Adds P) h) fun _ _ _ => trans_of (Adds P) h

/-- So does a handler. -/
theorem ActEmitsAt.tryCatch {p : Act α} {g : String → Act α} (hp : ActEmitsAt s P p)
    (hg : ∀ e, ActEmits P (g e)) : ActEmitsAt s P (tryCatch p g) := fun f => by
  rw [wp_tryCatch]
  refine (hp f).conseq (fun _ _ _ h => h) fun e w _ h => ?_
  exact ((hg e).wp w).conseq (fun _ _ _ => trans_of (Adds P) h) fun _ _ _ => trans_of (Adds P) h

theorem actEmitsAt_ite {c : Prop} [Decidable c] {p p' : Act α} (hp : ActEmitsAt s P p)
    (hp' : ActEmitsAt s P p') : ActEmitsAt s P (if c then p else p') := by split <;> assumption

/-- What follows a change starts from the changed slots. -/
theorem actEmitsAt_modifySlots_bind (f : Slots → Slots) {g : Unit → Act β}
    (hg : ActEmitsAt (f s) P (g ())) : ActEmitsAt s P (modifySlots f >>= g) :=
  fun x => (wp_bind _ _).2 (hg x)

end At

section Room

variable {s : Slots}

/-- The room is the one of the slots. -/
theorem emitsAt_room_bind {g : SchemeVal → View β}
    (hg : ∀ r, s.room = some r → EmitsAt s P (g r)) : EmitsAt s P (room >>= g) := fun f => by
  refine (wp_iff_end _ fun f' => Adds P f f').1 ((wp_bind _ _).2 ?_)
  simp only [room, getSlots, view_bind, view_read, wp_bind, wp_pure]
  rcases hr : s.room with _ | r
  · exact refl_of (Adds P) f
  · exact Within.wp (hg r hr) f

/-- So it does for what an act does with it. -/
theorem actEmitsAt_room_bind {g : SchemeVal → Act β}
    (hg : ∀ r, s.room = some r → ActEmitsAt s P (g r)) :
    ActEmitsAt s P ((liftM room : Act SchemeVal) >>= g) := fun f => by
  rw [wp_bind]
  exact wp_room (fun r hr => hg r hr f) fun _ _ => refl_of (Adds P) f

/-- It is that room that is called. -/
theorem emitsAt_roomCall {method : SchemeVal} {args : List SchemeVal}
    (h : ∀ x m r, s.room = some (.str x) → method = .str m → P (.call x m args r)) :
    EmitsAt s P (roomCall method args) :=
  emitsAt_room_bind fun _ hr => (emits_actorCall fun x m r hx hm => h x m r (hx ▸ hr) hm).emitsAt

end Room

end Avatar

end Zscheme
