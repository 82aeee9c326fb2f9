import Zscheme.Avatar.Stays

/-!
# Pending actions

A request to take or put an item is answered with an id, which is stored, and ends with a
completion event that carries the id, upon which it is cleared. Reply and completion are
separate messages (`World.messages`). What a run leaves in the table is what replaying
them leaves (`pendingActions_after`), so that the last message about an id decides.

* `pending_iff`: after a run the ids that were answered and not completed are pending and
  the completed ones are not, if and only if each completion comes after the reply.
-/

namespace Zscheme

namespace Avatar

open Prim Stdlib Zscheme.Runtime Program

/-! ## Messages -/

/-- The commands that store the ids their requests are answered with. `roll-call` is one
    of them in name only: it takes words with `take`, which the command has replaced. -/
def Command.Stores (c : Command) : Prop :=
  c ∈ [.take, .takeFrom, .put, .putIn, .keep, .drop, .rollCall]

instance : DecidablePred Command.Stores := fun c => by
  unfold Command.Stores
  infer_instance

/-- The id that an event completes. -/
def Op.completed? : Op → Option String
  | .event e (.list [.map m]) =>
    if e = ":put-event" ∨ e = ":take-event" then
      match Dict.get? m "id" with
      | some (.str id) => some id
      | _ => none
    else none
  | _ => none

/-- A message about a pending action. -/
inductive Message
  /-- A request was answered with the id, and the reply was processed. -/
  | reply (id : String)
  /-- A completion event with the id was delivered. -/
  | completion (id : String)
  deriving DecidableEq

variable [Host]

/-- The messages of an operation. -/
def Op.messages (w : World) (op : Op) : List Message :=
  match op with
  | .command c _ =>
    if c.Stores then
      ((w.effects (op.run.run w).2).reverse.filterMap Effect.answer?).map .reply
    else []
  | .event .. => op.completed?.toList.map .completion

/-- The messages of a run. -/
def World.messages (w : World) : List Op → List Message
  | [] => []
  | op :: ops => op.messages w ++ World.messages (op.run.run w).2 ops

/-- What a message changes. -/
def Message.change : Message → Dict.Change String SchemeVal
  | reply id => ⟨id, some (.bool true)⟩
  | completion id => ⟨id, none⟩

/-- The table after some messages. -/
def record (pending : Dict String SchemeVal) (messages : List Message) : Dict String SchemeVal :=
  (messages.map Message.change).foldl Dict.change pending

/-- The ids in new effects, the latest effect first, were stored in order. -/
def Stored (f f' : Focus) : Prop :=
  ∃ l, f'.trace = l ++ f.trace ∧ f'.pendingActions =
    record f.pendingActions ((l.reverse.filterMap Effect.answer?).map .reply)

omit [Host] in
theorem record_append (pending : Dict String SchemeVal) (a b : List Message) :
    record pending (a ++ b) = record (record pending a) b := by
  rw [record, List.map_append, List.foldl_append]
  rfl

instance : Tolerant Stored where
  refl _ := ⟨[], rfl, rfl⟩
  trans := by
    rintro f f' f'' ⟨l, h, hl⟩ ⟨l', h', hl'⟩
    refine ⟨l' ++ l, by rw [h', h, List.append_assoc], ?_⟩
    rw [hl', hl, List.reverse_append, List.filterMap_append, List.map_append, record_append]
  remember _ _ := ⟨[], rfl, rfl⟩
  emit _ e he := ⟨[e], rfl, by rw [List.reverse_singleton, List.filterMap_cons_none he]; rfl⟩

-- The value of what goes before is not always used.
attribute [local grind norm] forall_const

/-! ## Requests -/

section Requests

/-- The id a request is answered with is stored. -/
theorem stays_request {actor : SchemeVal} {m : String} {args : List SchemeVal}
    (h : m = "take" ∨ m = "put") :
    Stays Stored (do pendingStoreIfId! (← actorCall actor (.str m) args)) := by
  refine fun s f => (wp_iff_end _ _).1 ((wp_bind _ _).2 (actorCall_wp ?_ ?_ ?_))
  · intro x v _ _
    rcases v with id | _ | _ | _ | _ | _ | _ | _
    case str =>
      have hx : (Effect.call x m args (.ok (.str id))).answer? = some id := if_pos h
      refine ⟨[_], rfl, ?_⟩
      rw [List.reverse_singleton, List.filterMap_cons_some hx]
      rfl
    all_goals exact Tolerant.emit (R := Stored) f _ rfl
  · exact fun x e _ _ => Tolerant.emit (R := Stored) f _ rfl
  · exact fun _ _ => refl_of Stored f

/-- A request is the last thing a procedure does before it returns. -/
theorem stays_requested {actor : SchemeVal} {m : String} {args : List SchemeVal}
    (h : m = "take" ∨ m = "put") (v : SchemeVal) : Stays Stored (do
      pendingStoreIfId! (← actorCall actor (.str m) args)
      return v) := by
  have hrequest : Stays Stored ((actorCall actor (.str m) args >>= pendingStoreIfId!) >>=
      fun _ => pure v) := (stays_request h).bind fun _ => stays_pure v
  rwa [bind_assoc] at hrequest

@[grind ←] theorem stays_takeOut (container item : SchemeVal) :
    Stays Stored (takeOut! container item) := stays_request (.inl rfl)

@[grind ←] theorem staysAct_takeThenDrop (container item : SchemeVal) :
    StaysAct Stored (takeThenDrop! container item) := by
  grind [takeThenDrop!, setDropPending, clearDropPending]

theorem stays_put (words : List SchemeVal) : Stays Stored (put words) := by
  refine (stays_lift _).bind fun _ => (stays_lift _).bind fun _ => (stays_lift _).bind fun _ => ?_
  refine stays_withActionContext _ (stays_defaultPool.bind fun _ => ?_)
  refine (stays_resolveOneEntryOrRefresh _ _ stays_defaultPool).bind fun _ => ?_
  refine (stays_lift _).bind fun _ => ?_
  refine (stays_resolveOneEntryOrRefresh _ _ stays_defaultPool).bind fun _ => ?_
  refine (stays_lift _).bind fun _ => stays_syncCarriedHere.bind fun _ => ?_
  exact stays_requested (.inr rfl) _

theorem stays_keep (rest : List SchemeVal) : Stays Stored (keep rest) := by
  refine stays_getSlots.bind fun s => ?_
  split
  · exact stays_throw _
  refine (stays_matched _ _ stays_handPool).bind fun _ => stays_ite (by grind) ?_
  refine (stays_lift _).bind fun _ => stays_withActionContext _ (stays_myInvIfAny.bind fun _ => ?_)
  exact stays_ite (stays_throw _) (stays_syncCarriedHere.bind fun _ =>
    stays_requested (.inr rfl) _)

theorem staysAct_take (words : List SchemeVal) : StaysAct Stored (take words) := by
  refine (staysAct_modifySlots _).bind fun _ => (staysAct_lift _).bind fun ws => ?_
  obtain ⟨itemWords, _ | containerWords⟩ := ws
  · refine (staysAct_lift _).bind fun _ => staysAct_withActionContext _ ?_
    exact (staysAct_lift _).bind fun _ => by grind
  · refine (staysAct_lift _).bind fun _ => (staysAct_lift _).bind fun _ => ?_
    refine staysAct_withActionContext _ ((staysAct_lift _).bind fun _ => ?_)
    refine (stays_resolveOne _).act.bind fun _ => (staysAct_lift _).bind fun _ => ?_
    exact (stays_resolveInContainer _ _).act.bind fun _ => by grind

theorem staysAct_takeFrom (container name : SchemeVal) :
    StaysAct Stored (takeFrom container name) := by
  refine (staysAct_lift _).bind fun _ => staysAct_withActionContext _ ?_
  refine (stays_resolveOne _).act.bind fun _ => ?_
  exact (stays_resolveInContainer _ _).act.bind fun _ => by grind

theorem staysAct_drop (rest : List SchemeVal) : StaysAct Stored (drop rest) := by
  refine staysAct_ite (stays_getSlots.act.bind fun s => ?_) ((staysAct_lift _).bind fun ws => ?_)
  · split
    · exact staysAct_throw _
    · grind
  obtain ⟨itemWords, _ | containerWords⟩ := ws
  · refine (staysAct_lift _).bind fun _ => staysAct_withActionContext _ ?_
    refine (staysAct_lift _).bind fun _ => Stays.act (by grind) |>.bind fun _ => ?_
    refine (staysAct_lift _).bind fun _ => (staysAct_lift _).bind fun _ => ?_
    refine stays_getSlots.act.bind fun _ => staysAct_ite (by grind) ?_
    exact stays_myInvIfAny.act.bind fun _ => by grind
  · refine (staysAct_lift _).bind fun _ => (staysAct_lift _).bind fun _ => ?_
    refine staysAct_withActionContext _ ((staysAct_lift _).bind fun _ => ?_)
    exact StaysAct.bind (by grind) fun _ => by grind

theorem staysAct_rollCall (words : List SchemeVal) : StaysAct Stored (rollCall words) := by
  have hsplit : StaysAct Stored (rollCallSplit words) := by
    have htake (words' : List SchemeVal) (args : List SchemeVal) :
        StaysAct Stored (do return (← take words', args)) :=
      (staysAct_take _).bind fun _ => staysAct_pure _
    refine staysAct_ite (htake _ _) ((staysAct_lift _).bind fun _ => ?_)
    exact staysAct_ite (htake _ _) (staysAct_ite (htake _ _) (staysAct_pure _))
  refine hsplit.bind fun _ => staysAct_ite (by grind) ?_
  exact (staysAct_lift _).bind fun _ => by grind

theorem stays_roomSpeech (method : String) (words : List SchemeVal) :
    Stays SamePending (roomSpeech method words) := by grind [roomSpeech]

/-- The views that commands are, but for those that store. -/
theorem stays_view {c : Command} (hc : ¬ c.Stores) {args : List SchemeVal} {v : View SchemeVal}
    (hv : c.view? args = some v) : Stays SamePending v := by
  simp only [Command.view?] at hv
  split at hv <;> cases hv
  case h_1 => exact stays_go _
  case h_2 => exact stays_dig _
  case h_3 => grind [fill]
  case h_4 => grind [delve]
  case h_5 => exact stays_roomCall_any _ _
  case h_6 => grind [startHere]
  -- `keep` and `put` store the ids of their replies
  case h_7 | h_8 | h_9 => exact absurd (by decide) hc
  case h_10 => exact stays_recycle _
  case h_11 | h_12 | h_13 => exact stays_roomSpeech _ _
  case h_14 => grind [addTrigger]
  case h_15 => grind [removeTrigger]
  case h_16 => grind [claim.eq_def]
  case h_17 => exact stays_give _
  case h_18 => grind [owner]
  case h_19 | h_20 => exact stays_lockRpc _ _ _
  case h_21 => grind [remove]
  case h_22 => grind [tell]
  case h_23 => exact stays_prop _ _ _
  case h_24 | h_25 | h_26 => exact stays_propAsSugar _ _
  case h_27 => exact stays_room
  case h_28 => grind [did?]
  case h_29 => grind [who?]
  case h_30 => grind [occupants?]
  case h_31 => grind [things?]
  case h_32 => grind [exits?]
  case h_33 => exact stays_inv _
  case h_34 => grind [help]
  case h_35 => exact stays_look _

/-- The commands that do not store leave the table alone. -/
theorem staysAct_command {c : Command} (hc : ¬ c.Stores) (args : List SchemeVal) :
    StaysAct SamePending (c.run args) := by
  simp only [Command.run]
  split
  case h_1 => exact staysAct_enter _ _
  case h_2 | h_3 | h_7 | h_9 => exact absurd (by decide) hc
  case h_4 => exact staysAct_find _
  case h_5 => exact staysAct_equip _
  case h_6 => exact staysAct_unequip _
  case h_8 => exact staysAct_forge _ _
  case h_10 =>
    split
    · next hv => exact (stays_view hc hv).act
    · exact staysAct_lift _

/-- The commands that store record each id that they are answered with. -/
theorem staysAct_stores {c : Command} (hc : c.Stores) (args : List SchemeVal) :
    StaysAct Stored (c.run args) := by
  simp only [Command.run]
  split
  case h_1 | h_4 | h_5 | h_6 | h_8 => exact absurd hc (by decide)
  case h_2 => exact staysAct_take _
  case h_3 => exact staysAct_takeFrom _ _
  case h_7 => exact staysAct_drop _
  case h_9 => exact staysAct_rollCall _
  case h_10 =>
    split
    case h_2 => exact staysAct_lift _
    next v hv =>
    refine Stays.act ?_
    simp only [Command.view?] at hv
    split at hv <;> cases hv
    case h_7 => exact stays_keep _
    case h_8 | h_9 => exact stays_put _
    all_goals exact absurd hc (by decide)

end Requests

/-! ## Completions -/

omit [Host] in
theorem Op.completed?_eq_some {op : Op} {id : String} (h : op.completed? = some id) :
    ∃ name m, op = .event (.str name) (.list [.map m]) ∧
      (name = ":put-event" ∨ name = ":take-event") ∧ Dict.get? m "id" = some (.str id) := by
  simp only [completed?] at h
  split at h
  case h_2 => cases h
  next e m =>
  split at h
  case isFalse => cases h
  next he =>
  split at h
  case h_2 => cases h
  next id' hid =>
  obtain rfl := Option.some.inj h
  rcases he with rfl | rfl
  · exact ⟨_, m, rfl, .inl rfl, hid⟩
  · exact ⟨_, m, rfl, .inr rfl, hid⟩

/-- A completion clears its id, whatever its status. -/
theorem eventActionDone_clears {m : Ctx} {id : String} (hid : Dict.get? m "id" = some (.str id))
    (s : Slots) (f : Focus) :
    ((eventActionDone (.map m) s).run f).2.pendingActions = f.pendingActions.delete id := by
  have hmap : mapRef (.map m) "id" (.bool false) = .ok (.str id) := by
    change Except.ok ((Dict.get? m "id").getD _) = _
    rw [hid]
    rfl
  have hstatus : mapRef (.map m) "status" "ok" = .ok ((Dict.get? m "status").getD "ok") := rfl
  have htruthy : (SchemeVal.str id).truthy = true := rfl
  refine (wp_iff_end _ fun g : Focus => g.pendingActions = f.pendingActions.delete id).1 ?_
  simp only [eventActionDone, hmap, hstatus, view_bind, view_lift, wp_bind, wp_lift]
  rw [if_pos htruthy, view_bind, wp_bind]
  -- What is shown of the status comes after.
  refine ((?_ : Stays SamePending _) s).wp { f with pendingActions := f.pendingActions.delete id }
  exact stays_ite (by grind) (stays_pure _)

/-- An event that names no id clears none. -/
theorem stays_eventActionDone {ctx : SchemeVal}
    (h : ∀ m id, ctx = .map m → Dict.get? m "id" ≠ some (.str id)) :
    Stays SamePending (eventActionDone ctx) := by
  refine stays_lift_bind fun id hid => (stays_lift _).bind fun status => ?_
  have hclear : id.truthy = true → Stays SamePending (pendingClear! id) := by
    intro htruthy
    rcases id with id | _ | _ | _ | _ | _ | _ | _
    case str =>
      -- an id that is a text would be one of a completion
      exfalso
      rcases ctx with _ | _ | _ | _ | _ | _ | _ | m
      case map =>
        have hget : (Dict.get? m "id").getD (.bool false) = .str id := Except.ok.inj hid
        rcases hm : Dict.get? m "id" with _ | v
        · rw [hm] at hget
          cases hget
        · rw [hm] at hget
          exact h m id rfl (hm.trans (congrArg some hget))
      all_goals cases hid
    all_goals exact stays_throw _
  by_cases htruthy : id.truthy = true
  · rw [if_pos htruthy]
    exact (hclear htruthy).bind fun _ => stays_ite (by grind) (stays_pure _)
  · rw [if_neg htruthy]
    exact stays_ite (by grind) (stays_pure _)

/-- What a handler leaves alone, its delivery leaves alone. -/
theorem staysAct_dispatch {handlers : String → Option (List SchemeVal → Act Unit)}
    {event args : SchemeVal} (h : ∀ name handler l, event = .str name →
      handlers name = some handler → elements "apply" args = .ok l →
        StaysAct SamePending (handler l)) :
    StaysAct SamePending (dispatchEvent handlers event args) := by
  rcases event with name | _ | _ | _ | _ | _ | _ | _
  case str =>
    rcases hh : handlers name with _ | handler
    · rw [dispatchEvent_none hh]
      exact staysAct_pure _
    · rw [dispatchEvent_some hh]
      refine StaysAct.tryCatch ?_ fun _ => (stays_display _).act
      rcases hl : elements "apply" args with e | l
      · exact staysAct_throw e
      · exact h name handler l rfl hh hl
  all_goals exact staysAct_throw _

/-- An event that completes nothing leaves the table alone. -/
theorem staysAct_onEvent {event args : SchemeVal}
    (h : (Op.event event args).completed? = none) : StaysAct SamePending (onEvent event args) := by
  simp only [onEvent]
  split
  · split <;> exact staysAct_dispatch fun _ _ l _ hh _ => staysAct_roomEvent hh l
  refine staysAct_dispatch fun name handler l hn hh hl => ?_
  -- only two handlers touch the pending actions
  by_cases hdone : name = ":put-event" ∨ name = ":take-event"
  case neg => exact staysAct_event hh (fun hn => hdone (.inl hn)) (fun hn => hdone (.inr hn)) l
  have hhandler : handler = handler₁ fun ctx => eventActionDone ctx := by
    rcases hdone with rfl | rfl <;> exact (Option.some.inj hh).symm
  rw [hhandler]
  rcases l with _ | ⟨ctx, _ | ⟨b, l⟩⟩
  case cons.nil =>
    refine (stays_eventActionDone fun m id hctx hid => ?_).act
    subst hn hctx
    rcases args with _ | _ | _ | _ | _ | _ | _ | _ <;> cases hl
    have hname : SchemeVal.str name = ":put-event" ∨ SchemeVal.str name = ":take-event" :=
      hdone.imp (congrArg _) (congrArg _)
    have hcompleted : (Op.event (.str name) (.list [.map m])).completed? = some id := by
      simp only [Op.completed?, if_pos hname, hid]
    cases h.symm.trans hcompleted
  all_goals exact staysAct_lift _

/-- The completion events clear the id that they name, and no other event clears one. -/
theorem onEvent_record (event args : SchemeVal) (w : World) :
    ((onEvent event args).run w).2.focus.pendingActions =
      record w.focus.pendingActions ((Op.event event args).messages w) := by
  have hmessages : (Op.event event args).messages w =
    (Op.event event args).completed?.toList.map .completion := rfl
  rw [hmessages]
  rcases hid : (Op.event event args).completed? with _ | id
  · exact staysAct_onEvent hid w
  obtain ⟨name, m, hop, hname, hm⟩ := Op.completed?_eq_some hid
  obtain ⟨rfl, rfl⟩ := Op.event.inj hop
  have hne : name ≠ ":event" := by rcases hname with rfl | rfl <;> decide
  have hh : eventHandlers name = some (handler₁ fun ctx => eventActionDone ctx) := by
    rcases hname with rfl | rfl <;> rfl
  refine event_wp (P := fun w' => w'.focus.pendingActions =
    record w.focus.pendingActions [.completion id]) (fun _ _ h => h) hne hh ?_
  exact (wp_iff_end _ _).2 (eventActionDone_clears hm w.slots w.focus)

/-! ## Runs -/

/-- What an operation leaves in the table: its messages, replayed. -/
theorem Op.run_record (op : Op) (w : World) :
    (op.run.run w).2.focus.pendingActions = record w.focus.pendingActions (op.messages w) := by
  rcases op with ⟨c, args⟩ | ⟨event, args⟩
  case event => exact onEvent_record event args w
  by_cases hc : c.Stores
  · have hstored : StaysAct Stored (Op.command c args).run :=
      (staysAct_stores hc args).bind fun _ => staysAct_pure _
    obtain ⟨l, hl, hp⟩ := hstored w
    rw [hp, messages, if_pos hc, World.effects_eq hl]
  · have hsame : StaysAct SamePending (Op.command c args).run :=
      (staysAct_command hc args).bind fun _ => staysAct_pure _
    rw [messages, if_neg hc]
    exact hsame w

/-- What a run leaves in the table: the messages of the run, replayed. -/
theorem pendingActions_after (w : World) (ops : List Op) :
    (w.after ops).focus.pendingActions = record w.focus.pendingActions (w.messages ops) := by
  induction ops generalizing w with
  | nil => rfl
  | cons op ops ih =>
    have hcons : w.messages (op :: ops) = op.messages w ++ (op.run.run w).2.messages ops := rfl
    rw [hcons, record_append, ← op.run_record w]
    exact ih _

section Record

variable {pending : Dict String SchemeVal} {messages : List Message} {id : String}

omit [Host] in
/-- An id that is not pending stays so until it is a reply. -/
theorem record_absent (h : pending.get? id = none) (hm : .reply id ∉ messages) :
    (record pending messages).get? id = none := by
  induction messages generalizing pending with
  | nil => exact h
  | cons message messages ih =>
    have hne : message ≠ .reply id := fun hm' => hm (hm' ▸ List.mem_cons_self)
    refine ih ?_ fun hm' => hm (List.mem_cons_of_mem _ hm')
    rw [Dict.get?_change, Function.update_apply]
    split
    · next hkey =>
      rcases message with j | j
      · exact absurd (congrArg Message.reply hkey.symm) hne
      · rfl
    · exact h

omit [Host] in
/-- An id that is pending stays so until it is completed. -/
theorem record_present (h : pending.get? id ≠ none) (hm : .completion id ∉ messages) :
    (record pending messages).get? id ≠ none := by
  induction messages generalizing pending with
  | nil => exact h
  | cons message messages ih =>
    have hne : message ≠ .completion id := fun hm' => hm (hm' ▸ List.mem_cons_self)
    refine ih ?_ fun hm' => hm (List.mem_cons_of_mem _ hm')
    rw [Dict.get?_change, Function.update_apply]
    split
    · next hkey =>
      rcases message with j | j
      · exact Option.some_ne_none _
      · exact absurd (congrArg Message.completion hkey.symm) hne
    · exact h

omit [Host] in
/-- The id is completed after it is a reply. -/
theorem record_completed {before after : List Message} (hm : .reply id ∉ after) :
    (record pending (before ++ .completion id :: after)).get? id = none := by
  have hcleared : ((record pending before).delete id).get? id = none := Dict.get?_delete_self _ _
  have hafter := record_absent hcleared hm
  rwa [record_append]

omit [Host] in
/-- The id is a reply after it is completed. -/
theorem record_replied {before after : List Message} (hm : .completion id ∉ after) :
    (record pending (before ++ .reply id :: after)).get? id ≠ none := by
  have hstored : ((record pending before).insert id (.bool true)).get? id ≠ none := by
    rw [Dict.get?_insert_self]
    exact nofun
  have hafter := record_present hstored hm
  rwa [record_append]

omit [Host] in
/-- Each member of a list occurs a last time. -/
theorem exists_last {message : Message} (h : message ∈ messages) :
    ∃ before after, messages = before ++ message :: after ∧ message ∉ after := by
  obtain ⟨a, b, hab, ha⟩ := List.eq_append_cons_of_mem (List.mem_reverse.2 h)
  refine ⟨b.reverse, a.reverse, ?_, fun hm => ha (List.mem_reverse.1 hm)⟩
  rw [← List.reverse_reverse messages, hab]
  simp

end Record

/-- After a run, of the ids that requests were answered with, those are pending that were
    not completed, if and only if each of the others was completed after the last reply
    with it. -/
theorem pending_iff (w : World) (ops : List Op) :
    (∀ id, .reply id ∈ w.messages ops →
      ((w.after ops).focus.pendingActions.get? id = none ↔ .completion id ∈ w.messages ops)) ↔
    ∀ id, .reply id ∈ w.messages ops → .completion id ∈ w.messages ops →
      ∃ before after, w.messages ops = before ++ .completion id :: after ∧ .reply id ∉ after := by
  rw [pendingActions_after]
  refine forall₂_congr fun id hreply => ?_
  -- What counts is what follows the last reply with the id.
  obtain ⟨before, after, hlast, hafter⟩ := exists_last hreply
  constructor
  · intro h hcompletion
    have habsent := h.2 hcompletion
    have hmem : .completion id ∈ after := by
      by_contra hn
      rw [hlast] at habsent
      exact record_replied hn habsent
    obtain ⟨a, b, rfl⟩ := List.append_of_mem hmem
    refine ⟨before ++ .reply id :: a, b, by rw [hlast]; simp, fun hb => hafter ?_⟩
    exact List.mem_append_right _ (List.mem_cons_of_mem _ hb)
  · intro h
    constructor
    · intro habsent
      by_contra hn
      rw [hlast] at habsent hn
      exact record_replied (fun hm => hn (List.mem_append_right _ (List.mem_cons_of_mem _ hm)))
        habsent
    · intro hcompletion
      obtain ⟨a, b, hab, hb⟩ := h hcompletion
      rw [hab]
      exact record_completed hb

omit [Host] in
/-- The bell is put in a chest. The completion of the request comes before the reply to it
    is processed, and the id stays pending. -/
theorem not_pending_iff :
    let _ : Host := scripted "did:ma:me" fun _ method _ =>
      .ok (if method = "put" then "42" else .nil)
    let w := World.entered "did:ma:hall"
    let ops : List Op := [.event ":put-event" (.list [.map [("id", "42")]]),
      .command .put ["did:ma:bell", "in", "did:ma:chest"]]
    .reply "42" ∈ w.messages ops ∧ .completion "42" ∈ w.messages ops ∧
      (w.after ops).focus.pendingActions.get? "42" ≠ none := by
  intro _ w ops
  refine ⟨?_, ?_, ?_⟩
  · decide +kernel
  · decide +kernel
  · exact nofun

end Avatar

end Zscheme
