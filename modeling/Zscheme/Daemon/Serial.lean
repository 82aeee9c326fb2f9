import Mathlib.Logic.Relation
import Zscheme.Daemon.Session

/-!
# Whole requests

Evaluations take a lock, but the other requests do not: they are answered while an
evaluation is suspended. `Reset` replaces the shared environment, and an evaluation
under way goes on in the old one; `DumpEnv` reads it as the evaluation has left it so
far.

* `serialisable`: when no evaluation is under way, the responses and the shared
  environment are those of some serial order of the complete requests, as long as no
  `DumpEnv` is answered while an evaluation is suspended in the shared environment.
* `half_dumped`: an answer that contains one of the two definitions of a request.

The proof moves the requests that were answered during an evaluation behind it: each of
them commutes with the steps of the evaluation (`resume_comm`).
-/

namespace Zscheme.Daemon

open Ipc

/-- A step that handles a whole request (or closes the connection) at once. -/
def SessionStep.Atomic {κ Input : Type*} : SessionStep κ Input → Prop
  | .receive _ (.eval _ _ _) => False
  | .receive _ _ | .close _ => True
  | .acquire _ | .resume _ _ => False

/-- The shared environment that an evaluation changes. -/
def Target.handle? : Target → Option Nat
  | shared handle => some handle
  | isolated => none

/-- The shared environment that the evaluation under way changes. -/
def Phase.handle? {Run : Type*} : Phase Run → Option Nat
  | evaluating _ target _ _ => target.handle?
  | _ => none

/-- An evaluation that goes on does so in the same environment. -/
theorem Conn.handle?_progress {Env Host Run Input Val : Type*} (k : Conn Env Run)
    (ev : Evaluator Env Host Run Input Val) (job : EvalJob) (target : Target)
    (before : List String) (p : Progress Env Host Run Val) :
    (k.progress ev job target before p).phase.handle? =
      if p.next.isLeft then target.handle? else none := by
  cases hn : p.next <;> simp [Conn.progress, hn, Phase.handle?]

/-- A connection that waits for the lock, as if it had not read its request yet. -/
def Conn.settle {Env Run : Type*} (k : Conn Env Run) : Conn Env Run :=
  match k.phase with
  | .waiting _ => { k with phase := .idle }
  | _ => k

/-- An idle connection is settled. -/
theorem Conn.settle_idle {Env Run : Type*} {k : Conn Env Run} (hk : k.phase = .idle) :
    k.settle = k := by simp only [settle, hk]

/-- Settled, a waiting connection has not asked yet. -/
theorem Conn.settle_waiting {Env Run : Type*} {k : Conn Env Run} (hk : k.phase = .idle)
    (job : EvalJob) : ({ k with phase := .waiting job } : Conn Env Run).settle = k := by
  cases k
  simp_all [settle]

/-- A waiting connection is a settled one that asks again. -/
theorem Conn.waiting_settle {Env Run : Type*} {k : Conn Env Run} {job : EvalJob}
    (hk : k.phase = .waiting job) :
    k.settle.phase = .idle ∧ { k.settle with phase := .waiting job } = k := by
  cases k
  simp_all [settle]

/-- Settling changes nothing else of a connection. -/
theorem Conn.settle_eq {Env Run : Type*} (k : Conn Env Run) :
    k.settle.history = k.history ∧ k.settle.out = k.out ∧ k.settle.isolated = k.isolated ∧
      k.settle.phase.job? = k.phase.job? ∧ k.settle.phase.handle? = k.phase.handle? ∧
      k.settle.phase.frames = k.phase.frames := by
  cases hk : k.phase <;> simp [settle, hk, Phase.job?, Phase.handle?, Phase.frames]

/-- An evaluation does not wait. -/
theorem Conn.settle_progress {Env Host Run Input Val : Type*} (k : Conn Env Run)
    (ev : Evaluator Env Host Run Input Val) (job : EvalJob) (target : Target)
    (before : List String) (p : Progress Env Host Run Val) :
    (k.progress ev job target before p).settle = k.progress ev job target before p := by
  cases hn : p.next <;> simp [settle, progress, hn]

namespace Session

variable {κ Env Host Run Input Val : Type*} [DecidableEq κ] (version did : String)
  (ev : Evaluator Env Host Run Input Val)

/-- The steps of a whole evaluation request that is handled on its own, up to the given
    number of replies. -/
def evalSteps (c : κ) (job : EvalJob) (inputs : List Input) : List (SessionStep κ Input) :=
  .receive c job.request :: .acquire c :: inputs.map (.resume c)

/-- The steps of a run, in any order. -/
abbrev runs : System (Session κ Env Host Run) (SessionStep κ Input) :=
  sessions version did ev Initial

/-- The states reached from a state by handling whole requests, one after the other. -/
inductive Serial (s₀ : Session κ Env Host Run) : Session κ Env Host Run → Prop
  | refl : Serial s₀ s₀
  | answer {s s' : Session κ Env Host Run} {a : SessionStep κ Input} : Serial s₀ s → a.Atomic →
      next version did ev s a = some s' → Serial s₀ s'
  | eval {s s' : Session κ Env Host Run} {c : κ} {job : EvalJob} {inputs : List Input} :
      Serial s₀ s → (runs version did ev).exec s (evalSteps c job inputs) = some s' →
      s'.lock = none → Serial s₀ s'

/-- The requests that are complete could have been handled one after the other: to the
    same responses, and to the same shared environment. -/
def Serialisable (s₀ s : Session κ Env Host Run) : Prop :=
  ∃ t, Serial version did ev s₀ t ∧
    (∀ c, (t.conn c).history = (s.conn c).history ∧ (t.conn c).out = (s.conn c).out ∧
      (t.conn c).isolated = (s.conn c).isolated) ∧
    t.heap t.current = s.heap s.current ∧ t.host = s.host

/-- No `DumpEnv` is answered while an evaluation is suspended in the shared environment. -/
def DumpsWhole (s : Session κ Env Host Run) : SessionStep κ Input → Prop
  | .receive _ .dumpEnv => ∀ c, (s.conn c).phase.handle? ≠ some s.current
  | _ => True

variable {version did ev}

/-! ## Requests that are answered at once -/

/-- What an atomic step does: it changes an idle connection, and it may replace the shared
    environment by a new one. -/
def answered (s : Session κ Env Host Run) (ev : Evaluator Env Host Run Input Val) (d : κ)
    (renew : Bool) (f : Conn Env Run → Conn Env Run) : Session κ Env Host Run :=
  { s with
    conn := Function.update s.conn d (f (s.conn d))
    heap := if renew then Function.update s.heap (s.current + 1) ev.sessionEnv else s.heap
    current := if renew then s.current + 1 else s.current }

omit [DecidableEq κ] in
/-- All atomic steps have this shape: they wait for the connection to be idle. -/
theorem match_idle_iff {s s' t : Session κ Env Host Run} {d : κ} :
    (match (s.conn d).phase with | .idle => some t | _ => none) = some s' ↔
      (s.conn d).phase = .idle ∧ s' = t := by
  split <;> simp_all [eq_comm]

variable (version did ev) in
/-- What an atomic step does, in any state in which it is enabled. Only what is answered to
    `DumpEnv` depends on the environment. -/
theorem next_atomic {a : SessionStep κ Input} (ha : a.Atomic) :
    ∃ (renew : Bool) (g : String → Conn Env Run → Conn Env Run),
      (∀ s s' : Session κ Env Host Run, next version did ev s a = some s' ↔
        (s.conn a.conn).phase = .idle ∧
          s' = s.answered ev a.conn renew (g (ev.dumpEnvSource (s.heap s.current)))) ∧
      (∀ text k, k.phase = .idle → (g text k).phase = .idle ∨ (g text k).phase = .closed) ∧
      ((∃ c, a = .receive c .dumpEnv) ∨ ∀ text text', g text = g text') := by
  have hreply : ∀ (request : Request) (r : Response) (k : Conn Env Run), k.phase = .idle →
      (k.reply request r).phase = .idle ∨ (k.reply request r).phase = .closed := by
    intro request r k hk
    simp only [Conn.reply, hk]
    split <;> simp
  cases a with
  | receive c request =>
    cases request with
    | eval => exact ha.elim
    | hello v =>
      exact ⟨false, fun _ k => k.reply (.hello v) (.helloAck version did),
        fun _ _ => match_idle_iff, fun _ k => hreply _ _ k, .inr fun _ _ => rfl⟩
    | ping =>
      exact ⟨false, fun _ k => k.reply .ping .pong, fun _ _ => match_idle_iff,
        fun _ k => hreply _ _ k, .inr fun _ _ => rfl⟩
    | stop =>
      exact ⟨false, fun _ k => k.reply .stop .stopping, fun _ _ => match_idle_iff,
        fun _ k => hreply _ _ k, .inr fun _ _ => rfl⟩
    | reset =>
      exact ⟨true, fun _ k => k.reply .reset .resetDone, fun _ _ => match_idle_iff,
        fun _ k => hreply _ _ k, .inr fun _ _ => rfl⟩
    | dumpEnv =>
      exact ⟨false, fun text k => k.reply .dumpEnv (.envDump text), fun _ _ => match_idle_iff,
        fun _ k => hreply _ _ k, .inl ⟨c, rfl⟩⟩
  | close c =>
    exact ⟨false, fun _ k => { k with phase := .closed }, fun _ _ => match_idle_iff,
      fun _ _ _ => .inr rfl, .inr fun _ _ => rfl⟩
  | acquire c => exact ha.elim
  | resume c input => exact ha.elim

/-! ## They commute with an evaluation -/

/-- Evaluations are in environments that exist. -/
def Handles (s : Session κ Env Host Run) : Prop :=
  ∀ c handle, (s.conn c).phase.handle? = some handle → handle ≤ s.current

omit [DecidableEq κ] in
/-- The connection that holds the lock is evaluating. -/
theorem Inv.evaluating {s : Session κ Env Host Run} (hs : Inv s) {c : κ}
    (hc : s.lock = some c) : ∃ job target run displayed,
      (s.conn c).phase = .evaluating job target run displayed := by
  have hjob := (hs.lock c).1 hc
  cases hp : (s.conn c).phase with
  | evaluating job target run displayed => exact ⟨job, target, run, displayed, rfl⟩
  | _ =>
    rw [hp] at hjob
    exact nomatch hjob

/-- The environment an evaluation changes is not one created by an atomic step. -/
theorem readEnv_answered {s : Session κ Env Host Run} {c d : κ} (hd : d ≠ c) {target : Target}
    (ht : ∀ handle, target.handle? = some handle → handle ≤ s.current) (renew : Bool)
    (f : Conn Env Run → Conn Env Run) :
    (s.answered ev d renew f).readEnv ev c target = s.readEnv ev c target := by
  cases target with
  | shared handle =>
    have hne : handle ≠ s.current + 1 := Nat.ne_of_lt (Nat.lt_succ_of_le (ht handle rfl))
    cases renew
    · rfl
    · exact Function.update_of_ne hne _ _
  | isolated => simp [readEnv, answered, Function.update_of_ne hd.symm]

/-- The environment that is current is not changed by an evaluation in another one. -/
theorem advance_currentEnv {s : Session κ Env Host Run} {c : κ} {job : EvalJob} {target : Target}
    (hsink : s.sink = some (c, job.id)) (ht : target.handle? ≠ some s.current)
    (displayed : List String) (p : Progress Env Host Run Val) :
    (s.advance ev c job target displayed p).heap (s.advance ev c job target displayed p).current =
      s.heap s.current := by
  rw [advance_eq hsink]
  cases target with
  | shared handle => exact Function.update_of_ne (fun h => ht (congrArg _ h.symm)) _ _
  | isolated => rfl

/-- The order of an atomic step and the progress of an evaluation does not matter. -/
theorem advance_answered {s : Session κ Env Host Run} {c d : κ} {job : EvalJob} {target : Target}
    (hsink : s.sink = some (c, job.id)) (hd : d ≠ c)
    (ht : ∀ handle, target.handle? = some handle → handle ≤ s.current) (renew : Bool)
    (f : Conn Env Run → Conn Env Run) (displayed : List String) (p : Progress Env Host Run Val) :
    (s.answered ev d renew f).advance ev c job target displayed p =
      (s.advance ev c job target displayed p).answered ev d renew f := by
  have hheap : target.update (Function.update s.heap (s.current + 1) ev.sessionEnv) p.env =
      Function.update (target.update s.heap p.env) (s.current + 1) ev.sessionEnv := by
    cases target with
    | shared handle =>
      exact Function.update_comm (Nat.ne_of_gt (Nat.lt_succ_of_le (ht handle rfl))) _ _ _
    | isolated => rfl
  rw [advance_eq hsink, advance_eq (s := s.answered ev d renew f) hsink]
  cases renew <;>
    simp [answered, Function.update_of_ne hd, Function.update_of_ne hd.symm, hheap,
      Function.update_comm hd]

/-- The next step of an evaluation under way. -/
theorem next_resume {s : Session κ Env Host Run} {c : κ} {job : EvalJob} {target : Target}
    {run : Run} {displayed : List String}
    (hc : (s.conn c).phase = .evaluating job target run displayed) (input : Input) :
    next version did ev s (.resume c input) = some (s.advance ev c job target displayed
      (ev.resume run (s.readEnv ev c target) s.host input)) := by
  simp only [next, hc]

/-- The environments under evaluation, after a step of an evaluation. -/
theorem handle?_advance {s : Session κ Env Host Run} {c : κ} {job : EvalJob} {target : Target}
    {run : Run} {displayed : List String}
    (hc : (s.conn c).phase = .evaluating job target run displayed)
    (hsink : s.sink = some (c, job.id)) (p : Progress Env Host Run Val) {d : κ} {handle : Nat}
    (hd : ((s.advance ev c job target displayed p).conn d).phase.handle? = some handle) :
    (s.conn d).phase.handle? = some handle := by
  rw [advance_eq hsink] at hd
  rcases eq_or_ne d c with rfl | hne
  · simp only [Function.update_self, Conn.handle?_progress] at hd
    rw [hc]
    exact (Option.ite_none_right_eq_some.1 hd).2
  · simpa only [Function.update_of_ne hne] using hd

/-- A dump that is of a whole environment still is after a step of an evaluation. -/
theorem DumpsWhole.advance {s : Session κ Env Host Run} {a : SessionStep κ Input}
    (hd : DumpsWhole s a) {c : κ} {job : EvalJob} {target : Target} {run : Run}
    {displayed : List String} (hc : (s.conn c).phase = .evaluating job target run displayed)
    (hsink : s.sink = some (c, job.id)) (p : Progress Env Host Run Val) :
    DumpsWhole (s.advance ev c job target displayed p) a := by
  have hcur : (s.advance ev c job target displayed p).current = s.current := by
    rw [advance_eq hsink]
  simp only [DumpsWhole] at hd ⊢
  split
  · exact fun d h => hd d (handle?_advance hc hsink p (hcur ▸ h))
  · trivial

/-- An atomic step commutes with a step of the evaluation that is under way. -/
theorem resume_comm {s t w : Session κ Env Host Run} {c : κ} {input : Input}
    {a : SessionStep κ Input} (hs : Inv s) (hh : Handles s) (hlock : s.lock = some c)
    (ha : a.Atomic) (hd : DumpsWhole s a) (hst : next version did ev s a = some t)
    (htw : next version did ev t (.resume c input) = some w) :
    ∃ t', next version did ev s (.resume c input) = some t' ∧
      next version did ev t' a = some w ∧ DumpsWhole t' a := by
  obtain ⟨renew, g, hnext, -, hdump⟩ := next_atomic version did ev ha
  obtain ⟨hidle, rfl⟩ := (hnext s t).1 hst
  obtain ⟨job, target, run, displayed, hc⟩ := hs.evaluating hlock
  have hsink : s.sink = some (c, job.id) := hs.sink c job (by rw [hc]; rfl)
  have hne : a.conn ≠ c := by
    intro h
    rw [h, hc] at hidle
    exact nomatch hidle
  have hconn : ∀ f, ((s.answered ev a.conn renew f).conn c) = s.conn c := fun _ =>
    Function.update_of_ne hne.symm _ _
  have hle : ∀ handle, target.handle? = some handle → handle ≤ s.current := fun handle h =>
    hh c handle (by rw [hc]; exact h)
  have hw := (next_resume (hconn _ ▸ hc) input).symm.trans htw
  rw [readEnv_answered hne hle] at hw
  obtain rfl := Option.some.inj hw
  refine ⟨_, next_resume hc input, ?_, hd.advance hc hsink _⟩
  refine (hnext _ _).2 ⟨?_, (advance_answered hsink hne hle renew _ displayed _).trans ?_⟩
  · rw [advance_eq hsink]
    simpa [Function.update_of_ne hne] using hidle
  · -- Only a dump depends on the environment, and it is of another one.
    rcases hdump with ⟨d, rfl⟩ | hdump
    · have ht : target.handle? ≠ some s.current := fun h => hd c (by rw [hc]; exact h)
      rw [advance_currentEnv hsink ht]
      rfl
    · rw [hdump]
      rfl

/-- Evaluations stay in environments that exist, when one connection changes. -/
theorem Handles.update {s t : Session κ Env Host Run} (hh : Handles s) {c : κ}
    {k : Conn Env Run} (hconn : t.conn = Function.update s.conn c k)
    (hcur : s.current ≤ t.current)
    (hk : ∀ handle, k.phase.handle? = some handle → handle ≤ t.current) : Handles t := by
  intro d handle hd
  rw [hconn] at hd
  rcases eq_or_ne d c with rfl | hne
  · rw [Function.update_self] at hd
    exact hk handle hd
  · rw [Function.update_of_ne hne] at hd
    exact Nat.le_trans (hh d handle hd) hcur

/-- A step that is done at once gives out no handle. -/
theorem Handles.atomic {s s' : Session κ Env Host Run} {a : SessionStep κ Input} (hh : Handles s)
    (ha : a.Atomic) (h : next version did ev s a = some s') : Handles s' := by
  obtain ⟨renew, g, hnext, hphase, -⟩ := next_atomic version did ev ha
  obtain ⟨hidle, rfl⟩ := (hnext s s').1 h
  refine hh.update rfl (by cases renew <;> simp [answered]) fun handle hk => ?_
  rcases hphase _ _ hidle with hp | hp <;> rw [hp] at hk <;> exact nomatch hk

/-- A request that starts to run takes the current handle at most. -/
theorem Handles.evalRequest {s : Session κ Env Host Run} (hh : Handles s) (c : κ) (job : EvalJob) :
    Handles (s.evalRequest ev c job) := by
  rcases Bool.eq_false_or_eq_true (isDotCommandLine job.source) with hdot | hdot
  · rw [evalRequest_of_dot hdot]
    exact hh.update rfl (Nat.le_refl _) fun _ hk => by cases hk
  · rw [evalRequest_of_not_dot hdot c rfl]
    refine hh.update rfl (Nat.le_refl _) fun handle hk => ?_
    rw [Conn.handle?_progress] at hk
    have ht := (Option.ite_none_right_eq_some.1 hk).2
    simp only [target] at ht
    split at ht
    · exact nomatch ht
    · exact Nat.le_of_eq (Option.some.inj ht).symm

/-- An evaluation that goes on takes no other. -/
theorem Handles.advance {s : Session κ Env Host Run} (hh : Handles s) {c : κ} {job : EvalJob}
    {target : Target} {run : Run} {displayed : List String}
    (hc : (s.conn c).phase = .evaluating job target run displayed)
    (hsink : s.sink = some (c, job.id)) (p : Progress Env Host Run Val) :
    Handles (s.advance ev c job target displayed p) := by
  intro d handle hd
  have hcur := hh d handle (handle?_advance hc hsink p hd)
  rwa [advance_eq hsink]

/-- The lock, before and after a step of an evaluation. -/
theorem lock_resume {s s' : Session κ Env Host Run} {c : κ} {input : Input} (hs : Inv s)
    (h : next version did ev s (.resume c input) = some s') :
    s.lock = some c ∧ (s'.lock = none ∨ s'.lock = some c) := by
  simp only [next] at h
  split at h
  · rename_i job target run displayed hc
    obtain rfl := Option.some.inj h
    have hlock : s.lock = some c := (hs.lock c).2 (by rw [hc]; rfl)
    refine ⟨hlock, ?_⟩
    rw [advance_eq (hs.sink c job (by rw [hc]; rfl)), hlock]
    cases (ev.resume run (s.readEnv ev c target) s.host input).next <;> simp
  · cases h

/-- Nor does one that is resumed. -/
theorem Handles.resume {s s' : Session κ Env Host Run} {c : κ} {input : Input}
    (hh : Handles s) (hs : Inv s) (h : next version did ev s (.resume c input) = some s') :
    Handles s' := by
  simp only [next] at h
  split at h
  · rename_i job target run displayed hc
    exact Option.some.inj h ▸ hh.advance hc (hs.sink c job (by rw [hc]; rfl)) _
  · cases h

/-! ## Requests that wait -/

/-- The connections, as if the requests that wait for the lock had not been read yet. -/
def settle (s : Session κ Env Host Run) : Session κ Env Host Run :=
  { s with conn := Conn.settle ∘ s.conn }

/-- An answer to an idle connection does not see the requests that wait. -/
theorem settle_answered {s : Session κ Env Host Run} {d : κ} (hd : (s.conn d).phase = .idle)
    {f : Conn Env Run → Conn Env Run}
    (hf : (f (s.conn d)).phase = .idle ∨ (f (s.conn d)).phase = .closed) (renew : Bool) :
    (s.answered ev d renew f).settle = s.settle.answered ev d renew f := by
  have hs : (s.conn d).settle = s.conn d := by simp [Conn.settle, hd]
  have hs' : (f (s.conn d)).settle = f (s.conn d) := by
    rcases hf with h | h <;> simp [Conn.settle, h]
  simp [answered, settle, Function.comp_update, hs, hs']

/-- An atomic step does not see the requests that wait. -/
theorem next_settle_atomic {s s' : Session κ Env Host Run} {a : SessionStep κ Input}
    (ha : a.Atomic) (h : next version did ev s a = some s') :
    next version did ev s.settle a = some s'.settle := by
  obtain ⟨renew, g, hnext, hphase, -⟩ := next_atomic version did ev ha
  obtain ⟨hidle, rfl⟩ := (hnext s s').1 h
  refine (hnext _ _).2 ⟨?_, settle_answered hidle (hphase _ _ hidle) renew⟩
  simp [settle, Conn.settle, hidle]

/-- A request to evaluate waits. -/
theorem settle_receive_eval {s s' : Session κ Env Host Run} {c : κ} {id : UInt64}
    {source : String} {isolated : Bool}
    (h : next version did ev s (.receive c (.eval id source isolated)) = some s') :
    s'.settle = s.settle ∧ s'.lock = s.lock := by
  simp only [next] at h
  split at h
  · rename_i hc
    obtain rfl := Option.some.inj h
    refine ⟨?_, rfl⟩
    have hset : Conn.settle { s.conn c with phase := .waiting ⟨id, source, isolated⟩ } =
        (s.conn c).settle := by rw [Conn.settle_waiting hc, Conn.settle_idle hc]
    simp [settle, handle, modify, Function.comp_update, hset]
  · cases h

/-- A request that waits gets the lock, as if it was read just before. -/
theorem exec_settle_acquire {s s' : Session κ Env Host Run} {c : κ}
    (h : next version did ev s (.acquire c) = some s') :
    s.lock = none ∧ (s'.lock = none ∨ s'.lock = some c) ∧ ∃ job,
      (runs version did ev).exec s.settle (evalSteps c job []) = some s'.settle := by
  simp only [next] at h
  split at h
  · rename_i job hc hlock
    obtain rfl := Option.some.inj h
    refine ⟨hlock, ?_, job, ?_⟩
    · rcases Bool.eq_false_or_eq_true (isDotCommandLine job.source) with hdot | hdot
      · exact .inl (by rw [evalRequest_of_dot hdot])
      · rw [evalRequest_of_not_dot hdot c rfl]
        cases hn : (ev.start job.source (s.readEnv ev c (s.target job)) s.host).next <;> simp
    -- Once the request is read again, the connection is as it was.
    obtain ⟨hidle, hk⟩ := Conn.waiting_settle hc
    let t : Session κ Env Host Run :=
      { s.settle with conn := Function.update s.settle.conn c (s.conn c) }
    have hread : next version did ev s.settle (.receive c job.request) = some t := by
      simp only [next, settle, Function.comp_apply, hidle, EvalJob.request, handle, modify]
      rw [hk]
      rfl
    have htc : t.conn c = s.conn c := Function.update_self ..
    have hacq : next version did ev t (.acquire c) = some (t.evalRequest ev c job) := by
      have htl : t.lock = none := hlock
      simp only [next, htc, hc, htl]
    have ht : t.evalRequest ev c job = (s.evalRequest ev c job).settle := by
      rcases Bool.eq_false_or_eq_true (isDotCommandLine job.source) with hdot | hdot
      · rw [evalRequest_of_dot hdot, evalRequest_of_dot hdot, htc]
        simp [t, settle, Function.comp_update, Conn.settle, Conn.dotLine]
      · have henv : t.readEnv ev c (t.target job) = s.readEnv ev c (s.target job) := by
          rw [show t.target job = s.target job from rfl]
          cases s.target job with
          | shared handle => rfl
          | isolated => simp only [readEnv, htc]
        rw [evalRequest_of_not_dot hdot c rfl, evalRequest_of_not_dot hdot c rfl, henv, htc]
        simp [t, settle, Function.comp_update, Conn.settle_progress, target]
        exact ⟨rfl, rfl⟩
    simp only [evalSteps, List.map_nil, System.exec, sessions, hread, Option.bind_some, hacq, ht]
  · cases h

/-- An evaluation does not see the requests that wait. -/
theorem next_settle_resume {s s' : Session κ Env Host Run} {c : κ} {input : Input} (hs : Inv s)
    (h : next version did ev s (.resume c input) = some s') :
    next version did ev s.settle (.resume c input) = some s'.settle := by
  simp only [next] at h
  split at h
  · rename_i job target run displayed hc
    obtain rfl := Option.some.inj h
    have hsink : s.sink = some (c, job.id) := hs.sink c job (by rw [hc]; rfl)
    have hconn : s.settle.conn c = s.conn c := by simp [settle, Conn.settle, hc]
    have henv : s.settle.readEnv ev c target = s.readEnv ev c target := by
      cases target with
      | shared handle => rfl
      | isolated => simp only [readEnv, hconn]
    rw [next_resume (hconn ▸ hc), henv, advance_eq (s := s.settle) hsink, advance_eq hsink, hconn]
    simp only [settle, Function.comp_update, Conn.settle_progress]
    rfl
  · cases h

omit [DecidableEq κ] in
/-- The invariant does not depend on who waits. -/
theorem Inv.settle {s : Session κ Env Host Run} (hs : Inv s) : Inv s.settle := by
  refine ⟨fun c => ?_, fun c => ?_, fun c job hj => ?_⟩
  · obtain ⟨hh, ho, -, -, -, hf⟩ := (s.conn c).settle_eq
    have hsent := hs.sent c
    simp only [Conn.Sent] at hsent ⊢
    simp only [Session.settle, Function.comp_apply, hh, ho, hf, hsent]
  · simp only [Session.settle, Function.comp_apply, (s.conn c).settle_eq.2.2.2.1]
    exact hs.lock c
  · simp only [Session.settle, Function.comp_apply, (s.conn c).settle_eq.2.2.2.1] at hj
    exact hs.sink c job hj

omit [DecidableEq κ] in
/-- Nor do the handles. -/
theorem Handles.settle {s : Session κ Env Host Run} (hh : Handles s) : Handles s.settle := by
  intro c handle hc
  simp only [Session.settle, Function.comp_apply, (s.conn c).settle_eq.2.2.2.2.1] at hc
  exact hh c handle hc

omit [DecidableEq κ] in
/-- Nor does it whether a dump is whole. -/
theorem DumpsWhole.settle {s : Session κ Env Host Run} {a : SessionStep κ Input}
    (hd : DumpsWhole s a) : DumpsWhole s.settle a := by
  simp only [DumpsWhole] at hd ⊢
  split
  · intro c
    simp only [Session.settle, Function.comp_apply, (s.conn c).settle_eq.2.2.2.2.1]
    exact hd c
  · trivial

/-! ## Whole requests, one after the other -/

variable (version did ev) in
/-- A request is answered at once. -/
def Answers (s t : Session κ Env Host Run) : Prop :=
  ∃ a : SessionStep κ Input, a.Atomic ∧ DumpsWhole s a ∧ next version did ev s a = some t

/-- An atomic step leaves the lock alone. -/
theorem lock_atomic {s s' : Session κ Env Host Run} {a : SessionStep κ Input} (ha : a.Atomic)
    (h : next version did ev s a = some s') : s'.lock = s.lock := by
  obtain ⟨renew, g, hnext, -, -⟩ := next_atomic version did ev ha
  obtain ⟨-, rfl⟩ := (hnext s s').1 h
  rfl

/-- Requests that are answered at once keep the invariants, and leave the lock alone. -/
theorem keep_of_answers {s t : Session κ Env Host Run}
    (h : Relation.ReflTransGen (Answers version did ev) s t) (hs : Inv s) (hh : Handles s) :
    Inv t ∧ Handles t ∧ t.lock = s.lock := by
  induction h with
  | refl => exact ⟨hs, hh, rfl⟩
  | tail _ hst ih =>
    obtain ⟨hs, hh, hlock⟩ := ih
    obtain ⟨a, ha, -, hn⟩ := hst
    exact ⟨inv_next hs hn, hh.atomic ha hn, (lock_atomic ha hn).trans hlock⟩

/-- A step of an evaluation could have been taken before the requests that were answered
    in the meantime. -/
theorem resume_of_answers {v s s' : Session κ Env Host Run} {c : κ} {input : Input}
    (h : Relation.ReflTransGen (Answers version did ev) v s) (hv : Inv v) (hh : Handles v)
    (hlock : v.lock = some c) (hs : next version did ev s (.resume c input) = some s') :
    ∃ v', next version did ev v (.resume c input) = some v' ∧
      Relation.ReflTransGen (Answers version did ev) v' s' := by
  induction h generalizing s' with
  | refl => exact ⟨s', hs, .refl⟩
  | tail hmid hst ih =>
    obtain ⟨hs₁, hh₁, hlock₁⟩ := keep_of_answers hmid hv hh
    obtain ⟨a, ha, hd, hn⟩ := hst
    obtain ⟨t, ht, hts, hd'⟩ := resume_comm hs₁ hh₁ (hlock₁.trans hlock) ha hd hn hs
    obtain ⟨v', hv', hmid'⟩ := ih ht
    exact ⟨v', hv', hmid'.tail ⟨a, ha, hd', hts⟩⟩

/-- Answers in a row keep a run serial. -/
theorem Serial.answers {s₀ s t : Session κ Env Host Run} (hs : Serial version did ev s₀ s)
    (h : Relation.ReflTransGen (Answers version did ev) s t) : Serial version did ev s₀ t := by
  induction h with
  | refl => exact hs
  | tail _ hst ih =>
    obtain ⟨a, ha, -, hn⟩ := hst
    exact ih.answer ha hn

variable (version did ev) in
/-- The invariant of the order: whole requests, one after the other; if an evaluation is
    under way, what it has done so far, and then the requests that were answered in the
    meantime. -/
inductive Ordered (s₀ s : Session κ Env Host Run) : Prop
  | free (hlock : s.lock = none) (hs : Serial version did ev s₀ s.settle)
  | held {u v : Session κ Env Host Run} {c : κ} {job : EvalJob} {inputs : List Input}
      (hlock : s.lock = some c) (hu : Serial version did ev s₀ u)
      (heval : (runs version did ev).exec u (evalSteps c job inputs) = some v)
      (hv : Inv v) (hh : Handles v)
      (hmid : Relation.ReflTransGen (Answers version did ev) v s.settle)

/-- An answer comes after those before it. -/
theorem Ordered.atomic {s₀ s s' : Session κ Env Host Run} {a : SessionStep κ Input}
    (ho : Ordered version did ev s₀ s) (ha : a.Atomic) (hd : DumpsWhole s a)
    (h : next version did ev s a = some s') : Ordered version did ev s₀ s' := by
  have hn := next_settle_atomic ha h
  have hl := lock_atomic ha h
  cases ho with
  | free hlock hs => exact .free (hl.trans hlock) (hs.answer ha hn)
  | held hlock hu heval hv hh hmid =>
    exact .held (hl.trans hlock) hu heval hv hh (hmid.tail ⟨a, ha, hd.settle, hn⟩)

/-- A request that takes the lock is evaluated from a serial state. -/
theorem Ordered.acquire {s₀ s s' : Session κ Env Host Run} {c : κ} (hs' : Inv s')
    (hh' : Handles s') (ho : Ordered version did ev s₀ s)
    (h : next version did ev s (.acquire c) = some s') : Ordered version did ev s₀ s' := by
  obtain ⟨hlock, hlock', job, heval⟩ := exec_settle_acquire h
  cases ho with
  | held hl => exact nomatch hlock ▸ hl
  | free _ hs =>
    rcases hlock' with hl | hl
    · exact .free hl (hs.eval heval hl)
    · exact .held hl hs heval hs'.settle hh'.settle .refl

/-- An evaluation goes on before the answers that were sent meanwhile. -/
theorem Ordered.resume {s₀ s s' : Session κ Env Host Run} {c : κ} {input : Input} (hs : Inv s)
    (ho : Ordered version did ev s₀ s) (h : next version did ev s (.resume c input) = some s') :
    Ordered version did ev s₀ s' := by
  obtain ⟨hlock, hlock'⟩ := lock_resume hs h
  cases ho with
  | free hl => exact nomatch hlock ▸ hl
  | @held u v d job inputs hl hu heval hv hh hmid =>
    obtain rfl := Option.some.inj (hl.symm.trans hlock)
    have hvl : v.lock = some d := (keep_of_answers hmid hv hh).2.2.symm.trans hl
    -- the serial run takes the same step of the evaluation
    obtain ⟨v', hv', hmid'⟩ := resume_of_answers hmid hv hh hvl (next_settle_resume hs h)
    have hinv' := inv_next hv hv'
    have hhandles' := hh.resume hv hv'
    have heval' : (runs version did ev).exec u (evalSteps d job (inputs ++ [input])) = some v' := by
      rw [evalSteps, List.map_append, ← List.cons_append, ← List.cons_append, System.exec_append]
      rw [evalSteps] at heval
      rw [heval, Option.bind_some]
      exact (congrArg (Option.bind · _) hv').trans rfl
    have hl' : s'.lock = v'.lock := (keep_of_answers hmid' hinv' hhandles').2.2
    rcases hlock' with hn | hn
    · exact .free hn ((hu.eval heval' (hl'.symm.trans hn)).answers hmid')
    · exact .held hn hu heval' hinv' hhandles' hmid'

/-- Every step keeps the order, if dumps are of whole environments. -/
theorem ordered_next {s₀ s s' : Session κ Env Host Run} {a : SessionStep κ Input} (hs : Inv s)
    (hh' : Handles s') (ho : Ordered version did ev s₀ s) (hd : DumpsWhole s a)
    (h : next version did ev s a = some s') : Ordered version did ev s₀ s' := by
  cases a with
  | acquire c => exact ho.acquire (inv_next hs h) hh' h
  | resume c input => exact ho.resume hs h
  | close c => exact ho.atomic (a := SessionStep.close c) trivial hd h
  | receive c request =>
    cases request with
    | eval id source isolated =>
      obtain ⟨hset, hlock⟩ := settle_receive_eval h
      cases ho with
      | free hl hs => exact .free (hlock.trans hl) (hset ▸ hs)
      | held hl hu heval hv hh hmid => exact .held (hlock.trans hl) hu heval hv hh (hset ▸ hmid)
    | _ =>
      refine ho.atomic ?_ hd h
      trivial

/-- No step takes a handle of an environment that is yet to be made. -/
theorem handles_next {s s' : Session κ Env Host Run} {a : SessionStep κ Input} (hs : Inv s)
    (hh : Handles s) (h : next version did ev s a = some s') : Handles s' := by
  cases a with
  | acquire c =>
    simp only [next] at h
    split at h
    · exact Option.some.inj h ▸ hh.evalRequest _ _
    · cases h
  | resume c input => exact hh.resume hs h
  | close c => exact hh.atomic (a := SessionStep.close c) trivial h
  | receive c request =>
    cases request with
    | eval id source isolated =>
      simp only [next] at h
      split at h
      · obtain rfl := Option.some.inj h
        exact hh.update rfl (Nat.le_refl _) fun _ hk => by cases hk
      · cases h
    | _ =>
      refine hh.atomic ?_ h
      trivial

/-- In every run in which no `DumpEnv` is answered while an evaluation is suspended in the
    shared environment: whenever no evaluation is under way, the responses and the shared
    environment are those of the complete requests, handled one after the other. -/
theorem serialisable {s₀ s : Session κ Env Host Run} (h₀ : Initial s₀)
    (h : (sessions version did ev (· = s₀)).ReachableVia DumpsWhole s) (hlock : s.lock = none) :
    Serialisable version did ev s₀ s := by
  have hinv : Inv s ∧ Handles s ∧ Ordered version did ev s₀ s := by
    refine h.invariant (I := fun s => Inv s ∧ Handles s ∧ Ordered version did ev s₀ s) ?_ ?_
    · rintro s rfl
      -- initially no connection has anything to settle
      have hset : s.settle = s := by
        have hconn : Conn.settle ∘ s.conn = s.conn :=
          funext fun c => Conn.settle_idle (by rw [h₀.1])
        simp only [settle, hconn]
      refine ⟨inv_initial h₀, fun c handle hc => ?_, .free h₀.2.1 (hset.symm ▸ .refl)⟩
      rw [h₀.1] at hc
      exact nomatch hc
    · rintro s a s' ⟨hs, hh, ho⟩ hd hn
      have hh' := handles_next hs hh hn
      exact ⟨inv_next hs hn, hh', ordered_next hs hh' ho hd hn⟩
  obtain ⟨-, -, ho⟩ := hinv
  cases ho with
  | held hl => exact nomatch hlock ▸ hl
  | free _ hs =>
    refine ⟨s.settle, hs, fun c => ?_, rfl, rfl⟩
    obtain ⟨hh, ho, hi, -⟩ := (s.conn c).settle_eq
    exact ⟨hh, ho, hi⟩

/-! ## A dump of half a request -/

section Half

/-- What a script with two definitions has defined so far. -/
inductive Defined
  | nothing
  | first
  | both

/-- An evaluator of one script: a definition, an actor call and another definition. -/
def script : Evaluator Defined Unit Unit Unit Unit where
  start _ _ _ := ⟨.first, (), [], .inl ()⟩
  resume _ _ _ _ := ⟨.both, (), [], .inr (.ok ())⟩
  evalDot _ host := (host, [], .ok ())
  sessionEnv := .nothing
  newRoot := .nothing
  dumpEnvSource
    | .nothing => ""
    | .first => "(define a 1)\n"
    | .both => "(define a 1)\n(define b 2)\n"
  isNil _ := true
  display _ := ""

/-- Two connections to a new session. -/
def newSession : Session Bool Defined Unit Unit where
  conn _ := ⟨.idle, none, [], []⟩
  heap _ := .nothing
  current := 0
  host := ()
  lock := none
  sink := none
  stdout := []

/-- A new session is initial. -/
theorem initial_newSession : Initial newSession := ⟨fun _ => rfl, rfl, rfl⟩

/-- A dump that is answered while the script is suspended. -/
def interrupted : List (SessionStep Bool Unit) :=
  [.receive true (.eval 1 "(begin (define a 1) (@did:ma:x :y) (define b 2))" false), .acquire true,
    .receive false .dumpEnv, .resume true ()]

/-- The script has not been left half-way, and no dump says it has. -/
structure Whole (s : Session Bool Defined Unit Unit) : Prop where
  lock : s.lock = none
  env : s.heap s.current ≠ .first
  out : ∀ c, .envDump "(define a 1)\n" ∉ (s.conn c).out

/-- What is sent on one connection, when it is no such dump. -/
theorem Whole.update {s t : Session Bool Defined Unit Unit} (hs : Whole s) {c : Bool}
    {k : Conn Defined Unit} (hconn : t.conn = Function.update s.conn c k)
    (hk : .envDump "(define a 1)\n" ∉ k.out) (hlock : t.lock = none)
    (henv : t.heap t.current ≠ .first) : Whole t := by
  refine ⟨hlock, henv, fun d => ?_⟩
  rw [hconn]
  rcases eq_or_ne d c with rfl | hd
  · rwa [Function.update_self]
  · rw [Function.update_of_ne hd]
    exact hs.out d

/-- Any other answer leaves the script whole. -/
theorem Whole.reply {s : Session Bool Defined Unit Unit} (hs : Whole s) (c : Bool)
    (request : Request) {r : Response} (hr : .envDump "(define a 1)\n" ≠ r) :
    Whole (s.reply c request r) := by
  refine hs.update rfl ?_ hs.lock hs.env
  simpa [Conn.reply, hr] using hs.out c

/-- So does every answer of an atomic step. -/
theorem Whole.atomic {s s' : Session Bool Defined Unit Unit} {a : SessionStep Bool Unit}
    (hs : Whole s) (ha : a.Atomic) (h : next "" "" script s a = some s') : Whole s' := by
  cases a with
  | receive c request =>
    simp only [next] at h
    split at h
    · obtain rfl := Option.some.inj h
      cases request with
      | eval => exact ha.elim
      | reset =>
        have hreset : Whole { s with
            heap := Function.update s.heap (s.current + 1) Defined.nothing
            current := s.current + 1 } := ⟨hs.lock, by simp, hs.out⟩
        exact hreset.reply c _ (by simp)
      | dumpEnv =>
        refine hs.reply c _ fun hdump => ?_
        have hsource := Response.envDump.inj hdump
        have henv := hs.env
        cases he : s.heap s.current <;> rw [he] at hsource henv
        · exact absurd hsource (by decide)
        · exact henv rfl
        · exact absurd hsource (by decide)
      | _ => exact hs.reply c _ (by simp)
    · cases h
  | close c =>
    simp only [next] at h
    split at h
    · obtain rfl := Option.some.inj h
      exact hs.update rfl (hs.out c) hs.lock hs.env
    · cases h
  | acquire c => exact ha.elim
  | resume c input => exact ha.elim

/-- An evaluation that has ended does not go on. -/
theorem eq_of_exec_resume {s s' : Session Bool Defined Unit Unit} {c : Bool} {inputs : List Unit}
    (hc : (s.conn c).phase = .idle)
    (h : (runs "" "" script).exec s (inputs.map (.resume c)) = some s') : s' = s := by
  cases inputs with
  | nil => exact (Option.some.inj h).symm
  | cons input inputs =>
    obtain ⟨t, ht, -⟩ := Option.bind_eq_some_iff.1 h
    simp only [sessions, next, hc] at ht
    cases ht

/-- A whole evaluation of the script defines both or, as a dot command or in isolation,
    neither. -/
theorem Whole.eval {s s' : Session Bool Defined Unit Unit} {c : Bool} {job : EvalJob}
    {inputs : List Unit} (hs : Whole s)
    (h : (runs "" "" script).exec s (evalSteps c job inputs) = some s') (hlock : s'.lock = none) :
    Whole s' := by
  obtain ⟨s₁, h₁, h⟩ := Option.bind_eq_some_iff.1 h
  obtain ⟨s₂, h₂, h⟩ := Option.bind_eq_some_iff.1 h
  simp only [sessions, next, EvalJob.request] at h₁
  split at h₁
  · obtain rfl := Option.some.inj h₁
    have hacq : next "" "" script (handle "" "" script s c (.eval job.id job.source job.isolated))
        (.acquire c : SessionStep Bool Unit) =
        some (evalRequest script (s.modify c fun k => { k with phase := .waiting job }) c job) := by
      simp [next, handle, modify, hs.lock]
    obtain rfl := Option.some.inj (hacq.symm.trans h₂)
    rcases Bool.eq_false_or_eq_true (isDotCommandLine job.source) with hdot | hdot
    · rw [evalRequest_of_dot hdot] at h
      rw [eq_of_exec_resume (by simp [Conn.dotLine]) h]
      refine hs.update (by simp [modify]; rfl) ?_ rfl hs.env
      simpa [Conn.dotLine, script] using hs.out c
    · rw [evalRequest_of_not_dot hdot c rfl] at h
      cases inputs with
      | nil =>
        -- The evaluation is suspended, and holds the lock.
        obtain rfl := Option.some.inj h
        cases hlock
      | cons input inputs =>
        obtain ⟨s₃, h₃, h⟩ := Option.bind_eq_some_iff.1 h
        simp only [sessions, next, modify, Function.update_self, Conn.progress, script] at h₃
        obtain rfl := Option.some.inj h₃
        rw [advance_eq rfl] at h
        rw [eq_of_exec_resume (by simp [Conn.progress]) h]
        refine hs.update (by simp; rfl) ?_ rfl ?_
        · simpa [Conn.progress, script] using hs.out c
        · simp only [target]
          split <;> simp [Target.update, hs.env]
  · cases h₁

/-- In a serial run the script is whole. -/
theorem whole_of_serial {s : Session Bool Defined Unit Unit}
    (h : Serial "" "" script newSession s) : Whole s := by
  induction h with
  | refl => exact ⟨rfl, nofun, fun _ => nofun⟩
  | answer _ ha hn ih => exact ih.atomic ha hn
  | eval _ heval hlock ih => exact ih.eval heval hlock

/-- The evaluation succeeds, and the dump has one of its two definitions: no order of the
    two requests has that answer. -/
theorem half_dumped : ∃ s, (runs "" "" script).exec newSession interrupted = some s ∧
    s.lock = none ∧ (s.conn true).out = [.evalResult 1 (.ok none)] ∧
    (s.conn false).out = [.envDump "(define a 1)\n"] ∧
    ¬Serialisable "" "" script newSession s := by
  refine ⟨_, rfl, rfl, rfl, rfl, ?_⟩
  rintro ⟨t, ht, hconn, -⟩
  refine (whole_of_serial ht).out false ?_
  rw [(hconn false).2.1]
  exact List.mem_cons_self

/-- A dump that is answered after a reset, while the script is suspended in the old
    environment. -/
theorem serialisable_reset : ∃ s,
    (sessions "" "" script (· = newSession)).ReachableVia DumpsWhole s ∧
      (s.conn true).out = [.evalResult 1 (.ok none)] ∧
      (s.conn false).out = [.resetDone, .envDump ""] ∧
      Serialisable "" "" script newSession s := by
  have h₀ : (sessions "" "" script (· = newSession)).ReachableVia DumpsWhole newSession := .init rfl
  have h₁ := h₀.run (l := [.receive true (.eval 1 "(f)" false), .acquire true,
    .receive false .reset]) (by simp [DumpsWhole]) rfl
  have h₂ := h₁.step (a := SessionStep.receive false .dumpEnv) (fun c => by cases c <;> nofun) rfl
  have h₃ := h₂.run (l := [.resume true ()]) (by simp [DumpsWhole]) rfl
  exact ⟨_, h₃, rfl, rfl, serialisable initial_newSession h₃ rfl⟩

end Half

end Session

end Zscheme.Daemon
