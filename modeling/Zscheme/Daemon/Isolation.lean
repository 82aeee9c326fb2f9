import Zscheme.Daemon.Session
import Zscheme.Lib.Unwind

/-!
# Isolated connections

An isolated evaluation has an environment of its connection (`--isolated`). The other
connections still meet it at the lock, at the display sink and in the configuration of the
host; here is what that leaves of the isolation, by unwinding the runs of the daemon.

* `isolated_unaffected`: what is sent on a connection that never reads the shared
  environment is decided by its own steps and the host at each of them.
* `others_unaffected`: connections that never change the shared environment, whatever they
  evaluate in their own, do not change what is sent on the others, or that environment.
-/

namespace Zscheme

/-! ## Requests and the shared environment -/

namespace Ipc

/-- The request reads the shared environment. -/
def Request.ReadsShared : Request → Prop
  | eval _ source isolated => isolated = false ∧ Daemon.isDotCommandLine source = false
  | dumpEnv => True
  | _ => False

/-- The request changes the shared environment. -/
def Request.WritesShared : Request → Prop
  | eval _ source isolated => isolated = false ∧ Daemon.isDotCommandLine source = false
  | reset => True
  | _ => False

end Ipc

namespace Daemon

open Ipc

/-- The evaluation leaves the shared environment alone: it is isolated, or a dot command. -/
def EvalJob.Private (job : EvalJob) : Prop :=
  job.isolated = true ∨ isDotCommandLine job.source = true

theorem EvalJob.private_of_not_reads {id : UInt64} {source : String} {isolated : Bool}
    (h : ¬(Request.eval id source isolated).ReadsShared) :
    EvalJob.Private ⟨id, source, isolated⟩ := by
  cases isolated with
  | true => exact .inl rfl
  | false => exact .inr (by simpa [Request.ReadsShared] using h)

/-- Neither does what the connection is doing. -/
def Phase.Private {Run : Type*} : Phase Run → Prop
  | waiting job => job.Private
  | evaluating _ target _ _ => target = .isolated
  | _ => True

theorem Conn.private_progress {Env Host Run Input Val : Type*} (k : Conn Env Run)
    (ev : Evaluator Env Host Run Input Val) (job : EvalJob) (before : List String)
    (p : Progress Env Host Run Val) : (k.progress ev job .isolated before p).phase.Private := by
  cases hn : p.next <;> simp [Conn.progress, hn, Phase.Private]

namespace Session

variable {κ Env Host Run Input Val : Type*} [DecidableEq κ]

/-- What is seen of the connections `D`: their steps, and the host before each. -/
def shows (D : κ → Prop) [DecidablePred D] (s : Session κ Env Host Run)
    (a : SessionStep κ Input) : Option (Host × SessionStep κ Input) :=
  if D a.conn then some (s.host, a) else none

/-- An evaluation has made progress, from its start or after a suspension. -/
def progressed (s : Session κ Env Host Run) (ev : Evaluator Env Host Run Input Val) (c : κ)
    (job : EvalJob) (target : Target) (before : List String) (p : Progress Env Host Run Val) :
    Session κ Env Host Run := { s with
  conn := Function.update s.conn c ((s.conn c).progress ev job target before p)
  heap := target.update s.heap p.env
  host := p.host
  lock := if p.next.isLeft then some c else none
  sink := if p.next.isLeft then some (c, job.id) else none }

variable (version did : String) (ev : Evaluator Env Host Run Input Val)

/-- What a step does. -/
inductive Takes (s : Session κ Env Host Run) : SessionStep κ Input → Session κ Env Host Run → Prop
  | receive {c : κ} (hphase : (s.conn c).phase = .idle) (request : Request) :
      Takes s (.receive c request) (s.handle version did ev c request)
  | dotLine {c : κ} {job : EvalJob} (hphase : (s.conn c).phase = .waiting job)
      (hdot : isDotCommandLine job.source = true) :
      Takes s (.acquire c) { s with
        conn := Function.update s.conn c ((s.conn c).dotLine ev job s.host)
        host := (ev.evalDot (.ofList (stripHash (trim job.source))) s.host).1
        lock := none
        sink := none }
  | start {c : κ} {job : EvalJob} (hphase : (s.conn c).phase = .waiting job)
      (hdot : isDotCommandLine job.source = false) :
      Takes s (.acquire c) (s.progressed ev c job (s.target job) []
        (ev.start job.source (s.readEnv ev c (s.target job)) s.host))
  | progress {c : κ} {job : EvalJob} {target : Target} {run : Run} {before : List String}
      (hphase : (s.conn c).phase = .evaluating job target run before) (input : Input) :
      Takes s (.resume c input) (s.progressed ev c job target before
        (ev.resume run (s.readEnv ev c target) s.host input))
  | close {c : κ} (hphase : (s.conn c).phase = .idle) :
      Takes s (.close c) (s.modify c fun k => { k with phase := .closed })

variable {version did} {ev} {s s' t t' : Session κ Env Host Run} {a : SessionStep κ Input}

theorem takes_of_next (hs : Inv s) (h : next version did ev s a = some s') :
    Takes version did ev s a s' := by
  cases a with
  | receive c request =>
    simp only [next] at h
    split at h
    · exact Option.some.inj h ▸ .receive ‹_› request
    · cases h
  | acquire c =>
    simp only [next] at h
    split at h
    · rename_i job hc hlock
      obtain rfl := Option.some.inj h
      rcases Bool.eq_false_or_eq_true (isDotCommandLine job.source) with hdot | hdot
      · rw [evalRequest_of_dot hdot]
        exact .dotLine hc hdot
      · rw [evalRequest_of_not_dot hdot c rfl]
        exact .start hc hdot
    · cases h
  | resume c input =>
    simp only [next] at h
    split at h
    · rename_i job target run displayed hc
      obtain rfl := Option.some.inj h
      have hjob : (s.conn c).phase.job? = some job := by rw [hc]; rfl
      rw [advance_eq (hs.sink c job hjob), hs.sink c job hjob,
        (hs.lock c).2 (by rw [hjob]; rfl)]
      exact .progress hc input
    · cases h
  | close c =>
    simp only [next] at h
    split at h
    · exact Option.some.inj h ▸ .close ‹_›
    · cases h

/-! ## What a step leaves alone -/

theorem conn_handle_of_ne {c d : κ} (hd : d ≠ c) (request : Request) :
    (s.handle version did ev c request).conn d = s.conn d := by
  cases request <;> exact Function.update_of_ne hd ..

/-- A step changes the connection that takes it only. -/
theorem Takes.conn_of_ne (h : Takes version did ev s a s') {d : κ} (hd : d ≠ a.conn) :
    s'.conn d = s.conn d := by
  cases h with
  | receive hphase request => exact conn_handle_of_ne hd request
  | dotLine | start | progress | close => exact Function.update_of_ne hd ..

/-- A private connection stays private, if it does not ask for more. -/
theorem Takes.private_phase (h : Takes version did ev s a s') {c : κ}
    (hc : (s.conn c).phase.Private)
    (ha : ∀ id source isolated, Request.eval id source isolated ∈ a.requests c →
      EvalJob.Private ⟨id, source, isolated⟩) : (s'.conn c).phase.Private := by
  rcases eq_or_ne c a.conn with rfl | hne
  · cases h with
    | receive hphase request =>
      cases request with
      | eval id source isolated =>
        simp only [handle, conn_modify, SessionStep.conn, Function.update_self]
        exact ha id source isolated (by simp [SessionStep.requests, SessionStep.conn])
      | _ =>
        simp only [handle, reply, conn_modify, SessionStep.conn, Function.update_self, Conn.reply,
          hphase]
        split_ifs <;> trivial
    | dotLine hphase hdot =>
      simp only [SessionStep.conn, Function.update_self]
      trivial
    | @start _ job hphase hdot =>
      simp only [progressed, SessionStep.conn, Function.update_self]
      simp only [SessionStep.conn, hphase, Phase.Private] at hc
      have htarget : s.target job = .isolated := if_pos (hc.resolve_right (by simp [hdot]))
      rw [htarget]
      exact Conn.private_progress ..
    | progress hphase input =>
      simp only [progressed, SessionStep.conn, Function.update_self]
      simp only [SessionStep.conn, hphase, Phase.Private] at hc
      rw [hc]
      exact Conn.private_progress ..
    | close hphase =>
      simp only [conn_modify, SessionStep.conn, Function.update_self]
      trivial
  · rwa [h.conn_of_ne hne]

/-- A step of a private connection does not change the shared environment, unless it is a
    reset. -/
theorem Takes.shared_of_private (h : Takes version did ev s a s')
    (hphase : (s.conn a.conn).phase.Private) (hreset : .reset ∉ a.requests a.conn) :
    s'.heap = s.heap ∧ s'.current = s.current := by
  cases h with
  | receive _ request =>
    cases request with
    | reset => exact absurd (by simp [SessionStep.requests, SessionStep.conn]) hreset
    | _ => simp [handle, reply, modify]
  | dotLine | close => simp [modify]
  | @start _ job hc hdot =>
    simp only [SessionStep.conn, hc, Phase.Private] at hphase
    have htarget : s.target job = .isolated := if_pos (hphase.resolve_right (by simp [hdot]))
    simp [progressed, htarget, Target.update]
  | progress hc input =>
    simp only [SessionStep.conn, hc, Phase.Private] at hphase
    simp [progressed, hphase, Target.update]

/-! ## What a step depends on -/

omit [DecidableEq κ] in
/-- The environment that an evaluation reads is that of its connection, or shared. -/
theorem readEnv_congr {c : κ} (hconn : s.conn c = t.conn c) {target : Target}
    (h : s.heap = t.heap ∨ target = .isolated) :
    s.readEnv ev c target = t.readEnv ev c target := by
  cases target with
  | shared handle =>
    obtain hheap := h.resolve_right (by simp)
    simp only [readEnv, hheap]
  | isolated => simp only [readEnv, hconn]

/-- What a step does to its connection is decided by the connection, the host, and the
    shared environment if that is read. From the same shared environment it makes the same. -/
theorem Takes.congr (h : Takes version did ev s a s') (h' : Takes version did ev t a t')
    (hhost : s.host = t.host) (hconn : s.conn a.conn = t.conn a.conn)
    (hshared : s.heap = t.heap ∧ s.current = t.current ∨
      (s.conn a.conn).phase.Private ∧ .dumpEnv ∉ a.requests a.conn) :
    s'.conn a.conn = t'.conn a.conn ∧
      (s.heap = t.heap → s.current = t.current → s'.heap = t'.heap ∧ s'.current = t'.current) := by
  cases h with
  | @receive c hphase request =>
    cases h' with
    | receive hphase' =>
      simp only [SessionStep.conn] at hconn hshared ⊢
      refine ⟨?_, fun hheap hcurrent => ?_⟩
      · cases request with
        | dumpEnv =>
          obtain ⟨hheap, hcurrent⟩ := hshared.resolve_right (by simp [SessionStep.requests])
          simp only [handle, reply, conn_modify, Function.update_self, hconn, hheap, hcurrent]
        | _ => simp only [handle, reply, conn_modify, Function.update_self, hconn]
      · cases request <;> simp [handle, reply, modify, hheap, hcurrent]
  | @dotLine c job hphase hdot =>
    simp only [SessionStep.conn] at hconn
    cases h' with
    | dotLine hphase' hdot' =>
      obtain rfl := Phase.waiting.inj (hphase.symm.trans (hconn ▸ hphase'))
      refine ⟨?_, And.intro⟩
      simp only [SessionStep.conn, Function.update_self, hconn, hhost]
    | start hphase' hdot' =>
      obtain rfl := Phase.waiting.inj (hphase.symm.trans (hconn ▸ hphase'))
      exact absurd (hdot.symm.trans hdot') (by decide)
  | @start c job hphase hdot =>
    simp only [SessionStep.conn] at hconn hshared
    cases h' with
    | dotLine hphase' hdot' =>
      obtain rfl := Phase.waiting.inj (hphase.symm.trans (hconn ▸ hphase'))
      exact absurd (hdot.symm.trans hdot') (by decide)
    | start hphase' hdot' =>
      obtain rfl := Phase.waiting.inj (hphase.symm.trans (hconn ▸ hphase'))
      -- both start in the same environment
      have htarget : s.target job = t.target job ∧
          (s.heap = t.heap ∨ s.target job = .isolated) := by
        rcases hshared with ⟨hheap, hcurrent⟩ | ⟨hprivate, -⟩
        · exact ⟨by rw [target, target, hcurrent], .inl hheap⟩
        · rw [hphase] at hprivate
          have hisolated : job.isolated = true := hprivate.resolve_right (by simp [hdot])
          simp [target, hisolated]
      simp only [progressed, SessionStep.conn, Function.update_self]
      rw [← htarget.1, readEnv_congr hconn htarget.2, hconn, hhost]
      exact ⟨rfl, fun hheap hcurrent => ⟨by rw [hheap], hcurrent⟩⟩
  | @progress c job target run before hphase input =>
    simp only [SessionStep.conn] at hconn hshared
    cases h' with
    | progress hphase' =>
      obtain ⟨rfl, rfl, rfl, rfl⟩ := Phase.evaluating.inj (hphase.symm.trans (hconn ▸ hphase'))
      have htarget : s.heap = t.heap ∨ target = .isolated := by
        refine hshared.imp And.left fun hprivate => ?_
        have hphase'' := hprivate.1
        rwa [hphase] at hphase''
      simp only [progressed, SessionStep.conn, Function.update_self]
      rw [readEnv_congr hconn htarget, hconn, hhost]
      exact ⟨rfl, fun hheap hcurrent => ⟨by rw [hheap], hcurrent⟩⟩
  | close hphase =>
    cases h' with
    | close hphase' =>
      simp only [SessionStep.conn] at hconn
      refine ⟨?_, And.intro⟩
      simp only [SessionStep.conn, conn_modify, Function.update_self, hconn]

/-! ## Isolation -/

section Isolation

variable {D : κ → Prop} [DecidablePred D] {s₁ s₂ t₁ t₂ : Session κ Env Host Run}
  {l₁ l₂ : List (SessionStep κ Input)}

omit [DecidableEq κ] in
theorem eq_of_shows {b : SessionStep κ Input} {o : Host × SessionStep κ Input}
    (h : shows D s a = some o) (h' : shows D t b = some o) :
    D a.conn ∧ s.host = t.host ∧ a = b := by
  simp only [shows] at h h'
  split_ifs at h h' with ha
  obtain rfl := Option.some.inj h
  obtain ⟨hhost, rfl⟩ := Prod.mk.inj (Option.some.inj h')
  exact ⟨ha, hhost.symm, rfl⟩

omit [DecidableEq κ] in
theorem shows_eq_none : shows D s a = none ↔ ¬D a.conn := by simp [shows]

/-- The requests of a connection are seen. -/
theorem requests_seen {c : κ} {start : Session κ Env Host Run → Prop}
    (hl : (sessions version did ev start).exec s l₁ = some s') :
    l₁.flatMap (SessionStep.requests c) =
      ((sessions version did ev start).seen (shows (· = c)) s l₁).flatMap
        fun x => x.2.requests c := by
  induction l₁ generalizing s with
  | nil => rfl
  | cons a l ih =>
    obtain ⟨t, ht, hl⟩ := Option.bind_eq_some_iff.1 hl
    rw [System.seen_cons ht, List.flatMap_cons, List.flatMap_append, ih hl]
    congr 1
    by_cases ha : a.conn = c
    · simp [shows, ha]
    · have hnone : a.requests c = [] := by
        cases a <;> simp_all [SessionStep.requests, SessionStep.conn]
      simp [shows, ha, hnone]

/-- The unwinding of a connection that does not read the shared environment. -/
theorem unwinding_conn (start : Session κ Env Host Run → Prop) (c : κ) :
    (sessions version did ev start).Unwinding (shows (· = c))
      (fun a => ∀ r ∈ a.requests c, ¬r.ReadsShared)
      (fun s => Inv s ∧ (s.conn c).phase.Private) (fun s => s.conn c) where
  keep hs ha h := by
    refine ⟨inv_next hs.1 h, (takes_of_next hs.1 h).private_phase hs.2 ?_⟩
    exact fun id source isolated hmem => EvalJob.private_of_not_reads (ha _ hmem)
  hidden hs ha hobs h := (takes_of_next hs.1 h).conn_of_ne (Ne.symm (shows_eq_none.1 hobs))
  shown hs ht ha hb hobs hobs' hpart h h' := by
    obtain ⟨rfl, hhost, rfl⟩ := eq_of_shows hobs hobs'
    refine ((takes_of_next hs.1 h).congr (takes_of_next ht.1 h') hhost hpart ?_).1
    exact .inr ⟨hs.2, fun hmem => ha _ hmem trivial⟩

/-- Two runs in which a connection, that reads the shared environment in neither, takes the
    same steps and finds the same host at each of them: the same is sent on it, whatever the
    others did, and whenever. -/
theorem isolated_unaffected {c : κ} (h₁ : Initial s₁) (h₂ : Initial s₂)
    (hl₁ : (sessions version did ev Initial).exec s₁ l₁ = some t₁)
    (hl₂ : (sessions version did ev Initial).exec s₂ l₂ = some t₂)
    (hc : ∀ r ∈ l₁.flatMap (SessionStep.requests c), ¬r.ReadsShared)
    (hseen : (sessions version did ev Initial).seen (shows (· = c)) s₁ l₁ =
      (sessions version did ev Initial).seen (shows (· = c)) s₂ l₂) :
    t₁.conn c = t₂.conn c := by
  have hc₂ : ∀ r ∈ l₂.flatMap (SessionStep.requests c), ¬r.ReadsShared := by
    rwa [requests_seen hl₂, ← hseen, ← requests_seen hl₁]
  have hidle : ∀ s : Session κ Env Host Run, Initial s → Inv s ∧ (s.conn c).phase.Private :=
    fun s hs => ⟨inv_initial hs, by rw [hs.1]; trivial⟩
  have hlabels : ∀ l : List (SessionStep κ Input),
      (∀ r ∈ l.flatMap (SessionStep.requests c), ¬r.ReadsShared) →
      ∀ a ∈ l, ∀ r ∈ a.requests c, ¬r.ReadsShared :=
    fun l hl a ha r hr => hl r (List.mem_flatMap.2 ⟨a, ha, hr⟩)
  exact (unwinding_conn Initial c).part_eq (hidle s₁ h₁) (hidle s₂ h₂) (hlabels l₁ hc)
    (hlabels l₂ hc₂) hl₁ hl₂ hseen (by rw [h₁.1, h₂.1])

/-- An evaluator that counts the evaluations in an environment, and displays their number. -/
def counter : Evaluator Nat Unit Unit Unit Unit where
  start _ env _ := ⟨env + 1, (), [toString (env + 1)], .inr (.ok ())⟩
  resume _ env _ _ := ⟨env, (), [], .inr (.ok ())⟩
  evalDot _ host := (host, [], .ok ())
  sessionEnv := 0
  newRoot := 0
  dumpEnvSource := toString
  isNil _ := true
  display _ := ""

/-- Two connections, before any evaluation. -/
def uncounted : Session Bool Nat Unit Unit where
  conn _ := ⟨.idle, none, [], []⟩
  heap _ := 0
  current := 0
  host := ()
  lock := none
  sink := none
  stdout := []

theorem initial_uncounted : Initial uncounted := ⟨fun _ => rfl, rfl, rfl⟩

/-- An evaluation, in the environment of its connection or in the shared one. -/
def counted (c : Bool) (isolated : Bool) : List (SessionStep Bool Unit) :=
  [.receive c (.eval 1 "" isolated), .acquire c]

/-- An isolated connection counts its own evaluations, the other one those in the shared
    environment, which is reset meanwhile. -/
theorem isolated_unaffected_counter : ∃ t₁ t₂,
    (sessions "" "" counter Initial).exec uncounted (counted true true) = some t₁ ∧
    (sessions "" "" counter Initial).exec uncounted
      (counted false false ++ [.receive false .reset] ++ counted true true ++
        counted false false) = some t₂ ∧
    t₁.conn true = t₂.conn true ∧
    (t₁.conn true).out = [.display 1 "1", .evalResult 1 (.ok none)] := by
  obtain ⟨t₁, h₁⟩ : ∃ t, (sessions "" "" counter Initial).exec uncounted (counted true true) =
      some t := ⟨_, rfl⟩
  obtain ⟨t₂, h₂⟩ : ∃ t, (sessions "" "" counter Initial).exec uncounted
      (counted false false ++ [.receive false .reset] ++ counted true true ++
        counted false false) = some t := ⟨_, rfl⟩
  refine ⟨t₁, t₂, h₁, h₂, isolated_unaffected initial_uncounted initial_uncounted h₁ h₂ ?_ rfl, ?_⟩
  · simp [counted, SessionStep.requests, Request.ReadsShared]
  · obtain rfl := Option.some.inj h₁
    rfl

/-- The unwinding of some connections, and the shared environment, of which the others only
    read. -/
theorem unwinding_shared (start : Session κ Env Host Run → Prop) :
    (sessions version did ev start).Unwinding (shows D)
      (fun a => ¬D a.conn → ∀ r ∈ a.requests a.conn, ¬r.WritesShared)
      (fun s => Inv s ∧ ∀ c, ¬D c → (s.conn c).phase.Private)
      (fun s => ((fun d : {d // D d} => s.conn d), s.heap, s.current)) where
  keep := by
    intro s s' a hs ha h
    have htakes := takes_of_next hs.1 h
    refine ⟨inv_next hs.1 h, fun c hc => htakes.private_phase (hs.2 c hc) ?_⟩
    intro id source isolated hmem
    obtain rfl : a.conn = c := by
      cases a with
      | receive d request =>
        by_contra hne
        simp [SessionStep.requests, show d ≠ c from hne] at hmem
      | _ => simp [SessionStep.requests] at hmem
    exact EvalJob.private_of_not_reads (ha hc _ hmem)
  hidden := by
    intro s s' a hs ha hobs h
    have htakes := takes_of_next hs.1 h
    have ha' := shows_eq_none.1 hobs
    obtain ⟨hheap, hcurrent⟩ :=
      htakes.shared_of_private (hs.2 _ ha') fun hmem => ha ha' _ hmem trivial
    have hconn : ∀ d : {d // D d}, s'.conn d = s.conn d := fun d =>
      htakes.conn_of_ne fun heq => ha' (heq ▸ d.2)
    simp only [hconn, hheap, hcurrent]
  shown := by
    intro s s' t t' a b o hs ht ha hb hobs hobs' hpart h h'
    obtain ⟨hD, hhost, rfl⟩ := eq_of_shows hobs hobs'
    simp only [Prod.mk.injEq] at hpart
    obtain ⟨hconns, hheap, hcurrent⟩ := hpart
    have htakes := takes_of_next hs.1 h
    have htakes' := takes_of_next ht.1 h'
    obtain ⟨hconn, hshared⟩ :=
      htakes.congr htakes' hhost (congrFun hconns ⟨_, hD⟩) (.inl ⟨hheap, hcurrent⟩)
    obtain ⟨hheap', hcurrent'⟩ := hshared hheap hcurrent
    have hconns' : (fun d : {d // D d} => s'.conn d) = fun d : {d // D d} => t'.conn d := by
      funext d
      rcases eq_or_ne d.1 a.conn with hd | hd
      · rw [hd, hconn]
      · rw [htakes.conn_of_ne hd, htakes'.conn_of_ne hd]
        exact congrFun hconns d
    rw [hconns', hheap', hcurrent']

/-- Two runs in which the connections `D` take the same steps and find the same host at each
    of them, and none of the other connections changes the shared environment: the same is
    sent on the connections `D`, and the shared environments end the same. -/
theorem others_unaffected (h₁ : Initial s₁) (h₂ : Initial s₂) (hheap : s₁.heap = s₂.heap)
    (hcurrent : s₁.current = s₂.current)
    (hl₁ : (sessions version did ev Initial).exec s₁ l₁ = some t₁)
    (hl₂ : (sessions version did ev Initial).exec s₂ l₂ = some t₂)
    (hothers : ∀ a ∈ l₁ ++ l₂, ¬D a.conn → ∀ r ∈ a.requests a.conn, ¬r.WritesShared)
    (hseen : (sessions version did ev Initial).seen (shows D) s₁ l₁ =
      (sessions version did ev Initial).seen (shows D) s₂ l₂) :
    (∀ d, D d → t₁.conn d = t₂.conn d) ∧ t₁.heap = t₂.heap ∧ t₁.current = t₂.current := by
  have hidle : ∀ s : Session κ Env Host Run, Initial s →
      Inv s ∧ ∀ c, ¬D c → (s.conn c).phase.Private :=
    fun s hs => ⟨inv_initial hs, fun c _ => by rw [hs.1]; trivial⟩
  rw [List.forall_mem_append] at hothers
  have hpart := (unwinding_shared Initial).part_eq (hidle s₁ h₁) (hidle s₂ h₂) hothers.1
    hothers.2 hl₁ hl₂ hseen (by simp only [h₁.1, h₂.1, hheap, hcurrent])
  simp only [Prod.mk.injEq] at hpart
  exact ⟨fun d hd => congrFun hpart.1 ⟨d, hd⟩, hpart.2⟩

/-- The shared environment counts the evaluations in it, and no others. -/
theorem others_unaffected_counter : ∃ t₁ t₂,
    (sessions "" "" counter Initial).exec uncounted
      (counted true false ++ [.receive true .dumpEnv]) = some t₁ ∧
    (sessions "" "" counter Initial).exec uncounted
      (counted false true ++ counted true false ++ counted false true ++
        [.receive true .dumpEnv]) = some t₂ ∧
    t₁.conn true = t₂.conn true ∧ t₁.heap 0 = t₂.heap 0 ∧ t₁.heap 0 = 1 := by
  obtain ⟨t₁, h₁⟩ : ∃ t, (sessions "" "" counter Initial).exec uncounted
      (counted true false ++ [.receive true .dumpEnv]) = some t := ⟨_, rfl⟩
  obtain ⟨t₂, h₂⟩ : ∃ t, (sessions "" "" counter Initial).exec uncounted
      (counted false true ++ counted true false ++ counted false true ++
        [.receive true .dumpEnv]) = some t := ⟨_, rfl⟩
  obtain ⟨hconn, hheap, -⟩ := others_unaffected (D := (· = true)) initial_uncounted
    initial_uncounted rfl rfl h₁ h₂
    (by simp [counted, SessionStep.requests, SessionStep.conn, Request.WritesShared]) rfl
  refine ⟨t₁, t₂, h₁, h₂, hconn true rfl, by rw [hheap], ?_⟩
  obtain rfl := Option.some.inj h₁
  rfl

end Isolation

end Session

end Daemon

end Zscheme
