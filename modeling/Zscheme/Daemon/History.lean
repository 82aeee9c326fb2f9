import Mathlib.Data.List.Pairwise
import Zscheme.Daemon.Session

/-!
# What a connection has been answered

A step changes one connection, in one of few ways (`Conn.Moves`). Hence what has been sent
on a connection only grows, each request other than an evaluation got the reply that is
due to it (`Exchange.Due`), and the frames about an evaluation are those of the exchange
with its id, if ids are used once (`about_history`).
-/

namespace Zscheme

namespace Ipc

/-- The id of the evaluation that is asked for. -/
def Request.id? : Request → Option UInt64
  | eval id _ _ => some id
  | _ => none

/-- The id of the evaluation that a response is about. -/
def Response.id? : Response → Option UInt64
  | display id _ => some id
  | evalResult id _ => some id
  | _ => none

end Ipc

namespace Daemon

open Ipc

variable {κ Env Host Run Input Val : Type*} {version did : String}
  {ev : Evaluator Env Host Run Input Val}

variable (version did) in
/-- The reply is due to the request. -/
def Due : Request → Response → Prop
  | .hello _, r => r = .helloAck version did
  | .eval .., _ => False
  | .ping, r => r = .pong
  | .stop, r => r = .stopping
  | .reset, r => r = .resetDone
  | .dumpEnv, r => ∃ source, r = .envDump source

variable (version did) in
/-- A request other than an evaluation got the reply that is due. -/
def Exchange.Due : Exchange → Prop
  | eval .. => True
  | other request reply => Daemon.Due version did request reply

variable (version did ev) in
/-- What a step does to the connection that takes it. -/
inductive Conn.Moves (k : Conn Env Run) : Conn Env Run → Prop
  | reply {request : Request} {r : Response} (hphase : k.phase = .idle)
      (hdue : Due version did request r) : Moves k (k.reply request r)
  | wait (hphase : k.phase = .idle) (job : EvalJob) : Moves k { k with phase := .waiting job }
  | start {job : EvalJob} (hphase : k.phase = .waiting job) (target : Target)
      (p : Progress Env Host Run Val) : Moves k (k.progress ev job target [] p)
  | dotLine {job : EvalJob} (hphase : k.phase = .waiting job) (host : Host) :
      Moves k (k.dotLine ev job host)
  | progress {job : EvalJob} {target : Target} {run : Run} {before : List String}
      (hphase : k.phase = .evaluating job target run before) (p : Progress Env Host Run Val) :
      Moves k (k.progress ev job target before p)
  | close (hphase : k.phase = .idle) : Moves k { k with phase := .closed }

namespace Session

variable [DecidableEq κ] {s s' : Session κ Env Host Run} {a : SessionStep κ Input}

/-- A step changes one connection. -/
theorem conn_next (hs : Inv s) (h : next version did ev s a = some s') :
    ∃ k, s'.conn = Function.update s.conn a.conn k ∧
      (s.conn a.conn).Moves version did ev k := by
  cases a with
  | receive c request =>
    simp only [next] at h
    split at h
    · rename_i hc
      obtain rfl := Option.some.inj h
      cases request with
      | eval id source isolated => exact ⟨_, rfl, .wait hc _⟩
      | dumpEnv => exact ⟨_, rfl, .reply hc ⟨_, rfl⟩⟩
      | _ => exact ⟨_, rfl, .reply hc rfl⟩
    · cases h
  | acquire c =>
    simp only [next] at h
    split at h
    · rename_i job hc hlock
      obtain rfl := Option.some.inj h
      rcases Bool.eq_false_or_eq_true (isDotCommandLine job.source) with hdot | hdot
      · rw [evalRequest_of_dot hdot]
        exact ⟨_, rfl, .dotLine hc _⟩
      · rw [evalRequest_of_not_dot hdot c rfl]
        exact ⟨_, rfl, .start hc _ _⟩
    · cases h
  | resume c input =>
    simp only [next] at h
    split at h
    · rename_i job target run displayed hc
      obtain rfl := Option.some.inj h
      rw [advance_eq (hs.sink c job (by rw [hc]; rfl))]
      exact ⟨_, rfl, .progress hc _⟩
    · cases h
  | close c =>
    simp only [next] at h
    split at h
    · rename_i hc
      obtain rfl := Option.some.inj h
      exact ⟨_, rfl, .close hc⟩
    · cases h

end Session

/-! ## Growth -/

namespace Conn

variable {k k' : Conn Env Run}

theorem history_reply (k : Conn Env Run) (request : Request) (r : Response) :
    (k.reply request r).history = k.history ++ [.other request r] := rfl

/-- What has been sent is not taken back, and neither is what has been handled. -/
theorem Moves.grows (h : k.Moves version did ev k') :
    k.out <+: k'.out ∧ k.history <+: k'.history := by
  cases h with
  | reply hphase hdue => exact ⟨List.prefix_append _ _, List.prefix_append _ _⟩
  | wait | close => exact ⟨List.prefix_rfl, List.prefix_rfl⟩
  | dotLine hphase host =>
    simp only [Conn.dotLine, List.append_assoc]
    exact ⟨List.prefix_append _ _, List.prefix_append _ _⟩
  | start hphase target p | progress hphase p =>
    rcases hn : p.next with run | result
    · simp only [Conn.progress, hn]
      exact ⟨List.prefix_append _ _, List.prefix_rfl⟩
    · simp only [Conn.progress, hn, List.append_assoc]
      exact ⟨List.prefix_append _ _, List.prefix_append _ _⟩

/-- Replies stay those that are due. -/
theorem Moves.due (h : k.Moves version did ev k')
    (hk : ∀ x ∈ k.history, x.Due version did) : ∀ x ∈ k'.history, x.Due version did := by
  cases h with
  | reply hphase hdue =>
    rw [history_reply, List.forall_mem_append]
    exact ⟨hk, by simpa [Exchange.Due] using hdue⟩
  | wait | close => exact hk
  | dotLine hphase host =>
    simp only [Conn.dotLine, List.forall_mem_append]
    exact ⟨hk, by simp [Exchange.Due]⟩
  | start hphase target p | progress hphase p =>
    rcases hn : p.next with run | result
    · simpa only [Conn.progress, hn] using hk
    · simp only [Conn.progress, hn, List.forall_mem_append]
      exact ⟨hk, by simp [Exchange.Due]⟩

end Conn

namespace Session

variable [DecidableEq κ] {s s' : Session κ Env Host Run} {a : SessionStep κ Input}

/-- A property of connections that every move keeps is kept by every step. -/
theorem forall_conn_next {P : Conn Env Run → Prop}
    (hP : ∀ k k', k.Moves version did ev k' → P k → P k') (hs : Inv s)
    (h : next version did ev s a = some s') (c : κ) (hc : P (s.conn c)) : P (s'.conn c) := by
  obtain ⟨k, hconn, hmoves⟩ := conn_next hs h
  rw [hconn]
  rcases eq_or_ne c a.conn with rfl | hne
  · rw [Function.update_self]
    exact hP _ _ hmoves hc
  · rwa [Function.update_of_ne hne]

theorem grows_next (hs : Inv s) (h : next version did ev s a = some s') (c : κ) :
    (s.conn c).out <+: (s'.conn c).out ∧ (s.conn c).history <+: (s'.conn c).history := by
  obtain ⟨k, hconn, hmoves⟩ := conn_next hs h
  rw [hconn]
  rcases eq_or_ne c a.conn with rfl | hne
  · rw [Function.update_self]
    exact hmoves.grows
  · rw [Function.update_of_ne hne]
    exact ⟨List.prefix_rfl, List.prefix_rfl⟩

end Session

/-! ## Frames about an evaluation -/

/-- The frames of an exchange are about its evaluation, if it is one. -/
theorem Exchange.about {x : Exchange} (h : x.Due version did) {r : Response} (hr : r ∈ x.frames) :
    r.id? = x.request.id? := by
  cases x with
  | eval job displayed outcome =>
    simp only [frames, List.mem_append, List.mem_map, List.mem_singleton] at hr
    rcases hr with ⟨text, -, rfl⟩ | rfl <;> rfl
  | other request reply =>
    obtain rfl : r = reply := by simpa [frames] using hr
    cases request with
    | eval => exact h.elim
    | dumpEnv =>
      obtain ⟨source, rfl⟩ := h
      rfl
    | _ =>
      cases h
      rfl

theorem Exchange.filter_frames {x : Exchange} (h : x.Due version did) (id : UInt64) :
    x.frames.filter (·.id? = some id) = if x.request.id? = some id then x.frames else [] := by
  split_ifs with hid
  · exact List.filter_eq_self.2 fun r hr => by simpa [x.about h hr] using hid
  · exact List.filter_eq_nil_iff.2 fun r hr => by simpa [x.about h hr] using hid

theorem filter_flatMap_frames {xs : List Exchange} (h : ∀ x ∈ xs, x.Due version did) {id : UInt64}
    (hid : id ∉ (xs.map Exchange.request).filterMap Request.id?) :
    (xs.flatMap Exchange.frames).filter (·.id? = some id) = [] := by
  rw [List.filter_eq_nil_iff]
  intro r hr
  obtain ⟨x, hx, hr⟩ := List.mem_flatMap.1 hr
  rw [x.about (h x hx) hr]
  intro heq
  exact hid (List.mem_filterMap.2 ⟨_, List.mem_map_of_mem hx, by simpa using heq⟩)

/-- With ids that are used once, the frames about an evaluation are those of its exchange. -/
theorem about_history {xs : List Exchange} (h : ∀ x ∈ xs, x.Due version did)
    (hids : ((xs.map Exchange.request).filterMap Request.id?).Nodup) {job : EvalJob}
    {displayed : List String} {outcome : Outcome} (hx : .eval job displayed outcome ∈ xs) :
    (xs.flatMap Exchange.frames).filter (·.id? = some job.id) =
      (Exchange.eval job displayed outcome).frames := by
  obtain ⟨before, after, rfl⟩ := List.append_of_mem hx
  rw [List.forall_mem_append, List.forall_mem_cons] at h
  simp only [List.map_append, List.map_cons, List.filterMap_append] at hids
  have hjob : (Exchange.eval job displayed outcome).request.id? = some job.id := rfl
  rw [List.filterMap_cons_some hjob, List.nodup_append, List.nodup_cons] at hids
  obtain ⟨-, ⟨hafter, -⟩, hbefore⟩ := hids
  have hbefore' : job.id ∉ (before.map Exchange.request).filterMap Request.id? := fun hmem =>
    hbefore _ hmem _ List.mem_cons_self rfl
  rw [List.flatMap_append, List.flatMap_cons, List.filter_append, List.filter_append,
    filter_flatMap_frames h.1 hbefore', filter_flatMap_frames h.2.2 hafter,
    Exchange.filter_frames h.2.1, if_pos hjob]
  simp

/-- An element that is read off a list of distinct readings is the only one that gives it. -/
theorem eq_of_nodup_filterMap {α β : Type*} {f : α → Option β} {l : List α}
    (hl : (l.filterMap f).Nodup) {x y : α} {b : β} (hx : x ∈ l) (hy : y ∈ l) (hfx : f x = some b)
    (hfy : f y = some b) : x = y := by
  have hsymm : Std.Symm fun x y => ∀ b, f x = some b → ∀ b', f y = some b' → b ≠ b' :=
    ⟨fun x y h b hb b' hb' => (h b' hb' b hb).symm⟩
  by_contra hne
  exact (List.pairwise_filterMap.1 hl).forall hx hy hne b hfx b hfy rfl

namespace Conn

variable {k : Conn Env Run}

/-- What is sent about an evaluation was asked for. -/
theorem id_mem_requests (hsent : k.Sent) (hdue : ∀ x ∈ k.history, x.Due version did) {r : Response}
    (hr : r ∈ k.out) {id : UInt64} (hid : r.id? = some id) :
    id ∈ k.requests.filterMap Request.id? := by
  rw [requests, List.filterMap_append, List.mem_append]
  rw [hsent, List.mem_append] at hr
  rcases hr with hr | hr
  · obtain ⟨x, hx, hr⟩ := List.mem_flatMap.1 hr
    rw [x.about (hdue x hx) hr] at hid
    exact .inl (List.mem_filterMap.2 ⟨_, List.mem_map_of_mem hx, hid⟩)
  · cases hk : k.phase with
    | evaluating job target run before =>
      simp only [hk, Phase.frames, List.mem_map] at hr
      obtain ⟨text, -, rfl⟩ := hr
      cases hid
      exact .inr (by simp [Phase.requests, EvalJob.request, Request.id?])
    | idle | waiting | closed => simp [hk, Phase.frames] at hr

/-- A result is sent for an evaluation that has been handled. -/
theorem handled_of_result (hsent : k.Sent) (hdue : ∀ x ∈ k.history, x.Due version did) {id : UInt64}
    {outcome : Outcome} (hr : .evalResult id outcome ∈ k.out) :
    ∃ job displayed, job.id = id ∧ .eval job displayed outcome ∈ k.history := by
  rw [hsent, List.mem_append] at hr
  rcases hr with hr | hr
  · obtain ⟨x, hx, hr⟩ := List.mem_flatMap.1 hr
    cases x with
    | eval job displayed o =>
      simp only [Exchange.frames, List.mem_append, List.mem_map, List.mem_singleton] at hr
      rcases hr with ⟨text, -, htext⟩ | hr
      · cases htext
      · cases hr
        exact ⟨job, displayed, rfl, hx⟩
    | other request reply =>
      have hdue' := hdue _ hx
      obtain rfl : _ = reply := by simpa [Exchange.frames] using hr
      cases request with
      | eval => exact hdue'.elim
      | dumpEnv =>
        obtain ⟨source, hsource⟩ := hdue'
        cases hsource
      | _ => cases hdue'
  · cases hphase : k.phase <;> simp [hphase, Phase.frames] at hr

/-- What has been sent about an evaluation that has been handled. -/
theorem about_out (hsent : k.Sent) (hdue : ∀ x ∈ k.history, x.Due version did)
    (hids : (k.requests.filterMap Request.id?).Nodup) {job : EvalJob} {displayed : List String}
    {outcome : Outcome} (hx : .eval job displayed outcome ∈ k.history) :
    k.out.filter (·.id? = some job.id) = (Exchange.eval job displayed outcome).frames := by
  rw [requests, List.filterMap_append, List.nodup_append] at hids
  obtain ⟨hhistory, -, hphase⟩ := hids
  have hjob : job.id ∈ (k.history.map Exchange.request).filterMap Request.id? :=
    List.mem_filterMap.2 ⟨_, List.mem_map_of_mem hx, rfl⟩
  -- the evaluation under way has another id
  have hnone : k.phase.frames.filter (·.id? = some job.id) = [] := by
    rw [List.filter_eq_nil_iff]
    intro r hr
    cases hk : k.phase with
    | evaluating job' target run before =>
      simp only [hk, Phase.frames, List.mem_map] at hr
      obtain ⟨text, -, rfl⟩ := hr
      have hne := hphase _ hjob job'.id (by simp [hk, Phase.requests, EvalJob.request, Request.id?])
      simpa [Response.id?] using hne.symm
    | idle | waiting | closed => simp [hk, Phase.frames] at hr
  rw [hsent, List.filter_append, about_history hdue hhistory hx, hnone, List.append_nil]

/-- Requests that are no evaluations are answered by acknowledgements alone. -/
theorem due_of_no_id (hsent : k.Sent) (hdue : ∀ x ∈ k.history, x.Due version did)
    (hids : k.requests.filterMap Request.id? = []) {r : Response} (hr : r ∈ k.out) :
    ∃ request ∈ k.requests, Due version did request r := by
  rw [requests, List.filterMap_append, List.append_eq_nil_iff, List.filterMap_eq_nil_iff,
    List.filterMap_eq_nil_iff] at hids
  obtain ⟨hhistory, hphase⟩ := hids
  rw [hsent, List.mem_append] at hr
  rcases hr with hr | hr
  · obtain ⟨x, hx, hr⟩ := List.mem_flatMap.1 hr
    cases x with
    | eval job displayed o => cases hhistory _ (List.mem_map_of_mem hx)
    | other request reply =>
      obtain rfl : r = reply := by simpa [Exchange.frames] using hr
      exact ⟨request, List.mem_append_left _ (List.mem_map.2 ⟨_, hx, rfl⟩), hdue _ hx⟩
  · cases hk : k.phase with
    | evaluating job target run before => cases hphase job.request (by simp [hk, Phase.requests])
    | idle | waiting | closed => simp [hk, Phase.frames] at hr

end Conn

end Daemon

end Zscheme
