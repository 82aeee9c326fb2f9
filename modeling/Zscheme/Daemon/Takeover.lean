import Mathlib.Logic.Function.Basic
import Zscheme.Lib.System

/-!
# Starting, taking over and shutting down

The life of a daemon process, as `daemon::run` has it:

* `claim_socket` checks whether the socket path exists; if a daemon accepts
  connections there, it is asked to stop and the path is polled until it is gone;
  if none does, the file is taken for stale and removed;
* the session image is read, if there is one, and the socket is bound;
* the accept loop runs, until a client or a signal stops it;
* the socket file is removed, and the session image is written.

Any number of processes take these steps, interleaved in any order: every system
call on the socket path or on an image file is a step of its own. A process may
also fail or be killed at any point.

* `exclusive_of_noTheft`: at most one daemon serves, and the socket path is its own, as long as
  no `claim_socket` removes the socket of a daemon that is running;
* `both_serve`: two processes that find the same stale file;
* `handsOver`: the session is handed over, if the image is not read before the old
  daemon has written it;
* `session_lost`: the image is read as soon as the path is gone.
-/

namespace Zscheme.Daemon

/-- What is at the socket path. -/
inductive Socket (ι : Type*)
  | absent
  /-- The socket file of a process that is gone. -/
  | stale
  /-- The socket file bound by a process. -/
  | boundBy (i : ι)
  deriving DecidableEq

/-- How far a daemon process has got. -/
inductive Pc (ι : Type*)
  | idle
  /-- About to check whether the path exists. -/
  | checking
  | connecting
  /-- Connected to the daemon `j`. -/
  | connected (j : ι)
  /-- `Stop` is written, and a reply is awaited. -/
  | asked (j : ι)
  /-- `Stopping` has been sent in reply. -/
  | answered
  /-- Polling the path, with a number of ticks left. -/
  | waiting (left : Nat)
  | removing
  /-- `claim_socket` has returned. -/
  | claimed
  /-- The session image is read. -/
  | loaded
  /-- The socket file exists, and does not listen yet. -/
  | bound
  /-- In the accept loop. -/
  | serving
  /-- The accept loop is left. -/
  | leaving
  /-- The socket file is removed. -/
  | unlinked
  | dumped (image : String)
  /-- The image file is open, and truncated. -/
  | saving (image : String)
  /-- `run` has returned, and dropped its listener. -/
  | closing
  /-- `run` has failed, or the process was killed. -/
  | failed
  deriving DecidableEq

/-- The process has a listening socket. -/
def Pc.listens {ι : Type*} : Pc ι → Bool
  | serving | leaving | unlinked | dumped _ | saving _ => true
  | _ => false

/-- The process has bound the socket path, and not removed its file since. -/
def Pc.holds {ι : Type*} : Pc ι → Bool
  | bound | serving | leaving => true
  | _ => false

/-- The process is running, and has not touched its image file yet. -/
def Pc.beforeWrite {ι : Type*} : Pc ι → Bool
  | saving _ | closing | failed => false
  | _ => true

/-- The state of the processes `ι` and of the files they share. -/
structure Daemons (ι Path Env : Type*) where
  pc : ι → Pc ι
  socket : Socket ι
  /-- The contents of the image files that exist. -/
  files : Path → Option String
  /-- The shared environment of each process. -/
  env : ι → Env
  /-- A stop request waits to be noticed by the accept loop. -/
  notified : ι → Bool
  /-- What each process found at its image path, once it has looked. -/
  loaded : ι → Option (Option String)
  /-- The environment of each process when it left its accept loop. -/
  stopped : ι → Option Env

/-- A step of a process. -/
inductive DaemonStep (ι Env : Type*)
  | start (i : ι)
  /-- `path.exists()`. -/
  | exists (i : ι)
  | connect (i : ι)
  | writeStop (i : ι)
  /-- The daemon asked reads `Stop`. -/
  | handleStop (i : ι)
  | readStopping (i : ι)
  /-- The daemon asked is gone. -/
  | readEof (i : ι)
  | poll (i : ι)
  /-- The last attempt to connect, when all ticks are over. -/
  | reconnect (i : ι)
  /-- `remove_file` of `claim_socket`. -/
  | remove (i : ι)
  | load (i : ι)
  | bind (i : ι)
  | listen (i : ι)
  /-- A client evaluates something. -/
  | evaluate (i : ι) (env : Env)
  /-- A client asks the daemon to stop (`--stop`). -/
  | requestStop (i : ι)
  /-- The accept loop notices a stop request. -/
  | stopNotified (i : ι)
  /-- SIGINT or SIGTERM. -/
  | signal (i : ι)
  /-- `remove_file` at the end of `run`. -/
  | unlink (i : ι)
  | dump (i : ι)
  | truncate (i : ι)
  | write (i : ι)
  /-- An error, or a crash. -/
  | fail (i : ι)

namespace Daemons

section Model

variable {ι Path Env : Type*} [DecidableEq ι] [DecidableEq Path]

/-- The process moves on. -/
def goto (s : Daemons ι Path Env) (i : ι) (p : Pc ι) : Daemons ι Path Env :=
  { s with pc := Function.update s.pc i p }

/-- The accept loop ends. -/
def leave (s : Daemons ι Path Env) (i : ι) : Daemons ι Path Env :=
  { s.goto i .leaving with stopped := Function.update s.stopped i (some (s.env i)) }

/-- The daemon that accepts connections at the socket path, if there is one. -/
def listener (s : Daemons ι Path Env) : Option ι :=
  match s.socket with
  | .boundBy j => if (s.pc j).listens then some j else none
  | _ => none

variable (img : ι → Option Path) (dumpEnvSource : Env → String) (evalSource : String → Env → Env)

/-- The steps of `claim_socket`, `bind_socket` and `run`. -/
def next (s : Daemons ι Path Env) : DaemonStep ι Env → Option (Daemons ι Path Env)
  | .start i => if s.pc i = .idle then some (s.goto i .checking) else none
  | .exists i => if s.pc i = .checking then
      some (s.goto i (if s.socket = .absent then .claimed else .connecting)) else none
  | .connect i => if s.pc i = .connecting then
      some (s.goto i (match s.listener with | some j => .connected j | none => .removing)) else none
  | .writeStop i => match s.pc i with
    | .connected j => some (s.goto i (.asked j))
    | _ => none
  | .handleStop i => match s.pc i with
    | .asked j => if s.pc j = .serving then
        some { s.goto i .answered with notified := Function.update s.notified j true } else none
    | _ => none
  | .readStopping i => if s.pc i = .answered then some (s.goto i (.waiting 50)) else none
  | .readEof i => match s.pc i with
    | .asked j => if (s.pc j).listens then none else some (s.goto i (.waiting 50))
    | _ => none
  | .poll i => match s.pc i with
    | .waiting (n + 1) =>
      some (s.goto i (if s.socket = .absent then .claimed else .waiting n))
    | _ => none
  | .reconnect i => if s.pc i = .waiting 0 then
      some (s.goto i (if s.listener.isSome then .failed else .removing)) else none
  | .remove i => if s.pc i = .removing then
      -- Removing a file that is already gone is an error.
      if s.socket = .absent then some (s.goto i .failed)
      else some { s.goto i .claimed with socket := .absent } else none
  | .load i => if s.pc i = .claimed then
      match img i with
      | none => some (s.goto i .loaded)
      | some path => some { s.goto i .loaded with
          env := match s.files path with
            | some source => Function.update s.env i (evalSource source (s.env i))
            | none => s.env
          loaded := Function.update s.loaded i (some (s.files path)) } else none
  | .bind i => if s.pc i = .loaded then
      if s.socket = .absent then some { s.goto i .bound with socket := .boundBy i }
      else some (s.goto i .failed) else none
  | .listen i => if s.pc i = .bound then some (s.goto i .serving) else none
  | .evaluate i env => if s.pc i = .serving then
      some { s with env := Function.update s.env i env } else none
  | .requestStop i => if s.pc i = .serving then
      some { s with notified := Function.update s.notified i true } else none
  | .stopNotified i => if s.pc i = .serving ∧ s.notified i then some (s.leave i) else none
  | .signal i => if s.pc i = .serving then some (s.leave i) else none
  | .unlink i => if s.pc i = .leaving then
      some { s.goto i .unlinked with socket := .absent } else none
  | .dump i => if s.pc i = .unlinked then
      some (s.goto i (if (img i).isSome then .dumped (dumpEnvSource (s.env i)) else .closing))
      else none
  | .truncate i => match s.pc i, img i with
    | .dumped image, some path => some { s.goto i (.saving image) with
        files := Function.update s.files path (some "") }
    | _, _ => none
  | .write i => match s.pc i, img i with
    | .saving image, some path => some { s.goto i .closing with
        files := Function.update s.files path (some image) }
    | _, _ => none
  | .fail i => if s.pc i = .idle then none else some (s.goto i .failed)

/-- The processes, interleaved in any order from some states. -/
def daemons (start : Daemons ι Path Env → Prop) :
    System (Daemons ι Path Env) (DaemonStep ι Env) where
  init := start
  next := next img dumpEnvSource evalSource

end Model

/-! ## One daemon serves -/

section Exclusive

variable {ι Path Env : Type*} [DecidableEq ι]

/-- Nobody has started yet and nobody listens at the socket path, or one daemon serves
    there. -/
def Start (s : Daemons ι Path Env) : Prop :=
  ((∀ i, s.pc i = .idle) ∧ (s.socket = .absent ∨ s.socket = .stale)) ∨
    ∃ j, s.pc j = .serving ∧ s.socket = .boundBy j ∧ ∀ i, i ≠ j → s.pc i = .idle

/-- At most one daemon is in its accept loop, and the socket path is the one's that is. -/
def Exclusive (s : Daemons ι Path Env) : Prop :=
  (∀ i j, s.pc i = .serving → s.pc j = .serving → i = j) ∧
    ∀ i, s.pc i = .serving → s.socket = .boundBy i

/-- `claim_socket` does not remove the socket file of a daemon that has bound it and not
    yet removed it itself. -/
def NoTheft (s : Daemons ι Path Env) : DaemonStep ι Env → Prop
  | .remove _ => ∀ j, s.socket = .boundBy j → (s.pc j).holds = false
  | _ => True

/-- The socket file of a daemon is at the path from its `bind` to its `remove_file`. -/
def Held (s : Daemons ι Path Env) : Prop := ∀ i, (s.pc i).holds → s.socket = .boundBy i

omit [DecidableEq ι] in
theorem held_of_start {s : Daemons ι Path Env} (h : Start s) : Held s := by
  intro i hi
  obtain ⟨hidle, -⟩ | ⟨j, hj, hsock, hidle⟩ := h
  · rw [hidle i] at hi
    exact nomatch hi
  · rcases eq_or_ne i j with rfl | hij
    · exact hsock
    · rw [hidle i hij] at hi
      exact nomatch hi

omit [DecidableEq ι] in
theorem Held.exclusive {s : Daemons ι Path Env} (hs : Held s) : Exclusive s := by
  have hown : ∀ i, s.pc i = .serving → s.socket = .boundBy i := fun i hi =>
    hs i (by rw [hi]; rfl)
  refine ⟨fun i j hi hj => ?_, hown⟩
  exact Socket.boundBy.inj ((hown i hi).symm.trans (hown j hj))

@[simp] theorem goto_pc (s : Daemons ι Path Env) (i : ι) (p : Pc ι) :
    (s.goto i p).pc = Function.update s.pc i p := rfl

@[simp] theorem leave_pc (s : Daemons ι Path Env) (i : ι) :
    (s.leave i).pc = Function.update s.pc i .leaving := rfl

/-- Moving on to where no socket is held, unless it already was. -/
theorem holds_goto {s : Daemons ι Path Env} {i : ι} {p : Pc ι}
    (hp : p.holds → (s.pc i).holds) (j : ι) (hj : ((s.goto i p).pc j).holds) :
    (s.pc j).holds := by
  rcases eq_or_ne j i with rfl | hij
  · rw [goto_pc, Function.update_self] at hj
    exact hp hj
  · rw [goto_pc, Function.update_of_ne hij] at hj
    exact hj

variable [DecidableEq Path] {img : ι → Option Path} {dumpEnvSource : Env → String}
  {evalSource : String → Env → Env}

/-- What a step can do to the socket path: nothing, and then no more sockets are held
    than before; or remove a file, or create one, or remove its own. -/
theorem next_cases {s s' : Daemons ι Path Env} {a : DaemonStep ι Env}
    (h : next img dumpEnvSource evalSource s a = some s') :
    (s'.socket = s.socket ∧ ∀ j, (s'.pc j).holds → (s.pc j).holds) ∨
    (∃ i, a = .remove i ∧ s.pc i = .removing ∧ s' = { s.goto i .claimed with socket := .absent }) ∨
    (∃ i, a = .bind i ∧ s.socket = .absent ∧
      s' = { s.goto i .bound with socket := .boundBy i }) ∨
    ∃ i, a = .unlink i ∧ s.pc i = .leaving ∧
      s' = { s.goto i .unlinked with socket := .absent } := by
  cases a with
  | remove i =>
    obtain ⟨hi, h⟩ := Option.ite_none_right_eq_some.1 h
    split at h <;> obtain rfl := Option.some.inj h
    · exact .inl ⟨rfl, holds_goto nofun⟩
    · exact .inr (.inl ⟨i, rfl, hi, rfl⟩)
  | bind i =>
    obtain ⟨-, h⟩ := Option.ite_none_right_eq_some.1 h
    split at h <;> rename_i hsock <;> obtain rfl := Option.some.inj h
    · exact .inr (.inr (.inl ⟨i, rfl, hsock, rfl⟩))
    · exact .inl ⟨rfl, holds_goto nofun⟩
  | unlink i =>
    obtain ⟨hi, h⟩ := Option.ite_none_right_eq_some.1 h
    exact .inr (.inr (.inr ⟨i, rfl, hi, (Option.some.inj h).symm⟩))
  | start i | readStopping i =>
    obtain ⟨-, h⟩ := Option.ite_none_right_eq_some.1 h
    exact .inl (Option.some.inj h ▸ ⟨rfl, holds_goto nofun⟩)
  -- Steps that look, and then go on or give up: neither place holds the socket.
  | «exists» i | connect i | reconnect i | dump i =>
    obtain ⟨-, h⟩ := Option.ite_none_right_eq_some.1 h
    refine .inl (Option.some.inj h ▸ ⟨rfl, holds_goto fun hp => ?_⟩)
    split at hp <;> exact nomatch hp
  | poll i =>
    simp only [next] at h
    split at h
    · refine .inl (Option.some.inj h ▸ ⟨rfl, holds_goto fun hp => ?_⟩)
      split at hp <;> exact nomatch hp
    · exact nomatch h
  | writeStop i =>
    simp only [next] at h
    split at h
    · exact .inl (Option.some.inj h ▸ ⟨rfl, holds_goto nofun⟩)
    · exact nomatch h
  | handleStop i =>
    simp only [next] at h
    split at h
    · obtain ⟨-, h⟩ := Option.ite_none_right_eq_some.1 h
      exact .inl (Option.some.inj h ▸ ⟨rfl, holds_goto nofun⟩)
    · exact nomatch h
  | readEof i =>
    simp only [next] at h
    split at h
    · obtain ⟨-, h⟩ := Option.ite_none_left_eq_some.1 h
      exact .inl (Option.some.inj h ▸ ⟨rfl, holds_goto nofun⟩)
    · exact nomatch h
  | load i =>
    obtain ⟨-, h⟩ := Option.ite_none_right_eq_some.1 h
    split at h <;> exact .inl (Option.some.inj h ▸ ⟨rfl, holds_goto nofun⟩)
  | listen i =>
    obtain ⟨hi, h⟩ := Option.ite_none_right_eq_some.1 h
    exact .inl (Option.some.inj h ▸ ⟨rfl, holds_goto fun _ => by rw [hi]; rfl⟩)
  -- Steps of a session: no daemon changes its place.
  | evaluate i e | requestStop i =>
    obtain ⟨-, h⟩ := Option.ite_none_right_eq_some.1 h
    exact .inl (Option.some.inj h ▸ ⟨rfl, fun _ => id⟩)
  | stopNotified i =>
    obtain ⟨⟨hi, -⟩, h⟩ := Option.ite_none_right_eq_some.1 h
    exact .inl (Option.some.inj h ▸ ⟨rfl, holds_goto fun _ => by rw [hi]; rfl⟩)
  | signal i =>
    obtain ⟨hi, h⟩ := Option.ite_none_right_eq_some.1 h
    exact .inl (Option.some.inj h ▸ ⟨rfl, holds_goto fun _ => by rw [hi]; rfl⟩)
  | truncate i | write i =>
    simp only [next] at h
    split at h
    · exact .inl (Option.some.inj h ▸ ⟨rfl, holds_goto nofun⟩)
    · exact nomatch h
  | fail i =>
    obtain ⟨-, h⟩ := Option.ite_none_left_eq_some.1 h
    exact .inl (Option.some.inj h ▸ ⟨rfl, holds_goto nofun⟩)

omit [DecidableEq Path] in
/-- A change of the path by the process that holds it, or when nobody does. -/
theorem held_withSocket {s : Daemons ι Path Env} {i : ι} {p : Pc ι} {sock : Socket ι}
    (hother : ∀ j, j ≠ i → (s.pc j).holds = false) (hp : p.holds → sock = .boundBy i) :
    Held { s.goto i p with socket := sock } := by
  intro j hj
  rcases eq_or_ne j i with rfl | hij
  · rw [goto_pc, Function.update_self] at hj
    exact hp hj
  · rw [goto_pc, Function.update_of_ne hij, hother j hij] at hj
    exact nomatch hj

/-- Every step that steals no socket keeps the sockets held. -/
theorem held_next {s s' : Daemons ι Path Env} {a : DaemonStep ι Env} (hs : Held s)
    (hc : NoTheft s a) (h : next img dumpEnvSource evalSource s a = some s') : Held s' := by
  have hnot : ∀ j, s.socket ≠ .boundBy j → (s.pc j).holds = false := fun j hj =>
    Bool.eq_false_iff.2 fun hh => hj (hs j hh)
  obtain ⟨hsock, hpc⟩ | ⟨i, rfl, -, rfl⟩ | ⟨i, rfl, hsock, rfl⟩ | ⟨i, rfl, hi, rfl⟩ := next_cases h
  · intro j hj
    rw [hsock]
    exact hs j (hpc j hj)
  · refine held_withSocket (fun j _ => ?_) nofun
    rcases eq_or_ne s.socket (.boundBy j) with hj | hj
    · exact hc j hj
    · exact hnot j hj
  · refine held_withSocket (fun j _ => hnot j ?_) fun _ => rfl
    rw [hsock]
    exact nofun
  · -- The path is the process's own, so that no other process holds it.
    have hown : s.socket = .boundBy i := hs i (by rw [hi]; rfl)
    refine held_withSocket (fun j hij => hnot j ?_) nofun
    rw [hown]
    exact fun e => hij (Socket.boundBy.inj e).symm

/-- In every run in which no `claim_socket` removes the socket file of a running daemon,
    at most one daemon serves at any time, and the socket path is its own. -/
theorem exclusive_of_noTheft {s : Daemons ι Path Env}
    (h : (daemons img dumpEnvSource evalSource Start).ReachableVia NoTheft s) : Exclusive s :=
  (h.invariant (I := Held) (fun _ => held_of_start) fun _ _ _ => held_next).exclusive

end Exclusive

/-! ## A stale socket, found twice -/

section Stale

/-- Two processes about to start, with a stale file at the socket path and no images. -/
def crashed : Daemons Bool Unit Unit where
  pc _ := .idle
  socket := .stale
  files _ := none
  env _ := ()
  notified _ := false
  loaded _ := none
  stopped _ := none

/-- The steps of a process that removes the file at the path and serves. -/
def replace (i : Bool) : List (DaemonStep Bool Unit) := [.remove i, .load i, .bind i, .listen i]

/-- Both processes find the stale file, and then each of them removes what is at the
    path by then. -/
def race : List (DaemonStep Bool Unit) :=
  [.start true, .exists true, .connect true, .start false, .exists false, .connect false] ++
    replace true ++ replace false

/-- The processes of the race: they have no image. -/
abbrev racing : System (Daemons Bool Unit Unit) (DaemonStep Bool Unit) :=
  daemons (fun _ => none) (fun _ => "") (fun _ _ => ()) Start

/-- Both processes serve, and the socket path is not the first one's any more. -/
theorem both_serve : ∃ s, racing.Reachable s ∧ s.pc true = .serving ∧ s.pc false = .serving ∧
    s.socket = .boundBy false ∧ ¬Exclusive s :=
  ⟨_, System.reachable_of_exec (s := crashed) (l := race) (.inl ⟨fun _ => rfl, .inr rfl⟩) rfl,
    rfl, rfl, rfl, fun h => nomatch h.1 true false rfl rfl⟩

/-- A process replaces a stale file and serves, and then another one takes its place. -/
theorem exclusive_replace : ∃ s, racing.ReachableVia NoTheft s ∧ s.pc true = .closing ∧
    s.pc false = .serving ∧ Exclusive s :=
  have h₀ : racing.ReachableVia NoTheft crashed := .init (.inl ⟨fun _ => rfl, .inr rfl⟩)
  have h₁ := h₀.run (l := [.start true, .exists true, .connect true]) (by simp [NoTheft]) rfl
  have h₂ := h₁.step (a := DaemonStep.remove true) (fun _ h => nomatch h) rfl
  have h₃ := h₂.run (l := [.load true, .bind true, .listen true, .start false, .exists false,
    .connect false, .writeStop false, .handleStop false, .readStopping false, .stopNotified true,
    .unlink true, .poll false, .load false, .bind false, .listen false, .dump true])
    (by simp [NoTheft]) rfl
  ⟨_, h₃, rfl, rfl, exclusive_of_noTheft h₃⟩

end Stale

/-! ## The session is handed over -/

section HandOver

/-- The two processes of a takeover. -/
inductive Role
  | old
  | new
  deriving DecidableEq

variable {Path Env : Type*}

/-- The old daemon serves at the socket path, and the new process has not started. -/
def Running (s : Daemons Role Path Env) : Prop :=
  s.pc .old = .serving ∧ s.socket = .boundBy .old ∧ s.pc .new = .idle ∧ s.loaded .new = none

/-- The image that the new process has read is the dump of the environment of the old one
    at its stop. -/
def HandsOver (dumpEnvSource : Env → String) (s : Daemons Role Path Env) : Prop :=
  ∀ image, s.loaded .new = some image →
    ∃ env, s.stopped .old = some env ∧ image = some (dumpEnvSource env)

/-- The new process reads the image once the old one has written it. -/
def ReadsAfterSave (s : Daemons Role Path Env) : DaemonStep Role Env → Prop
  | .load .new => s.pc .old = .closing
  | _ => True

/-- What the old daemon has left behind, at each point of its shutdown. -/
def Leaves (dumpEnvSource : Env → String) (path : Path) (s : Daemons Role Path Env) : Prop :=
  match s.pc .old with
  | .serving => s.loaded .new = none
  | .failed => True
  | .leaving | .unlinked => s.stopped .old = some (s.env .old)
  | .dumped image | .saving image =>
    ∃ env, s.stopped .old = some env ∧ image = dumpEnvSource env
  | .closing => ∃ env, s.stopped .old = some env ∧
      ((s.pc .new).beforeWrite → s.files path = some (dumpEnvSource env))
  | _ => False

/-- The invariant of a takeover: what the old daemon has left behind, and what the new
    one has made of it. -/
structure Inv (dumpEnvSource : Env → String) (path : Path) (s : Daemons Role Path Env) : Prop where
  leaves : Leaves dumpEnvSource path s
  handsOver : HandsOver dumpEnvSource s

theorem inv_of_running {dumpEnvSource : Env → String} {path : Path} {s : Daemons Role Path Env}
    (h : Running s) : Inv dumpEnvSource path s where
  leaves := by simp only [Leaves, h.1, h.2.2.2]
  handsOver image hi := by simp [h.2.2.2] at hi

variable {dumpEnvSource : Env → String} {evalSource : String → Env → Env} {path : Path}

/-- A step of the new process that does not read the image. It writes the image only
    past the point where the image still matters. -/
theorem Inv.new {s s' : Daemons Role Path Env} (hs : Inv dumpEnvSource path s) {p : Pc Role}
    (hpc : s'.pc = Function.update s.pc .new p)
    (hp : p.beforeWrite → (s.pc .new).beforeWrite ∧ s'.files = s.files)
    (henv : s'.env .old = s.env .old) (hload : s'.loaded = s.loaded)
    (hstop : s'.stopped .old = s.stopped .old) : Inv dumpEnvSource path s' where
  leaves := by
    have hold : s'.pc .old = s.pc .old := by rw [hpc, Function.update_of_ne (by decide)]
    have hnew : s'.pc .new = p := by rw [hpc, Function.update_self]
    have hl := hs.leaves
    simp only [Leaves] at hl ⊢
    rw [hold, henv, hload, hstop, hnew]
    split at hl
    case h_7 =>
      obtain ⟨env, henv, hfile⟩ := hl
      refine ⟨env, henv, fun h => ?_⟩
      obtain ⟨h₁, h₂⟩ := hp h
      exact h₂ ▸ hfile h₁
    all_goals exact hl
  handsOver := by simpa only [HandsOver, hload, hstop] using hs.handsOver

/-- A step of the old daemon. -/
theorem Inv.old {s s' : Daemons Role Path Env} (hs : Inv dumpEnvSource path s)
    (hload : s'.loaded = s.loaded)
    (hstop : s'.stopped .old = s.stopped .old ∨ s.loaded .new = none)
    (hleaves : Leaves dumpEnvSource path s') : Inv dumpEnvSource path s' where
  leaves := hleaves
  handsOver image hi := by
    rw [hload] at hi
    obtain ⟨env, henv, himage⟩ := hs.handsOver image hi
    rcases hstop with h | h
    · exact ⟨env, h ▸ henv, himage⟩
    · rw [h] at hi
      exact nomatch hi

/-- The old daemon has been serving from the start: it does not claim the socket again. -/
theorem Inv.old_ne {s : Daemons Role Path Env} (hs : Inv dumpEnvSource path s) {p : Pc Role}
    (hp : s.pc .old = p) : p.holds ∨ p.listens ∨ p = .closing ∨ p = .failed := by
  have h := hs.leaves
  subst hp
  simp only [Leaves] at h
  split at h <;> simp_all [Pc.holds, Pc.listens]

/-- The accept loop of a process ends. -/
theorem Inv.leave {s : Daemons Role Path Env} (hs : Inv dumpEnvSource path s) {i : Role}
    (hi : s.pc i = .serving) : Inv dumpEnvSource path (s.leave i) := by
  cases i with
  | old =>
    have hl := hs.leaves
    simp only [Leaves, hi] at hl
    refine hs.old rfl (.inr hl) ?_
    simp [Leaves, Daemons.leave, goto]
  | new =>
    refine hs.new rfl (fun _ => ⟨by rw [hi]; rfl, rfl⟩) rfl rfl ?_
    exact Function.update_of_ne (by decide : Role.old ≠ .new) (some (s.env .new)) s.stopped

variable [DecidableEq Path]

/-- Every step keeps the invariant, if the image is read after it has been written. -/
theorem inv_next {s s' : Daemons Role Path Env} {a : DaemonStep Role Env}
    (hs : Inv dumpEnvSource path s) (hc : ReadsAfterSave s a)
    (h : next (fun _ => some path) dumpEnvSource evalSource s a = some s') :
    Inv dumpEnvSource path s' := by
  -- Before it serves, a process only moves on; the old daemon is past that.
  have hold : ∀ {p}, s.pc .old = p → p.holds = false → p.listens = false → p ≠ .closing →
      p ≠ .failed → Inv dumpEnvSource path s' := fun hp h₁ h₂ h₃ h₄ => by
    simpa [h₁, h₂, h₃, h₄] using hs.old_ne hp
  have hnew : ∀ {p q}, s.pc .new = p → p.beforeWrite → s'.pc = Function.update s.pc .new q →
      s'.files = s.files → s'.env .old = s.env .old → s'.loaded = s.loaded →
      s'.stopped .old = s.stopped .old → Inv dumpEnvSource path s' :=
    fun hp h₁ hpc hf henv hl hst => hs.new hpc (fun _ => ⟨hp ▸ h₁, hf⟩) henv hl hst
  cases a with
  | start i | readStopping i | «exists» i | connect i | reconnect i | listen i =>
    obtain ⟨hi, h⟩ := Option.ite_none_right_eq_some.1 h
    obtain rfl := Option.some.inj h
    cases i with
    | old =>
      first
        | exact hold hi rfl rfl nofun nofun
        | exact absurd hs.leaves (by simp [Leaves, hi])
    | new => exact hnew hi rfl rfl rfl rfl rfl rfl
  | writeStop i | poll i =>
    simp only [next] at h
    split at h
    · rename_i hi
      obtain rfl := Option.some.inj h
      cases i with
      | old => exact hold hi rfl rfl nofun nofun
      | new => exact hnew hi rfl rfl rfl rfl rfl rfl
    · exact nomatch h
  | handleStop i =>
    simp only [next] at h
    split at h
    · rename_i hi
      obtain ⟨-, h⟩ := Option.ite_none_right_eq_some.1 h
      obtain rfl := Option.some.inj h
      cases i with
      | old => exact hold hi rfl rfl nofun nofun
      | new => exact hnew hi rfl rfl rfl rfl rfl rfl
    · exact nomatch h
  | readEof i =>
    simp only [next] at h
    split at h
    · rename_i hi
      obtain ⟨-, h⟩ := Option.ite_none_left_eq_some.1 h
      obtain rfl := Option.some.inj h
      cases i with
      | old => exact hold hi rfl rfl nofun nofun
      | new => exact hnew hi rfl rfl rfl rfl rfl rfl
    · exact nomatch h
  | remove i | bind i =>
    obtain ⟨hi, h⟩ := Option.ite_none_right_eq_some.1 h
    cases i with
    | old => exact hold hi rfl rfl nofun nofun
    | new =>
      split at h <;> obtain rfl := Option.some.inj h <;> exact hnew hi rfl rfl rfl rfl rfl rfl
  | load i =>
    obtain ⟨hi, h⟩ := Option.ite_none_right_eq_some.1 h
    obtain rfl := Option.some.inj h
    cases i with
    | old => exact hold hi rfl rfl nofun nofun
    | new =>
      -- The old daemon has written the image, and the new one has not touched it.
      have hclosing : s.pc .old = .closing := hc
      have hl := hs.leaves
      simp only [Leaves, hclosing, hi] at hl
      obtain ⟨env, henv, hfile⟩ := hl
      have hread := hfile rfl
      refine ⟨?_, fun image himage => ⟨env, henv, ?_⟩⟩
      · simp only [Leaves, goto_pc, Function.update_of_ne (show Role.old ≠ .new by decide),
          hclosing]
        exact ⟨env, henv, fun _ => hread⟩
      · rw [← hread]
        simpa using himage.symm
  | evaluate i env =>
    obtain ⟨hi, h⟩ := Option.ite_none_right_eq_some.1 h
    obtain rfl := Option.some.inj h
    cases i with
    | old =>
      refine hs.old rfl (.inl rfl) ?_
      simpa only [Leaves, hi] using hs.leaves
    | new =>
      exact hnew hi rfl (Function.update_eq_self ..).symm rfl (by simp) rfl rfl
  | requestStop i =>
    obtain ⟨hi, h⟩ := Option.ite_none_right_eq_some.1 h
    obtain rfl := Option.some.inj h
    exact ⟨hs.leaves, hs.handsOver⟩
  | stopNotified i =>
    obtain ⟨⟨hi, -⟩, h⟩ := Option.ite_none_right_eq_some.1 h
    exact Option.some.inj h ▸ hs.leave hi
  | signal i =>
    obtain ⟨hi, h⟩ := Option.ite_none_right_eq_some.1 h
    exact Option.some.inj h ▸ hs.leave hi
  | unlink i =>
    obtain ⟨hi, h⟩ := Option.ite_none_right_eq_some.1 h
    obtain rfl := Option.some.inj h
    cases i with
    | old =>
      have hl := hs.leaves
      simp only [Leaves, hi] at hl
      refine hs.old rfl (.inl rfl) ?_
      simpa [Leaves, goto] using hl
    | new => exact hnew hi rfl rfl rfl rfl rfl rfl
  | dump i =>
    obtain ⟨hi, h⟩ := Option.ite_none_right_eq_some.1 h
    obtain rfl := Option.some.inj h
    cases i with
    | old =>
      have hl := hs.leaves
      simp only [Leaves, hi] at hl
      refine hs.old rfl (.inl rfl) ?_
      simpa [Leaves, goto] using ⟨_, hl, rfl⟩
    | new => exact hnew hi rfl rfl rfl rfl rfl rfl
  | truncate i =>
    simp only [next] at h
    split at h
    · rename_i hi hpath
      obtain rfl := Option.some.inj h
      cases i with
      | old =>
        have hl := hs.leaves
        simp only [Leaves, hi] at hl
        refine hs.old rfl (.inl rfl) ?_
        simpa [Leaves, goto] using hl
      | new => exact hs.new rfl nofun rfl rfl rfl
    · exact nomatch h
  | write i =>
    simp only [next] at h
    split at h
    · rename_i hi hpath
      obtain rfl := Option.some.inj h
      obtain rfl := Option.some.inj hpath
      cases i with
      | old =>
        have hl := hs.leaves
        simp only [Leaves, hi] at hl
        obtain ⟨env, henv, rfl⟩ := hl
        refine hs.old rfl (.inl rfl) ?_
        simpa [Leaves, goto] using ⟨env, henv, fun _ => rfl⟩
      | new => exact hs.new rfl nofun rfl rfl rfl
    · exact nomatch h
  | fail i =>
    obtain ⟨-, h⟩ := Option.ite_none_left_eq_some.1 h
    obtain rfl := Option.some.inj h
    cases i with
    | old => exact hs.old rfl (.inl rfl) (by simp [Leaves, goto])
    | new => exact hs.new rfl nofun rfl rfl rfl

variable (path dumpEnvSource evalSource) in
/-- The old and the new daemon, both started with the same image. -/
abbrev takeover : System (Daemons Role Path Env) (DaemonStep Role Env) :=
  daemons (fun _ => some path) dumpEnvSource evalSource Running

/-- In every run in which the new daemon reads the image once the old one has written it,
    what it reads is the dump of the session as the old one left it. -/
theorem handsOver {s : Daemons Role Path Env}
    (h : (takeover dumpEnvSource evalSource path).ReachableVia ReadsAfterSave s) :
    HandsOver dumpEnvSource s :=
  (h.invariant (fun _ => inv_of_running) fun _ _ _ => inv_next).handsOver

end HandOver

/-! ## A lost session -/

section Lost

/-- A daemon whose session has one definition, and no image file yet. An environment is
    represented by its dump. -/
def session : Daemons Role Unit String where
  pc
    | .old => .serving
    | .new => .idle
  socket := .boundBy .old
  files _ := none
  env
    | .old => "(define x 1)\n"
    | .new => ""
  notified _ := false
  loaded _ := none
  stopped _ := none

/-- The new daemon has the old one stop, and leave its accept loop. -/
def askToStop : List (DaemonStep Role String) :=
  [.start .new, .exists .new, .connect .new, .writeStop .new, .handleStop .new, .readStopping .new,
    .stopNotified .old]

/-- The old daemon removes its socket, and the new one finds the path gone and reads the
    image before the old one has written it. -/
def early : List (DaemonStep Role String) :=
  askToStop ++ [.unlink .old, .poll .new, .load .new, .dump .old, .truncate .old, .write .old]

/-- The new daemon finds no image, although the old one had a session to hand over. -/
theorem session_lost : ∃ s, (takeover id (fun source _ => source) ()).Reachable s ∧
    s.loaded .new = some none ∧ s.stopped .old = some "(define x 1)\n" ∧
    ¬HandsOver id s := by
  refine ⟨_, System.reachable_of_exec (s := session) (l := early) ⟨rfl, rfl, rfl, rfl⟩ rfl, rfl,
    rfl, fun h => ?_⟩
  obtain ⟨env, -, himage⟩ := h none rfl
  exact nomatch himage

/-- The old daemon writes the image before the new one looks at the path again. -/
def patient : List (DaemonStep Role String) :=
  askToStop ++ [.unlink .old, .dump .old, .truncate .old, .write .old, .poll .new]

/-- The new daemon finds the session that the old one saved. -/
theorem handsOver_patient : ∃ s,
    (takeover id (fun source _ => source) ()).ReachableVia ReadsAfterSave s ∧
      s.loaded .new = some (some "(define x 1)\n") ∧ HandsOver id s :=
  have h₀ := (System.ReachableVia.init ⟨rfl, rfl, rfl, rfl⟩ :
    (takeover id (fun source _ => source) ()).ReachableVia ReadsAfterSave session)
  have h₁ := h₀.run (l := patient) (by simp [patient, askToStop, ReadsAfterSave]) rfl
  have h₂ := h₁.step (a := DaemonStep.load .new) (by simp only [ReadsAfterSave]; rfl) rfl
  ⟨_, h₂, rfl, handsOver h₂⟩

end Lost

end Daemons

end Zscheme.Daemon
