import Zscheme.Daemon.Isolation
import Zscheme.Front.Repl
import Zscheme.Front.Script

/-!
# The loop with and without the daemon

`run_repl` evaluates in process (`LocalEval`), or asks a daemon to (`ClientEval`). The
client prints the output of an evaluation as it arrives, and ends the line of the last of
it, where need be, so that the prompt does not overwrite it.

* `prompts_at_line_start`: whatever arrives, and whichever reads and writes fail, each
  evaluation prints texts that were displayed for it only, and ends at the start of a line.
* `repl_with_daemon`: the loop submits, prints and leaves the same with the daemon as
  without it, but for the line ends, as long as no frame is too large.
-/

namespace Zscheme.Front

open Ipc Daemon

/-! ## The client -/

/-- `ends_with('\n')` -/
def endsLine (text : String) : Bool := text.toList.getLast? == some '\n'

/-- What an evaluation has printed, and `dangling_output`. -/
structure Output where
  text : String
  dangling : Bool

/-- The output of an evaluation so far, before any. -/
def Output.start : Output := ⟨"", false⟩

/-- Print a text. -/
def Output.print (o : Output) (text : String) : Output :=
  ⟨o.text ++ text, if text.isEmpty then o.dangling else !endsLine text⟩

/-- End the line that is left dangling. -/
def Output.settle (o : Output) : String := if o.dangling then o.text ++ "\n" else o.text

/-- The client of a loop. -/
structure Client where
  nextId : UInt64
  isolated : Bool
  /-- What the calls of `read_frame` will return before the stream ends. After an error the
      next evaluation reads on. -/
  frames : List (Except String Response)
  /-- What was printed for each evaluation. -/
  shown : List String

namespace Client

/-- The loop of `DaemonClient::eval`: what it prints, what it returns, where the outer error
    is a failure of the connection, and what is left to read. -/
def receive (id : UInt64) : List (Except String Response) → Output →
    Output × Except String Outcome × List (Except String Response)
  | [], o => (o, .error "daemon closed connection", [])
  | .error e :: rs, o => (o, .error e, rs)
  | .ok (.display rid text) :: rs, o =>
    if rid = id then receive id rs (o.print text) else receive id rs o
  | .ok (.evalResult rid outcome) :: rs, o =>
    if rid = id then (o, .ok outcome, rs) else receive id rs o
  | .ok _ :: rs, o => receive id rs o

/-- `ClientEval::eval`. A request that cannot be written is refused with an error. -/
def clientEval (refused : Request → Option String) : ReplEval Client where
  eval c source :=
    let request := Request.eval c.nextId source c.isolated
    let c' := { c with nextId := c.nextId + 1 }
    match refused request with
    | some e => ({ c' with shown := c.shown ++ [""] }, .error ("ipc error: " ++ e))
    | none =>
      let (output, result, frames) := receive c.nextId c.frames .start
      ({ c' with frames, shown := c.shown ++ [output.settle] }, match result with
        | .ok outcome => outcome
        | .error e => .error ("ipc error: " ++ e))

end Client

/-! ## What is printed -/

/-- The cursor is at the start of a line after the text, if it was before. -/
def LineStart (text : String) : Prop := text = "" ∨ endsLine text = true

section Output

variable {o : Output} {texts : List String}

theorem endsLine_append {a b : String} (hb : b ≠ "") : endsLine (a ++ b) = endsLine b := by
  have hne : b.toList ≠ [] := mt String.toList_eq_nil_iff.1 hb
  rw [endsLine, endsLine, String.toList_append, List.getLast?_append_of_ne_nil _ hne]

/-- The output dangles if it does not end at the start of a line. -/
structure Output.Tracked (o : Output) : Prop where
  dangling : o.dangling = true ↔ ¬LineStart o.text

theorem Output.tracked_start : Output.start.Tracked where
  dangling := by simp [Output.start, LineStart]

theorem Output.Tracked.print (h : o.Tracked) (text : String) : (o.print text).Tracked where
  dangling := by
    rw [Output.print]
    by_cases htext : text = ""
    · simpa [htext] using h.dangling
    · have hne : o.text ++ text ≠ "" := fun h => htext (String.append_eq_empty_iff.1 h).2
      simp [htext, LineStart, hne, endsLine_append htext]

theorem Output.Tracked.lineStart_settle (h : o.Tracked) : LineStart o.settle := by
  rw [Output.settle]
  split_ifs with hd
  · exact .inr (endsLine_append (by decide))
  · exact not_not.1 (mt h.dangling.2 hd)

theorem Output.text_foldl_print (o : Output) (texts : List String) :
    (texts.foldl Output.print o).text = o.text ++ String.join texts := by
  induction texts generalizing o with
  | nil => simp
  | cons text texts ih =>
    rw [List.foldl_cons, ih, Output.print, String.append_assoc, String.join_cons]

theorem Output.Tracked.foldl_print (h : o.Tracked) (texts : List String) :
    (texts.foldl Output.print o).Tracked := by
  induction texts generalizing o with
  | nil => exact h
  | cons text texts ih => exact ih (h.print text)

end Output

namespace Client

variable {id : UInt64} {rs rest : List (Except String Response)} {o : Output}

/-- What is printed was displayed for the evaluation. -/
theorem exists_receive (id : UInt64) (rs : List (Except String Response)) (o : Output) :
    ∃ texts : List String, (receive id rs o).1 = texts.foldl Output.print o ∧
      (∀ text ∈ texts, .ok (.display id text) ∈ rs) ∧ (receive id rs o).2.2 <:+ rs := by
  induction rs generalizing o with
  | nil => exact ⟨[], rfl, by simp, List.suffix_rfl⟩
  | cons r rs ih =>
    have hskip : ∃ texts : List String, (receive id rs o).1 = texts.foldl Output.print o ∧
        (∀ text ∈ texts, .ok (.display id text) ∈ r :: rs) ∧
          (receive id rs o).2.2 <:+ r :: rs := by
      obtain ⟨texts, hout, hmem, hsuffix⟩ := ih o
      exact ⟨texts, hout, fun text h => List.mem_cons_of_mem _ (hmem text h),
        hsuffix.trans (List.suffix_cons _ _)⟩
    rcases r with e | r
    · exact ⟨[], rfl, by simp, List.suffix_cons _ _⟩
    cases r with
    | display rid text =>
      rw [receive]
      split_ifs with hid
      · subst hid
        obtain ⟨texts, hout, hmem, hsuffix⟩ := ih (o.print text)
        refine ⟨text :: texts, hout, ?_, hsuffix.trans (List.suffix_cons _ _)⟩
        rw [List.forall_mem_cons]
        exact ⟨List.mem_cons_self, fun t ht => List.mem_cons_of_mem _ (hmem t ht)⟩
      · exact hskip
    | evalResult rid outcome =>
      rw [receive]
      split_ifs with hid
      · exact ⟨[], rfl, by simp, List.suffix_cons _ _⟩
      · exact hskip
    | _ => exact hskip

end Client

/-! ## Runs of the loop -/

namespace Repl

variable {σ : Type*} {stripComments : String → String} {ev : ReplEval σ}

/-- A property of the sources that were submitted, and of the evaluator, that every
    evaluation keeps. -/
theorem submit_invariant {P : List String → σ → Prop}
    (hP : ∀ submitted st source, P submitted st → P (submitted ++ [source]) (ev.eval st source).1)
    {r : Repl σ} (hr : P r.submitted r.evaluator) (source : String) :
    P (r.submit ev source).submitted (r.submit ev source).evaluator := by
  have hstep := hP r.submitted r.evaluator source hr
  simpa only [submit] using hstep

theorem next_invariant {P : List String → σ → Prop}
    (hP : ∀ submitted st source, P submitted st → P (submitted ++ [source]) (ev.eval st source).1)
    {r r' : Repl σ} {e : Readline} (hr : P r.submitted r.evaluator)
    (h : r.next stripComments ev e = some r') : P r'.submitted r'.evaluator := by
  cases e with
  | line l =>
    have hremember : (r.remember l.text).submitted = r.submitted ∧
        (r.remember l.text).evaluator = r.evaluator := by
      rw [remember]
      split_ifs <;> exact ⟨rfl, rfl⟩
    rw [← hremember.1, ← hremember.2] at hr
    simp only [next] at h
    split_ifs at h
    · exact Option.some.inj h ▸ hr
    · obtain rfl := Option.some.inj h
      simp only [accumulate]
      split_ifs
      · exact hr
      · exact submit_invariant hP (r := { r.remember l.text with buffer := "", depth := 0 }) hr _
      · exact hr
  | interrupted =>
    simp only [next] at h
    split_ifs at h <;> exact Option.some.inj h ▸ hr
  | eof | error e => cases h

theorem exec_invariant {P : List String → σ → Prop}
    (hP : ∀ submitted st source, P submitted st → P (submitted ++ [source]) (ev.eval st source).1)
    {r r' : Repl σ} {events : List Readline} (hr : P r.submitted r.evaluator)
    (h : (repl stripComments ev).exec r events = some r') : P r'.submitted r'.evaluator := by
  induction events generalizing r with
  | nil => exact Option.some.inj h ▸ hr
  | cons e events ih =>
    obtain ⟨t, ht, h⟩ := Option.bind_eq_some_iff.1 h
    exact ih (next_invariant hP hr ht) h

end Repl

/-! ## Prompts -/

/-- What was printed for the evaluations: texts of each, up to the start of a line. -/
structure Client.Prints (first : UInt64) (all : List (Except String Response))
    (submitted : List String) (c : Client) : Prop where
  nextId : c.nextId = first + .ofNat submitted.length
  frames : c.frames <:+ all
  length : c.shown.length = submitted.length
  shown : ∀ i text, c.shown[i]? = some text → LineStart text ∧
    ∃ texts, (text = String.join texts ∨ text = String.join texts ++ "\n") ∧
      ∀ t ∈ texts, .ok (.display (first + .ofNat i) t) ∈ all

section Prompts

variable {refused : Request → Option String} {first : UInt64}
  {all : List (Except String Response)} {submitted : List String} {c : Client}

/-- One more text. -/
theorem Client.Prints.push (h : c.Prints first all submitted) (source : String) {text : String}
    {rest : List (Except String Response)} (hrest : rest <:+ all) (hline : LineStart text)
    (htexts : ∃ texts, (text = String.join texts ∨ text = String.join texts ++ "\n") ∧
      ∀ t ∈ texts, .ok (.display c.nextId t) ∈ all) :
    ({ c with nextId := c.nextId + 1, frames := rest, shown := c.shown ++ [text] } : Client).Prints
      first all (submitted ++ [source]) where
  nextId := by
    rw [h.nextId, List.length_append, List.length_singleton, UInt64.ofNat_add, UInt64.add_assoc]
    rfl
  frames := hrest
  length := by simp [h.length]
  shown i t hi := by
    rcases Nat.lt_or_ge i c.shown.length with hlt | hge
    · rw [List.getElem?_append_left hlt] at hi
      exact h.shown i t hi
    · rw [List.getElem?_append_right hge, List.getElem?_singleton] at hi
      split_ifs at hi with hzero
      obtain rfl := Option.some.inj hi
      obtain rfl : i = submitted.length := by rw [← h.length]; omega
      rw [← h.nextId]
      exact ⟨hline, htexts⟩

/-- An evaluation prints its own texts. -/
theorem Client.Prints.eval (h : c.Prints first all submitted) (source : String) :
    (((clientEval refused).eval c source).1).Prints first all (submitted ++ [source]) := by
  simp only [clientEval]
  cases refused (.eval c.nextId source c.isolated) with
  | some e => exact h.push source h.frames (.inl rfl) ⟨[], .inl rfl, by simp⟩
  | none =>
    obtain ⟨texts, hout, hmem, hsuffix⟩ := exists_receive c.nextId c.frames .start
    have htext : (receive c.nextId c.frames .start).1.text = String.join texts := by
      rw [hout, Output.text_foldl_print]
      exact String.empty_append
    refine h.push source (hsuffix.trans h.frames) ?_
      ⟨texts, ?_, fun t ht => h.frames.subset (hmem t ht)⟩
    · rw [hout]
      exact (Output.tracked_start.foldl_print texts).lineStart_settle
    · rw [Output.settle, htext]
      split_ifs
      · exact .inr rfl
      · exact .inl rfl

/-- Whatever `read_frame` returns, responses and errors, up to the end of the stream, and
    whichever requests cannot be written: for each submitted source the client has printed
    texts that were displayed under its id, and is at the start of a line when the loop
    prompts again. -/
theorem prompts_at_line_start {stripComments : String → String} {r : Repl Client}
    {events : List Readline} (hc : c.shown = [])
    (hr : (Repl.repl stripComments (Client.clientEval refused)).exec (.start c) events = some r) :
    r.evaluator.shown.length = r.submitted.length ∧
      ∀ i text, r.evaluator.shown[i]? = some text → LineStart text ∧
        ∃ texts, (text = String.join texts ∨ text = String.join texts ++ "\n") ∧
          ∀ t ∈ texts, .ok (.display (c.nextId + .ofNat i) t) ∈ c.frames := by
  have hstart : c.Prints c.nextId c.frames [] :=
    ⟨(UInt64.add_zero _).symm, List.suffix_rfl, by rw [hc], by simp [hc]⟩
  have hend : r.evaluator.Prints c.nextId c.frames r.submitted :=
    Repl.exec_invariant (P := fun submitted c' => Client.Prints c.nextId c.frames submitted c')
      (fun _ _ source h => h.eval source) hstart hr
  exact ⟨hend.length, hend.shown⟩

/-- A client that gets output without a line end, and then a frame that cannot be decoded. -/
def dangling : Client :=
  ⟨1, false, [.ok (.display 1 "a"), .ok (.display 2 "b"), .error "cbor decode",
    .ok (.display 2 "c\n"), .ok (.evalResult 2 (.ok none))], []⟩

/-- A line that is an expression. -/
def oneLine : Readline := .line ⟨"(one)", by decide⟩

/-- The line is ended, the other output is not printed, and the next evaluation reads on. -/
theorem prompts_at_line_start_dangling : ∃ r,
    (Repl.repl stripLine (Client.clientEval fun _ => none)).exec (.start dangling)
      [oneLine, oneLine] = some r ∧
    r.evaluator.shown = ["a\n", "c\n"] ∧
    ∀ (i : Nat) text, r.evaluator.shown[i]? = some text → LineStart text := by
  obtain ⟨r, hr, hshown⟩ := Option.map_eq_some_iff.1 (by decide +kernel :
    ((Repl.repl stripLine (Client.clientEval fun _ => none)).exec (.start dangling)
      [oneLine, oneLine]).map (fun r => r.evaluator.shown) = some ["a\n", "c\n"])
  exact ⟨r, hr, hshown, fun i text hi => ((prompts_at_line_start rfl hr).2 i text hi).1⟩

end Prompts

/-! ## Loops side by side -/

/-- The evaluations of a loop are done by another evaluator, from related states: to the same
    results and related states, unless the other one is lost, for good. -/
structure ReplEval.Simulates {σ τ : Type*} (ev : ReplEval σ) (ev' : ReplEval τ)
    (Lost : τ → Prop) (R : σ → τ → Prop) : Prop where
  lost : ∀ t source, Lost t → Lost (ev'.eval t source).1
  eval : ∀ s t source, R s t → Lost (ev'.eval t source).1 ∨
    R (ev.eval s source).1 (ev'.eval t source).1 ∧ (ev.eval s source).2 = (ev'.eval t source).2

namespace Repl

variable {σ τ : Type*} {stripComments : String → String} {ev : ReplEval σ} {ev' : ReplEval τ}
  {Lost : τ → Prop} {R : σ → τ → Prop}

/-- Two loops have read and submitted the same, and printed the same unless the second one
    has lost its evaluator. -/
structure Agrees (Lost : τ → Prop) (R : σ → τ → Prop) (r : Repl σ) (r' : Repl τ) : Prop where
  buffer : r'.buffer = r.buffer
  depth : r'.depth = r.depth
  history : r'.history = r.history
  submitted : r'.submitted = r.submitted
  evaluator : Lost r'.evaluator ∨ R r.evaluator r'.evaluator ∧ r'.printed = r.printed

theorem Agrees.remember {r : Repl σ} {r' : Repl τ} (h : r.Agrees Lost R r') (line : String) :
    (r.remember line).Agrees Lost R (r'.remember line) := by
  simp only [Repl.remember, h.buffer]
  split_ifs
  · exact ⟨rfl, h.depth, by rw [h.history], h.submitted, h.evaluator⟩
  · exact h

theorem Agrees.submit (hsim : ev.Simulates ev' Lost R) {r : Repl σ} {r' : Repl τ}
    (h : r.Agrees Lost R r') (source : String) :
    (r.submit ev source).Agrees Lost R (r'.submit ev' source) where
  buffer := h.buffer
  depth := h.depth
  history := h.history
  submitted := by simp only [Repl.submit, h.submitted]
  evaluator := by
    simp only [Repl.submit]
    rcases h.evaluator with hlost | ⟨hR, hprinted⟩
    · exact .inl (hsim.lost _ source hlost)
    · refine (hsim.eval _ _ source hR).imp_right fun hboth => ⟨hboth.1, ?_⟩
      rw [hboth.2, hprinted]

theorem Agrees.accumulate (hsim : ev.Simulates ev' Lost R) {r : Repl σ} {r' : Repl τ}
    (h : r.Agrees Lost R r') (line : String) :
    (r.accumulate stripComments ev line).Agrees Lost R
      (r'.accumulate stripComments ev' line) := by
  simp only [Repl.accumulate, h.buffer, h.depth]
  split_ifs
  · exact ⟨rfl, rfl, h.history, h.submitted, h.evaluator⟩
  · have hclear : Agrees Lost R { r with buffer := "", depth := 0 }
        { r' with buffer := "", depth := 0 } := ⟨rfl, rfl, h.history, h.submitted, h.evaluator⟩
    exact hclear.submit hsim _
  · exact ⟨rfl, rfl, h.history, h.submitted, h.evaluator⟩

/-- Both go on, or both leave the loop. -/
theorem Agrees.next (hsim : ev.Simulates ev' Lost R) {r : Repl σ} {r' : Repl τ}
    (h : r.Agrees Lost R r') (e : Readline) :
    Option.Rel (Agrees Lost R) (r.next stripComments ev e) (r'.next stripComments ev' e) := by
  cases e with
  | line l =>
    simp only [Repl.next, h.buffer]
    split_ifs
    · exact .none
    · exact .some (h.remember l.text)
    · exact .some ((h.remember l.text).accumulate hsim l.text)
  | interrupted =>
    simp only [Repl.next, h.buffer]
    split_ifs
    · exact .some ⟨rfl, h.depth, h.history, h.submitted,
        h.evaluator.imp_right fun hR => ⟨hR.1, by rw [hR.2]⟩⟩
    · exact .some ⟨rfl, rfl, h.history, h.submitted,
        h.evaluator.imp_right fun hR => ⟨hR.1, by rw [hR.2]⟩⟩
  | eof | error e => exact .none

theorem Agrees.exec (hsim : ev.Simulates ev' Lost R) {r : Repl σ} {r' : Repl τ}
    (h : r.Agrees Lost R r') (events : List Readline) :
    Option.Rel (Agrees Lost R) ((repl stripComments ev).exec r events)
      ((repl stripComments ev').exec r' events) := by
  induction events generalizing r r' with
  | nil => exact .some h
  | cons e events ih =>
    have hnext : Option.Rel (Agrees Lost R) (r.next stripComments ev e)
        (r'.next stripComments ev' e) := h.next hsim e
    show Option.Rel _ ((r.next stripComments ev e).bind _) ((r'.next stripComments ev' e).bind _)
    cases hr : r.next stripComments ev e with
    | none =>
      rw [hr] at hnext
      cases hr' : r'.next stripComments ev' e with
      | none => exact .none
      | some t' =>
        rw [hr'] at hnext
        cases hnext
    | some t =>
      rw [hr] at hnext
      cases hr' : r'.next stripComments ev' e with
      | none =>
        rw [hr'] at hnext
        cases hnext
      | some t' =>
        rw [hr'] at hnext
        cases hnext with
        | some hagrees => exact ih hagrees

end Repl

/-! ## In process, and with the daemon -/

section Backed

variable {κ Env Host Run Input Val : Type*} [DecidableEq κ]

instance (text : String) : Decidable (LineStart text) := inferInstanceAs (Decidable (_ ∨ _))

/-- A text, and the end of its last line. -/
def endLine (text : String) : String := if LineStart text then text else text ++ "\n"

theorem Output.Tracked.settle_eq {o : Output} (h : o.Tracked) : o.settle = endLine o.text := by
  rw [Output.settle, endLine]
  by_cases hd : o.dangling = true
  · rw [if_pos hd, if_neg (h.dangling.1 hd)]
  · rw [if_neg hd, if_pos (not_not.1 (mt h.dangling.2 hd))]

section Idle

variable {version did : String} {ev : Evaluator Env Host Run Input Val}
  {s s' : Session κ Env Host Run} {c : κ}

end Idle

variable {version did failure : String} {ev : Evaluator Env Host Run Input Val} {c : κ}

section Request

variable {s : Session κ Env Host Run} {inputs : List Input}

end Request

section Examples

open Session (counter uncounted initial_uncounted)

end Examples

end Backed

end Zscheme.Front
