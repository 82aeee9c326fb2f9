import Mathlib.Algebra.BigOperators.Group.List.Basic
import Mathlib.Data.List.Flatten
import Zscheme.Daemon.Session
import Zscheme.Lib.Cutting
import Zscheme.Scheme.Lexical

/-!
# The read-eval-print loop

`run_repl` reads a line at a time, into a buffer, and hands the buffer to its evaluator
when the parentheses counted so far are balanced. It counts the parentheses of a line by
itself, once `strip_comments` has taken its comment away, and with it those in strings.

* `submitted_iff`: the loop submits the blocks that end where the parentheses outside
  strings and comments are balanced or over-closed, exactly if at each line end of such
  a block its count and theirs are both positive or both not.
* `Repl.lines_kept`: however it counts, it loses no line.
* `submitted_of_plain`: so it does for lines that close their strings and have no
  parentheses in them.
* `smiley_not_submitted`: a complete expression that is not submitted.

The parser's `strip_comments` and the evaluator (`ma_zscheme`) are parameters.
-/

namespace Zscheme.Front

open Daemon (isWhitespace trim)
open Lexical

/-! ## The loop -/

/-- A line as `readline` returns it. -/
structure Line where
  text : String
  newline_not_mem : '\n' ∉ text.toList

/-- What `readline` returns. -/
inductive Readline
  | line (l : Line)
  | interrupted
  | eof
  | error (e : String)

/-- `ReplEval`: the evaluation of a source, on the state of the evaluator. -/
structure ReplEval (σ : Type*) where
  eval : σ → String → σ × Except String (Option String)

/-- What is printed, and where. -/
inductive Printed
  | out (text : String)
  | err (text : String)
  deriving DecidableEq

/-- The state of `run_repl`. -/
structure Repl (σ : Type*) where
  buffer : String
  depth : Int32
  /-- The lines added to the history. -/
  history : List String
  /-- The sources handed to the evaluator, in order. -/
  submitted : List String
  printed : List Printed
  evaluator : σ

/-- `is_note_line`. -/
def isNoteLine (line : String) : Bool := (line.toList.dropWhile isWhitespace).head? == some ';'

/-- The quit commands. -/
def isQuit (line : String) : Bool :=
  String.ofList (trim line) ∈ [":quit", ":q", ":exit", "(exit)"]

/-- The count of the parentheses of a line, added to the depth. In a release build it
    wraps around. -/
def countParens (depth : Int32) (stripped : String) : Int32 :=
  stripped.toList.foldl (fun depth ch => match ch with
    | '(' => depth + 1
    | ')' => depth - 1
    | _ => depth) depth

namespace Repl

variable {σ : Type*}

/-- Hand a source to the evaluator, and print its result. -/
def submit (ev : ReplEval σ) (r : Repl σ) (source : String) : Repl σ :=
  let (evaluator, result) := ev.eval r.evaluator source
  { r with
    submitted := r.submitted ++ [source]
    evaluator
    printed := r.printed ++ match result with
      | .ok none => []
      | .ok (some text) => [.out text]
      | .error msg => [.err msg] }

/-- Add a line to the history, if it starts an expression. -/
def remember (r : Repl σ) (line : String) : Repl σ :=
  if r.buffer.isEmpty && !(trim line).isEmpty then { r with history := r.history ++ [line] } else r

variable (stripComments : String → String) (ev : ReplEval σ)

/-- Add a line to the buffer, and submit the buffer if it is complete. -/
def accumulate (r : Repl σ) (line : String) : Repl σ :=
  let depth := countParens r.depth (stripComments line)
  let buffer := r.buffer ++ line ++ "\n"
  if depth ≤ 0 then
    let r := { r with buffer := "", depth := 0 }
    if (trim buffer).isEmpty then r else r.submit ev (.ofList (trim buffer))
  else { r with buffer, depth }

/-- The loop body of `run_repl`, on what `readline` returns. None where it leaves the
    loop. -/
def next (r : Repl σ) : Readline → Option (Repl σ)
  | .interrupted =>
    if r.buffer.isEmpty then
      some { r with printed := r.printed ++ [.err "^C  (Ctrl-D or (exit) to quit)"] }
    else some { r with buffer := "", depth := 0, printed := r.printed ++ [.err "^C"] }
  | .eof => none
  | .error _ => none
  | .line l =>
    if r.buffer.isEmpty && isQuit l.text then none
    else if r.buffer.isEmpty && isNoteLine l.text then some (r.remember l.text)
    else some ((r.remember l.text).accumulate stripComments ev l.text)

/-- The state in which the loop starts. -/
def start (evaluator : σ) : Repl σ := ⟨"", 0, [], [], [], evaluator⟩

/-- Nothing has been read yet. -/
def Initial (r : Repl σ) : Prop :=
  r.buffer = "" ∧ r.depth = 0 ∧ r.submitted = []

/-- The loop. -/
def repl : System (Repl σ) Readline where
  init := Initial
  next := next stripComments ev

end Repl

/-! ## Blocks of lines -/

/-- The lines of a block, each with its line end. -/
def joinLines (block : List Line) : List Char :=
  block.flatMap fun l => l.text.toList ++ ['\n']

/-- The source of a block: none if it is blank. -/
def sourceOf (block : List Line) : Option String :=
  if (trim (.ofList (joinLines block))).isEmpty then none
  else some (.ofList (trim (.ofList (joinLines block))))

/-- The parentheses of a block that are tokens. -/
def blockBalance (block : List Line) : Int := balance .code (joinLines block)

/-- The blocks that should be submitted: they end where the parentheses are balanced or
    over-closed, and notes between them are dropped. -/
def complete : Cutting Line where
  skip l := isNoteLine l.text
  complete block := blockBalance block ≤ 0

/-- The sources that should be submitted. -/
def completeSources (lines : List Line) : List String :=
  (complete.blocks lines).filterMap sourceOf

/-- `strip_comments`, on a line: it removes a comment that starts outside a string. -/
def StripsComments (stripComments : String → String) : Prop :=
  ∀ l : Line, stripComments l.text = .ofList (uncomment .code l.text.toList)

/-- The parentheses of a block line by line, those in strings included. -/
def lineCount (block : List Line) : Int :=
  (block.map fun l => parens (uncomment .code l.text.toList)).sum

/-- The count of a block, as the loop has it in its `i32`, is not positive. -/
def countedComplete (block : List Line) : Bool := (lineCount block).bmod (2 ^ 32) ≤ 0

/-- The blocks that the loop submits. -/
def counted : Cutting Line where
  skip l := isNoteLine l.text
  complete := countedComplete

/-! ## What is not blank -/

/-- The characters that are not whitespace. -/
def ink (cs : List Char) : List Char := cs.filter fun c => !isWhitespace c

theorem ink_append (a b : List Char) : ink (a ++ b) = ink a ++ ink b := List.filter_append ..

theorem ink_dropWhile (cs : List Char) : ink (cs.dropWhile isWhitespace) = ink cs := by
  induction cs with
  | nil => rfl
  | cons c cs ih =>
    rw [List.dropWhile_cons]
    split_ifs with hc
    · rw [ih]
      simp [ink, hc]
    · rfl

/-- Trimming takes whitespace away. -/
theorem ink_trim (s : String) : ink (trim s) = ink s.toList := by
  have hreverse : ∀ cs, ink cs.reverse = (ink cs).reverse := fun cs => List.filter_reverse
  rw [trim, hreverse, ink_dropWhile, hreverse, List.reverse_reverse, ink_dropWhile]

/-- A block of whitespace. -/
def Blank (block : List Line) : Prop := ink (joinLines block) = []

theorem joinLines_append (a b : List Line) : joinLines (a ++ b) = joinLines a ++ joinLines b :=
  List.flatMap_append

/-- A block is submitted if it is not blank. -/
theorem sourceOf_isSome {block : List Line} (h : ¬ Blank block) :
    (sourceOf block).isSome = true := by
  have hne : trim (.ofList (joinLines block)) ≠ [] := by
    intro hnil
    have hink := ink_trim (.ofList (joinLines block))
    rw [hnil, String.toList_ofList] at hink
    exact h hink.symm
  rw [sourceOf, if_neg (by simpa using hne)]
  rfl

/-- The source of a block is not that of the block with more lines, unless they are blank. -/
theorem sourceOf_append_ne {block m : List Line} (hblock : ¬ Blank block) (hm : ¬ Blank m) :
    sourceOf (block ++ m) ≠ sourceOf block := by
  intro heq
  have hnot : ¬ Blank (block ++ m) := fun h =>
    hm (List.append_eq_nil_iff.1 (by rwa [Blank, joinLines_append, ink_append] at h)).2
  have hsome := sourceOf_isSome hblock
  have hsome' := sourceOf_isSome hnot
  simp only [sourceOf] at heq hsome hsome'
  split_ifs at heq hsome hsome'
  · contradiction
  · have htrim := congrArg String.toList (Option.some.inj heq)
    rw [String.toList_ofList, String.toList_ofList] at htrim
    have hink := congrArg ink htrim
    rw [ink_trim, ink_trim, String.toList_ofList, String.toList_ofList, joinLines_append,
      ink_append, List.append_right_eq_self] at hink
    exact hm hink

/-- Whether a block is complete does not depend on blank lines. -/
structure IgnoresBlanks (c : Cutting Line) : Prop where
  nil : c.complete [] = true
  append : ∀ block m, Blank m → c.complete (block ++ m) = c.complete block

/-- The blocks are told apart by their sources. -/
theorem IgnoresBlanks.separated {d : Cutting Line} (hd : IgnoresBlanks d) (c : Cutting Line) :
    Cutting.Separated sourceOf c d := by
  intro block _ hfalse
  have hblock : ¬ Blank block := fun h => by
    have := hd.append [] block h
    rw [List.nil_append, hd.nil, hfalse] at this
    exact nomatch this
  refine ⟨sourceOf_isSome hblock, fun m hm => ?_⟩
  have hm : ¬ Blank m := fun h => by
    rw [hd.append block m h, hfalse] at hm
    exact nomatch hm
  refine ⟨sourceOf_isSome fun h => hm ?_, sourceOf_append_ne hblock hm⟩
  rw [Blank, joinLines_append, ink_append] at h
  exact (List.append_eq_nil_iff.1 h).2

theorem paren_of_isWhitespace {c : Char} (h : isWhitespace c = true) : paren c = 0 := by
  fun_cases paren c
  · exact absurd h (by decide)
  · exact absurd h (by decide)
  · rfl

theorem isWhitespace_of_blank {block : List Line} (h : Blank block) {c : Char}
    (hc : c ∈ joinLines block) : isWhitespace c = true := by
  by_contra hws
  have : c ∈ ink (joinLines block) := List.mem_filter.2 ⟨hc, by simpa using hws⟩
  rw [h] at this
  exact List.not_mem_nil this

theorem balance_of_blank (p : Place) {cs : List Char} (h : ∀ c ∈ cs, isWhitespace c = true) :
    balance p cs = 0 := by
  induction cs generalizing p with
  | nil => rfl
  | cons c cs ih =>
    rw [List.forall_mem_cons] at h
    rw [balance, ih _ h.2, paren_of_isWhitespace h.1]
    simp

/-- The characters of a line without its comment. -/
theorem mem_uncomment {p : Place} {c : Char} {cs : List Char} (h : c ∈ uncomment p cs) :
    c ∈ cs := by
  induction cs generalizing p with
  | nil => exact h
  | cons d cs ih =>
    rw [uncomment] at h
    split_ifs at h
    · exact absurd h List.not_mem_nil
    · rcases List.mem_cons.1 h with rfl | h
      · exact List.mem_cons_self
      · exact List.mem_cons_of_mem _ (ih h)

theorem lineCount_of_blank {m : List Line} (h : Blank m) : lineCount m = 0 := by
  refine List.sum_eq_zero fun n hn => ?_
  obtain ⟨l, hl, rfl⟩ := List.mem_map.1 hn
  refine List.sum_eq_zero fun k hk => ?_
  obtain ⟨c, hc, rfl⟩ := List.mem_map.1 hk
  refine paren_of_isWhitespace (isWhitespace_of_blank h ?_)
  exact List.mem_flatMap.2 ⟨l, hl, List.mem_append_left _ (mem_uncomment hc)⟩

theorem lineCount_append (a b : List Line) : lineCount (a ++ b) = lineCount a + lineCount b := by
  simp [lineCount]

theorem blockBalance_append_blank (block : List Line) {m : List Line} (h : Blank m) :
    blockBalance (block ++ m) = blockBalance block := by
  have hm : balance (Place.code.after (joinLines block)) (joinLines m) = 0 :=
    balance_of_blank _ fun c hc => isWhitespace_of_blank h hc
  rw [blockBalance, joinLines_append, balance_append, hm, Int.add_zero, blockBalance]

theorem complete_ignoresBlanks : IgnoresBlanks complete where
  nil := rfl
  append block m h := by simp only [complete, blockBalance_append_blank block h]

theorem counted_ignoresBlanks : IgnoresBlanks counted where
  nil := rfl
  append block m h := by
    simp only [counted, countedComplete, lineCount_append, lineCount_of_blank h, Int.add_zero]

/-! ## The loop cuts where it has counted -/

theorem countParens_eq (depth : Int32) (s : String) :
    countParens depth s = depth + Int32.ofInt (parens s.toList) := by
  rw [countParens]
  induction s.toList generalizing depth with
  | nil => exact (Int32.add_zero depth).symm
  | cons c cs ih =>
    rw [List.foldl_cons, ih, parens_cons, Int32.ofInt_add, ← Int32.add_assoc]
    congr 1
    split
    · rfl
    · exact Int32.sub_eq_add_neg ..
    · rename_i hopen hclose
      rw [paren.eq_3 c hopen hclose]
      exact (Int32.add_zero depth).symm

variable {σ : Type*} {ev : ReplEval σ} {stripComments : String → String}

/-- The loop has read a block so far. -/
structure Repl.Tracks (r : Repl σ) (block : List Line) : Prop where
  buffer : r.buffer.toList = joinLines block
  depth : r.depth = Int32.ofInt (lineCount block)

theorem Repl.Tracks.isEmpty {r : Repl σ} {block : List Line} (h : r.Tracks block) :
    r.buffer.isEmpty = block.isEmpty := by
  have hempty : r.buffer.isEmpty = r.buffer.toList.isEmpty := by
    rw [Bool.eq_iff_iff, String.isEmpty_iff, List.isEmpty_iff, String.toList_eq_nil_iff]
  rw [hempty, h.buffer]
  cases block <;> simp [joinLines]

/-- The history is no part of it. -/
theorem Repl.Tracks.remember {r : Repl σ} {block : List Line} (h : r.Tracks block)
    (line : String) :
    (r.remember line).Tracks block ∧ (r.remember line).submitted = r.submitted := by
  rw [Repl.remember]
  split_ifs
  · exact ⟨⟨h.buffer, h.depth⟩, rfl⟩
  · exact ⟨h, rfl⟩

/-- A line that is added to the buffer is added to the block. -/
theorem Repl.Tracks.accumulate (hstrip : StripsComments stripComments) {r : Repl σ}
    {block : List Line} (h : r.Tracks block) (l : Line) :
    if counted.complete (block ++ [l]) then
      (r.accumulate stripComments ev l.text).Tracks [] ∧
        (r.accumulate stripComments ev l.text).submitted =
          r.submitted ++ (sourceOf (block ++ [l])).toList
    else (r.accumulate stripComments ev l.text).Tracks (block ++ [l]) ∧
      (r.accumulate stripComments ev l.text).submitted = r.submitted := by
  have hbuffer : r.buffer ++ l.text ++ "\n" = .ofList (joinLines (block ++ [l])) := by
    rw [← String.toList_inj, String.toList_append, String.toList_append, h.buffer,
      String.toList_ofList, joinLines_append]
    simp [joinLines]
  have hdepth : countParens r.depth (stripComments l.text) =
      Int32.ofInt (lineCount (block ++ [l])) := by
    rw [countParens_eq, h.depth, hstrip l, lineCount_append, Int32.ofInt_add]
    simp [lineCount]
  have hcomplete : counted.complete (block ++ [l]) = true ↔
      Int32.ofInt (lineCount (block ++ [l])) ≤ 0 := by
    rw [Int32.le_iff_toInt_le, Int32.toInt_ofInt]
    exact decide_eq_true_iff
  simp only [Repl.accumulate, hbuffer, hdepth, ← hcomplete]
  split_ifs with hc htrim
  · refine ⟨⟨rfl, rfl⟩, ?_⟩
    rw [sourceOf, if_pos htrim]
    exact (List.append_nil _).symm
  · refine ⟨⟨rfl, rfl⟩, ?_⟩
    rw [sourceOf, if_neg htrim]
    rfl
  · exact ⟨⟨String.toList_ofList, rfl⟩, rfl⟩

/-- What a line does. -/
theorem Repl.Tracks.next (hstrip : StripsComments stripComments) {r r' : Repl σ}
    {block : List Line} (h : r.Tracks block) {l : Line}
    (hr' : r.next stripComments ev (.line l) = some r') :
    if block.isEmpty && counted.skip l then r'.Tracks [] ∧ r'.submitted = r.submitted
    else if counted.complete (block ++ [l]) then
      r'.Tracks [] ∧ r'.submitted = r.submitted ++ (sourceOf (block ++ [l])).toList
    else r'.Tracks (block ++ [l]) ∧ r'.submitted = r.submitted := by
  have hskip : counted.skip l = isNoteLine l.text := rfl
  obtain ⟨hremember, hsubmitted⟩ := h.remember l.text
  rw [hskip]
  simp only [Repl.next, h.isEmpty] at hr'
  split_ifs at hr' with hquit hnote
  · obtain rfl := Option.some.inj hr'
    have hblock : block = [] := List.isEmpty_iff.1 (Bool.and_eq_true_iff.1 hnote).1
    rw [if_pos hnote]
    exact ⟨hblock ▸ hremember, hsubmitted⟩
  · obtain rfl := Option.some.inj hr'
    rw [if_neg hnote, ← hsubmitted]
    exact hremember.accumulate hstrip l

/-- What some lines do. -/
theorem Repl.Tracks.exec (hstrip : StripsComments stripComments) {r r' : Repl σ}
    {block : List Line} (h : r.Tracks block) {lines : List Line}
    (hr' : (repl stripComments ev).exec r (lines.map .line) = some r') :
    r'.Tracks (counted.restFrom block lines) ∧
      r'.submitted = r.submitted ++ (counted.blocksFrom block lines).filterMap sourceOf := by
  induction lines generalizing r block with
  | nil =>
    obtain rfl := Option.some.inj hr'
    exact ⟨h, (List.append_nil _).symm⟩
  | cons l lines ih =>
    obtain ⟨r₁, hr₁, hr'⟩ := Option.bind_eq_some_iff.1 hr'
    have hstep := h.next hstrip hr₁
    rw [Cutting.blocksFrom, Cutting.restFrom]
    split_ifs at hstep ⊢ with hskip hcomplete
    · rw [← hstep.2]
      exact ih hstep.1 hr'
    · obtain ⟨htracks, hsubmitted⟩ := ih hstep.1 hr'
      refine ⟨htracks, ?_⟩
      rw [hsubmitted, hstep.2, List.append_assoc]
      cases hs : sourceOf (block ++ [l]) <;> simp [hs]
    · rw [← hstep.2]
      exact ih hstep.1 hr'

theorem Repl.Initial.tracks {r : Repl σ} (hr : r.Initial) : r.Tracks [] := by
  obtain ⟨hbuffer, hdepth, -⟩ := hr
  exact ⟨by rw [hbuffer]; rfl, hdepth⟩

/-- The loop submits the blocks that it counts complete. -/
theorem Repl.submitted_eq (hstrip : StripsComments stripComments) {r r' : Repl σ}
    (hr : (repl stripComments ev).init r) {lines : List Line}
    (hr' : (repl stripComments ev).exec r (lines.map .line) = some r') :
    r'.submitted = (counted.blocks lines).filterMap sourceOf := by
  rw [(hr.tracks.exec hstrip hr').2, hr.2.2, List.nil_append]

/-- However it counts, every line but the notes is in one of its blocks, in order, or still
    in the buffer. -/
theorem Repl.lines_kept (hstrip : StripsComments stripComments) {r r' : Repl σ}
    (hr : (repl stripComments ev).init r) {lines : List Line}
    (hr' : (repl stripComments ev).exec r (lines.map .line) = some r') :
    ∃ (blocks : List (List Line)) (rest : List Line), r'.submitted = blocks.filterMap sourceOf ∧
      r'.buffer.toList = joinLines rest ∧
      (blocks.flatten ++ rest).filter (fun l => !isNoteLine l.text) =
        lines.filter fun l => !isNoteLine l.text :=
  ⟨counted.blocks lines, counted.rest lines, submitted_eq hstrip hr hr',
    (hr.tracks.exec hstrip hr').1.buffer, Cutting.filter_flatten_blocks (c := counted) [] lines⟩

/-- They are the complete ones exactly if it counts right. -/
theorem filterMap_counted_iff (lines : List Line) :
    (counted.blocks lines).filterMap sourceOf = completeSources lines ↔
      ∀ block ∈ complete.stages lines,
        (lineCount block).bmod (2 ^ 32) ≤ 0 ↔ blockBalance block ≤ 0 := by
  have hskip : counted.skip = complete.skip := rfl
  rw [completeSources, Cutting.filterMap_blocks_eq_iff hskip
    (complete_ignoresBlanks.separated _) (counted_ignoresBlanks.separated _)]
  refine forall₂_congr fun block _ => ?_
  simp only [counted, complete, countedComplete, decide_eq_decide]

/-- The loop submits the blocks that end where the parentheses that are tokens are
    balanced or over-closed, exactly if at each line end of such a block its own count
    and theirs are both positive or both not. -/
theorem submitted_iff (hstrip : StripsComments stripComments) {r r' : Repl σ}
    (hr : (Repl.repl stripComments ev).init r) (lines : List Line)
    (hr' : (Repl.repl stripComments ev).exec r (lines.map .line) = some r') :
    r'.submitted = completeSources lines ↔
      ∀ block ∈ complete.stages lines,
        (lineCount block).bmod (2 ^ 32) ≤ 0 ↔ blockBalance block ≤ 0 := by
  rw [Repl.submitted_eq hstrip hr hr', filterMap_counted_iff]

section Examples

/-- A `strip_comments` for single lines. -/
def stripLine (line : String) : String := .ofList (uncomment .code line.toList)

/-- An evaluator whose results are not printed. -/
def silent : ReplEval Unit := ⟨fun _ _ => ((), .ok none)⟩

/-- An expression on two lines. -/
def sumLines : List Line := [⟨"(+ 1 ; one", by decide⟩, ⟨"2)", by decide⟩]

/-- It is submitted when its second line is there. -/
theorem submitted_iff_sum : ∃ r',
    (Repl.repl stripLine silent).exec (.start ()) (sumLines.map .line) = some r' ∧
      r'.submitted = completeSources sumLines := by
  have hsome : ((Repl.repl stripLine silent).exec (.start ()) (sumLines.map .line)).isSome := by
    decide +kernel
  refine ⟨_, (Option.some_get hsome).symm, ?_⟩
  refine (submitted_iff (fun _ => rfl) ⟨rfl, rfl, rfl⟩ sumLines (Option.some_get hsome).symm).2 ?_
  decide +kernel

/-- A complete expression with a parenthesis in a string. -/
def smiley : Line := ⟨"(display \":(\")", by decide⟩

/-- It is not submitted. -/
theorem smiley_not_submitted :
    ((Repl.repl stripLine silent).exec (.start ()) [.line smiley]).map Repl.submitted = some [] ∧
      completeSources [smiley] = ["(display \":(\")"] := by
  decide +kernel

end Examples

/-! ## Plain lines -/

/-- A line that closes its strings, and has no parentheses in them. -/
structure Line.Plain (l : Line) : Prop where
  closed : (Place.code.after l.text.toList).quotes = false
  quoted : ∀ c ∈ quoted .code l.text.toList, paren c = 0

/-- Of plain lines the loop counts the tokens. -/
theorem lineCount_of_plain {block : List Line} (h : ∀ l ∈ block, l.Plain) :
    lineCount block = blockBalance block := by
  induction block with
  | nil => rfl
  | cons l block ih =>
    rw [List.forall_mem_cons] at h
    have hline : parens (uncomment .code l.text.toList) = balance .code l.text.toList := by
      have hquoted : parens (quoted .code l.text.toList) = 0 :=
        List.sum_eq_zero (List.forall_mem_map.2 h.1.quoted)
      rw [parens_uncomment (by decide) l.newline_not_mem, hquoted, Int.add_zero]
    have hnewline : ∀ p, balance p ['\n'] = 0 := fun p =>
      balance_of_blank p (List.forall_mem_singleton.2 rfl)
    have hjoin : joinLines (l :: block) = l.text.toList ++ ['\n'] ++ joinLines block :=
      List.flatMap_cons
    rw [blockBalance, hjoin, balance_append, after_newline h.1.closed, balance_append, hnewline,
      Int.add_zero, ← hline, ← blockBalance, ← ih h.2]
    exact List.sum_cons

theorem natAbs_parens_le (cs : List Char) : (parens cs).natAbs ≤ cs.length := by
  induction cs with
  | nil => exact Nat.le_refl 0
  | cons c cs ih =>
    have hc : (paren c).natAbs ≤ 1 := by fun_cases paren c <;> decide
    rw [parens_cons, List.length_cons]
    omega

theorem length_uncomment_le (p : Place) (cs : List Char) :
    (uncomment p cs).length ≤ cs.length := by
  induction cs generalizing p with
  | nil => exact Nat.le_refl 0
  | cons c cs ih =>
    rw [uncomment]
    split_ifs
    · exact Nat.zero_le _
    · exact Nat.succ_le_succ (ih _)

theorem natAbs_lineCount_le (block : List Line) :
    (lineCount block).natAbs ≤ (joinLines block).length := by
  induction block with
  | nil => exact Nat.le_refl 0
  | cons l block ih =>
    have hcount : lineCount (l :: block) =
        parens (uncomment .code l.text.toList) + lineCount block :=
      List.sum_cons
    have hjoin : (joinLines (l :: block)).length =
        l.text.toList.length + 1 + (joinLines block).length := by
      rw [joinLines, List.flatMap_cons, List.length_append, List.length_append]
      rfl
    have hparens := natAbs_parens_le (uncomment .code l.text.toList)
    have hlength := length_uncomment_le .code l.text.toList
    omega

/-- The loop submits what is complete, of less than 2 GiB of plain lines. -/
theorem submitted_of_plain (hstrip : StripsComments stripComments) {r r' : Repl σ}
    (hr : (Repl.repl stripComments ev).init r) {lines : List Line}
    (hr' : (Repl.repl stripComments ev).exec r (lines.map .line) = some r')
    (hplain : ∀ l ∈ lines, l.Plain) (hlength : (joinLines lines).length < 2 ^ 31) :
    r'.submitted = completeSources lines := by
  rw [Repl.submitted_eq hstrip hr hr', filterMap_counted_iff]
  intro block hblock
  have hsub : block.Sublist lines := Cutting.sublist_of_mem_stages hblock
  have hle := (List.Sublist.flatMap hsub fun l => l.text.toList ++ ['\n']).length_le
  have hcount := natAbs_lineCount_le block
  simp only [joinLines] at hcount hlength
  rw [← lineCount_of_plain fun l hl => hplain l (hsub.subset hl),
    Int.bmod_eq_of_le_mul_two (by omega) (by omega)]

end Zscheme.Front
