import Zscheme.Avatar.Usage
import Zscheme.Image.Unchanged

/-!
# What the later layers change

The avatar library takes the names `take` and `drop` of the generic library for its
commands; `head-n` and `tail-n` call them by these names. So a procedure of the generic
library means the same in the startup image as on its own if and only if it is none of
these four (`unchanged_iff`).
-/

namespace Zscheme

namespace Image

open Lambda Avatar Stdlib Program

/-! ## The commands -/

section

variable [Host] {words : List SchemeVal}

/-- In the image, `take` is the command of the avatar library. -/
theorem combined_take (M : Machine) :
    M.combined "take" = some (.native .take) ∧ ∀ words w,
      M.interp.call (.native .take) (Value.ofSchemes words) w =
        Machine.returned ((Avatar.take words).run w) := by
  refine ⟨(combined_eq M _).trans (if_pos (by decide +kernel)), fun words w => ?_⟩
  change Machine.returned (M.command .take Avatar.take (Value.ofSchemes words) w) = _
  rw [Machine.command, Value.toSchemes?_ofSchemes]

/-- In the image, `drop` is the command of the avatar library. -/
theorem combined_drop (M : Machine) :
    M.combined "drop" = some (.native .drop) ∧ ∀ words w,
      M.interp.call (.native .drop) (Value.ofSchemes words) w =
        Machine.returned ((Avatar.drop words).run w) := by
  refine ⟨(combined_eq M _).trans (if_pos (by decide +kernel)), fun words w => ?_⟩
  change Machine.returned (M.command .drop Avatar.drop (Value.ofSchemes words) w) = _
  rw [Machine.command, Value.toSchemes?_ofSchemes]

/-- A list that is not empty is no word. -/
theorem joinWords_refused (n : Int64) (hwords : words ≠ []) :
    joinWords [.int n, .list words] = .error "join-words: not a word" := by
  obtain ⟨word, words, rfl⟩ := List.exists_cons_of_ne_nil hwords
  rfl

theorem take_refused (n : Int64) (hwords : words ≠ []) (w : World) :
    ((Avatar.take [.int n, .list words]).run w).1 = .error "join-words: not a word" := by
  have hsplit : splitCommand! [.int n, .list words] "from" takeUsage false =
      .ok ([.int n, .list words], none) :=
    (Splits.whole (by simp) (by simp) rfl).splitCommand! _
  refine (wp_iff_result _ (· = _)).1 ?_
  simp only [Avatar.take, wp_bind, wp_setEquipPending, wp_lift, hsplit, joinWords_refused n hwords]

theorem drop_refused (n : Int64) (hwords : words ≠ []) (w : World) :
    ((Avatar.drop [.int n, .list words]).run w).1 = .error "join-words: not a word" := by
  have hsplit : splitCommand! [.int n, .list words] "from" dropUsage false =
      .ok ([.int n, .list words], none) :=
    (Splits.whole (by simp) (by simp) rfl).splitCommand! _
  refine (wp_iff_result _ (· = _)).1 ?_
  simp only [Avatar.drop, List.isEmpty_cons, Bool.false_eq_true, if_false, wp_bind, wp_lift, hsplit,
    joinWords_refused n hwords]

/-- So neither takes a count and a list that is not empty. -/
theorem call_refused (M : Machine) (n : Int64) (hwords : words ≠ []) (w : World) :
    (M.interp.call (.native .take) (Value.ofSchemes [.int n, .list words]) w).1 =
        .error "join-words: not a word" ∧
      (M.interp.call (.native .drop) (Value.ofSchemes [.int n, .list words]) w).1 =
        .error "join-words: not a word" := by
  rw [(combined_take M).2, (combined_drop M).2, Machine.returned, Machine.returned,
    take_refused n hwords, drop_refused n hwords]
  exact ⟨rfl, rfl⟩

end

/-! ## The procedures that are altered -/

/-- What the text views are made of, `take` and `drop` apart. -/
structure Globals.Lines (G : Globals) : Prop where
  null : G "null?" = some (.native (.builtin .null?))
  car : G "car" = some (.native (.builtin .car))
  cdr : G "cdr" = some (.native (.builtin .cdr))
  cons : G "cons" = some (.native (.builtin .cons))
  add : G "+" = some (.native (.builtin .add))
  sub : G "-" = some (.native (.builtin .sub))
  eq : G "=" = some (.native (.builtin .eq))
  equal : G "equal?" = some (.native (.builtin .equal?))
  index : G "string-index" = some (.native (.builtin .stringIndex))
  strlen : G "string-length" = some (.native (.builtin .stringLength))
  length : G "length" = Source.length.value G
  reverse : G "reverse" = Source.reverse.value G
  split : G "string-split" = Source.stringSplit.value G
  join : G "string-join" = Source.stringJoin.value G
  lines : G "string-lines" = Source.stringLines.value G
  unlines : G "string-unlines" = Source.stringUnlines.value G
  headN : G "head-n" = Source.headN.value G
  tailN : G "tail-n" = Source.tailN.value G

theorem lines_alone (M : Machine) : M.alone.Lines := by constructor <;> rfl

theorem lines_combined (M : Machine) : M.combined.Lines := by
  have h : ∀ x ∈ ["null?", "car", "cdr", "cons", "+", "-", "=", "equal?", "string-index",
      "string-length", "length", "reverse", "string-split", "string-join", "string-lines",
      "string-unlines", "head-n", "tail-n"], x ∉ layerNames := by decide +kernel
  constructor <;> exact (combined_eq M _).trans (if_neg (h _ (by simp)))

section

-- The equations by which a run on given code is evaluated.
attribute [local simp] Run.end?_bind Interp.arguments? Closure.names Interp.read List.lookup_cons
  call

variable [Host] {M : Machine} {G : Globals} {w : World}

theorem call_length : M.interp.call (.native (.builtin .stringLength)) [Value.atom (.str "\n")] w =
    (.ok (.done (Value.atom (.int 1))), w) := rfl

theorem call_index :
    M.interp.call (.native (.builtin .stringIndex))
        [Value.atom (.str "a"), Value.atom (.str "\n")] w =
      (.ok (.done (Value.ofBool false)), w) := rfl

theorem call_equal :
    M.interp.call (.native (.builtin .equal?)) [Value.ofBool false, Value.ofBool false] w =
      (.ok (.done (Value.ofBool true)), w) := by
  change ((M.value .equal? _).map Step.done, w) = _
  simp [Machine.value, Machine.datum, ← Value.ofScheme_bool, Evaluator.equal?_bool]
  rfl

theorem call_sub :
    M.interp.call (.native (.builtin .sub)) [Value.atom (.int 1), Value.atom (.int 1)] w =
      (.ok (.done (Value.atom (.int 0))), w) := rfl

theorem call_add :
    M.interp.call (.native (.builtin .add)) [Value.atom (.int 0), Value.atom (.int 1)] w =
      (.ok (.done (Value.atom (.int 1))), w) := rfl

/-- From any heap, the call of `f` returns `v`, and only adds to the heap. -/
def Gives (M : Machine) (G : Globals) (w : World) (f : Value) (args : List Value) (v : Value) :
    Prop :=
  ∀ heap, ∃ more, ∀ n, (M.interp.run (n + 24) (.apply f args)).end? ⟨G, heap, w⟩ =
    some (.ok v, ⟨G, heap ++ more, w⟩)

variable {f v : Value}

/-- `take` of the generic library. -/
theorem take_gives (hG : G.Lines) (htake : G "take" = Source.take.value G)
    (hf : G "take" = some f) :
    Gives M G w f [Value.atom (.int 1), Value.list [v]] (Value.list [v]) := by
  obtain rfl := Option.some.inj (hf.symm.trans htake)
  -- what is added to the heap is read off the run
  refine fun heap => ⟨?more, fun n => ?run⟩
  case' run =>
    simp [Nat.add_assoc, nil, int, hG.null, hG.car, hG.cdr, hG.cons, hG.eq, hG.sub, htake,
      Source.take, Define.value, call_sub]
    rfl

/-- `drop` of the generic library. -/
theorem drop_gives (hG : G.Lines) (hdrop : G "drop" = Source.drop.value G)
    (hf : G "drop" = some f) :
    Gives M G w f [Value.atom (.int 0), Value.list [v]] (Value.list [v]) := by
  obtain rfl := Option.some.inj (hf.symm.trans hdrop)
  refine fun heap => ⟨?more, fun n => ?run⟩
  case' run =>
    simp [Nat.add_assoc, int, hG.null, hG.eq]
    rfl

/-- `string-lines` of a line. -/
theorem stringLines_gives (hG : G.Lines) (hf : G "string-lines" = some f) :
    Gives M G w f [Value.atom (.str "a")] (Value.list [Value.atom (.str "a")]) := by
  obtain rfl := Option.some.inj (hf.symm.trans hG.lines)
  refine fun heap => ⟨?more, fun n => ?run⟩
  case' run =>
    simp [Interp.assign, Nat.add_assoc, List.set_append_right, bindings, loop, bool, str, nil,
      hG.null, hG.car, hG.cdr, hG.cons, hG.equal, hG.index, hG.strlen, hG.reverse, hG.split,
      Source.stringSplit, Source.reverse, Define.value, call_length, call_index, call_equal]
    rfl

/-- `string-unlines` of a line. -/
theorem stringUnlines_gives (hG : G.Lines) (hf : G "string-unlines" = some f) :
    Gives M G w f [Value.list [Value.atom (.str "a")]] (Value.atom (.str "a")) := by
  obtain rfl := Option.some.inj (hf.symm.trans hG.unlines)
  refine fun heap => ⟨?more, fun n => ?run⟩
  case' run =>
    simp [Interp.assign, Nat.add_assoc, List.set_append_right, loop, str, hG.null, hG.car, hG.cdr,
      hG.join, Source.stringJoin, Define.value]
    rfl

/-- `length` of a list with one element. -/
theorem length_gives (hG : G.Lines) (hf : G "length" = some f) :
    Gives M G w f [Value.list [v]] (Value.atom (.int 1)) := by
  obtain rfl := Option.some.inj (hf.symm.trans hG.length)
  refine fun heap => ⟨?more, fun n => ?run⟩
  case' run =>
    simp [Interp.assign, Nat.add_assoc, List.set_append_right, loop, int, hG.null, hG.cdr, hG.add,
      call_add]
    rfl

/-- `take` returns the first element if it is the generic library's. -/
theorem take_returns (hG : G.Lines) (htake : G "take" = Source.take.value G) :
    M.Returns G "take" [Value.atom (.int 1), Value.list [v]] [] w (Value.list [v]) := by
  obtain ⟨t, ht⟩ : ∃ t, G "take" = some t := ⟨_, htake⟩
  obtain ⟨more, h⟩ := take_gives (M := M) (w := w) hG htake ht []
  exact ⟨t, ht, 24, _, h 0⟩

/-- `drop` returns the list if there is nothing to drop. -/
theorem drop_returns (hG : G.Lines) (hdrop : G "drop" = Source.drop.value G) :
    M.Returns G "drop" [Value.atom (.int 0), Value.list [v]] [] w (Value.list [v]) := by
  obtain ⟨d, hd⟩ : ∃ d, G "drop" = some d := ⟨_, hdrop⟩
  obtain ⟨more, h⟩ := drop_gives (M := M) (w := w) hG hdrop hd []
  exact ⟨d, hd, 24, _, h 0⟩

/-- `head-n` returns the first line if `take` is the generic library's. -/
theorem headN_returns (hG : G.Lines) (htake : G "take" = Source.take.value G) :
    M.Returns G "head-n" [Value.atom (.int 1), Value.atom (.str "a")] [] w
      (Value.atom (.str "a")) := by
  obtain ⟨t, ht⟩ : ∃ t, G "take" = some t := ⟨_, htake⟩
  obtain ⟨f, hf⟩ : ∃ f, G "string-lines" = some f := ⟨_, hG.lines⟩
  obtain ⟨g, hg⟩ : ∃ g, G "string-unlines" = some g := ⟨_, hG.unlines⟩
  choose more₁ h₁ using stringLines_gives (M := M) (w := w) hG hf
  choose more₂ h₂ using take_gives (M := M) (w := w) (v := Value.atom (.str "a")) hG htake ht
  choose more₃ h₃ using stringUnlines_gives (M := M) (w := w) hG hg
  refine ⟨_, hG.headN, 40, ?_⟩
  simp [ht, hf, hg, h₁, h₂, h₃]

/-- `tail-n` returns the last line if `drop` is the generic library's. -/
theorem tailN_returns (hG : G.Lines) (hdrop : G "drop" = Source.drop.value G) :
    M.Returns G "tail-n" [Value.atom (.int 1), Value.atom (.str "a")] [] w
      (Value.atom (.str "a")) := by
  obtain ⟨d, hd⟩ : ∃ d, G "drop" = some d := ⟨_, hdrop⟩
  obtain ⟨f, hf⟩ : ∃ f, G "string-lines" = some f := ⟨_, hG.lines⟩
  obtain ⟨g, hg⟩ : ∃ g, G "string-unlines" = some g := ⟨_, hG.unlines⟩
  obtain ⟨l, hl⟩ : ∃ l, G "length" = some l := ⟨_, hG.length⟩
  choose more₁ h₁ using stringLines_gives (M := M) (w := w) hG hf
  choose more₂ h₂ using length_gives (M := M) (w := w) (v := Value.atom (.str "a")) hG hl
  choose more₃ h₃ using drop_gives (M := M) (w := w) (v := Value.atom (.str "a")) hG hdrop hd
  choose more₄ h₄ using stringUnlines_gives (M := M) (w := w) hG hg
  refine ⟨_, hG.tailN, 40, ?_⟩
  simp [bindings, hd, hf, hg, hl, h₁, h₂, h₃, h₄, hG.sub, call_sub]

/-- A native procedure that raises. -/
theorem native_raises {f : Native} {args heap : List Value} {msg : String}
    (h : (M.interp.call (.native f) args w).1 = .error msg) :
    M.interp.Ends (.apply (.native f) args) ⟨G, heap, w⟩ (.error msg) := by
  refine ⟨1, ⟨G, heap, (M.interp.call (.native f) args w).2⟩, ?_⟩
  simp [h]

/-- `head-n` raises if `take` is the avatar library's. -/
theorem headN_raises (hG : G.Lines) (htake : G "take" = some (.native .take)) {f : Value}
    (hf : G "head-n" = some f) :
    M.interp.Ends (.apply f [Value.atom (.int 1), Value.atom (.str "a")]) ⟨G, [], w⟩
      (.error "join-words: not a word") := by
  obtain rfl := Option.some.inj (hf.symm.trans hG.headN)
  obtain ⟨f, hf⟩ : ∃ f, G "string-lines" = some f := ⟨_, hG.lines⟩
  obtain ⟨g, hg⟩ : ∃ g, G "string-unlines" = some g := ⟨_, hG.unlines⟩
  choose more₁ h₁ using stringLines_gives (M := M) (w := w) hG hf
  have htake' : (M.interp.call (.native .take)
      [Value.atom (.int 1), Value.list [Value.atom (.str "a")]] w).1 =
        .error "join-words: not a word" :=
    (call_refused M 1 (List.cons_ne_nil (SchemeVal.str "a") []) w).1
  refine ⟨40, ?_⟩
  simp [htake, hf, hg, h₁, htake']

/-- `tail-n` raises if `drop` is the avatar library's. -/
theorem tailN_raises (hG : G.Lines) (hdrop : G "drop" = some (.native .drop)) {f : Value}
    (hf : G "tail-n" = some f) :
    M.interp.Ends (.apply f [Value.atom (.int 1), Value.atom (.str "a")]) ⟨G, [], w⟩
      (.error "join-words: not a word") := by
  obtain rfl := Option.some.inj (hf.symm.trans hG.tailN)
  obtain ⟨f, hf⟩ : ∃ f, G "string-lines" = some f := ⟨_, hG.lines⟩
  obtain ⟨g, hg⟩ : ∃ g, G "string-unlines" = some g := ⟨_, hG.unlines⟩
  obtain ⟨l, hl⟩ : ∃ l, G "length" = some l := ⟨_, hG.length⟩
  choose more₁ h₁ using stringLines_gives (M := M) (w := w) hG hf
  choose more₂ h₂ using length_gives (M := M) (w := w) (v := Value.atom (.str "a")) hG hl
  have hdrop' : (M.interp.call (.native .drop)
      [Value.atom (.int 0), Value.list [Value.atom (.str "a")]] w).1 =
        .error "join-words: not a word" :=
    (call_refused M 0 (List.cons_ne_nil (SchemeVal.str "a") []) w).2
  refine ⟨40, ?_⟩
  simp [bindings, hdrop, hf, hg, hl, h₁, h₂, hG.sub, call_sub, hdrop']

end

variable [Host] {M : Machine}

/-- A procedure that returns for some data on its own, and raises in the image. -/
theorem not_unchanged {p : String} {args : List Value} {w : World} {v f : Value} {msg : String}
    (hp : p ≠ "doc-cat") (hargs : ∀ a ∈ args, a.Clean Kept Native.Tame)
    (halone : M.Returns M.alone p args [] w v) (hf : M.combined p = some f)
    (hraises : M.interp.Ends (.apply f args) ⟨M.combined, [], w⟩ (.error msg)) :
    ¬Unchanged M p := by
  intro h
  have hgen : Generic M p args [] := ⟨hargs, nofun, fun h => absurd h hp⟩
  obtain ⟨f', hf', hreturns⟩ := h _ [] w v hgen halone
  obtain rfl := Option.some.inj (hf.symm.trans hf')
  exact absurd (hreturns.unique hraises) nofun

/-- A procedure of the generic library is unchanged if and only if it is not altered. -/
theorem unchanged_iff {p : String} (hp : p ∈ stdlib.map Define.name) :
    Unchanged M p ↔ p ∉ altered := by
  constructor
  · intro h hmem
    have halone := lines_alone M
    have hcombined := lines_combined M
    have htake := (combined_take M).1
    have hdrop := (combined_drop M).1
    have hline := Value.all_ofSchemes (P := Closure.Within Kept) (Q := Native.Tame)
      [.int 1, .str "a"]
    simp only [altered, List.mem_cons, List.not_mem_nil, or_false] at hmem
    -- each returns on its own, and raises in the image: the avatar's commands join words
    rcases hmem with rfl | rfl | rfl | rfl
    · have hargs := Value.all_ofSchemes (P := Closure.Within Kept) (Q := Native.Tame)
        [.int 1, .list [.int 7]]
      exact not_unchanged (w := World.entered "") (by decide) hargs
        (take_returns halone rfl) htake
        (native_raises (call_refused M 1 (List.cons_ne_nil (.int 7) []) _).1) h
    · have hargs := Value.all_ofSchemes (P := Closure.Within Kept) (Q := Native.Tame)
        [.int 0, .list [.int 7]]
      exact not_unchanged (w := World.entered "") (by decide) hargs
        (drop_returns halone rfl) hdrop
        (native_raises (call_refused M 0 (List.cons_ne_nil (.int 7) []) _).2) h
    · exact not_unchanged (w := World.entered "") (by decide) hline (headN_returns halone rfl)
        hcombined.headN (headN_raises hcombined htake hcombined.headN) h
    · exact not_unchanged (w := World.entered "") (by decide) hline (tailN_returns halone rfl)
        hcombined.tailN (tailN_raises hcombined hdrop hcombined.tailN) h
  · intro h
    by_cases hdoc : p = "doc-cat"
    · exact hdoc ▸ unchanged_docCat M
    · have hname : p ∉ "doc-cat" :: altered := fun hmem => (List.mem_cons.1 hmem).elim hdoc h
      exact unchanged_of_kept M (kept_of_mem p hp hname)

omit [Host] in
/-- `fold` is unchanged. -/
theorem unchanged_iff_fold :
    let _ : Host := scripted "did:ma:me" fun _ _ _ => .ok .nil
    "fold" ∉ altered ∧ Unchanged Machine.plain "fold" := by
  intro _
  have hname : "fold" ∉ altered := by decide
  exact ⟨hname, (unchanged_iff (by decide +kernel)).2 hname⟩

omit [Host] in
/-- `(take 1 '(7))` returns `(7)` on its own, and raises in the image. -/
theorem take_not_unchanged :
    let _ : Host := scripted "did:ma:me" fun _ _ _ => .ok .nil
    let M := Machine.plain
    let args := Value.ofSchemes [.int 1, .list [.int 7]]
    let w := World.entered "did:ma:room"
    "take" ∈ stdlib.map Define.name ∧
      M.Returns M.alone "take" args [] w (Value.ofScheme (.list [.int 7])) ∧
      ∀ v, ¬M.Returns M.combined "take" args [] w v := by
  intro _ M args w
  refine ⟨by decide +kernel, take_returns (lines_alone M) rfl, ?_⟩
  rintro v ⟨f, hf, hreturns⟩
  have htake := (combined_take M).1
  obtain rfl := Option.some.inj (htake.symm.trans hf)
  have hraises : M.interp.Ends (.apply (.native .take) args) ⟨M.combined, [], w⟩
      (.error "join-words: not a word") :=
    native_raises (call_refused M 1 (List.cons_ne_nil (.int 7) []) w).1
  exact absurd (hreturns.unique hraises) nofun

end Image

end Zscheme
