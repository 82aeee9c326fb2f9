import Mathlib.Data.List.Basic
import Mathlib.Algebra.Order.Ring.Int

/-!
# Strings, comments and parentheses

Where the characters of a Scheme source stand (`Place`): in a double-quoted string, in a
comment from a `;` to the end of its line, or in neither, where parentheses are tokens.

* `balance`: the parentheses that are tokens, opening less closing.
* `uncomment`: a line without its comment, if it has one.
* `parens_uncomment`: a line without its comment has the parentheses that are tokens, and
  besides those in its strings.
-/

namespace Zscheme.Lexical

/-- Where a character stands. -/
inductive Place
  | code
  | string
  /-- After a backslash in a string. -/
  | escape
  | comment
  deriving DecidableEq

/-- Where the character after a character stands. -/
def Place.next : Place → Char → Place
  | .code, '"' => .string
  | .code, ';' => .comment
  | .string, '\\' => .escape
  | .string, '"' => .code
  | .escape, _ => .string
  | .comment, '\n' => .code
  | p, _ => p

/-- Where the character after some characters stands. -/
def Place.after (p : Place) (cs : List Char) : Place := cs.foldl next p

/-- The place is in a string. -/
def Place.quotes (p : Place) : Bool := p = .string || p = .escape

/-- An opening parenthesis counts `1`, a closing one `-1`. -/
def paren : Char → Int
  | '(' => 1
  | ')' => -1
  | _ => 0

/-- All the parentheses of some characters, wherever they stand. -/
def parens (cs : List Char) : Int := (cs.map paren).sum

/-- The parentheses outside strings and comments. -/
def balance : Place → List Char → Int
  | _, [] => 0
  | p, c :: cs => (if p = .code then paren c else 0) + balance (p.next c) cs

/-- A line up to the comment that starts outside a string, if there is one. -/
def uncomment : Place → List Char → List Char
  | _, [] => []
  | p, c :: cs => if p.next c = .comment then [] else c :: uncomment (p.next c) cs

/-- The characters in strings. -/
def quoted : Place → List Char → List Char
  | _, [] => []
  | p, c :: cs => if p.quotes then c :: quoted (p.next c) cs else quoted (p.next c) cs

@[simp] theorem parens_nil : parens [] = 0 := rfl

@[simp] theorem parens_cons (c : Char) (cs : List Char) : parens (c :: cs) = paren c + parens cs :=
  List.sum_cons

theorem balance_append (p : Place) (a b : List Char) :
    balance p (a ++ b) = balance p a + balance (p.after a) b := by
  induction a generalizing p with
  | nil => simp [balance, Place.after]
  | cons c a ih =>
    rw [List.cons_append, balance, balance, ih, Int.add_assoc]
    rfl

/-- Only a `;` starts a comment. -/
theorem next_eq_comment {p : Place} {c : Char} (h : p.next c = .comment) :
    p = .comment ∨ p = .code ∧ c = ';' := by
  revert h
  fun_cases Place.next p c <;> simp_all

/-- A comment goes on to the end of the line. -/
theorem comment_of_newline {cs : List Char} (h : '\n' ∉ cs) :
    balance .comment cs = 0 ∧ quoted .comment cs = [] ∧ Place.comment.after cs = .comment := by
  induction cs with
  | nil => exact ⟨rfl, rfl, rfl⟩
  | cons c cs ih =>
    obtain ⟨hc, hcs⟩ := not_or.1 fun hmem => h (List.mem_cons.2 hmem)
    have hnext : Place.comment.next c = .comment :=
      Place.next.eq_7 _ c nofun nofun nofun nofun nofun fun _ hnl => hc hnl.symm
    obtain ⟨hb, hq, ha⟩ := ih hcs
    refine ⟨?_, ?_, ?_⟩
    · rw [balance, hnext, hb]
      rfl
    · rw [quoted, hnext, hq]
      rfl
    · rwa [Place.after, List.foldl_cons, hnext]

/-- What the parentheses of a line without its comment count: the tokens, and the
    characters of its strings. -/
theorem parens_uncomment {p : Place} (hp : p ≠ .comment) {cs : List Char} (h : '\n' ∉ cs) :
    parens (uncomment p cs) = balance p cs + parens (quoted p cs) := by
  induction cs generalizing p with
  | nil => rfl
  | cons c cs ih =>
    have hcs : '\n' ∉ cs := fun hmem => h (List.mem_cons_of_mem _ hmem)
    rw [uncomment, balance, quoted]
    by_cases hnext : p.next c = .comment
    · -- the comment starts here
      obtain ⟨rfl, rfl⟩ := (next_eq_comment hnext).resolve_left hp
      obtain ⟨hb, hq, -⟩ := comment_of_newline hcs
      rw [if_pos hnext, hnext, hb, hq]
      rfl
    · rw [if_neg hnext, parens_cons, ih hnext hcs]
      cases p with
      | comment => exact absurd rfl hp
      | code => simp [Place.quotes, Int.add_assoc]
      | string | escape =>
        simp only [Place.quotes, reduceCtorEq, if_false, Int.zero_add]
        simp
        omega

/-- A line that closes its strings does not reach the next one. -/
theorem after_newline {p : Place} {cs : List Char} (h : (p.after cs).quotes = false) :
    p.after (cs ++ ['\n']) = .code := by
  rw [Place.after, List.foldl_append]
  change (p.after cs).next '\n' = .code
  revert h
  cases p.after cs <;> simp [Place.quotes, Place.next]

end Zscheme.Lexical
