import Zscheme.Lib.Lambda
import Zscheme.Scheme.Value

/-!
# The sources of the startup image

The generic library, `stdlib.zscheme`, as expressions: which procedures call which
through the table of globals is what an image built on it depends on. Of the three
libraries after it, the names they define.

The derived forms (`cond`, `let`, `let*`, named `let`, `unless`, `and`) are written
out in the primitive ones.
-/

namespace Zscheme

namespace Image

open Lambda

/-- Source code, as the evaluator reads it. -/
abbrev Code := Expr SchemeVal

/-- A top-level `define`. -/
inductive Define
  | procedure (name : String) (params : List String) (body : Code)
  | synonym (name value : String)

/-- The name a `define` binds. -/
def Define.name : Define → String
  | .procedure name _ _ => name
  | .synonym name _ => name

instance : Coe String Code := ⟨.var⟩

/-! ## Derived forms -/

section

/-- A string literal. -/
def str (s : String) : Code := .lit (.str s)

/-- A number literal. -/
def int (n : Int64) : Code := .lit (.int n)

/-- `#t` or `#f` -/
def bool (b : Bool) : Code := .lit (.bool b)

/-- `'()` -/
def nil : Code := .lit (.list [])

/-- `()` -/
def unit : Code := .lit .nil

/-- The call of a procedure by its name. -/
def call (f : String) (args : List Code) : Code := .app (.var f) args

/-- `cond`, with its `else` clause. -/
def cond (clauses : List (Code × Code)) (otherwise : Code) : Code :=
  clauses.foldr (fun p e => .ite p.1 p.2 e) otherwise

/-- `unless` -/
def unless' (test body : Code) : Code := .ite test unit body

/-- `let` -/
def bindings (bs : List (String × Code)) (body : Code) : Code :=
  .app (.lambda (bs.map Prod.fst) none body) (bs.map Prod.snd)

/-- `let*` -/
def bindings' (bs : List (String × Code)) (body : Code) : Code :=
  bs.foldr (fun b e => bindings [b] e) body

/-- Named `let`. -/
def loop (name : String) (bs : List (String × Code)) (body : Code) : Code :=
  .app (.letrec [name] [.lambda (bs.map Prod.fst) none body] (.var name)) (bs.map Prod.snd)

/-- A composition of `car` and `cdr`. -/
def accessor (name : String) (steps : List String) : Define :=
  .procedure name ["x"] (steps.foldr (fun f e => call f [e]) "x")

end

/-! ## The generic library -/

namespace Source

/-- "List aliases" -/
def listAliases : List Define := [
  accessor "caar" ["car", "car"],
  accessor "cadr" ["car", "cdr"],
  accessor "cdar" ["cdr", "car"],
  accessor "cddr" ["cdr", "cdr"],
  accessor "caaar" ["car", "car", "car"],
  accessor "caadr" ["car", "car", "cdr"],
  accessor "cadar" ["car", "cdr", "car"],
  accessor "caddr" ["car", "cdr", "cdr"],
  accessor "cdaar" ["cdr", "car", "car"],
  accessor "cdadr" ["cdr", "car", "cdr"],
  accessor "cddar" ["cdr", "cdr", "car"],
  accessor "cdddr" ["cdr", "cdr", "cdr"],
  accessor "caaaar" ["car", "car", "car", "car"],
  accessor "caaadr" ["car", "car", "car", "cdr"],
  accessor "caadar" ["car", "car", "cdr", "car"],
  accessor "caaddr" ["car", "car", "cdr", "cdr"],
  accessor "cadaar" ["car", "cdr", "car", "car"],
  accessor "cadadr" ["car", "cdr", "car", "cdr"],
  accessor "caddar" ["car", "cdr", "cdr", "car"],
  accessor "cadddr" ["car", "cdr", "cdr", "cdr"],
  accessor "cdaaar" ["cdr", "car", "car", "car"],
  accessor "cdaadr" ["cdr", "car", "car", "cdr"],
  accessor "cdadar" ["cdr", "car", "cdr", "car"],
  accessor "cdaddr" ["cdr", "car", "cdr", "cdr"],
  accessor "cddaar" ["cdr", "cdr", "car", "car"],
  accessor "cddadr" ["cdr", "cdr", "car", "cdr"],
  accessor "cdddar" ["cdr", "cdr", "cdr", "car"],
  accessor "cddddr" ["cdr", "cdr", "cdr", "cdr"]]

/-! ### Type predicates and Aliases -/

/-- `list?` -/
def list? : Define := .procedure "list?" ["x"] (.or (call "null?" ["x"]) (call "pair?" ["x"]))

/-- `eq?` -/
def eq? : Define := .synonym "eq?" "equal?"

/-- `eqv?` -/
def eqv? : Define := .synonym "eqv?" "equal?"

/-- `quotient` -/
def quotient : Define := .synonym "quotient" "/"

/-- `remainder` -/
def remainder : Define := .synonym "remainder" "mod"

/-! ### List operations -/

/-- `length` -/
def length : Define := .procedure "length" ["lst"] <|
  loop "loop" [("l", "lst"), ("n", int 0)] <|
    .ite (call "null?" ["l"]) "n" (call "loop" [call "cdr" ["l"], call "+" ["n", int 1]])

/-- `list-ref` -/
def listRef : Define := .procedure "list-ref" ["lst", "i"] <|
  .ite (call "=" ["i", int 0])
    (call "car" ["lst"])
    (call "list-ref" [call "cdr" ["lst"], call "-" ["i", int 1]])

/-- `append` -/
def append : Define := .procedure "append" ["a", "b"] <|
  .ite (call "null?" ["a"])
    "b"
    (call "cons" [call "car" ["a"], call "append" [call "cdr" ["a"], "b"]])

/-- `reverse` -/
def reverse : Define := .procedure "reverse" ["lst"] <|
  loop "loop" [("l", "lst"), ("acc", nil)] <|
    .ite (call "null?" ["l"]) "acc"
      (call "loop" [call "cdr" ["l"], call "cons" [call "car" ["l"], "acc"]])

/-- `flatten-list` -/
def flattenList : Define := .procedure "flatten-list" ["vals"] <|
  cond [
    (call "null?" ["vals"], nil),
    (call "list?" [call "car" ["vals"]],
      call "append"
        [call "flatten-list" [call "car" ["vals"]], call "flatten-list" [call "cdr" ["vals"]]])]
    (call "cons" [call "car" ["vals"], call "flatten-list" [call "cdr" ["vals"]]])

/-- `map` -/
def map : Define := .procedure "map" ["f", "lst"] <|
  .ite (call "null?" ["lst"])
    nil
    (call "cons" [call "f" [call "car" ["lst"]], call "map" ["f", call "cdr" ["lst"]]])

/-- `filter` -/
def filter : Define := .procedure "filter" ["f", "lst"] <|
  cond [
    (call "null?" ["lst"], nil),
    (call "f" [call "car" ["lst"]],
      call "cons" [call "car" ["lst"], call "filter" ["f", call "cdr" ["lst"]]])]
    (call "filter" ["f", call "cdr" ["lst"]])

/-- `for-each` -/
def forEach : Define := .procedure "for-each" ["f", "lst"] <|
  unless' (call "null?" ["lst"]) <|
    .seq (call "f" [call "car" ["lst"]]) (call "for-each" ["f", call "cdr" ["lst"]])

/-- `fold` -/
def fold : Define := .procedure "fold" ["f", "init", "lst"] <|
  .ite (call "null?" ["lst"])
    "init"
    (call "fold" ["f", call "f" [call "car" ["lst"], "init"], call "cdr" ["lst"]])

/-- `fold-left` -/
def foldLeft : Define := .synonym "fold-left" "fold"

/-- `any` -/
def any : Define := .procedure "any" ["f", "lst"] <|
  cond [
    (call "null?" ["lst"], bool false),
    (call "f" [call "car" ["lst"]], bool true)]
    (call "any" ["f", call "cdr" ["lst"]])

/-- `every` -/
def every : Define := .procedure "every" ["f", "lst"] <|
  cond [
    (call "null?" ["lst"], bool true),
    (call "not" [call "f" [call "car" ["lst"]]], bool false)]
    (call "every" ["f", call "cdr" ["lst"]])

/-! ### Numeric utilities -/

/-- `abs` -/
def abs : Define := .procedure "abs" ["n"] (.ite (call "<" ["n", int 0]) (call "-" ["n"]) "n")

/-- `max` -/
def max : Define := .procedure "max" ["a", "b"] (.ite (call ">" ["a", "b"]) "a" "b")

/-- `min` -/
def min : Define := .procedure "min" ["a", "b"] (.ite (call "<" ["a", "b"]) "a" "b")

/-- `zero?` -/
def zero? : Define := .procedure "zero?" ["n"] (call "=" ["n", int 0])

/-- `positive?` -/
def positive? : Define := .procedure "positive?" ["n"] (call ">" ["n", int 0])

/-- `negative?` -/
def negative? : Define := .procedure "negative?" ["n"] (call "<" ["n", int 0])

/-- `even?` -/
def even? : Define := .procedure "even?" ["n"] (call "=" [call "mod" ["n", int 2], int 0])

/-- `odd?` -/
def odd? : Define := .procedure "odd?" ["n"] (call "not" [call "even?" ["n"]])

/-- `fib` -/
def fib : Define := .procedure "fib" ["n"] <|
  .ite (call "<" ["n", int 2])
    "n"
    (call "+" [call "fib" [call "-" ["n", int 1]], call "fib" [call "-" ["n", int 2]]])

/-! ### String utilities -/

/-- `string-contains` -/
def stringContains : Define := .procedure "string-contains" ["hay", "needle"] <|
  call "not" [call "equal?" [call "string-index" ["hay", "needle"], bool false]]

/-- `string-split` -/
def stringSplit : Define := .procedure "string-split" ["s", "delim"] <|
  bindings [("dlen", call "string-length" ["delim"])] <|
    loop "loop" [("rest", "s"), ("acc", nil)] <|
      bindings [("idx", call "string-index" ["rest", "delim"])] <|
        .ite (call "equal?" ["idx", bool false])
          (call "reverse" [call "cons" ["rest", "acc"]])
          (call "loop" [
            call "substring"
              ["rest", call "+" ["idx", "dlen"], call "string-length" ["rest"]],
            call "cons" [call "substring" ["rest", int 0, "idx"], "acc"]])

/-- `string-join` -/
def stringJoin : Define := .procedure "string-join" ["lst", "delim"] <|
  .ite (call "null?" ["lst"])
    (str "")
    (loop "loop" [("rest", call "cdr" ["lst"]), ("acc", call "car" ["lst"])] <|
      .ite (call "null?" ["rest"])
        "acc"
        (call "loop" [call "cdr" ["rest"],
          call "string-append" ["acc", "delim", call "car" ["rest"]]]))

/-- `string-lines` -/
def stringLines : Define := .procedure "string-lines" ["s"] (call "string-split" ["s", str "\n"])

/-- `string-unlines` -/
def stringUnlines : Define := .procedure "string-unlines" ["l"] (call "string-join" ["l", str "\n"])

/-- `join-words` -/
def joinWords : Define := .procedure "join-words" ["words"] <|
  call "string-join" [
    call "map" [
      .lambda ["word"] none <|
        cond [
          (call "string?" ["word"], "word"),
          (call "number?" ["word"], call "number->string" ["word"]),
          (call "boolean?" ["word"], .ite "word" (str "#t") (str "#f")),
          (call "null?" ["word"], str "")]
          (call "error" [str "join-words: not a word"]),
      "words"],
    str " "]

/-- `first-line` -/
def firstLine : Define := .procedure "first-line" ["text"] <|
  bindings [("index", call "string-index" ["text", str "\n"])] <|
    .ite "index" (call "substring" ["text", int 0, "index"]) "text"

/-- `words-before-keyword` -/
def wordsBeforeKeyword : Define := .procedure "words-before-keyword" ["words", "keyword"] <|
  cond [
    (call "null?" ["words"], nil),
    (call "equal?" [call "car" ["words"], "keyword"], nil)]
    (call "cons" [call "car" ["words"],
      call "words-before-keyword" [call "cdr" ["words"], "keyword"]])

/-- `words-after-keyword` -/
def wordsAfterKeyword : Define := .procedure "words-after-keyword" ["words", "keyword"] <|
  cond [
    (call "null?" ["words"], bool false),
    (call "equal?" [call "car" ["words"], "keyword"], call "cdr" ["words"])]
    (call "words-after-keyword" [call "cdr" ["words"], "keyword"])

/-- The test of `string-trim`: the character at an index is not white. -/
def notWhite (i : Code) : Code :=
  call "not" [call "string-contains"
    [str " \t\n\r", call "substring" ["s", i, call "+" [i, int 1]]]]

/-- `string-trim` -/
def stringTrim : Define := .procedure "string-trim" ["s"] <|
  bindings' [
    ("len", call "string-length" ["s"]),
    ("start", loop "loop" [("i", int 0)] <|
      .ite (.or (call "=" ["i", "len"]) (notWhite "i"))
        "i"
        (call "loop" [call "+" ["i", int 1]])),
    ("end", loop "loop" [("i", call "-" ["len", int 1])] <|
      .ite (.or (call "<" ["i", "start"]) (notWhite "i"))
        (call "+" ["i", int 1])
        (call "loop" [call "-" ["i", int 1]]))] <|
    call "substring" ["s", "start", "end"]

/-- `take` -/
def take : Define := .procedure "take" ["n", "lst"] <|
  .ite (.or (call "null?" ["lst"]) (call "=" ["n", int 0]))
    nil
    (call "cons" [call "car" ["lst"], call "take" [call "-" ["n", int 1], call "cdr" ["lst"]]])

/-- `drop` -/
def drop : Define := .procedure "drop" ["n", "lst"] <|
  .ite (.or (call "null?" ["lst"]) (call "=" ["n", int 0]))
    "lst"
    (call "drop" [call "-" ["n", int 1], call "cdr" ["lst"]])

/-- `member?` -/
def member? : Define := .procedure "member?" ["item", "lst"] <|
  cond [
    (call "null?" ["lst"], bool false),
    (call "equal?" ["item", call "car" ["lst"]], "lst")]
    (call "member?" ["item", call "cdr" ["lst"]])

/-- `unique-list` -/
def uniqueList : Define := .procedure "unique-list" ["lst"] <|
  cond [
    (call "null?" ["lst"], unit),
    (call "member?" [call "car" ["lst"], call "cdr" ["lst"]],
      call "unique-list" [call "cdr" ["lst"]])]
    (call "cons" [call "car" ["lst"], call "unique-list" [call "cdr" ["lst"]]])

/-! ### Text views -/

/-- `doc-cat` -/
def docCat : Define := .procedure "doc-cat" ["path"] <|
  call "eval" [call "string-append" [str "(", "path", str ".content)"]]

/-- `wc-lines` -/
def wcLines : Define :=
  .procedure "wc-lines" ["text"] (call "length" [call "string-lines" ["text"]])

/-- `head-n` -/
def headN : Define := .procedure "head-n" ["n", "text"] <|
  call "string-unlines" [call "take" ["n", call "string-lines" ["text"]]]

/-- `tail-n` -/
def tailN : Define := .procedure "tail-n" ["n", "text"] <|
  bindings [("lines", call "string-lines" ["text"])] <|
    call "string-unlines" [call "drop" [call "-" [call "length" ["lines"], "n"], "lines"]]

end Source

open Source in
/-- `stdlib.zscheme` -/
def stdlib : List Define :=
  listAliases ++ [list?, eq?, eqv?, quotient, remainder, length, listRef, append, reverse,
    flattenList, map, filter, forEach, fold, foldLeft, any, every, abs, max, min, zero?,
    positive?, negative?, even?, odd?, fib, stringContains, stringSplit, stringJoin, stringLines,
    stringUnlines, joinWords, firstLine, wordsBeforeKeyword, wordsAfterKeyword, stringTrim, take,
    drop, member?, uniqueList, docCat, wcLines, headN, tailN]

/-! ## The later layers -/

/-- The names `runtime.zscheme` defines. -/
def runtimeNames : List String :=
  ["actor-call", "ok?", "ok-reply?", "root", "starts-with-did?", "same-did-identity?",
   "entry-actor", "event-name", "event-list-values", "find-entry-by-actor", "candidate-for-did",
   "name-matches?", "candidates-by-keys", "resolve-in-pool", "resolve-attr", "resolve-name",
   "resolve-nick", "resolve-description", "resolve-ref"]

/-- The names `avatar.zscheme` defines. -/
def avatarNames : List String :=
  ["room", "room-call", "last-room", "remember-room!", "location-lookup-pool",
   "candidate-location", "describe-candidate", "ambiguous-error", "no-match-error",
   "room-child-pool", "room-child-kind-pool", "person-pool", "occupant-kinds", "occupant-pool",
   "thing-pool", "room-exits", "exit-pool", "trigger-pool", "resolve-against-or-false",
   "resolve-entry-against", "resolve-against", "resolve-room-pool", "inv-entry",
   "resolve-inventory-pool", "held-item", "hand-pool", "held-clear!", "held-add!", "default-pool",
   "resolve-one-entry", "resolve-one-entry-fresh", "resolve-one-entry-or-refresh", "resolve-one",
   "bare-did?", "resolve-person-pool", "resolve-person", "command", "resolve-in-given-pool",
   "resolve-exit", "resolve-exit-name", "container-contents", "resolve-in-container",
   "apply-entry-ctx!", "local-string", "my-node-ctx", "announce-avatar-parent!", "my-inv-if-any",
   "usable-inventory", "inventory-display-ctx", "sync-carried-here!", "new-traverse-id",
   "direction-words", "go-usage", "go", "enter-with-key", "dig-usage", "show-dig-reply", "dig",
   "fill-usage", "fill", "delve-usage", "delve", "split-command!", "forge-usage", "forge",
   "leave", "start-here", "enter", "equip-pending", "handle-avatar-parent!", "hold-target!",
   "with-action-context", "unknown-fragment-error?", "forget-stale-slots!", "relocate-to-room!",
   "drop-held-to-room!", "take-usage", "take", "equip-usage", "equip", "equip-pool",
   "equip-propose!", "keep-usage", "keep", "unequip-usage", "unequip", "book-inventory!",
   "unequip-to-hand!", "find", "take-from", "drop-pool", "drop-container-pool",
   "drop-target-to-room!", "drop-pending", "take-then-drop!", "drop-usage", "drop", "put-usage",
   "pending-actions", "pending-store!", "pending-clear!", "put", "put-in", "recycle-usage",
   "recycle", "roll-call-seconds?", "roll-call-split", "roll-call", "say", "emote", "narrate",
   "trigger-usage", "trigger-actor-did", "trigger-prefix?", "prose->parts", "span->form",
   "span-arg->value", "add-trigger", "remove-trigger", "parse-trigger-rule", "avatar-did",
   "avatar-condition", "claim-usage-error", "claim", "give-usage", "claim-secret", "give",
   "owner", "lock-usage", "unlock-usage", "lock-rpc!", "lock", "unlock", "remove", "tell-usage",
   "display-reply", "tell", "prop", "prop-as-sugar", "name", "describe", "nick", "here?", "did?",
   "who?", "occupants?", "things?", "exits?", "inv", "help", "look-entry", "look"]

/-- The names `events.zscheme` defines. -/
def eventsNames : List String :=
  ["event-print", "event-list-lines", "event-things-lines", "event-exit-name", "event-who-name",
   "event-exit-lines", "event-look", "event-exits", "event-who", "event-occupants",
   "event-things", "event-inventory", "room-child-upsert!", "room-child-remove!", "event-arrive",
   "event-leave", "event-child-ctx", "event-child", "event-say", "event-emote", "event-narrate",
   "event-say-direct", "event-emote-direct", "event-action-done", "event-put", "event-take-done",
   "event-dig", "event-fill", "event-parent", "event-roll-call-child", "event-refuse-hold",
   "event-refuse-put", "event-refuse-set-parent", "dispatch-event", "event-move", "event-nogo",
   "event-handlers", "room-event-handlers", "on-event"]

/-- The names the later layers define, in the order of the image. -/
def layerNames : List String := runtimeNames ++ avatarNames ++ eventsNames

end Image

end Zscheme
