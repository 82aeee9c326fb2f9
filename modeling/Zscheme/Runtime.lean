import Zscheme.Scheme.Stdlib

/-!
# The runtime library

The procedures of `runtime.zscheme`: what a DID looks like, what a ctx map says
of an actor, and the resolver of object references. A *ctx* is a map that
describes an actor; a *pool* is a list of entries, of which only what is read is
assumed to be there.
-/

namespace Zscheme

/-- The entries of a ctx map. -/
abbrev Ctx := Dict String SchemeVal

namespace Runtime

open Prim Stdlib

/-- `ok?`: the bare ack. -/
def ok? (reply : SchemeVal) : Bool := reply = ":ok"

/-- `ok-reply?`: success with a payload. -/
def okReply? : SchemeVal → Bool
  | .list (head :: _) => head = ":ok"
  | _ => false

/-- `entry-actor` of a ctx map. -/
def ctxActor (ctx : Ctx) : SchemeVal :=
  (ctx.get? "actor").getD ((ctx.get? "did").getD (.bool false))

/-- `event-list-values` -/
def eventListValues : SchemeVal → List SchemeVal
  | .map m => m.map Prod.snd
  | .list vs => vs
  | _ => []

variable [Evaluator]

/-- `starts-with-did?` -/
def startsWithDid? : SchemeVal → Except String Bool
  | .str s =>
    if 7 ≤ stringLength s then do
      return (← substring s 0 7) = "did:ma:"
    else .ok false
  | _ => .ok false

/-- `same-did-identity?` -/
def sameDidIdentity? : SchemeVal → SchemeVal → Except String Bool
  | .str a, .str b => do
    let as ← stringSplit a "#"
    let bs ← stringSplit b "#"
    return as.head? = bs.head?
  | _, _ => .ok false

/-- `entry-actor` -/
def entryActor (entry : SchemeVal) : Except String SchemeVal := do
  return ctxActor (← asMap "map-ref" entry)

/-- `event-name` -/
def eventName : SchemeVal → SchemeVal
  | .map m =>
    (Dict.get? m "nick").getD ((Dict.get? m "name").getD ((Dict.get? m "did").getD
      ((Dict.get? m "actor").getD "(unknown)")))
  | _ => "(unknown)"

/-- `find-entry-by-actor`, `none` standing for `#f`. -/
def findEntryByActor (did : SchemeVal) : List SchemeVal → Except String (Option SchemeVal)
  | [] => .ok none
  | entry :: pool => do
    if Evaluator.equal? (← entryActor entry) did then return some entry
    else findEntryByActor did pool

/-- `candidate-for-did` -/
def candidateForDid (pool : List SchemeVal) (did : SchemeVal) : Except String SchemeVal := do
  match ← findEntryByActor did pool with
  | some entry => return entry
  | none => return .map (makeMap [("did", did), ("actor", did)])

/-- The words of a string, as `name-matches?` compares them. -/
def matchWords (v : SchemeVal) : Except String (List String) := do
  let words ← stringSplit (← stringDowncase v) " "
  return words.filter (· ≠ "")

/-- `name-matches?` -/
def nameMatches? (word entry : SchemeVal) (key : String) : Except String Bool := do
  let value ← mapRef entry key (.bool false)
  let needleWords ← matchWords word
  if value.string? && !needleWords.isEmpty then
    let haystackWords ← matchWords value
    return needleWords.all (haystackWords.contains ·)
  else return false

/-- `candidates-by-keys` -/
def candidatesByKeys (word : SchemeVal) (pool : List SchemeVal) :
    List String → Except String (List SchemeVal)
  | [] => .ok []
  | key :: keys => do
    let hits ← pool.filterM (nameMatches? word · key)
    if hits.isEmpty then candidatesByKeys word pool keys else return hits

/-- `resolve-in-pool` -/
def resolveInPool (word : SchemeVal) (pool : List SchemeVal) (keys : List String) :
    Except String (List SchemeVal) := do
  (← candidatesByKeys word pool keys).mapM entryActor

/-- `resolve-attr` -/
def resolveAttr (word : SchemeVal) (pool : List SchemeVal) (attr : String) :
    Except String (List SchemeVal) := resolveInPool word pool [attr]

/-- `resolve-ref` -/
def resolveRef (word : SchemeVal) (pool : List SchemeVal) : Except String (List SchemeVal) := do
  let names ← resolveAttr word pool "name"
  let nicks ← resolveAttr word pool "nick"
  let descriptions ← resolveAttr word pool "description"
  return uniqueList (flattenList [.list names, .list nicks, .list descriptions])

end Runtime

end Zscheme
