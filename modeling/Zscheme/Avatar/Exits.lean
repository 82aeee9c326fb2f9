import Zscheme.Reference
import Zscheme.Avatar.Emits

/-!
# Walking through an exit by its name

`go` joins its words and looks for the exit they name: every word of theirs has to be a
word of the name of the exit, in any case. So the words of a name also name every exit
whose name has further words, and then `go` refuses to choose. An exit can be walked by its
own name exactly if no other exit of the room has all words of it (`go_moves_iff`).
-/

namespace Zscheme

namespace Avatar

open Prim Stdlib Zscheme.Runtime Program

/-! ## Words of a name -/

/-- The text `join-words` makes of the words of a name. -/
def spaced (name : String) : String := stringJoin (words name) " "

/-- What is not split at is in one of the pieces. -/
theorem mem_splitOn {c d : Char} (hcd : c ≠ d) {cs : List Char} (h : c ∈ cs) :
    ∃ piece ∈ cs.splitOn d, c ∈ piece := by
  induction cs with
  | nil => cases h
  | cons x cs ih =>
    obtain ⟨first, rest, hsplit⟩ := List.exists_cons_of_ne_nil (List.splitOn_ne_nil d cs)
    rw [List.splitOn_cons_eq_if_modifyHead, hsplit, List.modifyHead_cons]
    rw [hsplit] at ih
    by_cases hx : x = d
    · rw [if_pos (beq_iff_eq.2 hx)]
      have hc : c ∈ cs := (List.mem_cons.1 h).resolve_left fun heq => hcd (heq.trans hx)
      obtain ⟨piece, hpiece, hmem⟩ := ih hc
      exact ⟨piece, List.mem_cons_of_mem _ hpiece, hmem⟩
    · rw [if_neg fun heq => hx (beq_iff_eq.1 heq)]
      rcases List.mem_cons.1 h with rfl | hc
      · exact ⟨_, List.mem_cons_self, List.mem_cons_self⟩
      · obtain ⟨piece, hpiece, hmem⟩ := ih hc
        rcases List.mem_cons.1 hpiece with rfl | hrest
        · exact ⟨_, List.mem_cons_self, List.mem_cons_of_mem _ hmem⟩
        · exact ⟨piece, List.mem_cons_of_mem _ hrest, hmem⟩

theorem words_ne_nil {s : String} (h : ∃ c ∈ s.toList, c ≠ ' ') : words s ≠ [] := by
  obtain ⟨c, hc, hne⟩ := h
  obtain ⟨piece, hpiece, hmem⟩ := mem_splitOn hne hc
  refine List.ne_nil_of_mem (a := String.ofList piece) ?_
  refine List.mem_filter.2 ⟨List.mem_map_of_mem hpiece, decide_eq_true fun hempty => ?_⟩
  rw [String.ofList_eq_empty_iff] at hempty
  exact absurd (hempty ▸ hmem) List.not_mem_nil

theorem stringJoin_ne_empty {s : String} (hs : s ≠ "") (rest : List String) (delim : String) :
    stringJoin (s :: rest) delim ≠ "" := by
  rw [stringJoin]
  induction rest generalizing s with
  | nil => exact hs
  | cons t rest ih =>
    refine ih fun hempty => hs ?_
    have hlength := congrArg String.length hempty
    simp only [String.length_append, String.length_empty] at hlength
    exact String.length_eq_zero_iff.1 (by omega)

theorem spaced_ne_empty {name : String} (h : words name ≠ []) : spaced name ≠ "" := by
  obtain ⟨w, rest, hwords⟩ := List.exists_cons_of_ne_nil h
  have hmem : w ∈ words name := by rw [hwords]; exact List.mem_cons_self
  rw [spaced, hwords]
  exact stringJoin_ne_empty (of_decide_eq_true (List.mem_filter.1 hmem).2) _ _

section Words

variable [Evaluator]

theorem joinWords_str (ws : List String) : joinWords (ws.map .str) = .ok (stringJoin ws " ") := by
  have h : (ws.map SchemeVal.str).mapM wordText = .ok ws := by
    induction ws with
    | nil => rfl
    | cons w ws ih =>
      have hw : wordText (.str w) = .ok w := rfl
      rw [List.map_cons, List.mapM_cons, hw, ih]
      rfl
  rw [joinWords, h]
  rfl

/-! ## Exits -/

/-- Every word of the query, and there is one, is a word of the name, in any case. -/
def Selects (word name : String) : Prop :=
  words (Evaluator.downcase word) ≠ [] ∧
    ∀ w ∈ words (Evaluator.downcase word), w ∈ words (Evaluator.downcase name)

instance (word name : String) : Decidable (Selects word name) := inferInstanceAs (Decidable (_ ∧ _))

/-- The entry of an exit in the pool. -/
def exitEntry (exits : Dict String SchemeVal) (name : String) : Ctx :=
  makeMap [("actor", (exits.get? name).getD (.bool false)), ("kind", "passage"),
    ("protocol", "/ma/passage/0.0.1"), ("name", name), ("nick", name)]

/-- The entries of some of the exits. -/
def exitEntries (exits : Dict String SchemeVal) (names : List String) : List SchemeVal :=
  (names.map (exitEntry exits)).map .map

/-- The names of the exits that a query names. -/
def namedExits (exits : Dict String SchemeVal) (word : String) : List String :=
  (exits.map Prod.fst).filter fun name => Selects word name

variable {room : Ctx} {exits : Dict String SchemeVal} {word name : String}

theorem exitPool_eq (h : roomExits room = .map exits) :
    exitPool room = .ok (exitEntries exits (exits.map Prod.fst)) := by
  have hentries : ∀ names : List String, names.mapM (fun name => do
      return SchemeVal.map (makeMap
        [("actor", ← mapRef (.map exits) name (.bool false)), ("kind", "passage"),
          ("protocol", "/ma/passage/0.0.1"), ("name", name), ("nick", name)])) =
      (.ok (exitEntries exits names) : Except String _) := by
    intro names
    induction names with
    | nil => rfl
    | cons name names ih =>
      rw [List.mapM_cons, ih]
      rfl
  rw [exitPool, h]
  exact hentries _

/-- An exit matches at the name and at the nick if the query names it. -/
theorem matches_exitEntry {key : String} (hkey : key = "name" ∨ key = "nick") :
    Matches word key (exitEntry exits name) ↔ Selects word name := by
  have hvalue : (exitEntry exits name).get? key = some (.str name) := by
    rcases hkey with rfl | rfl <;> simp [exitEntry, makeMap, Dict.get?_insert]
  refine ⟨?_, fun hmatch => ⟨name, hvalue, hmatch⟩⟩
  rintro ⟨value, hget, hmatch⟩
  obtain rfl := SchemeVal.str.inj (Option.some.inj (hvalue.symm.trans hget))
  exact hmatch

/-- The exits that the query names, at whichever key. -/
theorem candidatesByKeys_exits (exits : Dict String SchemeVal) (word : String) :
    candidatesByKeys (.str word) (exitEntries exits (exits.map Prod.fst)) ["nick", "name"] =
      .ok (exitEntries exits (namedExits exits word)) := by
  have hfilter : ∀ key, key = "name" ∨ key = "nick" →
      ((exits.map Prod.fst).map (exitEntry exits)).filter (fun entry => Matches word key entry) =
        (namedExits exits word).map (exitEntry exits) := by
    intro key hkey
    rw [List.filter_map, namedExits]
    congr 1
    exact List.filter_congr fun name _ => decide_eq_decide.2 (matches_exitEntry hkey)
  rw [exitEntries, candidatesByKeys_cons, candidatesByKeys_eq, hfilter _ (.inl rfl),
    hfilter _ (.inr rfl)]
  simp only
  split <;> rfl

/-- One name is all there is exactly if it, and no other, is named. -/
theorem namedExits_eq_singleton (hnodup : (exits.map Prod.fst).Nodup)
    (h : name ∈ exits.map Prod.fst) :
    namedExits exits word = [name] ↔ ∀ m ∈ exits.map Prod.fst, Selects word m ↔ m = name := by
  constructor
  · intro heq m hm
    rw [← List.mem_singleton, ← heq, namedExits, List.mem_filter, decide_eq_true_eq]
    exact (and_iff_right hm).symm
  · intro hall
    refine List.perm_singleton.1 ((List.perm_ext_iff_of_nodup (hnodup.filter _)
      (List.nodup_singleton _)).2 fun m => ?_)
    rw [List.mem_filter, List.mem_singleton, decide_eq_true_eq]
    exact ⟨fun ⟨hm, hselects⟩ => (hall m hm).1 hselects,
      fun heq => ⟨heq ▸ h, (hall m (heq ▸ h)).2 heq⟩⟩

end Words

/-! ## The direction -/

variable [Host] {s : Slots} {f : Focus} {word n : String} {room : Ctx}
  {exits : Dict String SchemeVal}

/-- The words of a name are a direction. -/
theorem directionWords_words {name : String} (h : words name ≠ []) (usage : String) :
    directionWords ((words name).map .str) usage = .ok (spaced name) := by
  rw [directionWords, joinWords_str]
  exact if_neg (spaced_ne_empty h)

section Raises

variable {α : Type} {Q : α → Focus → Prop} {E : String → Focus → Prop}

theorem noMatchError_raises (hE : ∀ e f', E e f') (word : SchemeVal) :
    (noMatchError word s : Program String Focus α).wp Q E f := by
  rw [noMatchError, view_bind, wp_bind]
  exact wp_of_le (fun _ _ _ => hE _ _) fun _ _ _ => hE _ _

/-- An ambiguous query raises. -/
theorem ambiguousError_raises (hE : ∀ e f', E e f') (word : SchemeVal)
    (candidates : List SchemeVal) :
    (ambiguousError word candidates s : Program String Focus α).wp Q E f := by
  simp only [ambiguousError, view_bind, wp_bind, view_throw, wp_throw]
  exact wp_of_le (fun _ _ _ => wp_of_le (fun _ _ _ => hE _ _) fun _ _ _ => hE _ _)
    fun _ _ _ => hE _ _

end Raises

/-- The choice among the entries that a query names. -/
def chooseEntry (word : SchemeVal) : List SchemeVal → View SchemeVal
  | [] => noMatchError word
  | [entry] => return entry
  | candidates => ambiguousError word candidates

/-- The direction is the name of the entry that is chosen. -/
theorem resolveExitName_eq (word : SchemeVal) : resolveExitName word = (do
    let hits ← resolveAgainstOrFalse exitPool word ["nick", "name"]
    let entry ← chooseEntry word hits
    liftM (mapRef entry "name" word)) := by
  have h : resolveEntryAgainst exitPool word ["nick", "name"] =
      resolveAgainstOrFalse exitPool word ["nick", "name"] >>= chooseEntry word := rfl
  rw [resolveExitName, h, bind_assoc]

/-- A single exit is the direction; from more of them none is chosen. -/
theorem chooseEntry_wp (names : List String) :
    (chooseEntry (.str word) (exitEntries exits names) s).wp
      (fun v f' => f' = f ∧ ∃ m, names = [m] ∧ v = .map (exitEntry exits m))
      (fun _ _ => names.length ≠ 1) f := by
  rcases names with _ | ⟨m, _ | ⟨m', names⟩⟩
  · exact noMatchError_raises (fun _ _ => by simp) _
  · exact ⟨rfl, m, rfl, rfl⟩
  · have hmany : (m :: m' :: names).length ≠ 1 := by simp
    exact ambiguousError_raises (fun _ _ => hmany) _ _

omit [Host] in
theorem mapRef_exitEntry (m : String) (default : SchemeVal) [Evaluator] :
    mapRef (.map (exitEntry exits m)) "name" default = .ok (.str m) := by
  have h : (exitEntry exits m).get? "name" = some (.str m) := by
    simp [exitEntry, makeMap, Dict.get?_insert]
  simp only [mapRef, asMap, bind, Except.bind, h]
  rfl

/-- In a cached room the exits that the query names decide, if there are any. -/
theorem resolveExitName_cached (hroom : f.lastRoom = some room)
    (hexits : roomExits room = .map exits) (hne : namedExits exits word ≠ []) :
    (resolveExitName (.str word) s).wp
      (fun v f' => f' = f ∧ ∃ m, namedExits exits word = [m] ∧ v = .str m)
      (fun _ _ => (namedExits exits word).length ≠ 1) f := by
  have hsome : (exitEntries exits (namedExits exits word)).isEmpty = false := by
    simpa [exitEntries] using hne
  simp only [resolveExitName_eq, resolveAgainstOrFalse, getFocus, view_bind, view_program, wp_bind,
    wp_get, hroom, view_lift, exitPool_eq hexits, candidatesByKeys_exits, wp_lift, hsome,
    Bool.not_false, view_pure, view_ite, if_true, wp_pure]
  refine (chooseEntry_wp _).conseq ?_ fun _ _ _ h => h
  rintro _ f' - ⟨rfl, m, hm, rfl⟩
  rw [mapRef_exitEntry]
  exact ⟨rfl, m, hm, rfl⟩

theorem exitPool_ok {pool : List SchemeVal} (h : exitPool room = .ok pool) :
    ∃ exits : Dict String SchemeVal, pool = exitEntries exits (exits.map Prod.fst) := by
  rcases hexits : roomExits room with _ | _ | _ | _ | _ | _ | _ | exits
  case map => exact ⟨exits, Except.ok.inj (h.symm.trans (exitPool_eq hexits))⟩
  all_goals
    rw [exitPool, hexits] at h
    cases h

/-- The exits of some room that the query names. -/
def Found (word : String) (hits : List SchemeVal) : Prop :=
  ∃ exits : Dict String SchemeVal, hits = exitEntries exits (namedExits exits word)

omit [Host] in
/-- What is found in a pool of exits. -/
theorem found_of_pool {Q : List SchemeVal → Focus → Prop} {E : String → Focus → Prop}
    {k : List SchemeVal → Program String Focus (List SchemeVal)} {x : Except String _}
    (hx : ∀ pool, x = .ok pool →
      ∃ exits : Dict String SchemeVal, pool = exitEntries exits (exits.map Prod.fst))
    (hk : ∀ exits : Dict String SchemeVal,
      (k (exitEntries exits (exits.map Prod.fst))).wp Q E f) (hE : ∀ e, E e f) :
    ((liftM x : Program String Focus _) >>= k).wp Q E f := by
  rw [wp_bind]
  refine wp_lift_of (fun pool h => ?_) fun e _ => hE e
  obtain ⟨exits, rfl⟩ := hx pool h
  exact hk exits

/-- What is found are the exits that the query names, of this room or of the one that a
    look showed. -/
theorem resolveAgainstOrFalse_found : (resolveAgainstOrFalse exitPool (.str word)
    ["nick", "name"] s).wp (fun hits _ => Found word hits) (fun _ _ => True) f := by
  simp only [resolveAgainstOrFalse, getFocus, view_bind, view_program, wp_bind, wp_get]
  rcases f.lastRoom with _ | room <;> simp only [view_bind, view_lift, view_pure]
  case' none =>
    refine found_of_pool (x := .ok []) (E := fun _ _ => True)
      (fun pool h => ⟨[], (Except.ok.inj h).symm⟩) (fun exits => ?_) fun _ => trivial
  case' some =>
    refine found_of_pool (fun _ h => exitPool_ok h) (fun exits => ?_) fun _ => trivial
  all_goals
    simp only [wp_bind, candidatesByKeys_exits, wp_lift, view_ite, wp_ite, view_bind]
    split
    · exact ⟨exits, rfl⟩
    -- nothing is found: the room that a look shows is searched
    refine wp_of_le (fun _ f₂ _ => wp_of_le (fun snapshot f₃ _ => ?_) fun _ _ _ => trivial)
      fun _ _ _ => trivial
    split
    · refine found_of_pool (fun _ h => exitPool_ok h) (fun exits' => ?_) fun _ => trivial
      simp only [candidatesByKeys_exits, view_lift, wp_lift]
      exact ⟨exits', rfl⟩
    · exact ⟨[], rfl⟩

/-- The direction is the name of an exit that the query names. -/
theorem resolveExitName_selects : (resolveExitName (.str word) s).wp
    (fun v _ => ∃ m, v = .str m ∧ Selects word m) (fun _ _ => True) f := by
  simp only [resolveExitName_eq, view_bind, wp_bind]
  refine resolveAgainstOrFalse_found.conseq ?_ fun _ _ _ _ => trivial
  rintro _ f₁ - ⟨exits, rfl⟩
  refine (chooseEntry_wp _).conseq ?_ fun _ _ _ _ => trivial
  rintro _ f₂ - ⟨-, m, hm, rfl⟩
  have hmem : m ∈ namedExits exits word := by rw [hm]; exact List.mem_singleton_self m
  rw [mapRef_exitEntry]
  exact ⟨m, rfl, of_decide_eq_true (List.mem_filter.1 hmem).2⟩

/-! ## Moves -/

/-- A move asked of an actor, with its arguments. -/
def Effect.move? : Effect → Option (String × List SchemeVal)
  | .call x method args _ => if method = "move" then some (x, args) else none
  | _ => none

/-- The direction a move is asked for. -/
def direction? : List SchemeVal → Option SchemeVal
  | [.map ctx] => Dict.get? ctx "direction"
  | _ => none

/-- Between the two states exactly one move was asked for, of this room, in this
    direction. -/
def World.MovesOnce (w w' : World) (room direction : String) : Prop :=
  ∃ args, (w.effects w').filterMap Effect.move? = [(room, args)] ∧
    direction? args = some (.str direction)

omit [Host] in
theorem World.not_movesOnce {w w' : World} {room direction : String}
    (h : (w.effects w').filterMap Effect.move? = []) : ¬ w.MovesOnce w' room direction := by
  rintro ⟨args, hmoves, _⟩
  exact List.cons_ne_nil _ _ (hmoves.symm.trans h)

omit [Host] in
theorem Effect.Lookup.move {e : Effect} (h : e.Lookup) : e.move? = none := by
  rcases e with _ | _ | _ | _
  case call => exact if_neg (h.ne (by simp))
  all_goals rfl

/-- If it is a move, it has such a direction. -/
def Effect.Heads (R : SchemeVal → Prop) (e : Effect) : Prop :=
  ∀ x args, e.move? = some (x, args) → ∃ v, direction? args = some v ∧ R v

omit [Host] in
theorem Effect.heads_of_move {R : SchemeVal → Prop} {e : Effect} (h : e.move? = none) :
    e.Heads R := fun _ _ hmove => nomatch h.symm.trans hmove

/-- The ctx of a move. -/
def moveCtx (tid : String) (direction : SchemeVal) : Ctx :=
  makeMap [("traverseId", tid), ("direction", direction)]

omit [Host] in
theorem direction_moveCtx (tid : String) (direction : SchemeVal) :
    direction? [.map (moveCtx tid direction)] = some direction := by
  simp [direction?, moveCtx, makeMap]

/-- `go` with the words of a name: a number is drawn, the name is looked for, and the room
    is asked. -/
theorem go_wp {Q : SchemeVal → Focus → Prop} {E : String → Focus → Prop} (hn : words n ≠ []) :
    (go ((words n).map .str) s).wp Q E f ↔
      let drawn := Host.random f.trace
      (resolveExitName (.str (spaced n)) s).wp
        (fun v f' => (roomCall "move" [.map (moveCtx (toString drawn.toInt) v)] s).wp
          (fun _ => Q .nil) E f')
        E { f with trace := .random drawn :: f.trace } := by
  simp only [go, newTraverseId, random, getFocus, emit, numberToString, view_bind, view_program,
    view_lift, view_pure, wp_bind, wp_get, wp_update, wp_pure, wp_lift, directionWords_words hn]
  exact Iff.rfl

/-- Every move that `go` asks for is in a direction that was resolved. -/
theorem go_heads {R : SchemeVal → Prop} (hn : words n ≠ [])
    (h : ∀ f', f'.lastRoom = f.lastRoom →
      (resolveExitName (.str (spaced n)) s).wp (fun v _ => R v) (fun _ _ => True) f') :
    (go ((words n).map .str) s).wp (fun _ => Adds (Effect.Heads R) f)
      (fun _ => Adds (Effect.Heads R) f) f := by
  have hlookup : ∀ e : Effect, e.Lookup → e.Heads R := fun e he => Effect.heads_of_move he.move
  rw [go_wp hn]
  let drawn := Host.random f.trace
  let f₁ : Focus := { f with trace := .random drawn :: f.trace }
  have hdrawn : Adds (Effect.Heads R) f f₁ :=
    ⟨[_], rfl, List.forall_mem_singleton.2 (Effect.heads_of_move rfl)⟩
  refine ((((emits_inquires hlookup).resolveExitName _).wp s f₁).and (h f₁ rfl)).conseq ?_
    fun _ _ _ hend => trans_of (Adds _) hdrawn hend.1
  rintro v f₂ - ⟨hlooked, hv⟩
  have hmove : Emits (Effect.Heads R)
      (roomCall "move" [.map (moveCtx (toString drawn.toInt) v)]) := by
    refine emits_roomCall fun x m r _ y args heq => ?_
    simp only [Effect.move?, Option.ite_none_right_eq_some, Option.some.injEq, Prod.mk.injEq] at heq
    obtain ⟨_, _, rfl⟩ := heq
    exact ⟨v, direction_moveCtx _ _, hv⟩
  have hsofar := trans_of (Adds _) hdrawn hlooked
  exact (hmove.wp s f₂).conseq (fun _ _ _ hend => trans_of (Adds _) hsofar hend)
    fun _ _ _ hend => trans_of (Adds _) hsofar hend

variable {w : World} {room : String} {lastRoom : Ctx} {exits : Dict String SchemeVal} {n : String}

/-- What holds at the end of `go` holds at the end of the view. -/
theorem go_end (words : List SchemeVal) (w : World) (P : World → Prop) :
    P ((Command.go.run words).run w).2 ↔
      (go words w.slots).wp (fun _ f => P { w with focus := f })
        (fun _ f => P { w with focus := f }) w.focus :=
  (wp_iff_end _ P).symm.trans (wp_view _)

/-- If `go` moves through an exit, its words name this exit and no other of the cached
    room. -/
theorem namedExits_of_movesOnce (hlast : w.focus.lastRoom = some lastRoom)
    (hexits : roomExits lastRoom = .map exits) (hn : n ∈ exits.map Prod.fst)
    (hwords : words n ≠ [])
    (h : w.MovesOnce ((Command.go.run ((words n).map .str)).run w).2 room n) :
    namedExits exits (spaced n) = [n] := by
  obtain ⟨args, hmoves, hdirection⟩ := h
  -- the one move there is has a direction that was resolved
  have hresolved : ∀ R : SchemeVal → Prop, (∀ f', f'.lastRoom = w.focus.lastRoom →
      (resolveExitName (.str (spaced n)) w.slots).wp (fun v _ => R v) (fun _ _ => True) f') →
      R (.str n) := by
    intro R hR
    obtain ⟨e, he, hmove⟩ : ∃ e ∈ w.effects _, e.move? = some (room, args) :=
      List.mem_filterMap.1 (hmoves ▸ List.mem_singleton_self (room, args))
    have hadds := (go_end _ w fun w' => Adds (Effect.Heads R) w.focus w'.focus).2
      (go_heads hwords hR)
    obtain ⟨v, hv, hRv⟩ := Adds.effects hadds e he _ _ hmove
    obtain rfl := Option.some.inj (hdirection.symm.trans hv)
    exact hRv
  by_cases hnone : namedExits exits (spaced n) = []
  · obtain ⟨m, hm, hselects⟩ := hresolved _ fun f' _ => resolveExitName_selects
    obtain rfl := SchemeVal.str.inj hm
    have hmem : n ∈ namedExits exits (spaced n) := List.mem_filter.2 ⟨hn, decide_eq_true hselects⟩
    exact absurd (hnone ▸ hmem) List.not_mem_nil
  · obtain ⟨m, hone, hm⟩ := hresolved (fun v => ∃ m, namedExits exits (spaced n) = [m] ∧
        v = .str m) fun f' hf' => (resolveExitName_cached (hf'.trans hlast) hexits hnone).conseq
      (fun _ _ _ h => h.2) fun _ _ _ _ => trivial
    obtain rfl := SchemeVal.str.inj hm
    exact hone

/-- If its words name this exit and no other, `go` moves through it. -/
theorem movesOnce_of_namedExits (hroom : w.slots.room = some (.str room))
    (hactor : Host.isActor room = true) (hlast : w.focus.lastRoom = some lastRoom)
    (hexits : roomExits lastRoom = .map exits) (hwords : words n ≠ [])
    (hone : namedExits exits (spaced n) = [n]) :
    w.MovesOnce ((Command.go.run ((words n).map .str)).run w).2 room n := by
  have hsome : namedExits exits (spaced n) ≠ [] := by rw [hone]; exact List.cons_ne_nil _ _
  let drawn := Host.random w.focus.trace
  let f₁ : Focus := { w.focus with trace := .random drawn :: w.focus.trace }
  let args : List SchemeVal := [.map (moveCtx (toString drawn.toInt) (.str n))]
  have hasked : ∀ reply, w.MovesOnce
      { w with focus := { f₁ with trace := .call room "move" args reply :: f₁.trace } }
      room n := by
    intro reply
    refine ⟨args, ?_, direction_moveCtx _ _⟩
    rw [World.effects_eq (l := [.call room "move" args reply, .random drawn]) rfl]
    rfl
  refine (go_end _ w fun w' => w.MovesOnce w' room n).2 ((go_wp hwords).2 ?_)
  refine (resolveExitName_cached (f := f₁) hlast hexits hsome).conseq ?_ ?_
  · rintro _ f' - ⟨rfl, m, hm, rfl⟩
    obtain rfl : n = m := (List.cons.inj (hone.symm.trans hm)).1
    simp only [roomCall, Avatar.room, getSlots, view_bind, view_read, wp_bind, wp_pure, hroom,
      localPath, view_pure]
    refine actorCall_wp (fun x v hx _ => ?_) (fun x e hx _ => ?_) fun e hno => ?_
    · obtain rfl := SchemeVal.str.inj hx
      exact hasked _
    · obtain rfl := SchemeVal.str.inj hx
      exact hasked _
    · exact absurd (hactor.symm.trans (hno room rfl).1) (by simp)
  · exact fun _ _ _ hlength => absurd (congrArg List.length hone) hlength

/-- Walking through an exit by its name: in a room with this exit, `go` with the words of
    the name asks the room for exactly one move, in the direction of this exit, if and only
    if the words name this exit and no other. -/
theorem go_moves_iff {w : World} {room : String} {lastRoom : Ctx} {exits : Dict String SchemeVal}
    {n : String} (hroom : w.slots.room = some (.str room)) (hactor : Host.isActor room = true)
    (hlast : w.focus.lastRoom = some lastRoom) (hexits : roomExits lastRoom = .map exits)
    (hnodup : (exits.map Prod.fst).Nodup) (hn : n ∈ exits.map Prod.fst)
    (hspace : ∃ c ∈ n.toList, c ≠ ' ') :
    w.MovesOnce ((Command.go.run ((words n).map .str)).run w).2 room n ↔
      ∀ m ∈ exits.map Prod.fst, Selects (spaced n) m ↔ m = n := by
  have hwords : words n ≠ [] := words_ne_nil hspace
  rw [← namedExits_eq_singleton hnodup hn]
  constructor
  · exact namedExits_of_movesOnce hlast hexits hn hwords
  · exact movesOnce_of_namedExits hroom hactor hlast hexits hwords

omit [Host] in
/-- Of two exits with a word in common each can be walked by its name. -/
theorem go_moves_iff_door :
    let _ : Host := scripted "did:ma:me" fun _ _ _ => .ok .nil
    let exits : Dict String SchemeVal :=
      [("north  door", "did:ma:world#n"), ("door south", "did:ma:world#s")]
    let w : World := { World.entered "did:ma:room" with
      focus := ⟨some [("exits", .map exits)], [], []⟩ }
    w.MovesOnce ((Command.go.run ((words "north  door").map .str)).run w).2 "did:ma:room"
        "north  door" ↔
      ∀ m ∈ exits.map Prod.fst, Selects (spaced "north  door") m ↔ m = "north  door" := by
  intro _ exits w
  exact go_moves_iff rfl (by decide +kernel) rfl rfl (by decide) (by decide)
    ⟨'n', by decide, by decide⟩

omit [Host] in
/-- The way down is shown beside the one to the hall down there, and cannot be walked. -/
theorem down_not_walked :
    let exits : Dict String SchemeVal := [("down", "did:ma:cellar"), ("down hall", "did:ma:hall")]
    let _ : Host := scripted "did:ma:me" fun _ method _ =>
      .ok (if method = "look" then .map [("name", "stairs"), ("exits", .map exits)] else .nil)
    ∃ w : World, (avatar Slots.Fresh).exec (World.entered "did:ma:room") [.command .look []] =
        some w ∧
      w.focus.lastRoom.map roomExits = some (.map exits) ∧
      ¬ w.MovesOnce ((Command.go.run ((words "down").map .str)).run w).2 "did:ma:room" "down" := by
  intro exits _
  exact ⟨_, exec_avatar _ _ _, by decide +kernel, World.not_movesOnce (by decide +kernel)⟩

end Avatar

end Zscheme
