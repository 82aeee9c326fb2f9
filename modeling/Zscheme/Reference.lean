import Mathlib.Data.List.Dedup
import Zscheme.Runtime
import Zscheme.Scheme.Strings

/-!
# Object references

What a word refers to in a pool of ctx maps: an entry is a *hit* at a key if every word
of the query is a word of its value there, in any case. `resolve-ref` collects the hits
at the name, the nick and the description, and keeps the last occurrence of each actor
(`resolveRef_eq_dedup`). It never raises on a pool of maps.
-/

namespace Zscheme

namespace Runtime

open Prim Stdlib

/-- The words of a text, between spaces. -/
def words (s : String) : List String :=
  ((s.toList.splitOn ' ').map String.ofList).filter (· ≠ "")

variable [Evaluator]

/-- Every word of the query, and there is one, is a word of the value of the entry at the
    key, in any case. -/
def Matches (word key : String) (entry : Ctx) : Prop :=
  ∃ value, entry.get? key = some (.str value) ∧ words (Evaluator.downcase word) ≠ [] ∧
    ∀ w ∈ words (Evaluator.downcase word), w ∈ words (Evaluator.downcase value)

instance (word key : String) (entry : Ctx) : Decidable (Matches word key entry) :=
  match h : entry.get? key with
  | some (.str value) =>
    decidable_of_iff (words (Evaluator.downcase word) ≠ [] ∧
      ∀ w ∈ words (Evaluator.downcase word), w ∈ words (Evaluator.downcase value))
      ⟨fun hw => ⟨value, h, hw⟩, fun ⟨_, hv, hw⟩ => by
        obtain rfl := SchemeVal.str.inj (Option.some.inj (h.symm.trans hv))
        exact hw⟩
  | some (.bytes _) | some (.int _) | some (.float _) | some (.bool _) | some .nil
  | some (.list _) | some (.map _) | none =>
    isFalse fun ⟨_, hv, _⟩ => nomatch h.symm.trans hv

/-- The actors of the entries that match at a key, in the order of the pool. -/
def hits (word key : String) (pool : List Ctx) : List SchemeVal :=
  (pool.filter fun entry => Matches word key entry).map ctxActor

variable {word key : String} {pool : List Ctx}

/-! ## Matching -/

theorem matchWords_eq (s : String) : matchWords (.str s) = .ok (words (Evaluator.downcase s)) := by
  have h : stringSplit (Evaluator.downcase s) " " =
      .ok (((Evaluator.downcase s).toList.splitOn ' ').map String.ofList) := stringSplit_eq _ ' '
  simp only [matchWords, stringDowncase, asString, bind, Except.bind, pure, Except.pure, h]
  rfl

/-- `name-matches?` decides whether an entry matches. -/
theorem nameMatches?_eq (word key : String) (entry : Ctx) :
    nameMatches? (.str word) (.map entry) key = .ok (decide (Matches word key entry)) := by
  have href : mapRef (.map entry) key (.bool false) =
      .ok ((entry.get? key).getD (.bool false)) := rfl
  have hno : (∀ s, entry.get? key ≠ some (.str s)) → ((entry.get? key).getD (.bool false)).string? =
      false ∧ ¬ Matches word key entry := by
    intro hs
    constructor
    · rcases hv : entry.get? key with _ | _ | _ | _ | _ | _ | _ | _ | _
      case some.str s => exact absurd hv (hs s)
      all_goals rfl
    · rintro ⟨value, hv, _⟩
      exact hs value hv
  simp only [nameMatches?, href, matchWords_eq, bind, Except.bind]
  by_cases hs : ∃ s, entry.get? key = some (.str s)
  · obtain ⟨value, hv⟩ := hs
    simp only [hv, Option.getD_some, SchemeVal.string?, Bool.true_and, matchWords_eq]
    by_cases hw : words (Evaluator.downcase word) = []
    · have hnot : ¬ Matches word key entry := by
        rintro ⟨_, _, hne, _⟩
        exact hne hw
      simp [hw, hnot, pure, Except.pure]
    · have hiff : Matches word key entry ↔
          ∀ w ∈ words (Evaluator.downcase word), w ∈ words (Evaluator.downcase value) := by
        constructor
        · rintro ⟨_, hv', _, h⟩
          obtain rfl := SchemeVal.str.inj (Option.some.inj (hv.symm.trans hv'))
          exact h
        · exact fun h => ⟨value, hv, hw, h⟩
      simp [hw, hiff, pure, Except.pure, List.all_eq]
  · obtain ⟨hstr, hnot⟩ := hno fun s hv => hs ⟨s, hv⟩
    simp [hstr, hnot, pure, Except.pure]

omit [Evaluator] in
/-- A filter whose test never raises. -/
theorem filterM_map_ok {α β : Type} {f : β → Except String Bool} {g : α → β} {p : α → Bool}
    (h : ∀ x, f (g x) = .ok (p x)) (l : List α) :
    (l.map g).filterM f = .ok ((l.filter p).map g) := by
  have haux : ∀ acc, List.filterAuxM f (l.map g) acc =
      .ok (((l.filter p).map g).reverse ++ acc) := by
    induction l with
    | nil => exact fun _ => rfl
    | cons x l ih =>
      intro acc
      rw [List.map_cons, List.filterAuxM, h]
      simp only [bind, Except.bind, ih]
      cases hp : p x <;> simp [hp]
  rw [List.filterM, haux]
  simp [bind, Except.bind, pure, Except.pure]

/-- The entries that match at the first key, or what there is at the others. -/
theorem candidatesByKeys_cons (keys : List String) :
    candidatesByKeys (.str word) (pool.map .map) (key :: keys) =
      let hits := (pool.filter fun entry => Matches word key entry).map SchemeVal.map
      if hits.isEmpty then candidatesByKeys (.str word) (pool.map .map) keys else .ok hits := by
  have hf : (pool.map SchemeVal.map).filterM (nameMatches? (.str word) · key) =
      .ok ((pool.filter fun entry => Matches word key entry).map .map) :=
    filterM_map_ok (f := (nameMatches? (.str word) · key)) (nameMatches?_eq word key) pool
  simp only [candidatesByKeys, bind, Except.bind]
  rw [hf]
  rfl

/-- The entries that match at a key. -/
theorem candidatesByKeys_eq : candidatesByKeys (.str word) (pool.map .map) [key] =
    .ok ((pool.filter fun entry => Matches word key entry).map .map) := by
  rw [candidatesByKeys_cons]
  simp only
  split
  · next hnil => rw [List.isEmpty_iff.1 hnil, candidatesByKeys]
  · rfl

theorem mapM_entryActor (pool : List Ctx) :
    (pool.map SchemeVal.map).mapM entryActor = .ok (pool.map ctxActor) := by
  induction pool with
  | nil => rfl
  | cons entry pool ih =>
    have hentry : entryActor (.map entry) = .ok (ctxActor entry) := rfl
    simp only [List.map_cons, List.mapM_cons, hentry, ih, bind, Except.bind]
    rfl

/-- `resolve-attr` finds the hits at a key. -/
theorem resolveAttr_eq :
    resolveAttr (.str word) (pool.map .map) key = .ok (hits word key pool) := by
  simp only [resolveAttr, resolveInPool, candidatesByKeys_eq, bind, Except.bind, mapM_entryActor]
  rfl

/-- Among ctx maps the entry of an actor is the first one that names it. -/
theorem findEntryByActor_map (did : SchemeVal) (pool : List Ctx) :
    findEntryByActor did (pool.map .map) =
      .ok ((pool.find? fun entry => Evaluator.equal? (ctxActor entry) did).map .map) := by
  induction pool with
  | nil => rfl
  | cons entry pool ih =>
    have hentry : entryActor (.map entry) = .ok (ctxActor entry) := rfl
    simp only [List.map_cons, findEntryByActor, hentry, bind, Except.bind, ih, List.find?_cons]
    by_cases h : Evaluator.equal? (ctxActor entry) did = true <;> simp [h, pure, Except.pure]

/-! ## References -/

theorem member?_str {s : String} {l : List SchemeVal} :
    member? (.str s) l = true ↔ .str s ∈ l := by
  rw [member?, List.any_eq_true]
  constructor
  · rintro ⟨v, hv, h⟩
    exact str_equal?_iff.1 h ▸ hv
  · exact fun h => ⟨_, h, str_equal?_iff.2 rfl⟩

/-- `unique-list` keeps the last occurrence of each text. -/
theorem uniqueList_eq_dedup {l : List SchemeVal} (h : ∀ v ∈ l, v.string? = true) :
    uniqueList l = l.dedup := by
  induction l with
  | nil => rfl
  | cons v l ih =>
    obtain ⟨hv, hl⟩ := List.forall_mem_cons.1 h
    obtain ⟨s, rfl⟩ := SchemeVal.string?_iff.1 hv
    rw [uniqueList]
    split
    · next h => rw [ih hl, List.dedup_cons_of_mem (member?_str.1 h)]
    · next h => rw [ih hl, List.dedup_cons_of_notMem fun hm => h (member?_str.2 hm)]

theorem uniqueList_ne_nil {v : SchemeVal} {l : List SchemeVal} : uniqueList (v :: l) ≠ [] := by
  induction l generalizing v with
  | nil => simp [uniqueList, member?]
  | cons u l ih =>
    rw [uniqueList]
    split
    · exact ih
    · exact List.cons_ne_nil _ _

/-- One text is left of a list if and only if the list has nothing else. -/
theorem uniqueList_eq_str {l : List SchemeVal} {s : String} :
    uniqueList l = [.str s] ↔ l ≠ [] ∧ ∀ v ∈ l, v = .str s := by
  induction l with
  | nil => simp [uniqueList]
  | cons v l ih =>
    rcases l with _ | ⟨u, l⟩
    · simp [uniqueList, member?]
    rw [uniqueList]
    split
    · next h =>
      rw [ih, List.forall_mem_cons (a := v)]
      simp only [ne_eq, List.cons_ne_nil, not_false_eq_true, true_and]
      refine (and_iff_right_of_imp fun hall => ?_).symm
      -- the value is equal to one that is left out or kept, and this is the text
      obtain ⟨w, hw, heq⟩ := List.any_eq_true.1 h
      rw [hall w hw] at heq
      exact equal?_str_iff.1 heq
    · next h =>
      refine iff_of_false (fun hcons => uniqueList_ne_nil (List.cons.inj hcons).2) ?_
      rintro ⟨-, hall⟩
      rw [hall v List.mem_cons_self] at h
      exact h (member?_str.2 (hall u (by simp) ▸ List.mem_cons_self))

/-- What matches at one of the keys, in order. -/
def matched (word : String) (pool : List Ctx) : List SchemeVal :=
  hits word "name" pool ++ hits word "nick" pool ++ hits word "description" pool

/-- `resolve-ref` flattens what matches, and keeps the last occurrence of each value. -/
theorem resolveRef_eq (word : String) (pool : List Ctx) :
    resolveRef (.str word) (pool.map .map) =
      .ok (uniqueList (flattenList (matched word pool))) := by
  have hflat : ∀ a b : List SchemeVal, flattenList (a ++ b) = flattenList a ++ flattenList b := by
    intro a b
    induction a with
    | nil => rfl
    | cons v a ih => rw [List.cons_append, flattenList, flattenList, ih, List.append_assoc]
  simp only [resolveRef, resolveAttr_eq, bind, Except.bind, pure, Except.pure, matched, hflat,
    flattenList, flattenVal, List.append_nil, List.append_assoc]

omit [Evaluator] in
/-- A list of strings is flat. -/
theorem flattenList_of_string {l : List SchemeVal} (h : ∀ v ∈ l, v.string? = true) :
    flattenList l = l := by
  induction l with
  | nil => rfl
  | cons v l ih =>
    have hv := h v List.mem_cons_self
    rw [flattenList, ih fun u hu => h u (List.mem_cons_of_mem _ hu)]
    rcases v with _ | _ | _ | _ | _ | _ | _ | _
    case str => rfl
    all_goals cases hv

omit [Evaluator] in
theorem mem_flattenList {v : SchemeVal} {l : List SchemeVal} :
    v ∈ flattenList l ↔ ∃ u ∈ l, v ∈ flattenVal u := by
  induction l with
  | nil => simp [flattenList]
  | cons u l ih => rw [flattenList, List.mem_append, ih, List.exists_mem_cons_iff]

/-- The actors that match are those of entries that match at one of the keys. -/
theorem mem_matched {did : SchemeVal} : did ∈ matched word pool ↔
    ∃ entry ∈ pool, ctxActor entry = did ∧
      ∃ key ∈ ["name", "nick", "description"], Matches word key entry := by
  simp only [matched, hits, List.mem_append, List.mem_map, List.mem_filter, decide_eq_true_eq,
    List.mem_cons, List.not_mem_nil, or_false]
  constructor
  · rintro ((⟨entry, ⟨hp, hm⟩, rfl⟩ | ⟨entry, ⟨hp, hm⟩, rfl⟩) | ⟨entry, ⟨hp, hm⟩, rfl⟩)
    · exact ⟨entry, hp, rfl, _, .inl rfl, hm⟩
    · exact ⟨entry, hp, rfl, _, .inr (.inl rfl), hm⟩
    · exact ⟨entry, hp, rfl, _, .inr (.inr rfl), hm⟩
  · rintro ⟨entry, hp, rfl, key, rfl | rfl | rfl, hm⟩
    · exact .inl (.inl ⟨entry, ⟨hp, hm⟩, rfl⟩)
    · exact .inl (.inr ⟨entry, ⟨hp, hm⟩, rfl⟩)
    · exact .inr ⟨entry, ⟨hp, hm⟩, rfl⟩

/-- On a pool in which what `entry-actor` reads of each entry is a text, `resolve-ref` gives
    the hits at the name, the nick and the description, the last occurrence of each: each
    address that matches once, and nothing else. -/
theorem resolveRef_eq_dedup (word : String) {pool : List Ctx}
    (h : ∀ entry ∈ pool, (ctxActor entry).string? = true) :
    ∃ dids, resolveRef (.str word) (pool.map .map) = .ok dids ∧
      dids = (hits word "name" pool ++ hits word "nick" pool ++
        hits word "description" pool).dedup ∧
      dids.Nodup ∧
      ∀ did, did ∈ dids ↔ ∃ entry ∈ pool, ctxActor entry = did ∧
        ∃ key ∈ ["name", "nick", "description"], Matches word key entry := by
  have hstr : ∀ v ∈ matched word pool, v.string? = true := by
    intro v hv
    obtain ⟨entry, hentry, rfl, _⟩ := mem_matched.1 hv
    exact h entry hentry
  refine ⟨(matched word pool).dedup, ?_, rfl, List.nodup_dedup _, fun did => ?_⟩
  · rw [resolveRef_eq, flattenList_of_string hstr, uniqueList_eq_dedup hstr]
  · rw [List.mem_dedup]
    exact mem_matched

omit [Evaluator] in
/-- Two of three entries match, one of them twice. -/
theorem resolveRef_eq_dedup_box :
    let _ := plain
    let chest : Ctx := [("actor", "did:ma:chest"), ("name", "a box"), ("nick", "box")]
    let crate : Ctx := [("did", "did:ma:crate"), ("name", "wooden box")]
    let lamp : Ctx := [("actor", "did:ma:lamp"), ("name", "lamp")]
    ∃ dids, resolveRef "box" ([chest, crate, lamp].map .map) = .ok dids ∧
      dids = [.str "did:ma:crate", .str "did:ma:chest"] := by
  intro _ chest crate lamp
  have hpool : ∀ entry ∈ [chest, crate, lamp], (ctxActor entry).string? = true := by decide
  obtain ⟨dids, h, hdids, _⟩ := resolveRef_eq_dedup "box" hpool
  exact ⟨dids, h, hdids.trans (by decide +kernel)⟩

omit [Evaluator] in
/-- A DID does not stand in for an actor that is there and is no text: the entry matches,
    and nothing is found. -/
theorem not_resolveRef_eq_dedup :
    let _ := plain
    let box : Ctx := [("actor", .nil), ("did", "did:ma:x"), ("name", "box")]
    (∃ did, box.get? "did" = some (.str did)) ∧
      (hits "box" "name" [box] ++ hits "box" "nick" [box] ++
        hits "box" "description" [box]).dedup = [.nil] ∧
      resolveRef "box" ([box].map .map) = .ok [] := by
  intro _ box
  exact ⟨⟨_, rfl⟩, by decide +kernel, by decide +kernel⟩

end Runtime

end Zscheme
