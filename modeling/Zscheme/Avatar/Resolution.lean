import Zscheme.Avatar.Logic
import Zscheme.Reference

/-!
# Resolution

What becomes of a word and a pool of ctx maps. `resolve-one-entry` is meant to have three
outcomes (`Settled`): it returns an entry with an address, it reports that nothing matches,
or it reports the ambiguity and names each candidate. It ends otherwise where testing the
word for a DID cuts one of its characters and a cut is refused, where the only actor that
matches has no address, and where a candidate cannot be described
(`resolveOneEntry_settled_iff`).
-/

namespace Zscheme

namespace Avatar

open Prim Stdlib Zscheme.Runtime Program

/-! ## Outcomes -/

/-- The word begins with `did:ma:`. -/
def DidWord (word : String) : Prop := "did:ma:".toList <+: word.toList

instance : DecidablePred DidWord := fun word =>
  inferInstanceAs (Decidable ("did:ma:".toList <+: word.toList))

/-- The text of `no-match-error`. -/
def noMatchText (word : String) : String := "no match for \"" ++ word ++ "\" here."

/-- The first line of the text of `ambiguous-error`. -/
def ambiguousTitle (word : String) : String :=
  "\"" ++ word ++ "\" matches more than one — repeat the command with a DID instead:"

/-- The lines after the first one. -/
def appendCandidates (title : String) (lines : List String) : String :=
  lines.foldl (fun text line => text ++ "\n  " ++ line) title

/-- The line of a candidate names its DID. -/
def Names (actor : SchemeVal) (line : String) : Prop :=
  ∃ did before after, actor = .str did ∧ line = before ++ " (" ++ did ++ ")" ++ after

section Outcomes

variable [Evaluator]

/-- The three outcomes of a resolution. They exclude each other: for a word that is no
    DID, each occurs exactly at its number of distinct actors that match. -/
def Settled (word : String) (pool : List Ctx) : Except String SchemeVal → Prop
  | .ok entry => (∃ did, entryActor entry = .ok (.str did)) ∧
    (¬ DidWord word → (matched word pool).dedup.length = 1)
  | .error e =>
    (e = noMatchText word ∧ (¬ DidWord word → (matched word pool).dedup.length = 0)) ∨
    ((∃ lines, e = appendCandidates (ambiguousTitle word) lines ∧
        List.Forall₂ Names (matched word pool).dedup lines) ∧
      (¬ DidWord word → 2 ≤ (matched word pool).dedup.length))

/-- An error of a primitive that refuses its arguments. -/
def PrimError (e : String) : Prop :=
  ∃ prim ∈ ["substring", "map-ref", "string-append"], ∃ args, e = Evaluator.primError prim args

/-- An error text of one of the two reports. -/
def Reported (word e : String) : Prop :=
  e = noMatchText word ∨ ∃ rest, e = ambiguousTitle word ++ rest

omit [Evaluator] in
theorem appendCandidates_eq (title : String) (lines : List String) :
    ∃ rest, appendCandidates title lines = title ++ rest := by
  induction lines generalizing title with
  | nil => exact ⟨"", (String.append_empty).symm⟩
  | cons line lines ih =>
    obtain ⟨rest, hrest⟩ := ih (title ++ "\n  " ++ line)
    refine ⟨"\n  " ++ line ++ rest, ?_⟩
    rw [appendCandidates, List.foldl_cons]
    rw [appendCandidates] at hrest
    rw [hrest]
    simp only [String.append_assoc]

theorem Settled.reported {word e : String} {pool : List Ctx} (h : Settled word pool (.error e)) :
    Reported word e := by
  rcases h with ⟨h, _⟩ | ⟨⟨lines, h, _⟩, _⟩
  · exact .inl h
  · exact .inr (h ▸ appendCandidates_eq _ _)

omit [Evaluator] in
/-- A report begins with a quotation mark, or with the first letter of *no match*. -/
theorem Reported.head {word e : String} (h : Reported word e) :
    e.toList.head? = some 'n' ∨ e.toList.head? = some '"' := by
  rcases h with rfl | ⟨rest, rfl⟩
  · exact .inl (by simp [noMatchText])
  · exact .inr (by simp [ambiguousTitle])

/-! ## The test for a DID -/

/-- The word is shorter than the prefix of a DID, or no character lies across its
    seventh byte. -/
def WholePrefix (word : String) : Prop :=
  stringLength word < 7 ∨ ∃ a b, word.toList = a ++ b ∧ bytes a = 7

omit [Evaluator] in
theorem DidWord.whole {word : String} (h : DidWord word) : WholePrefix word := by
  obtain ⟨b, hb⟩ := h
  exact .inr ⟨_, b, hb.symm, rfl⟩

/-- The test for a DID is not refused: it cuts no character, or a cut is empty. -/
def Testable (word : String) : Prop := WholePrefix word ∨ Evaluator.cutRaises = false

theorem DidWord.testable {word : String} (h : DidWord word) : Testable word := .inl h.whole

omit [Evaluator] in
theorem cut_of_not_whole {word : String} (h : ¬ WholePrefix word) :
    7 ≤ stringLength word ∧ slice word 0 7 = none := by
  obtain ⟨hle, hab⟩ := not_or.1 h
  have hcut : cut word.toList 7 = none := by
    rw [Option.eq_none_iff_forall_not_mem]
    rintro ⟨a, b⟩ hp
    exact hab ⟨a, b, cut_eq_some.1 hp⟩
  refine ⟨Nat.not_lt.1 hle, ?_⟩
  rw [slice, if_pos (Nat.zero_le 7), cut.eq_1, Option.bind_some, hcut, Option.map_none]

/-- Where the seventh byte ends a character, the test tells the DIDs. -/
theorem startsWithDid?_of_whole {word : String} (h : WholePrefix word) :
    startsWithDid? (.str word) = .ok (decide (DidWord word)) := by
  have hbytes := bytes_toList word
  rw [startsWithDid?]
  split
  · next hle =>
    obtain ⟨a, b, hab, ha⟩ := h.resolve_left (by omega)
    have hcut : substring word 0 7 = .ok (String.ofList a) := by
      have := substring_append [] a b
      rwa [List.nil_append, ← hab, String.ofList_toList, ha] at this
    have hiff : String.ofList a = "did:ma:" ↔ DidWord word := by
      constructor
      · intro hp
        have hp' : a = "did:ma:".toList := by rw [← hp, String.toList_ofList]
        exact ⟨b, by rw [hab, hp']⟩
      -- a word is cut at its seventh byte in one way only
      · rintro ⟨c, hc⟩
        have h₁ : cut word.toList 7 = some (a, b) := by rw [hab, ← ha, cut_append]
        have h₂ : cut word.toList 7 = some ("did:ma:".toList, c) := by
          rw [← hc]; exact cut_append "did:ma:".toList c
        have hp : a = "did:ma:".toList := (Prod.mk.inj (Option.some.inj (h₁.symm.trans h₂))).1
        rw [hp, String.ofList_toList]
    simp only [hcut, bind, Except.bind, pure, Except.pure, hiff]
  -- the source does not cut a word that is shorter than the prefix
  · next hlt =>
    have hno : ¬ DidWord word := by
      rintro ⟨b, hb⟩
      have h7 : bytes "did:ma:".toList = 7 := rfl
      rw [← hb, bytes_append] at hbytes
      omega
    simp [hno]

/-- So it does where the seventh byte lies inside a character and a cut is empty. -/
theorem startsWithDid?_eq {word : String} (h : Testable word) :
    startsWithDid? (.str word) = .ok (decide (DidWord word)) := by
  by_cases hwhole : WholePrefix word
  · exact startsWithDid?_of_whole hwhole
  · obtain ⟨hle, hslice⟩ := cut_of_not_whole hwhole
    have hempty : substring word 0 7 = .ok "" :=
      substring_eq_ok.2 (.inr ⟨hslice, h.resolve_left hwhole, rfl⟩)
    have hno : ¬ DidWord word := fun hd => hwhole hd.whole
    rw [startsWithDid?, if_pos hle, hempty, decide_eq_false hno]
    rfl

/-- Where it lies inside a character and a cut is refused, the test raises. -/
theorem startsWithDid?_of_cut {word : String} (h : ¬ Testable word) :
    ∃ e, PrimError e ∧ startsWithDid? (.str word) = .error e := by
  obtain ⟨hwhole, hraises⟩ := not_or.1 h
  obtain ⟨hle, hslice⟩ := cut_of_not_whole hwhole
  refine ⟨_, ⟨"substring", by simp, [word, .int (.ofNat 0), .int (.ofNat 7)], rfl⟩, ?_⟩
  rw [startsWithDid?, if_pos hle, substring_of_cut hslice,
    if_pos (Bool.of_not_eq_false hraises)]
  rfl

/-! ## Looking up an actor -/

/-- The entry of an actor, or one made up for it. -/
def candidate (pool : List Ctx) (did : SchemeVal) : Ctx :=
  (pool.find? fun entry => Evaluator.equal? (ctxActor entry) did).getD
    (makeMap [("did", did), ("actor", did)])

/-- The entry names what it was looked up with, or something that is equal. -/
theorem ctxActor_candidate_cases (pool : List Ctx) (did : SchemeVal) :
    ctxActor (candidate pool did) = did ∨
      Evaluator.equal? (ctxActor (candidate pool did)) did = true := by
  rw [candidate]
  rcases h : pool.find? _ with _ | entry
  · exact .inl (by simp [ctxActor, makeMap])
  · have hequal := List.find?_some h
    exact .inr hequal

/-- Texts that are equal are the same. -/
theorem ctxActor_candidate_iff {pool : List Ctx} {did : SchemeVal} {text : String} :
    ctxActor (candidate pool did) = .str text ↔ did = .str text := by
  rcases ctxActor_candidate_cases pool did with h | h
  · rw [h]
  · exact ⟨fun hactor => str_equal?_iff.1 (hactor ▸ h), fun hdid => equal?_str_iff.1 (hdid ▸ h)⟩

@[simp] theorem ctxActor_candidate (pool : List Ctx) (did : String) :
    ctxActor (candidate pool did) = did := ctxActor_candidate_iff.2 rfl

/-- On a pool of ctx maps, the lookup never raises. -/
theorem candidateForDid_eq (pool : List Ctx) (did : SchemeVal) :
    candidateForDid (pool.map .map) did = .ok (.map (candidate pool did)) := by
  simp only [candidateForDid, findEntryByActor_map, bind, Except.bind, candidate]
  rcases pool.find? _ with _ | entry <;> rfl

/-- Every entry the lookup of an actor reads is a map. -/
def Lookup (did : String) : List SchemeVal → Prop
  | [] => True
  | .map entry :: pool => ctxActor entry = .str did ∨ Lookup did pool
  | _ :: _ => False

/-- The lookup raises where it reads an entry that is no map. -/
theorem findEntryByActor_cases (did : String) (pool : List SchemeVal) :
    (Lookup did pool ∧ ∃ r, findEntryByActor did pool = .ok r) ∨
      (¬ Lookup did pool ∧ ∃ e, PrimError e ∧ findEntryByActor did pool = .error e) := by
  induction pool with
  | nil => exact .inl ⟨trivial, none, rfl⟩
  | cons v pool ih =>
    rcases v with _ | _ | _ | _ | _ | _ | _ | entry
    case map =>
      have hentry : entryActor (.map entry) = .ok (ctxActor entry) := rfl
      simp only [Lookup, findEntryByActor, hentry, bind, Except.bind, equal?_str_iff]
      by_cases h : ctxActor entry = .str did
      · exact .inl ⟨.inl h, some (.map entry), if_pos h⟩
      · simpa only [h, false_or, if_false] using ih
    all_goals exact .inr ⟨id, _, ⟨"map-ref", by simp, [_], rfl⟩, rfl⟩

end Outcomes

/-! ## Describing candidates -/

variable [Host]

/-- The lookup of the entries around the avatar never raises. -/
theorem locationLookupPool_returns (s : Slots) (f : Focus) :
    (locationLookupPool s).wp (fun _ _ => True) (fun _ _ => False) f := by
  -- Each actor call on the way is wrapped in `guard`, so no error comes through.
  have hcaught : ∀ {α : Type} (p : Program String Focus α) (a : α) (f : Focus),
      (tryCatch p fun _ => pure a).wp (fun _ _ => True) (fun _ _ => False) f := by
    intro α p a f
    simp only [wp_tryCatch, wp_pure]
    exact wp_of_le (fun _ _ _ => trivial) fun _ _ _ => trivial
  have husable : ∀ f, (usableInventory s).wp (fun _ _ => True) (fun _ _ => False) f := by
    intro f
    simp only [usableInventory, view_bind, view_ite, view_tryCatch, view_pure, wp_bind,
      myInvIfAny_wp, wp_ite, wp_pure]
    split
    · exact hcaught _ _ _
    · trivial
  have hdisplay : ∀ inv f,
      (inventoryDisplayCtx inv s).wp (fun _ _ => True) (fun _ _ => False) f := by
    intro inv f
    simp only [inventoryDisplayCtx, view_bind, view_ite, view_tryCatch, view_pure, wp_bind, wp_ite,
      wp_pure, ite_self]
    exact hcaught _ _ _
  have hctx : ∀ inv f, (inventoryCtx inv s).wp (fun _ _ => True) (fun _ _ => False) f := by
    intro inv f
    simp only [inventoryCtx, getSlots, view_bind, view_read, wp_bind, wp_pure]
    rcases s.invEntry with _ | entry
    · simp only [view_bind, view_pure, wp_bind, wp_pure]
      exact hdisplay inv f
    · simp only [view_ite, view_bind, view_pure, wp_ite, wp_bind, wp_pure]
      split
      · trivial
      · exact hdisplay inv f
  have hinventory : (resolveInventoryPool s).wp (fun _ _ => True) (fun _ _ => False) f := by
    simp only [resolveInventoryPool, view_bind, view_ite, view_tryCatch, view_pure, wp_bind, wp_ite,
      wp_pure]
    refine (husable f).conseq (fun inv f' _ _ => ?_) fun _ _ _ h => h
    split
    · refine (hcaught (containerContents inv s) [] f').conseq (fun _ f'' _ _ => ?_)
        fun _ _ _ h => h
      exact hctx inv f''
    · trivial
  simp only [locationLookupPool, getFocus, view_bind, view_program, view_pure, wp_bind, wp_get,
    wp_pure]
  exact hinventory

/-- The entries around the avatar, in which the location of a candidate is looked up. -/
def nearby (s : Slots) (f : Focus) : List SchemeVal :=
  match ((locationLookupPool s).run f).1 with
  | .ok pool => pool
  | .error _ => []

theorem locationLookupPool_wp {Q : List SchemeVal → Focus → Prop} {E : String → Focus → Prop}
    (s : Slots) (f : Focus) :
    (locationLookupPool s).wp Q E f ↔ Q (nearby s f) ((locationLookupPool s).run f).2 := by
  have h := locationLookupPool_returns s f
  revert h
  simp only [wp, nearby]
  rcases (locationLookupPool s).run f with ⟨_ | _, _⟩
  · exact False.elim
  · exact fun _ => Iff.rfl

/-- The location of a candidate can be looked up: whether it has a parent, or every entry
    the lookup of its parent reads is a map. -/
def Located (s : Slots) (f : Focus) (ctx : Ctx) : Prop :=
  ∀ parent, ctx.get? "parent" = some (.str parent) → Lookup parent (nearby s f)

/-- A candidate that can be described: it has an address, its name is a text, and its
    location can be looked up. -/
def Describable (s : Slots) (f : Focus) (ctx : Ctx) : Prop :=
  (∃ did, ctxActor ctx = .str did) ∧ (∀ v, ctx.get? "name" = some v → v.string? = true) ∧
    Located s f ctx

/-- The focus in which the location of a candidate was looked up. -/
def located (s : Slots) (f : Focus) (ctx : Ctx) : Focus :=
  if ((ctx.get? "parent").getD (.bool false)).string? then ((locationLookupPool s).run f).2 else f

/-- Candidates that can be described one after the other: each lookup asks the actors of
    the inventory again. -/
def AllDescribable (s : Slots) : Focus → List Ctx → Prop
  | _, [] => True
  | f, ctx :: rest => Describable s f ctx ∧ AllDescribable s (located s f ctx) rest

theorem candidateLocation_wp {Q : Option String → Focus → Prop} {E : String → Focus → Prop}
    {s : Slots} {f : Focus} {ctx : Ctx} (hQ : ∀ l, Located s f ctx → Q l (located s f ctx))
    (hE : ∀ e, PrimError e → ¬ Located s f ctx → E e (located s f ctx)) :
    (candidateLocation (.map ctx) s).wp Q E f := by
  have href : mapRef (.map ctx) "parent" (.bool false) =
      .ok ((ctx.get? "parent").getD (.bool false)) := rfl
  simp only [candidateLocation, view_bind, view_lift, wp_bind, wp_lift, view_ite, wp_ite]
  rw [href]
  simp only
  split
  · next hp =>
    obtain ⟨parent, hparent⟩ : ∃ parent, ctx.get? "parent" = some (.str parent) := by
      rcases h : ctx.get? "parent" with _ | _ | _ | _ | _ | _ | _ | _ | _
      case some.str parent => exact ⟨parent, rfl⟩
      all_goals rw [h] at hp; cases hp
    have hl : located s f ctx = ((locationLookupPool s).run f).2 := if_pos hp
    have hiff : Located s f ctx ↔ Lookup parent (nearby s f) := by
      refine ⟨fun h => h parent hparent, fun h parent' hp' => ?_⟩
      obtain rfl := SchemeVal.str.inj (Option.some.inj (hparent.symm.trans hp'))
      exact h
    -- From here on, only the entries nearby matter.
    rw [hl, hiff] at hE
    simp only [hl, hiff] at hQ
    simp only [hparent, Option.getD_some, locationLookupPool_wp]
    rcases findEntryByActor_cases parent (nearby s f) with
      ⟨hlook, r, hr⟩ | ⟨hlook, e, he, hr⟩
    · simp only [hr]
      generalize ((locationLookupPool s).run f).2 = f' at hQ ⊢
      rcases parentName r with _ | name
      · simp only [getFocus, view_bind, view_ite, view_pure, view_program, wp_bind, myInvIfAny_wp,
          wp_ite, wp_pure, wp_get]
        split
        · exact hQ _ hlook
        · rcases f'.lastRoom with _ | room <;> exact hQ _ hlook
      · exact hQ _ hlook
    · simp only [hr]
      exact hE e he hlook
  · next hp =>
    have hl : located s f ctx = f := if_neg hp
    rw [view_pure, wp_pure, ← hl]
    refine hQ none fun parent hparent => absurd ?_ hp
    rw [hparent]
    rfl

omit [Host] in
/-- `string-append` joins texts, and refuses anything else. -/
theorem stringAppend_cases [Evaluator] (vs : List SchemeVal) :
    (∃ ss, vs = ss.map .str ∧ stringAppend vs = .ok (String.join ss)) ∨
      ((∃ v ∈ vs, v.string? = false) ∧ ∃ e, PrimError e ∧ stringAppend vs = .error e) := by
  have h : (∃ ss, vs = ss.map .str ∧ vs.mapM (asString "string-append") = .ok ss) ∨
      ((∃ v ∈ vs, v.string? = false) ∧
        ∃ e, PrimError e ∧ vs.mapM (asString "string-append") = .error e) := by
    induction vs with
    | nil => exact .inl ⟨[], rfl, rfl⟩
    | cons v vs ih =>
      rcases v with t | _ | _ | _ | _ | _ | _ | _
      case str =>
        have ht : asString "string-append" (.str t) = .ok t := rfl
        rcases ih with ⟨ss, rfl, hss⟩ | ⟨⟨u, hu, hus⟩, e, he, hvs⟩
        · refine .inl ⟨t :: ss, rfl, ?_⟩
          simp only [List.mapM_cons, ht, hss, bind, Except.bind]
          rfl
        · refine .inr ⟨⟨u, List.mem_cons_of_mem _ hu, hus⟩, e, he, ?_⟩
          simp only [List.mapM_cons, ht, hvs, bind, Except.bind]
      all_goals
        exact .inr ⟨⟨_, List.mem_cons_self, rfl⟩, _, ⟨"string-append", by simp, [_], rfl⟩, rfl⟩
  rcases h with ⟨ss, hvs, h⟩ | ⟨hv, e, he, h⟩
  · exact .inl ⟨ss, hvs, by simp only [stringAppend, h, bind, Except.bind]; rfl⟩
  · exact .inr ⟨hv, e, he, by simp only [stringAppend, h, bind, Except.bind]⟩

/-- A candidate is described by a line that names it, or a primitive refuses what it is
    described with. -/
theorem describeCandidate_wp {Q : String → Focus → Prop} {E : String → Focus → Prop}
    {s : Slots} {f : Focus} {ctx : Ctx}
    (hQ : ∀ line, Names (ctxActor ctx) line → Describable s f ctx → Q line (located s f ctx))
    (hE : ∀ e, PrimError e → ¬ Describable s f ctx → E e (located s f ctx)) :
    (describeCandidate (.map ctx) s).wp Q E f := by
  have hnick : mapRef (.map ctx) "nick" (.bool false) =
      .ok ((ctx.get? "nick").getD (.bool false)) := rfl
  have hactor : entryActor (.map ctx) = .ok (ctxActor ctx) := rfl
  have hname : ∀ v, mapRef (.map ctx) "name" v = .ok ((ctx.get? "name").getD v) := fun _ => rfl
  simp only [describeCandidate, view_bind, view_lift, wp_bind, wp_lift]
  rw [hnick]
  simp only
  refine candidateLocation_wp (fun l hl => ?_) fun e he hl => ?_
  · simp only [hactor, hname]
    generalize hvs : [(ctx.get? "name").getD (ctxActor ctx), _, _, _, _, _] = vs
    rcases stringAppend_cases vs with ⟨ss, rfl, happ⟩ | ⟨hv, e, he, happ⟩
    · simp only [happ]
      -- The six parts are texts: the first is the name, the fourth the DID.
      rcases ss with _ | ⟨name, _ | ⟨nick, _ | ⟨left, _ | ⟨did, _ | ⟨right, _ | ⟨loc, _ | _⟩⟩⟩⟩⟩⟩
      case cons.cons.cons.cons.cons.cons.nil =>
        simp only [List.map_cons, List.cons.injEq] at hvs
        obtain ⟨hn, _, hleft, hdid, hright, _⟩ := hvs
        obtain rfl := SchemeVal.str.inj hleft
        obtain rfl := SchemeVal.str.inj hright
        refine hQ _ ⟨did, name ++ nick, loc, hdid, ?_⟩ ⟨⟨did, hdid⟩, fun v hv => ?_, hl⟩
        · simp [String.join, String.append_assoc]
        · rw [hv, Option.getD_some] at hn
          rw [hn]
          rfl
      all_goals exact absurd (congrArg List.length hvs) (by simp)
    · simp only [happ]
      refine hE e he fun h => ?_
      obtain ⟨⟨did, hdid⟩, hnamed, -⟩ := h
      obtain ⟨v, hmem, hv⟩ := hv
      have hstr : ∀ v ∈ vs, v.string? = true := by
        rw [← hvs]
        simp only [List.forall_mem_cons, hdid]
        refine ⟨?_, ?_, rfl, rfl, rfl, ?_, by simp⟩
        · rcases hn : ctx.get? "name" with _ | v
          · rfl
          · exact hnamed v hn
        · split
          · split <;> rfl
          · rfl
        · split <;> rfl
      rw [hstr v hmem] at hv
      cases hv
  · exact hE e he fun h => hl h.2.2

/-- The loop of `ambiguous-error`. -/
theorem describeAll_wp {Q : String → Focus → Prop} {E : String → Focus → Prop} {s : Slots}
    (ctxs : List Ctx) {f : Focus} {text : String}
    (hQ : ∀ lines f', List.Forall₂ Names (ctxs.map ctxActor) lines → AllDescribable s f ctxs →
      Q (appendCandidates text lines) f')
    (hE : ∀ e f', PrimError e → ¬ AllDescribable s f ctxs → E e f') :
    (((ctxs.map .map).foldlM (fun text candidate => do
        return text ++ "\n  " ++ (← describeCandidate candidate)) text : View String) s).wp
      Q E f := by
  induction ctxs generalizing f text with
  | nil => exact hQ [] f .nil trivial
  | cons ctx ctxs ih =>
    simp only [List.map_cons, List.foldlM_cons, view_bind, view_pure, wp_bind, wp_pure]
    refine describeCandidate_wp (fun line hline hd => ?_) fun e he hd => ?_
    · refine ih (fun lines f' hlines hall => ?_) fun e f' he hall => ?_
      · exact hQ (line :: lines) f' (.cons hline hlines) ⟨hd, hall⟩
      · exact hE e f' he fun h => hall h.2
    · exact hE e _ he fun h => hd h.1

/-- `ambiguous-error` names each candidate, or a primitive refuses what one is described
    with. -/
theorem ambiguousError_wp {Q : SchemeVal → Focus → Prop} {E : String → Focus → Prop} {s : Slots}
    {f : Focus} {word : String} {ctxs : List Ctx}
    (hE : ∀ lines f', List.Forall₂ Names (ctxs.map ctxActor) lines → AllDescribable s f ctxs →
      E (appendCandidates (ambiguousTitle word) lines) f')
    (hP : ∀ e f', PrimError e → ¬ AllDescribable s f ctxs → E e f') :
    ((ambiguousError (.str word) (ctxs.map .map) : View SchemeVal) s).wp Q E f := by
  have htitle : stringAppend ["\"", word,
      "\" matches more than one — repeat the command with a DID instead:"] =
      .ok (ambiguousTitle word) := by
    simp [stringAppend, asString, bind, Except.bind, pure, Except.pure, String.join, ambiguousTitle]
  simp only [ambiguousError, view_bind, view_lift, view_throw, wp_bind, wp_lift, wp_throw]
  rw [htitle]
  exact describeAll_wp ctxs hE hP

theorem noMatchError_wp {Q : SchemeVal → Focus → Prop} {E : String → Focus → Prop} {s : Slots}
    {f : Focus} {word : String} :
    ((noMatchError (.str word) : View SchemeVal) s).wp Q E f ↔ E (noMatchText word) f := by
  have htext : stringAppend ["no match for \"", word, "\" here."] = .ok (noMatchText word) := by
    simp [stringAppend, asString, bind, Except.bind, pure, Except.pure, String.join, noMatchText]
  simp only [noMatchError, view_bind, view_lift, view_throw, wp_bind, wp_lift, wp_throw]
  rw [htext]

theorem candidates_eq (pool : List Ctx) (dids : List SchemeVal) (s : Slots) :
    (dids.mapM fun did => liftM (candidateForDid (pool.map .map) did) : View (List SchemeVal)) s =
      pure ((dids.map (candidate pool)).map .map) := by
  simp only [candidateForDid_eq]
  induction dids with
  | nil => rfl
  | cons did dids ih =>
    simp only [List.mapM_cons, view_bind, view_lift, ih]
    rfl

/-! ## Resolution -/

/-- The condition under which a resolution settles: the test for a DID is not refused, and,
    for a word that is no DID, the only actor that matches is a text (or a list that
    flattens to one), or else every candidate can be described. -/
def Resolvable (s : Slots) (f : Focus) (word : String) (pool : List Ctx) : Prop :=
  Testable word ∧ (DidWord word ∨ match (matched word pool).dedup with
    | [] => True
    | [actor] => ∃ did, (flattenVal actor).dedup = [.str did]
    | actors => AllDescribable s f (actors.map (candidate pool)))

/-- Candidates that can be described have texts for addresses. -/
theorem AllDescribable.string {pool : List Ctx} {s : Slots} {f : Focus} {actors : List SchemeVal}
    (h : AllDescribable s f (actors.map (candidate pool))) :
    ∀ actor ∈ actors, actor.string? = true := by
  induction actors generalizing f with
  | nil => exact nofun
  | cons actor actors ih =>
    obtain ⟨⟨⟨did, hdid⟩, -⟩, hrest⟩ := h
    rw [ctxActor_candidate_iff] at hdid
    exact List.forall_mem_cons.2 ⟨hdid ▸ rfl, ih hrest⟩

omit [Host] in
/-- So have actors that are named. -/
theorem string_of_names {actors : List SchemeVal} {lines : List String}
    (h : List.Forall₂ Names actors lines) : ∀ actor ∈ actors, actor.string? = true := by
  induction h with
  | nil => exact nofun
  | cons hname _ ih =>
    obtain ⟨did, _, _, rfl, _⟩ := hname
    exact List.forall_mem_cons.2 ⟨rfl, ih⟩

section Word

variable {word : String} {pool : List Ctx} {s : Slots} {f : Focus}

/-- A DID stands for itself. -/
theorem resolveOneEntry_of_did {Q : SchemeVal → Focus → Prop} {E : String → Focus → Prop}
    (hd : DidWord word) : (resolveOneEntry (.str word) (pool.map .map) s).wp Q E f ↔
      Q (.map (candidate pool word)) f := by
  simp only [resolveOneEntry, view_bind, view_lift, view_ite, wp_bind, wp_lift, wp_ite]
  rw [startsWithDid?_eq hd.testable]
  simp only [decide_eq_true hd, if_true, candidateForDid_eq]

/-- Another word stands for what it refers to. -/
theorem resolveOneEntry_of_ref {Q : SchemeVal → Focus → Prop} {E : String → Focus → Prop}
    (hw : Testable word) (hd : ¬ DidWord word) :
    (resolveOneEntry (.str word) (pool.map .map) s).wp Q E f ↔
      match uniqueList (flattenList (matched word pool)) with
      | [] => E (noMatchText word) f
      | [did] => Q (.map (candidate pool did)) f
      | dids => ((ambiguousError (.str word) ((dids.map (candidate pool)).map .map) :
          View SchemeVal) s).wp Q E f := by
  simp only [resolveOneEntry, view_bind, view_lift, view_ite, wp_bind, wp_lift, wp_ite]
  rw [startsWithDid?_eq hw]
  simp only [decide_eq_false hd, Bool.false_eq_true, if_false]
  rw [resolveRef_eq]
  rcases uniqueList (flattenList (matched word pool)) with _ | ⟨did, _ | ⟨did', dids⟩⟩
  · exact noMatchError_wp
  · simp only [view_lift, wp_lift, candidateForDid_eq]
  · simp only [view_bind, wp_bind, candidates_eq, wp_pure]

omit [Host] in
/-- What actors that are all the same flatten to is one text if each of them flattens to
    it. -/
theorem uniqueList_flattenList [Evaluator] {actors : List SchemeVal} {actor : SchemeVal}
    {did : String} (hne : actors ≠ []) (hall : ∀ v ∈ actors, v = actor) :
    uniqueList (flattenList actors) = [.str did] ↔ (flattenVal actor).dedup = [.str did] := by
  have hmem : ∀ v, v ∈ flattenList actors ↔ v ∈ flattenVal actor := by
    intro v
    rw [mem_flattenList]
    obtain ⟨u, hu⟩ := List.exists_mem_of_ne_nil _ hne
    exact ⟨fun ⟨w, hw, hv⟩ => hall w hw ▸ hv, fun hv => ⟨u, hu, (hall u hu).symm ▸ hv⟩⟩
  rw [uniqueList_eq_str]
  constructor
  · rintro ⟨hne, heq⟩
    refine (List.perm_singleton.1 ((List.perm_ext_iff_of_nodup (List.nodup_dedup _)
      (List.nodup_singleton _)).2 fun v => ?_))
    rw [List.mem_dedup, ← hmem, List.mem_singleton]
    refine ⟨heq v, fun hv => ?_⟩
    obtain ⟨u, hu⟩ := List.exists_mem_of_ne_nil _ hne
    exact hv.symm ▸ heq u hu ▸ hu
  · intro h
    have hiff : ∀ v, v ∈ flattenList actors ↔ v = .str did := fun v => by
      rw [hmem, ← List.mem_dedup, h, List.mem_singleton]
    exact ⟨List.ne_nil_of_mem ((hiff _).2 rfl), fun v hv => (hiff v).1 hv⟩

/-- A resolution with one actor that matches settles if this one has an address. -/
theorem settled_iff_of_one {actor : SchemeVal} (hw : Testable word) (hd : ¬ DidWord word)
    (hm : (matched word pool).dedup = [actor]) :
    Settled word pool ((resolveOneEntry (.str word) (pool.map .map) s).run f).1 ↔
      ∃ did, (flattenVal actor).dedup = [.str did] := by
  have hne : matched word pool ≠ [] := fun h => by
    rw [h] at hm
    cases hm
  have hall : ∀ v ∈ matched word pool, v = actor := fun v hv => by
    rw [← List.mem_dedup, hm] at hv
    exact List.mem_singleton.1 hv
  -- Both reports are out of place, as one actor matches.
  have hraised : ∀ e, ¬ Settled word pool (.error e) := by
    rintro e (⟨_, h⟩ | ⟨_, h⟩)
    all_goals have := h hd; simp [hm] at this
  have hreturned : ∀ did, Settled word pool (.ok (.map (candidate pool did))) ↔
      ∃ d, did = .str d := by
    intro did
    have hentry : entryActor (.map (candidate pool did)) =
        .ok (ctxActor (candidate pool did)) := rfl
    simp only [Settled, hentry, hm, List.length_singleton, implies_true, and_true,
      Except.ok.injEq, ctxActor_candidate_iff]
  refine (wp_iff_result _ fun r => Settled word pool r ↔ _).1 ?_
  rw [resolveOneEntry_of_ref hw hd]
  simp only [← uniqueList_flattenList hne hall]
  rcases uniqueList (flattenList (matched word pool)) with _ | ⟨did, _ | ⟨did', dids⟩⟩
  · exact iff_of_false (hraised _) (by simp)
  · refine (hreturned did).trans ?_
    simp
  · exact ambiguousError_wp (fun _ _ _ _ => iff_of_false (hraised _) (by simp))
      fun _ _ _ _ => iff_of_false (hraised _) (by simp)

/-- A resolution with several actors that match settles if their candidates can be
    described. -/
theorem settled_iff_of_many (hprim : ∀ e, PrimError e → ¬ Reported word e)
    (hw : Testable word) (hd : ¬ DidWord word) (hm : 2 ≤ (matched word pool).dedup.length) :
    Settled word pool ((resolveOneEntry (.str word) (pool.map .map) s).run f).1 ↔
      AllDescribable s f ((matched word pool).dedup.map (candidate pool)) := by
  -- An actor that is no text is never described, whatever is made of it before.
  by_cases hstr : ∀ v ∈ (matched word pool).dedup, v.string? = true
  case neg =>
    refine iff_of_false (fun h => hstr ?_) fun h => hstr h.string
    revert h
    rcases ((resolveOneEntry (.str word) (pool.map .map) s).run f).1 with e | entry
    · rintro (⟨_, h⟩ | ⟨⟨_, _, h⟩, _⟩)
      · exact absurd (h hd) (by omega)
      · exact string_of_names h
    · exact fun h => absurd (h.2 hd) (by omega)
  have hflat : flattenList (matched word pool) = matched word pool :=
    flattenList_of_string fun v hv => hstr v (List.mem_dedup.2 hv)
  have hactors : ((matched word pool).dedup.map (candidate pool)).map ctxActor =
      (matched word pool).dedup := by
    rw [List.map_map]
    refine (List.map_congr_left fun v hv => ?_).trans (List.map_id _)
    obtain ⟨text, rfl⟩ := SchemeVal.string?_iff.1 (hstr v hv)
    exact ctxActor_candidate pool text
  have hwp : ((ambiguousError (.str word)
      (((matched word pool).dedup.map (candidate pool)).map .map) : View SchemeVal) s).wp
      (fun a _ => Settled word pool (.ok a) ↔
        AllDescribable s f ((matched word pool).dedup.map (candidate pool)))
      (fun e _ => Settled word pool (.error e) ↔
        AllDescribable s f ((matched word pool).dedup.map (candidate pool))) f := by
    refine ambiguousError_wp (fun lines _ hlines hall => ?_) fun e _ he hall => ?_
    · rw [hactors] at hlines
      exact iff_of_true (.inr ⟨⟨lines, rfl, hlines⟩, fun _ => hm⟩) hall
    · exact iff_of_false (fun h => hprim e he h.reported) hall
  refine (wp_iff_result _ fun r => Settled word pool r ↔ _).1 ?_
  rw [resolveOneEntry_of_ref hw hd, hflat,
    uniqueList_eq_dedup fun v hv => hstr v (List.mem_dedup.2 hv)]
  revert hm hwp
  rcases (matched word pool).dedup with _ | ⟨actor, _ | ⟨actor', actors⟩⟩
  · intro hm; simp at hm
  · intro hm; simp at hm
  · exact fun _ h => h

/-- `resolve-one-entry` has its three outcomes exactly on what is resolvable, provided that
    no primitive words its errors as the two reports do. -/
theorem resolveOneEntry_settled_iff (hprim : ∀ e, PrimError e → ¬ Reported word e)
    (pool : List Ctx) (s : Slots) (f : Focus) :
    Settled word pool ((resolveOneEntry (.str word) (pool.map .map) s).run f).1 ↔
      Resolvable s f word pool := by
  by_cases hw : Testable word
  case neg =>
    refine iff_of_false ?_ fun h => hw h.1
    obtain ⟨e, he, hstart⟩ := startsWithDid?_of_cut hw
    refine (wp_iff_result _ fun r => ¬ Settled word pool r).1 ?_
    simp only [resolveOneEntry, view_bind, view_lift, wp_bind, wp_lift]
    rw [hstart]
    exact fun h => hprim e he h.reported
  by_cases hd : DidWord word
  · refine iff_of_true ?_ ⟨hw, .inl hd⟩
    refine (wp_iff_result _ (Settled word pool)).1 ((resolveOneEntry_of_did hd).2 ?_)
    refine ⟨⟨word, ?_⟩, fun h => absurd hd h⟩
    exact congrArg Except.ok (ctxActor_candidate pool _)
  · simp only [Resolvable, hw, hd, true_and, false_or]
    rcases hm : (matched word pool).dedup with _ | ⟨actor, _ | ⟨actor', actors⟩⟩
    · refine iff_of_true ?_ trivial
      have hnil : matched word pool = [] := (List.dedup_eq_nil _).1 hm
      refine (wp_iff_result _ (Settled word pool)).1 ((resolveOneEntry_of_ref hw hd).2 ?_)
      rw [hnil]
      exact .inl ⟨rfl, fun _ => congrArg List.length hm⟩
    · exact settled_iff_of_one hw hd hm
    · have hlen : 2 ≤ (matched word pool).dedup.length := by simp [hm]
      have h := settled_iff_of_many (s := s) (f := f) hprim hw hd hlen
      rwa [hm] at h

end Word

omit [Host] in
/-- Two boxes, both of which can be described. -/
theorem resolveOneEntry_settled_box :
    let _ : Host := scripted "did:ma:me" fun _ _ _ => .ok .nil
    let chest : Ctx := [("actor", "did:ma:chest"), ("name", "a box"), ("nick", "box")]
    let crate : Ctx := [("did", "did:ma:crate"), ("name", "wooden box")]
    let w := World.entered "did:ma:hall"
    Settled "box" [chest, crate]
      ((resolveOneEntry "box" ([chest, crate].map .map) w.slots).run w.focus).1 := by
  intro host chest crate w
  have hprim : ∀ e, PrimError e → ¬ Reported "box" e := by
    rintro _ ⟨prim, hp, args, rfl⟩ h
    have hhead := h.head
    change (prim ++ ": invalid arguments").toList.head? = _ ∨
      (prim ++ ": invalid arguments").toList.head? = _ at hhead
    clear h
    revert prim
    decide
  refine (resolveOneEntry_settled_iff hprim _ _ _).2 ⟨.inl (.inl (by decide)), .inr ?_⟩
  have hm : (matched "box" [chest, crate]).dedup =
      [.str "did:ma:crate", .str "did:ma:chest"] := by
    decide +kernel
  rw [hm]
  have hcrate : candidate [chest, crate] "did:ma:crate" = crate := by decide
  have hchest : candidate [chest, crate] "did:ma:chest" = chest := by decide
  simp only [List.map_cons, List.map_nil, hcrate, hchest]
  refine ⟨⟨⟨_, rfl⟩, ?_, ?_⟩, ⟨⟨_, rfl⟩, ?_, ?_⟩, trivial⟩
  · rintro v ⟨⟩
    rfl
  · exact nofun
  · rintro v ⟨⟩
    rfl
  · exact nofun

omit [Host] in
/-- Two boxes match. The name of one is no text, so it cannot be described, and what is
    raised is not the ambiguity. -/
theorem not_settled_name :
    let _ : Host := scripted "did:ma:me" fun _ _ _ => .ok .nil
    let chest : Ctx := [("actor", "did:ma:chest"), ("nick", "box"), ("name", .int 3)]
    let crate : Ctx := [("actor", "did:ma:crate"), ("name", "box")]
    let w := World.entered "did:ma:hall"
    let r := ((resolveOneEntry "box" ([chest, crate].map .map) w.slots).run w.focus).1
    r = .error "string-append: invalid arguments" ∧ ¬ Settled "box" [chest, crate] r := by
  intro host chest crate w r
  have hrun : r = .error "string-append: invalid arguments" := by decide +kernel
  refine ⟨hrun, fun h => ?_⟩
  rw [hrun] at h
  exact absurd h.reported.head (by decide)

end Avatar

end Zscheme
