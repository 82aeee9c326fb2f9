import Zscheme.Avatar.Emits
import Zscheme.Avatar.Resolution

/-!
# Offers

`give` offers an object to a person: it installs a secret in the object, and tells the
person the command that claims the object with it. What it does before are the lookups of
the resolver, and three numbers drawn for the secret. An object that refuses the secret
ends the offer: no message is sent (`give_offers`).
-/

namespace Zscheme

namespace Avatar

open Prim Stdlib Zscheme.Runtime Program

/-! ## Recipients -/

section Entries

variable [Evaluator]

theorem startsWithDid?_eq_true {v : SchemeVal} (h : startsWithDid? v = .ok true) :
    ∃ s, v = .str s ∧ DidWord s := by
  rcases v with s | _ | _ | _ | _ | _ | _ | _
  case str =>
    refine ⟨s, rfl, ?_⟩
    by_cases hw : Testable s
    · rw [startsWithDid?_eq hw] at h
      exact of_decide_eq_true (Except.ok.inj h)
    · obtain ⟨e, _, he⟩ := startsWithDid?_of_cut hw
      rw [he] at h
      cases h
  all_goals cases h

/-- A found entry is one of the pool, or made up. -/
theorem candidateForDid_cases {pool : List SchemeVal} {did entry : SchemeVal}
    (h : candidateForDid pool did = .ok entry) :
    entry ∈ pool ∨ entry = .map (makeMap [("did", did), ("actor", did)]) := by
  -- an entry that is found is one of the pool
  have hfind : ∀ {pool entry}, findEntryByActor did pool = .ok (some entry) → entry ∈ pool := by
    intro pool entry h
    induction pool with
    | nil => cases h
    | cons v pool ih =>
      rw [findEntryByActor] at h
      rcases hv : entryActor v with e | actor
      · rw [hv] at h
        cases h
      · rw [hv] at h
        have h : (if Evaluator.equal? actor did then .ok (some v) else findEntryByActor did pool) =
            Except.ok (some entry) := h
        split at h
        · obtain rfl := Option.some.inj (Except.ok.inj h)
          exact List.mem_cons_self
        · exact List.mem_cons_of_mem _ (ih h)
  rw [candidateForDid] at h
  rcases hf : findEntryByActor did pool with e | _ | found
  · rw [hf] at h
    cases h
  · rw [hf] at h
    exact .inr (Except.ok.inj h).symm
  · rw [hf] at h
    obtain rfl : found = entry := Except.ok.inj h
    exact .inl (hfind hf)

omit [Evaluator] in
/-- A filter keeps only what was there. -/
theorem filterM_subset {α : Type} {p : α → Except String Bool} {l kept : List α}
    (h : l.filterM p = .ok kept) : kept ⊆ l := by
  -- the accumulator holds what was kept so far, the latest first
  have haux : ∀ l acc kept : List α, List.filterAuxM p l acc = .ok kept →
      ∀ a ∈ kept, a ∈ acc ∨ a ∈ l := by
    intro l
    induction l with
    | nil =>
      intro acc kept h a ha
      obtain rfl := Except.ok.inj h
      exact .inl ha
    | cons b l ih =>
      intro acc kept h a ha
      rw [List.filterAuxM] at h
      rcases hb : p b with e | keep
      · rw [hb] at h
        cases h
      · rw [hb] at h
        rcases ih _ _ h a ha with hacc | hl
        · rcases keep
          · exact .inl hacc
          · exact (List.mem_cons.1 hacc).elim (fun h => .inr (h ▸ List.mem_cons_self)) .inl
        · exact .inr (List.mem_cons_of_mem _ hl)
  rw [List.filterM] at h
  rcases hkept : List.filterAuxM p l [] with e | kept'
  · rw [hkept] at h
    cases h
  · rw [hkept] at h
    obtain rfl : kept'.reverse = kept := Except.ok.inj h
    intro a ha
    exact (haux l [] kept' hkept a (List.mem_reverse.1 ha)).resolve_left List.not_mem_nil

end Entries

variable [Host] {word : SchemeVal} {s : Slots} {f : Focus}

/-- The address of a person in the room. -/
def PersonIn (room : Ctx) (did : SchemeVal) : Prop :=
  ∃ entry : Ctx, .map entry ∈ roomChildPool room ∧ entry.get? "kind" = some "h00man" ∧
    ctxActor entry = did

/-- The entry is a child of the cached room, or made up. -/
def ChildOrMadeUp (f : Focus) (entry : SchemeVal) : Prop :=
  (∃ room, f.lastRoom = some room ∧ entry ∈ roomChildPool room) ∨
    ∃ did, entry = .map (makeMap [("did", did), ("actor", did)])

theorem resolvePersonPool_wp :
    (resolvePersonPool s).wp
      (fun pool f' => ∀ entry ∈ pool, ∃ room, f'.lastRoom = some room ∧ entry ∈ roomChildPool room)
      (fun _ _ => True) f := by
  have hpool : ∀ {f : Focus} {room : Ctx}, f.lastRoom = some room →
      (liftM (personPool room) : Program String Focus (List SchemeVal)).wp
        (fun pool f' => ∀ entry ∈ pool, ∃ room, f'.lastRoom = some room ∧
          entry ∈ roomChildPool room) (fun _ _ => True) f := by
    intro f room hroom
    refine wp_lift_of (fun pool hp entry he => ?_) fun _ _ => trivial
    exact ⟨room, hroom, filterM_subset hp he⟩
  simp only [resolvePersonPool, cachedRoomPool, getFocus, view_bind, view_program, wp_bind, wp_get]
  rcases hr : f.lastRoom with _ | room
  · simp only [view_bind, wp_bind]
    refine wp_of_le (fun snapshot f' _ => ?_) fun _ _ _ => trivial
    rcases snapshot with _ | _ | _ | _ | _ | _ | _ | room
    case map => exact hpool rfl
    all_goals exact fun _ he => absurd he List.not_mem_nil
  · exact hpool hr

/-- A resolution that returns has looked up an entry, and nothing else. -/
theorem resolveOneEntry_wp (pool : List SchemeVal) :
    (resolveOneEntry word pool s).wp
      (fun entry f' => f' = f ∧
        (entry ∈ pool ∨ ∃ did, entry = .map (makeMap [("did", did), ("actor", did)])))
      (fun _ _ => True) f := by
  have hcandidate : ∀ did, (liftM (candidateForDid pool did) : Program String Focus SchemeVal).wp
      (fun entry f' => f' = f ∧
        (entry ∈ pool ∨ ∃ did, entry = .map (makeMap [("did", did), ("actor", did)])))
      (fun _ _ => True) f := by
    intro did
    refine wp_lift_of (fun entry h => ⟨rfl, ?_⟩) fun _ _ => trivial
    exact (candidateForDid_cases h).imp id fun h => ⟨did, h⟩
  -- a report ends in an error, whatever it reads on the way
  have hraised : ∀ {α : Type} (v : View α) (e : α → View SchemeVal) {f : Focus}
      {Q : SchemeVal → Focus → Prop},
      (∀ a f', (e a s).wp Q (fun _ _ => True) f') → ((v >>= e) s).wp Q (fun _ _ => True) f :=
    fun v e _ _ h => (wp_bind _ _).2 (wp_of_le (fun a f' _ => h a f') fun _ _ _ => trivial)
  simp only [resolveOneEntry, view_bind, view_lift, view_ite, wp_bind, wp_ite]
  refine wp_lift_of (fun did _ => ?_) fun _ _ => trivial
  split
  · exact hcandidate word
  · refine wp_lift_of (fun hits _ => ?_) fun _ _ => trivial
    rcases hits with _ | ⟨did, _ | ⟨did', dids⟩⟩
    · exact hraised _ _ fun _ _ => trivial
    · exact hcandidate did
    · exact hraised _ _ fun _ _ => hraised _ _ fun _ _ => hraised _ _ fun _ _ => trivial

theorem resolvePersonEntry_wp :
    (resolveOneEntryFresh word resolvePersonPool s).wp (fun entry f' => ChildOrMadeUp f' entry)
      (fun _ _ => True) f := by
  have hentry : ∀ {pool : List SchemeVal} {f : Focus},
      (∀ entry ∈ pool, ∃ room, f.lastRoom = some room ∧ entry ∈ roomChildPool room) →
      (resolveOneEntry word pool s).wp (fun entry f' => ChildOrMadeUp f' entry)
        (fun _ _ => True) f := by
    intro pool f hpool
    refine (resolveOneEntry_wp pool).conseq ?_ fun _ _ _ _ => trivial
    rintro entry _ _ ⟨rfl, h⟩
    exact h.imp (hpool entry) id
  simp only [resolveOneEntryFresh, resolveOneEntryOrRefresh, view_bind, view_tryCatch, view_ite,
    view_throw, wp_bind, wp_tryCatch, wp_ite, wp_throw]
  refine resolvePersonPool_wp.conseq (fun pool f₁ _ hpool => ?_) fun _ _ _ _ => trivial
  refine (hentry hpool).conseq (fun _ _ _ h => h) fun e f₂ _ _ => ?_
  split
  · refine wp_of_le (fun _ f₃ _ => ?_) fun _ _ _ => trivial
    refine wp_of_le (fun _ f₄ _ => ?_) fun _ _ _ => trivial
    exact resolvePersonPool_wp.conseq (fun pool f₅ _ hpool => hentry hpool) fun _ _ _ _ => trivial
  · trivial

/-- A person that is resolved is one in the room, and not the avatar under its own DID. -/
theorem resolvePerson_wp :
    (resolvePerson word s).wp (fun did f' => did ≠ .str Host.did ∧
      ∃ room, f'.lastRoom = some room ∧ PersonIn room did) (fun _ _ => True) f := by
  simp only [resolvePerson, view_bind, view_lift, view_ite, view_throw, view_pure, wp_bind, wp_ite,
    wp_throw, wp_pure]
  refine resolvePersonEntry_wp.conseq (fun entry f' _ hentry => ?_) fun _ _ _ _ => trivial
  refine wp_lift_of (fun did hdid => ?_) fun _ _ => trivial
  refine wp_lift_of (fun kind hkind => ?_) fun _ _ => trivial
  split
  · exact wp_of_le (fun _ _ _ => trivial) fun _ _ _ => trivial
  next hperson =>
  split
  · trivial
  next hself =>
  refine ⟨hself, ?_⟩
  obtain rfl := not_not.1 hperson
  -- an entry that was made up has no kind, and is no person
  rcases entry with _ | _ | _ | _ | _ | _ | _ | ctx
  case map =>
    have hkind : (Dict.get? ctx "kind").getD "" = .str "h00man" := Except.ok.inj hkind
    have hdid : ctxActor ctx = did := Except.ok.inj hdid
    rcases hk : Dict.get? ctx "kind" with _ | kind
    · rw [hk] at hkind
      exact absurd hkind (by decide)
    · rw [hk] at hkind
      obtain rfl : kind = "h00man" := hkind
      rcases hentry with ⟨room, hroom, hchild⟩ | ⟨made, hmade⟩
      · exact ⟨room, hroom, ctx, hchild, hk, hdid⟩
      · rw [SchemeVal.map.inj hmade] at hk
        simp [makeMap, Dict.get?_insert] at hk
  all_goals cases hkind

/-! ## Secrets -/

/-- The number of a secret is drawn. -/
def Effect.Draw : Effect → Prop
  | .random _ => True
  | _ => False

/-- `claim-secret` draws its numbers, and does nothing else. -/
theorem claimSecret_wp {Q : String → Focus → Prop} {E : String → Focus → Prop}
    (h : ∀ token draws, (∀ e ∈ draws, Effect.Draw e) →
      Q token { f with trace := draws ++ f.trace }) : (claimSecret s).wp Q E f := by
  let drawn (l : List Effect) : Focus := { f with trace := l ++ f.trace }
  let a := Host.random f.trace
  let b := Host.random (drawn [.random a]).trace
  let c := Host.random (drawn [.random b, .random a]).trace
  exact h _ [.random c, .random b, .random a] (by simp [Effect.Draw])

/-! ## Offers -/

/-- The address of an object: a DID-URL with a fragment. -/
def DidUrl (object : String) : Prop := DidWord object ∧ '#' ∈ object.toList

/-- What is sent with an offer, the latest first: the secret to the object, and the
    message with the same secret to a person in the room if the object accepts. -/
def Offered (room : Ctx) (sent : List Effect) : Prop :=
  ∃ object recipient token, DidUrl object ∧ PersonIn room recipient ∧ recipient ≠ .str Host.did ∧
    ((∃ e, sent = [.call object "set-recovery-secret" [.str token] (.error e)]) ∨
      ∃ v text reply,
        sent = [.msgSend recipient (.str text) reply,
          .call object "set-recovery-secret" [.str token] (.ok v)] ∧
        ∃ opening, text = opening ++ ". Accept with: claim " ++ object ++ " " ++ token)

/-- What passes the checks of `give` is the address of an object. -/
theorem didUrl_of_checks {object : SchemeVal} {bare starts : Bool}
    (hbare : bareDid? object = .ok bare) (hstarts : startsWithDid? object = .ok starts)
    (h : ¬ (bare || !starts) = true) : ∃ o, object = .str o ∧ DidUrl o := by
  obtain ⟨rfl, rfl⟩ : bare = false ∧ starts = true := by
    rcases bare <;> rcases starts <;> simp at h ⊢
  obtain ⟨o, rfl, hdid⟩ := startsWithDid?_eq_true hstarts
  refine ⟨o, rfl, hdid, ?_⟩
  rw [bareDid?, hstarts] at hbare
  have hcontains : (!stringContains o "#") = false := Except.ok.inj hbare
  by_contra hno
  have hnone : stringIndex o "#" = none := indexOf_eq_none hno
  rw [stringContains, hnone] at hcontains
  cases hcontains

/-- The message ends with the command that claims the object. -/
theorem offerText_eq {giver name : SchemeVal} {object token text : String}
    (h : stringAppend [giver, " wants to give you ", name, ". Accept with: claim ", object, " ",
      token] = .ok text) :
    ∃ opening, text = opening ++ ". Accept with: claim " ++ object ++ " " ++ token := by
  rcases stringAppend_cases [giver, " wants to give you ", name, ". Accept with: claim ", object,
    " ", token] with ⟨ss, hss, hok⟩ | ⟨_, e, _, herr⟩
  · obtain rfl := Except.ok.inj (hok.symm.trans h)
    rcases ss with _ | ⟨g, _ | ⟨wants, _ | ⟨n, _ | ⟨accept, _ | ⟨o, _ | ⟨space, _ | ⟨t, _ | _⟩⟩⟩⟩⟩⟩⟩
    case cons.cons.cons.cons.cons.cons.cons.nil =>
      simp only [List.map_cons, List.cons.injEq, SchemeVal.str.injEq] at hss
      obtain ⟨_, _, _, rfl, rfl, rfl, rfl, _⟩ := hss
      exact ⟨g ++ wants ++ n, by simp [String.join, String.append_assoc]⟩
    all_goals exact absurd (congrArg List.length hss) (by simp)
  · rw [herr] at h
    cases h

/-- `give` looks up and draws, and then either sends nothing or makes an offer. -/
theorem give_offers (words : List SchemeVal) (s : Slots) (f : Focus) :
    ∃ sent draws lookups,
      ((give words s).run f).2.trace = sent ++ draws ++ lookups ++ f.trace ∧
      (∀ e ∈ lookups, e.Lookup) ∧ (∀ e ∈ draws, e.Draw) ∧
      (sent = [] ∨ ∃ room, ((give words s).run f).2.lastRoom = some room ∧ Offered room sent) := by
  let Given (f' : Focus) : Prop := ∃ sent draws lookups,
    f'.trace = sent ++ draws ++ lookups ++ f.trace ∧ (∀ e ∈ lookups, Effect.Lookup e) ∧
      (∀ e ∈ draws, Effect.Draw e) ∧
      (sent = [] ∨ ∃ room, f'.lastRoom = some room ∧ Offered room sent)
  refine (wp_iff_end (give words s) Given).1 ?_
  have hlooked : ∀ f', Adds Effect.Lookup f f' → Given f' := by
    rintro _ ⟨l, hl, hlookup⟩
    exact ⟨[], [], l, hl, hlookup, by simp, .inl rfl⟩
  have hstart : Adds Effect.Lookup f f := refl_of _ _
  simp only [give, view_bind, view_lift, view_ite, view_throw, wp_bind, wp_ite, wp_throw]
  refine wp_lift_of (fun parts _ => ?_) fun _ _ => hlooked _ hstart
  refine wp_lift_of (fun objectText _ => ?_) fun _ _ => hlooked _ hstart
  have hasks := emits_inquires (P := Effect.Lookup) fun _ h => h
  have hobject := (hasks.resolveOneEntryFresh (.str objectText) hasks.defaultPool).wp s f
  refine hobject.conseq (fun objectEntry f₁ _ h₁ => ?_) fun _ _ _ h => hlooked _ h
  refine wp_lift_of (fun object _ => ?_) fun _ _ => hlooked _ h₁
  refine wp_lift_of (fun personText _ => ?_) fun _ _ => hlooked _ h₁
  have hperson := ((hasks.resolvePerson (.str personText)).wp s f₁).and
    resolvePerson_wp
  refine hperson.conseq (fun recipient f₂ _ h₂ => ?_) fun _ _ _ h => hlooked _ (trans_of _ h₁ h.1)
  obtain ⟨h₂, hself, room, hroom, hin⟩ := h₂
  have h₂ : Adds Effect.Lookup f f₂ := trans_of _ h₁ h₂
  refine wp_lift_of (fun bare hbare => ?_) fun _ _ => hlooked _ h₂
  refine wp_lift_of (fun starts hstarts => ?_) fun _ _ => hlooked _ h₂
  split
  · exact hlooked _ h₂
  next hchecks =>
  obtain ⟨object, rfl, hurl⟩ := didUrl_of_checks hbare hstarts hchecks
  refine claimSecret_wp fun token draws hdraws => ?_
  obtain ⟨lookups, hlookups, hlookup⟩ := h₂
  -- The room the person is in stays the cached one: what is sent from here on looks nothing up.
  have hsent : ∀ sent, (sent = [] ∨ Offered room sent) →
      Given { f₂ with trace := sent ++ (draws ++ f₂.trace) } := by
    intro sent h
    refine ⟨sent, draws, lookups, by simp [hlookups], hlookup, hdraws, h.imp id fun h => ?_⟩
    exact ⟨room, hroom, h⟩
  have hdrawn : Given { f₂ with trace := draws ++ f₂.trace } := hsent [] (.inl rfl)
  simp only [getFocus, view_program, wp_get]
  rw [hroom] at hdrawn hsent ⊢
  simp only [view_bind, view_lift, wp_bind]
  refine wp_lift_of (fun persons _ => ?_) fun _ _ => hdrawn
  refine wp_lift_of (fun giver _ => ?_) fun _ _ => hdrawn
  refine wp_lift_of (fun text htext => ?_) fun _ _ => hdrawn
  refine actorCall_wp (fun x v hx _ => ?_) (fun x e hx _ => ?_) fun _ _ => hdrawn
  · obtain rfl := SchemeVal.str.inj hx
    have hoffered : ∀ reply, Offered room [.msgSend recipient (.str text) reply,
        .call object "set-recovery-secret" [.str token] (.ok v)] := fun reply =>
      ⟨object, recipient, token, hurl, hin, hself,
        .inr ⟨v, text, reply, rfl, offerText_eq htext⟩⟩
    simp only [msgSend, getFocus, emit, view_bind, view_lift, view_program, view_ite, view_pure,
      view_throw, wp_bind, wp_get, wp_update, wp_ite, wp_pure, wp_throw, ite_self]
    exact wp_lift_of (fun _ _ => hsent [_, _] (.inr (hoffered _))) fun _ _ =>
      hsent [_, _] (.inr (hoffered _))
  · obtain rfl := SchemeVal.str.inj hx
    exact hsent [_] (.inr ⟨object, recipient, token, hurl, hin, hself, .inl ⟨e, rfl⟩⟩)

/-- The recipient of a message. -/
def Effect.messageTo : Effect → Option SchemeVal
  | .msgSend target _ _ => some target
  | _ => none

/-- The object a secret is sent to. -/
def Effect.secretTo : Effect → Option String
  | .call x method _ _ => if method = "set-recovery-secret" then some x else none
  | _ => none

omit [Host] in
/-- The object refuses the secret, and nobody is told. A person in the room whose address
    is the inbox of the avatar itself is told. -/
theorem not_offered_once :
    let duck : Ctx := [("actor", "did:ma:world#duck"), ("kind", "thing"), ("name", "duck")]
    let alice : Ctx := [("actor", "did:ma:alice"), ("kind", "h00man"), ("name", "alice")]
    let bob : Ctx := [("actor", "did:ma:me#inbox"), ("kind", "h00man"), ("name", "bob")]
    let room : Ctx := [("children", .list [.map duck, .map alice, .map bob])]
    let slots := (World.entered "did:ma:world").slots
    let sent (host : Host) (person : String) : List String × List SchemeVal :=
      let trace := ((@give host ["duck", "to", person] slots).run ⟨some room, [], []⟩).2.trace
      (trace.filterMap Effect.secretTo, trace.filterMap Effect.messageTo)
    sent (scripted "did:ma:me" fun _ _ _ => .error "not the owner") "alice" =
        (["did:ma:world#duck"], []) ∧
      sent (scripted "did:ma:me" fun _ _ _ => .ok .nil) "bob" =
        (["did:ma:world#duck"], [.str "did:ma:me#inbox"]) := by
  decide +kernel

end Avatar

end Zscheme
