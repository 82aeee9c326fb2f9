import Zscheme.Image.Startup

/-!
# What the later layers leave alone

The names that mean the same in the startup image as with the generic library alone
(`Kept`): those no later layer takes, but for the two procedures of the generic library
that call one that is taken, and for what runs code it is given as text. What the kept
names are bound to is clean in the sense of `Lib.Rebind`: it mentions kept names only
(`alone_clean`).
-/

namespace Zscheme

namespace Image

open Lambda Avatar

/-! ## Names that keep their meaning -/

/-- The procedures of the generic library that a later layer takes, and those that call
    them. -/
def altered : List String := ["take", "drop", "head-n", "tail-n"]

/-- A name that means the same in the image, and does not run code it is given as text. -/
def Kept (x : String) : Prop :=
  x ∉ layerNames ∧ x ∉ ["head-n", "tail-n", "doc-cat", "eval", "include"]

instance : DecidablePred Kept := fun x =>
  inferInstanceAs (Decidable (x ∉ layerNames ∧
    x ∉ ["head-n", "tail-n", "doc-cat", "eval", "include"]))

/-- The native procedures that make no code. -/
def Native.Tame : Native → Prop
  | .builtin .eval => False
  | .builtin (.other name) => name ≠ "include"
  | _ => True

/-- The names a `define` mentions. -/
def Define.mentions : Define → List String
  | .procedure _ params body => body.free.filter (· ∉ params)
  | .synonym _ value => [value]

/-! ## The names of the image -/

/-- The generic library, but for the procedures that are altered and `doc-cat`, mentions
    only names that are kept. -/
theorem mentions_kept {d : Define} (hd : d ∈ stdlib) (hname : d.name ∉ "doc-cat" :: altered)
    {x : String} (hx : x ∈ d.mentions) : Kept x := by
  have h : ∀ x ∈ ((stdlib.filter (·.name ∉ "doc-cat" :: altered)).flatMap
      Define.mentions).eraseDups, Kept x := by decide +kernel
  refine h x (List.mem_eraseDups.2 (List.mem_flatMap.2 ⟨d, ?_, hx⟩))
  exact List.mem_filter.2 ⟨hd, by simpa using hname⟩

/-- Every name of the generic library that is neither altered nor `doc-cat` is kept. -/
theorem kept_of_mem : ∀ x ∈ stdlib.map Define.name, x ∉ "doc-cat" :: altered → Kept x := by
  decide +kernel

/-! ## The tables of globals -/

/-- A table binds the names that are kept to clean values. -/
def Globals.Clean (G : Globals) : Prop :=
  ∀ x v, Kept x → G x = some v → v.Clean Kept Native.Tame

theorem globals_clean (M : Machine) : M.globals.Clean := by
  intro x v hx hv
  have hne : x ≠ "eval" ∧ x ≠ "include" := by
    refine ⟨?_, ?_⟩ <;> rintro rfl <;> exact absurd hx (by decide +kernel)
  simp only [Machine.globals] at hv
  split at hv
  · rename_i b hb
    obtain rfl := Option.some.inj hv
    have hmem : (x, b) ∈ Machine.core := by
      obtain ⟨l₁, l₂, hl, _⟩ := List.lookup_eq_some_iff.1 hb
      exact hl ▸ List.mem_append_right l₁ (.head l₂)
    have htame : ∀ p ∈ Machine.core, p.1 ≠ "eval" → Native.Tame (.builtin p.2) := by
      simp [Machine.core, Native.Tame]
    exact .native (htame _ hmem hne.1)
  · split at hv
    · obtain rfl := Option.some.inj hv
      exact .native hne.2
    · exact absurd hv nofun

theorem load_clean {G : Globals} {source : List Define} (hG : G.Clean)
    (h : ∀ d ∈ source, Kept d.name → ∀ x ∈ d.mentions, Kept x) : (load G source).Clean := by
  induction source generalizing G with
  | nil => exact hG
  | cons d source ih =>
    obtain ⟨hd, hsource⟩ := List.forall_mem_cons.1 h
    refine ih (G := Function.update G d.name (d.value G)) ?_ hsource
    intro x v hx hv
    rw [Function.update_apply] at hv
    split at hv
    -- the name that is defined now: its closure has no environment, only its parameters
    · rename_i hxd
      have hmentions := hd (hxd ▸ hx)
      cases d with
      | procedure name params body =>
        obtain rfl := Option.some.inj hv
        refine .closure fun y hy => ?_
        by_cases hp : y ∈ params
        · exact .inl (by simpa [Closure.names] using hp)
        · exact .inr (hmentions y (by simpa [Define.mentions] using ⟨hy, hp⟩))
      | synonym name value => exact hG value v (hmentions value (.head _)) hv
    · exact hG x v hx hv

/-- A name of a later layer is bound by it, any other as before. -/
theorem combined_eq (M : Machine) (x : String) :
    M.combined x = if x ∈ layerNames then some (M.layered x) else M.alone x := by
  have hfold : ∀ (names : List String) (G : Globals),
      names.foldl (fun G x => Function.update G x (some (M.layered x))) G x =
        if x ∈ names then some (M.layered x) else G x := by
    intro names
    -- a name bound twice is bound to the same: the value depends on the name only
    induction names with
    | nil => exact fun _ => rfl
    | cons y names ih =>
      intro G
      rw [List.foldl_cons, ih, Function.update_apply]
      grind
  exact hfold layerNames M.alone

/-- A name that is kept is neither altered nor `doc-cat`. -/
theorem Kept.not_mem {x : String} (hx : Kept x) : x ∉ "doc-cat" :: altered := by
  have h : ∀ x ∈ "doc-cat" :: altered, ¬Kept x := by decide +kernel
  exact fun hmem => h x hmem hx

theorem alone_clean (M : Machine) : M.alone.Clean :=
  load_clean (globals_clean M) fun _ hd hname _ => mentions_kept hd hname.not_mem

/-- With the generic library alone and in the image, the kept names mean the same. -/
theorem same_combined (M : Machine) {heap : List Value}
    (hheap : ∀ v ∈ heap, v.Clean Kept Native.Tame) (w : World) :
    Store.Same Kept Native.Tame ⟨M.alone, heap, w⟩ ⟨M.combined, heap, w⟩ where
  heap := rfl
  world := rfl
  globals x hx := ((combined_eq M x).trans (if_neg hx.1)).symm
  clean_heap := hheap
  clean_globals := alone_clean M

/-! ## Builtins make no code -/

section

variable {P : Closure SchemeVal → Prop} {Q : Native → Prop}

theorem Value.all_atom (a : Label) : (Value.atom a).All P Q := .node nofun

theorem Value.all_list {xs : List Value} (h : ∀ x ∈ xs, x.All P Q) : (Value.list xs).All P Q :=
  .node h

mutual

theorem Value.all_ofScheme : ∀ v : SchemeVal, (Value.ofScheme v).All P Q
  | .str _ | .bytes _ | .int _ | .float _ | .bool _ | .nil => Value.all_atom _
  | .list xs => .node (Value.all_ofSchemes xs)
  | .map m => .node (Value.all_ofEntries m)

theorem Value.all_ofSchemes : ∀ (xs : List SchemeVal), ∀ v ∈ Value.ofSchemes xs, v.All P Q
  | [] => nofun
  | x :: xs => List.forall_mem_cons.2 ⟨Value.all_ofScheme x, Value.all_ofSchemes xs⟩

theorem Value.all_ofEntries : ∀ (m : List (String × SchemeVal)),
    ∀ v ∈ Value.ofEntries m, v.All P Q
  | [] => nofun
  | (_, x) :: m => List.forall_mem_cons.2 ⟨Value.all_ofScheme x, Value.all_ofEntries m⟩

end

/-- What comes back as data holds no procedure. -/
theorem returned_clean {S : String → Prop} {N : Native → Prop}
    {r : Except String SchemeVal × World} {e : Ending} (h : (Machine.returned r).1 = .ok e) :
    e.Clean S N := by
  obtain ⟨_ | v, w⟩ := r
  · exact absurd h nofun
  · exact Except.ok.inj h ▸ Value.all_ofScheme v

variable [Host] (M : Machine)

/-- The procedures in what a builtin returns are among its arguments. -/
theorem value_all {b : Builtin} {args : List Value} {v : Value} (h : M.value b args = .ok v)
    (hargs : ∀ a ∈ args, a.All P Q) : v.All P Q := by
  simp only [Machine.value] at h
  split at h
  · obtain rfl := Except.ok.inj h
    exact (hargs _ (.head _)).of_mem _ (.head _)
  · obtain rfl := Except.ok.inj h
    exact Value.all_list fun x hx => (hargs _ (.head _)).of_mem x (.tail _ hx)
  · obtain rfl := Except.ok.inj h
    refine Value.all_list (List.forall_mem_cons.2 ⟨hargs _ (.head _), ?_⟩)
    exact (hargs _ (.tail _ (.head _))).of_mem
  · obtain rfl := Except.ok.inj h
    exact Value.all_list (List.forall_mem_singleton.2 (hargs _ (.head _)))
  · rcases hd : M.datum b args with e | d
    · rw [hd] at h
      cases h
    · rw [hd] at h
      exact Except.ok.inj h ▸ Value.all_ofScheme d

end

variable [Host] (M : Machine)

/-- A builtin that makes no code ends clean. -/
theorem builtin_clean {b : Builtin} (hb : Native.Tame (.builtin b)) {args : List Value}
    (hargs : ∀ a ∈ args, a.Clean Kept Native.Tame) {w : World} {e : Ending}
    (h : (M.builtin args w b).1 = .ok e) : e.Clean Kept Native.Tame := by
  have hvalue {b} (h : (M.value b args).map Step.done = .ok e) : e.Clean Kept Native.Tame := by
    rcases hv : M.value b args with _ | v
    · rw [hv] at h
      cases h
    · rw [hv] at h
      exact Except.ok.inj h ▸ value_all M hv hargs
  cases b with
  | other name =>
    have hmade := M.other_makes hb h _ _ hargs
    cases e with
    | done | apply => exact hmade
    | eval => exact hmade.elim
  | eval => exact hb.elim
  | _ => exact hvalue h

theorem interp_lawful : M.interp.Lawful Kept Native.Tame where
  quote := Value.all_ofScheme
  list := Value.all_list
  void := Value.all_atom _
  caught _ := Value.all_atom _
  call {f args w r} hf hargs h := by
    rcases f with _ | _ | b | _ | _
    · exact returned_clean h
    · exact returned_clean h
    · cases hf with
      | native hb => exact builtin_clean M hb hargs h
    · exact returned_clean h
    · exact returned_clean h

end Image

end Zscheme
