import Zscheme.Image.Kept
import Zscheme.Lib.Refine

/-!
# What the list procedures of the generic library do

The code of `stdlib.zscheme`, run by the evaluator, does what the list functions it is
named after do: for all arguments, in every heap and every world, under any globals that
bind the names of the evaluator and of the library to what they are bound to
(`Globals.Provides`): those of the library alone and, but for `take` and `drop`, those of
the startup image.

* `higherOrder_performs`: `map`, `filter`, `for-each`, `fold`, `any` and `every` run the
  procedure they are given on the elements from the first on, with whatever it does to
  the world and whatever it raises; `any` and `every` stop where their answer is known.
* `Performs.returns`: in every world, what a procedure does is what it returns.
-/

namespace Zscheme

namespace Image

open Lambda Avatar

/-! ## Lists -/

namespace Value

/-- The elements of a list. -/
def elements? : Value → Option (List Value)
  | .node .list xs => some xs
  | .node .nil _ => some []
  | _ => none

variable {v x : Value} {xs : List Value}

/-- The elements of a list. -/
@[simp] theorem elements?_list (xs : List Value) : elements? (list xs) = some xs := rfl

/-- The empty list has none. -/
@[simp] theorem elements?_nil : elements? (atom .nil) = some [] := rfl

/-- A value with a first element is a list of its elements. -/
theorem eq_list_of_elements? (h : v.elements? = some (x :: xs)) : v = list (x :: xs) := by
  rcases v with ⟨_ | _, _⟩ | _ | _ <;> cases h
  rfl

/-- `null?` holds of the lists without elements. -/
theorem null?_of_elements? (h : v.elements? = some xs) : v.null? = xs.isEmpty := by
  rcases v with ⟨_ | _, _⟩ | _ | _ <;> cases h
  · rfl
  · exact null?_list xs

end Value

/-- Values for what they are. -/
abbrev Standing (α : Type) := Rep Value α Value

namespace Standing

variable {α : Type}

/-- The lists with given elements. -/
def lists (R : Standing α) : Standing (List α) where
  Holds h as v := ∃ vs, v.elements? = some vs ∧ R.all.Holds h as vs
  mono := by
    rintro h h' as v hh ⟨vs, hv, hvs⟩
    exact ⟨vs, hv, R.all.mono hh hvs⟩

/-- What counts as true or not. -/
def truth : Standing Bool := ⟨fun _ b v => v.truthy = b, fun _ h => h⟩

/-- `#t` or `#f` -/
def bool : Standing Bool := .of Value.ofBool

/-- Integers that fit. -/
def nat : Standing Nat := .of fun n => Value.atom (.int (.ofNat n))

variable {R : Standing α} {h : List Value} {v : Value}

/-- An empty list stands for no element. -/
theorem lists_nil : (lists R).Holds h [] v ↔ v.elements? = some [] := by
  constructor
  · rintro ⟨vs, hv, hvs⟩
    cases hvs
    exact hv
  · exact fun hv => ⟨[], hv, .nil⟩

/-- A list stands for its elements, one by one. -/
theorem lists_cons {a : α} {as : List α} :
    (lists R).Holds h (a :: as) v ↔
      ∃ x xs, v = Value.list (x :: xs) ∧ R.Holds h a x ∧ (lists R).Holds h as (Value.list xs) := by
  constructor
  · rintro ⟨vs, hv, hvs⟩
    cases hvs with
    | @cons _ x _ xs hx hxs =>
      exact ⟨x, xs, Value.eq_list_of_elements? hv, hx, xs, rfl, hxs⟩
  · rintro ⟨x, xs, rfl, hx, xs', hxs, has⟩
    obtain rfl := Option.some.inj hxs
    exact ⟨x :: xs, rfl, .cons hx has⟩

end Standing

/-! ## Builtins -/

namespace Machine

variable [Host] (M : Machine)

/-- The builtins that are functions of their arguments. -/
def prims : M.interp.Prims where
  result
    | .builtin (.other _), _ | .builtin .eval, _ => none
    | .builtin b, vs => some (M.value b vs)
    | _, _ => none
  sound {f vs r} h w := by
    rcases f with b | _ | _
    · cases b <;> cases h <;> rfl
    · cases h
    · cases h

variable {M}

section

variable {x v : Value} {xs : List Value}

@[simp] theorem prims_closure (c : Closure SchemeVal) :
    M.prims.call (.closure c) xs = pure (.apply (.closure c) xs) := rfl

@[simp] theorem prims_null? :
    M.prims.call (.native (.builtin .null?)) [v] = pure (.done (Value.ofBool v.null?)) := rfl

@[simp] theorem prims_pair? :
    M.prims.call (.native (.builtin .pair?)) [v] = pure (.done (Value.ofBool v.pair?)) := rfl

@[simp] theorem prims_car :
    M.prims.call (.native (.builtin .car)) [Value.list (x :: xs)] = pure (.done x) := rfl

@[simp] theorem prims_cdr :
    M.prims.call (.native (.builtin .cdr)) [Value.list (x :: xs)] =
      pure (.done (Value.list xs)) := rfl

@[simp] theorem prims_not :
    M.prims.call (.native (.builtin .not)) [v] = pure (.done (Value.ofBool !v.truthy)) := rfl

/-- `cons` puts an element in front. -/
theorem prims_cons (h : v.elements? = some xs) :
    M.prims.call (.native (.builtin .cons)) [x, v] = pure (.done (Value.list (x :: xs))) := by
  rcases v with ⟨_ | _, _⟩ | _ | _ <;> cases h <;> rfl

end

end Machine

/-! ## Globals -/

/-- The global a `define` reads. -/
def Define.reads : Define → Option String
  | .procedure _ _ _ => none
  | .synonym _ value => some value

/-- A define depends only on the globals that it reads. -/
theorem Define.value_congr {d : Define} {G G' : Globals} (h : ∀ x ∈ d.reads, G x = G' x) :
    d.value G = d.value G' := by
  cases d with
  | procedure => rfl
  | synonym name value => exact h value rfl

/-- A name that the source does not define keeps its value. -/
theorem load_of_notMem {source : List Define} {x : String} (h : x ∉ source.map Define.name)
    (G : Globals) : load G source x = G x := by
  induction source generalizing G with
  | nil => rfl
  | cons d source ih =>
    obtain ⟨hd, hsource⟩ := not_or.1 fun hmem => h (List.mem_cons.2 hmem)
    exact (ih hsource _).trans (Function.update_of_ne hd _ _)

/-- What a source defines is still so at its end, if no later `define` takes its name or the
    name it reads. -/
theorem load_eq {source : List Define}
    (h : source.Pairwise fun d d' => d.name ≠ d'.name ∧ d'.name ∉ d.reads)
    (hself : ∀ d ∈ source, d.name ∉ d.reads) (G : Globals) {d : Define} (hd : d ∈ source) :
    load G source d.name = d.value (load G source) := by
  induction source generalizing G with
  | nil => cases hd
  | cons d' source ih =>
    obtain ⟨hlater, hsource⟩ := List.pairwise_cons.1 h
    obtain ⟨hself', hrest⟩ := List.forall_mem_cons.1 hself
    rcases List.mem_cons.1 hd with rfl | hd
    · have hname : d.name ∉ source.map Define.name := by
        simpa using fun x hx => (hlater x hx).1.symm
      have hload {x} (hx : x ∈ d.reads) : load G (d :: source) x = G x := by
        have hx' : x ∉ source.map Define.name := by
          rintro hmem
          obtain ⟨d', hd', rfl⟩ := List.mem_map.1 hmem
          exact (hlater d' hd').2 hx
        have hne : x ≠ d.name := by
          rintro rfl
          exact hself' hx
        exact (load_of_notMem hx' _).trans (Function.update_of_ne hne _ _)
      calc load G (d :: source) d.name
          = d.value G := (load_of_notMem hname _).trans (Function.update_self _ _ _)
        _ = d.value (load G (d :: source)) := d.value_congr fun x hx => (hload hx).symm
    · exact ih hsource hrest _ hd

/-- The names of the evaluator and of the generic library are bound to what they are bound
    to before a later layer takes one; but for the two that are taken. -/
structure Globals.Provides (G : Globals) : Prop where
  core : ∀ p ∈ Machine.core, G p.1 = some (.native (.builtin p.2))
  defines : ∀ d ∈ stdlib, d.name ∉ ["take", "drop"] → G d.name = d.value G

namespace Machine

/-- The library alone has the builtins. -/
theorem alone_core (M : Machine) : ∀ p ∈ core, M.alone p.1 = some (.native (.builtin p.2)) := by
  intro p hp
  have hname : ∀ p ∈ core, p.1 ∉ stdlib.map Define.name := by decide +kernel
  have hlookup : ∀ p ∈ core, core.lookup p.1 = some p.2 := by simp [core, List.lookup_cons]
  rw [alone, load_of_notMem (hname p hp), globals, hlookup p hp]

/-- The library alone has each of its defines. -/
theorem alone_defines (M : Machine) : ∀ d ∈ stdlib, M.alone d.name = d.value M.alone :=
  fun _ hd => load_eq (by decide +kernel) (by decide +kernel) _ hd

/-- The library alone provides what its procedures use. -/
theorem provides_alone (M : Machine) : M.alone.Provides :=
  ⟨M.alone_core, fun d hd _ => M.alone_defines d hd⟩

/-- So does the image in which the avatar is loaded too. -/
theorem provides_combined (M : Machine) : M.combined.Provides where
  core p hp := by
    have hname : ∀ p ∈ core, p.1 ∉ layerNames := by decide +kernel
    rw [combined_eq, if_neg (hname p hp), M.alone_core p hp]
  defines d hd htaken := by
    have hname : ∀ d ∈ stdlib, d.name ∉ ["take", "drop"] →
        d.name ∉ layerNames ∧ ∀ x ∈ d.reads, x ∉ layerNames := by decide +kernel
    obtain ⟨hlayer, hreads⟩ := hname d hd htaken
    rw [combined_eq, if_neg hlayer, M.alone_defines d hd]
    exact d.value_congr fun x hx => by rw [combined_eq, if_neg (hreads x hx)]

end Machine

/-- The list primitives that the library uses are there. -/
theorem Globals.Provides.builtins {G : Globals} (hG : G.Provides) :
    G "null?" = some (.native (.builtin .null?)) ∧ G "car" = some (.native (.builtin .car)) ∧
      G "cdr" = some (.native (.builtin .cdr)) ∧ G "cons" = some (.native (.builtin .cons)) ∧
      G "not" = some (.native (.builtin .not)) := by
  have hcore := hG.core
  simp [Machine.core] at hcore
  simp [hcore]

/-! ## Procedures -/

namespace Machine

variable [Host] {M : Machine} {G : Globals} {h : List Value} {α β : Type}

variable (M G h) in
/-- With the globals `G`, the procedure `p` does with these arguments what the deed does,
    in every heap that extends `h` and every world. -/
def Performs (p : String) (args : List Value) (R : Standing α) (q : Deed String World α) : Prop :=
  ∃ f, G p = some f ∧ M.interp.Does G h (.apply f args) R q

variable {R : Standing α} {q : Deed String World α} {args : List Value}

/-- What does no more than return a value returns it. -/
theorem Performs.returns {p : String} {a : α} (hp : M.Performs G h p args R (pure a)) (w : World) :
    ∃ v more, M.Returns G p args h w v ∧ R.Holds (h ++ more) a v := by
  obtain ⟨f, hf, hdoes⟩ := hp
  obtain ⟨N, more, r, hend, hout⟩ := hdoes h (List.prefix_refl h) w
  cases hout with
  | ok ha => exact ⟨_, more, ⟨f, hf, N, _, hend N (Nat.le_refl N)⟩, ha⟩

/-- A procedure performs what its body does with its arguments. -/
theorem performs_of_body {name : String} {params : List String} {body : Code}
    (hdef : G name = (Define.procedure name params body).value G)
    (hlen : args.length = params.length)
    (hbody : M.interp.Means G h (params.zip args) body R q) : M.Performs G h name args R q :=
  ⟨_, hdef, .procedure hlen hbody⟩

/-- The call of a procedure by its name. -/
theorem Performs.call {p : String} {ρ : Interp.Locals SchemeVal Label Native} {es : List Code}
    (hp : M.Performs G h p args R q) (hlocal : ρ.lookup p = none)
    (hes : M.interp.GivesAll G h ρ es args) : M.interp.Means G h ρ (call p es) R q := by
  obtain ⟨f, hf, hdoes⟩ := hp
  exact .call (.var (by rw [hlocal]; exact hf) rfl) hes hdoes

/-- The same with arguments that are known only when they are there. -/
theorem performs_app {p : String} {ρ : Interp.Locals SchemeVal Label Native} {es : List Code}
    {f : Value} {T : Rep Value β (List Value)} {o : Deed String World β}
    {q : β → Deed String World α} (hf : G p = some f) (hlocal : ρ.lookup p = none)
    (hes : M.interp.MeansAll G h ρ es T o)
    (hp : ∀ heap, h <+: heap → ∀ b vs, T.Holds heap b vs → M.Performs G heap p vs R (q b)) :
    M.interp.Means G h ρ (call p es) R (o >>= q) := by
  have hgives : M.interp.Gives G h ρ (.var p) f := .var (by rw [hlocal]; exact hf) rfl
  have happ := hgives.app hes (S := R) (q := fun _ => q) fun heap hh _ f' b vs hf' hvs => by
    obtain rfl : f' = f := hf'
    obtain ⟨f'', hf'', hdoes⟩ := hp heap hh b vs hvs
    obtain rfl := Option.some.inj (hf.symm.trans hf'')
    exact hdoes
  simpa [Image.call] using happ

/-- The same with one argument. -/
theorem performs_app₁ {p : String} {ρ : Interp.Locals SchemeVal Label Native} {e : Code} {f : Value}
    {S : Standing β} {o : Deed String World β} {q : β → Deed String World α} (hf : G p = some f)
    (hlocal : ρ.lookup p = none) (he : M.interp.Means G h ρ e S o)
    (hp : ∀ heap, h <+: heap → ∀ b v, S.Holds heap b v → M.Performs G heap p [v] R (q b)) :
    M.interp.Means G h ρ (call p [e]) R (o >>= q) := by
  have happ := performs_app (R := R) (q := fun b => q b.1) hf hlocal
    (.cons he (.nil (T := .is []) (a := ()) rfl)) fun heap hh b vs hvs => by
      obtain ⟨v, _, rfl, hv, rfl⟩ := hvs
      exact hp heap hh b.1 v hv
  simpa using happ

/-- The same with two arguments. -/
theorem performs_app₂ {γ : Type} {p : String} {ρ : Interp.Locals SchemeVal Label Native}
    {e e' : Code} {f : Value} {S : Standing β} {S' : Standing γ} {o : Deed String World β}
    {o' : Deed String World γ} {q : β → γ → Deed String World α} (hf : G p = some f)
    (hlocal : ρ.lookup p = none) (he : M.interp.Means G h ρ e S o)
    (he' : M.interp.Means G h ρ e' S' o')
    (hp : ∀ heap, h <+: heap → ∀ b v c u, S.Holds heap b v → S'.Holds heap c u →
      M.Performs G heap p [v, u] R (q b c)) :
    M.interp.Means G h ρ (call p [e, e']) R (o >>= fun b => o' >>= fun c => q b c) := by
  have happ := performs_app (R := R) (q := fun b => q b.1 b.2.1) hf hlocal
    (.cons he (.cons he' (.nil (T := .is []) (a := ()) rfl))) fun heap hh b vs hvs => by
      obtain ⟨v, _, rfl, hv, u, _, rfl, hu, rfl⟩ := hvs
      exact hp heap hh b.1 v b.2.1 u hv hu
  simpa using happ

/-- A builtin that is a function of its arguments. -/
theorem builtin_does {f v : Value} {a : α} (hf : M.prims.call f args = pure (.done v))
    (ha : R.Holds h a v) : M.interp.Does G h (.apply f args) R (pure a) :=
  Interp.Prims.call_does (by rw [hf]; exact Interp.Part.is_pure.2 rfl) (Interp.Prims.rest_done ha)

/-- `cons` -/
theorem cons_does {a : α} {as : List α} {v u : Value} (hv : R.Holds h a v)
    (hu : (Standing.lists R).Holds h as u) :
    M.interp.Does G h (.apply (.native (.builtin .cons)) [v, u]) (Standing.lists R)
      (pure (a :: as)) := by
  obtain ⟨us, hus, has⟩ := hu
  exact builtin_does (prims_cons hus) ⟨_, rfl, .cons hv has⟩

/-- `not` -/
theorem not_does {b : Bool} {v : Value} (hv : Standing.truth.Holds h b v) :
    M.interp.Does G h (.apply (.native (.builtin .not)) [v]) Standing.truth (pure !b) := by
  obtain rfl : Value.truthy v = b := hv
  exact builtin_does prims_not (Value.truthy_ofBool _)

/-- A procedure that first asks whether its list is empty. -/
theorem performs_null (hG : G.Provides) {name y : String} {params : List String} {e e' : Code}
    {ρ : Interp.Locals SchemeVal Label Native} {l : Value}
    (hdef : G name = (Define.procedure name params (.ite (Image.call "null?" [y]) e e')).value G)
    (hlen : args.length = params.length) (hρ : params.zip args = ρ) (hy : ρ.lookup y = some l)
    (hnull : ρ.lookup "null?" = none)
    (hbody : M.interp.Means G h ρ (if l.null? then e else e') R q) :
    M.Performs G h name args R q := by
  subst hρ
  refine performs_of_body hdef hlen (.branch (M.prims.gives (v := Value.ofBool l.null?) ?_) ?_)
  · simp [Image.call, Interp.Prims.tail, Interp.Prims.values, Interp.Prims.value, hy, hnull,
      hG.builtins]
  · cases hl : l.null? with
    | true => simpa [hl] using hbody
    | false => simpa [hl] using hbody

section

-- The equations by which code that only calls builtins on the way is evaluated.
attribute [local simp] Interp.Prims.tail Interp.Prims.values Interp.Prims.value List.lookup_cons
  Image.call cond nil Image.bool

variable {f l : Value} {as : List α}

/-- The call of the procedure on the first element. -/
theorem first_means {β : Type} {S : Standing β} {g : α → Deed String World β} (hG : G.Provides)
    (hf : (M.interp.functions G R.one S).Holds h g f) {a : α} {x : Value} {xs : List Value}
    (hx : R.Holds h a x) :
    M.interp.Means G h [("f", f), ("lst", Value.list (x :: xs))]
      (Image.call "f" [Image.call "car" ["lst"]]) S (g a) :=
  .call (M.prims.gives (by simp)) (M.prims.givesAll (by simp [hG.builtins]))
    (hf h (List.prefix_refl h) a _ ⟨x, rfl, hx⟩)

/-- A recursive call on the other elements. -/
theorem Performs.rest (hG : G.Provides) {p : String} {x : Value} {xs : List Value}
    (hp : M.Performs G h p [f, Value.list xs] R q)
    (hlocal : [("f", f), ("lst", Value.list (x :: xs))].lookup p = none) :
    M.interp.Means G h [("f", f), ("lst", Value.list (x :: xs))]
      (Image.call p ["f", Image.call "cdr" ["lst"]]) R q :=
  hp.call hlocal (M.prims.givesAll (by simp [hG.builtins]))

/-- `cons` of the first element of a list. -/
theorem cons_means {ρ : Interp.Locals SchemeVal Label Native} {y : String} {a : α} {x : Value}
    {xs : List Value} {e : Code} {o : Deed String World (List α)} (hG : G.Provides)
    (hx : R.Holds h a x) (he : M.interp.Means G h ρ e (Standing.lists R) o)
    (hy : ρ.lookup y = some (Value.list (x :: xs))) (hcons : ρ.lookup "cons" = none)
    (hcar : ρ.lookup "car" = none) :
    M.interp.Means G h ρ (Image.call "cons" [Image.call "car" [y], e]) (Standing.lists R)
      (do return a :: (← o)) := by
  have hgives : M.interp.Gives G h ρ "cons" (.native (.builtin .cons)) :=
    M.prims.gives (by simp [hcons, hG.builtins])
  have hfirst : M.interp.Means G h ρ (Image.call "car" [y]) R (pure a) :=
    M.prims.returns (v := x) (by simp [hy, hcar, hG.builtins]) hx
  simpa using hgives.app₂ hfirst he fun _ _ _ _ _ _ hv hu => cons_does hv hu

variable {β : Type} {S : Standing β}

/-- `map` applies from the left, effects included. -/
theorem map_performs {g : α → Deed String World β} (hG : G.Provides)
    (hf : (M.interp.functions G R.one S).Holds h g f) (hl : (Standing.lists R).Holds h as l) :
    M.Performs G h "map" [f, l] (Standing.lists S) (as.mapM g) := by
  have hdef := hG.defines Source.map (by simp [stdlib]) (by decide)
  induction as generalizing h l with
  | nil =>
    refine performs_null hG hdef rfl rfl rfl rfl ?_
    rw [Value.null?_of_elements? (Standing.lists_nil.1 hl)]
    exact .lit (Standing.lists_nil.2 rfl)
  | cons a as ih =>
    obtain ⟨x, xs, rfl, hx, hxs⟩ := Standing.lists_cons.1 hl
    refine performs_null hG hdef rfl rfl rfl rfl ?_
    have hcons : M.interp.Gives G h [("f", f), ("lst", Value.list (x :: xs))] "cons"
      (.native (.builtin .cons)) := M.prims.gives (by simp [hG.builtins])
    rw [List.mapM_cons]
    exact .app₂ hcons (first_means hG hf hx) ((ih hf hxs).rest hG rfl) fun _ _ _ _ _ _ => cons_does

omit [Host] in
/-- The first element is tested first. -/
theorem filterM_cons (g : α → Deed String World Bool) (a : α) (as : List α) :
    (a :: as).filterM g = (do
      let b ← g a
      let bs ← as.filterM g
      return if b then a :: bs else bs) := by
  have haux : ∀ (as acc : List α), as.filterAuxM g acc =
      (do let bs ← as.filterAuxM g []; return bs ++ acc) := by
    intro as
    induction as with
    | nil => simp [List.filterAuxM]
    | cons a as ih =>
      intro acc
      simp only [List.filterAuxM, bind_assoc]
      refine bind_congr fun b => ?_
      rw [ih, ih (bif b then [a] else [])]
      cases b <;> simp
  simp only [List.filterM, List.filterAuxM, bind_assoc]
  refine bind_congr fun b => ?_
  rw [haux]
  cases b <;> simp

/-- `filter` keeps what the test holds of. -/
theorem filter_performs {g : α → Deed String World Bool} (hG : G.Provides)
    (hf : (M.interp.functions G R.one Standing.truth).Holds h g f)
    (hl : (Standing.lists R).Holds h as l) :
    M.Performs G h "filter" [f, l] (Standing.lists R) (as.filterM g) := by
  have hdef := hG.defines Source.filter (by simp [stdlib]) (by decide)
  induction as generalizing h l with
  | nil =>
    refine performs_null hG hdef rfl rfl rfl rfl ?_
    rw [Value.null?_of_elements? (Standing.lists_nil.1 hl)]
    exact .lit (Standing.lists_nil.2 rfl)
  | cons a as ih =>
    obtain ⟨x, xs, rfl, hx, hxs⟩ := Standing.lists_cons.1 hl
    refine performs_null hG hdef rfl rfl rfl rfl ?_
    rw [filterM_cons]
    refine .ite (first_means hG hf hx) fun heap hh b v hv => ?_
    obtain rfl : Value.truthy v = b := hv
    have hrest := (ih (hf.mono hh) (hxs.mono hh)).rest (x := x) hG rfl
    cases hv : Value.truthy v with
    | false => simpa [hv] using hrest
    | true => simpa [hv] using cons_means hG (R.mono hh hx) hrest rfl rfl rfl

/-- `for-each` is for the effects. -/
theorem forEach_performs {S : Standing Unit} {g : α → Deed String World Unit} (hG : G.Provides)
    (hf : (M.interp.functions G R.one S).Holds h g f) (hl : (Standing.lists R).Holds h as l) :
    M.Performs G h "for-each" [f, l] (.is (Value.atom .nil)) (forM as g) := by
  have hdef := hG.defines Source.forEach (by simp [stdlib]) (by decide)
  induction as generalizing h l with
  | nil =>
    refine performs_null hG hdef rfl rfl rfl rfl ?_
    rw [Value.null?_of_elements? (Standing.lists_nil.1 hl)]
    exact .lit rfl
  | cons a as ih =>
    obtain ⟨x, xs, rfl, hx, hxs⟩ := Standing.lists_cons.1 hl
    refine performs_null hG hdef rfl rfl rfl rfl ?_
    rw [List.forM_cons]
    exact .seq (first_means hG hf hx) fun heap hh _ => (ih (hf.mono hh) (hxs.mono hh)).rest hG rfl

/-- `any` stops at the first success. -/
theorem any_performs {g : α → Deed String World Bool} (hG : G.Provides)
    (hf : (M.interp.functions G R.one Standing.truth).Holds h g f)
    (hl : (Standing.lists R).Holds h as l) :
    M.Performs G h "any" [f, l] Standing.bool (as.anyM g) := by
  have hdef := hG.defines Source.any (by simp [stdlib]) (by decide)
  induction as generalizing h l with
  | nil =>
    refine performs_null hG hdef rfl rfl rfl rfl ?_
    rw [Value.null?_of_elements? (Standing.lists_nil.1 hl)]
    exact .lit rfl
  | cons a as ih =>
    obtain ⟨x, xs, rfl, hx, hxs⟩ := Standing.lists_cons.1 hl
    refine performs_null hG hdef rfl rfl rfl rfl ?_
    refine .ite (first_means hG hf hx) fun heap hh b v hv => ?_
    obtain rfl : Value.truthy v = b := hv
    have hrest := (ih (hf.mono hh) (hxs.mono hh)).rest (x := x) hG rfl
    cases hv : Value.truthy v with
    | false => simpa [hv] using hrest
    | true => simpa [hv] using Interp.Means.lit rfl

/-- `every` stops at the first failure. -/
theorem every_performs {g : α → Deed String World Bool} (hG : G.Provides)
    (hf : (M.interp.functions G R.one Standing.truth).Holds h g f)
    (hl : (Standing.lists R).Holds h as l) :
    M.Performs G h "every" [f, l] Standing.bool (as.allM g) := by
  have hdef := hG.defines Source.every (by simp [stdlib]) (by decide)
  induction as generalizing h l with
  | nil =>
    refine performs_null hG hdef rfl rfl rfl rfl ?_
    rw [Value.null?_of_elements? (Standing.lists_nil.1 hl)]
    exact .lit rfl
  | cons a as ih =>
    obtain ⟨x, xs, rfl, hx, hxs⟩ := Standing.lists_cons.1 hl
    refine performs_null hG hdef rfl rfl rfl rfl ?_
    have hnot : M.interp.Gives G h [("f", f), ("lst", Value.list (x :: xs))] "not"
      (.native (.builtin .not)) := M.prims.gives (by simp [hG.builtins])
    have htest := hnot.app₁ (first_means hG hf hx) fun _ _ _ _ hv => not_does hv
    have hite := htest.ite (t := Image.bool false) (S := Standing.bool)
      (e := Image.call "every" ["f", Image.call "cdr" ["lst"]])
      (q := fun b => if b then pure false else as.allM g) fun heap hh b v hv => by
        obtain rfl : Value.truthy v = b := hv
        have hrest := (ih (hf.mono hh) (hxs.mono hh)).rest (x := x) hG rfl
        cases hv : Value.truthy v with
        | false => simpa [hv] using hrest
        | true => simpa [hv] using Interp.Means.lit rfl
    have hall : (a :: as).allM g =
        g a >>= (fun b => pure !b) >>= fun b => if b then pure false else as.allM g := by
      simp only [List.allM, bind_assoc, pure_bind]
      refine bind_congr fun b => ?_
      cases b <;> rfl
    exact hall ▸ hite

/-- A left fold; the procedure is given the element first. -/
theorem fold_performs {g : α × β → Deed String World β} {b : β} {init : Value} (hG : G.Provides)
    (hf : (M.interp.functions G (R.two S) S).Holds h g f) (hinit : S.Holds h b init)
    (hl : (Standing.lists R).Holds h as l) :
    M.Performs G h "fold" [f, init, l] S (as.foldlM (fun b a => g (a, b)) b) := by
  have hdef := hG.defines Source.fold (by simp [stdlib]) (by decide)
  induction as generalizing h b init l with
  | nil =>
    refine performs_null hG hdef rfl rfl rfl rfl ?_
    rw [Value.null?_of_elements? (Standing.lists_nil.1 hl)]
    exact .var rfl hinit
  | cons a as ih =>
    obtain ⟨x, xs, rfl, hx, hxs⟩ := Standing.lists_cons.1 hl
    refine performs_null hG hdef rfl rfl rfl rfl ?_
    let ρ := [("f", f), ("init", init), ("lst", Value.list (x :: xs))]
    have hargs : M.interp.GivesAll G h ρ [Image.call "car" ["lst"], "init"] [x, init] :=
      M.prims.givesAll (by simp [ρ, hG.builtins])
    have hstep : M.interp.Means G h ρ (Image.call "f" [Image.call "car" ["lst"], "init"]) S
        (g (a, b)) :=
      .call (M.prims.gives rfl) hargs (hf h (List.prefix_refl h) (a, b) _ ⟨x, init, rfl, hx, hinit⟩)
    have hproc : M.interp.Gives G h ρ "f" f := M.prims.gives rfl
    have hcdr : M.interp.GivesAll G h ρ [Image.call "cdr" ["lst"]] [Value.list xs] :=
      M.prims.givesAll (by simp [ρ, hG.builtins])
    have happ := performs_app (p := "fold") (R := S)
      (q := fun b => as.foldlM (fun b a => g (a, b)) b.2.1) hdef rfl
      (.cons hproc (.cons hstep hcdr)) fun heap hh b vs hvs => by
        obtain ⟨_, _, rfl, rfl, v, _, rfl, hv, rfl⟩ := hvs
        exact ih (hf.mono hh) hv (hxs.mono hh)
    simpa [ρ, List.foldlM_cons] using happ

/-- The procedures that are given one run it on the elements of the list from the first on,
    in the world the one before left, up to what it raises; `any` and `every` up to where
    the answer is known. -/
theorem higherOrder_performs (hG : G.Provides) (f : Value) (hl : (Standing.lists R).Holds h as l) :
    (∀ g : α → Deed String World β, (M.interp.functions G R.one S).Holds h g f →
      M.Performs G h "map" [f, l] (Standing.lists S) (as.mapM g)) ∧
    (∀ g : α → Deed String World Bool, (M.interp.functions G R.one Standing.truth).Holds h g f →
      M.Performs G h "filter" [f, l] (Standing.lists R) (as.filterM g) ∧
      M.Performs G h "any" [f, l] Standing.bool (as.anyM g) ∧
      M.Performs G h "every" [f, l] Standing.bool (as.allM g)) ∧
    (∀ (S : Standing Unit) (g : α → Deed String World Unit),
      (M.interp.functions G R.one S).Holds h g f →
      M.Performs G h "for-each" [f, l] (.is (Value.atom .nil)) (forM as g)) ∧
    ∀ (g : α × β → Deed String World β) (b : β) (init : Value),
      (M.interp.functions G (R.two S) S).Holds h g f → S.Holds h b init →
      M.Performs G h "fold" [f, init, l] S (as.foldlM (fun b a => g (a, b)) b) :=
  ⟨fun _ hf => map_performs hG hf hl,
    fun _ hf => ⟨filter_performs hG hf hl, any_performs hG hf hl, every_performs hG hf hl⟩,
    fun _ _ hf => forEach_performs hG hf hl, fun _ _ _ hf hinit => fold_performs hG hf hinit hl⟩

omit [Host] in
/-- `(map not '(#t #f))`, with the library alone. -/
theorem higherOrder_performs_not :
    let _ : Host := scripted "did:ma:me" fun _ _ _ => .ok .nil
    let l := Value.list [Value.ofBool true, Value.ofBool false]
    plain.Performs plain.alone [] "map" [.native (.builtin .not), l] (Standing.lists Standing.truth)
      ([true, false].mapM fun b => pure !b) := by
  intro _ l
  have hl : (Standing.lists Standing.truth).Holds [] [true, false] l :=
    ⟨_, rfl, .cons rfl (.cons rfl .nil)⟩
  refine (higherOrder_performs (M := plain) (provides_alone plain) (.native (.builtin .not)) hl).1
    (fun b => pure !b) ?_
  rintro heap - b vs ⟨v, rfl, hv⟩
  exact not_does hv

end

end Machine

end Image

end Zscheme
