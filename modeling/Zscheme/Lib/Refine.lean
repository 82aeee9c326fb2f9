import Mathlib.Data.List.Forall2
import Zscheme.Lib.Lambda

/-!
# What programs of the language do

A program of `Lib.Lambda` with closures, fuel and a heap is compared with a *deed*: a
function on the world that returns or raises. What a value stands for is a relation that
is still there when the heap grows (`Rep`).

* `Interp.Refines`: computations that are given more and more fuel come to do what an
  effect does, in any heap that extends a given one; they only add to the heap. The rule
  that carries the others is `Refines.bind`.
* `Interp.Does`, `Interp.Means`: the same for a task, and for an expression under local
  variables with given values. There is one rule for each form of the language;
  `Means.loop` is for a named `let`, whose procedure does what its body does.
* `Interp.tail?`: an expression that only calls native procedures on the way, evaluated
  without heap and fuel, up to the call that it ends in.
-/

namespace Zscheme

namespace Lambda

variable {δ κ ν ε σ υ α β γ ζ : Type}

/-! ## Deeds -/

/-- What a program does to the world, and what comes of it. -/
abbrev Deed (ε σ : Type) := ExceptT ε (StateM σ)

namespace Deed

/-- How a deed ends. -/
def result (p : Deed ε σ α) (w : σ) : Except ε α × σ := p.run.run w

/-- A result is there at once. -/
@[simp] theorem result_pure (a : α) (w : σ) : (pure a : Deed ε σ α).result w = (.ok a, w) := rfl

/-- An error is there at once. -/
@[simp] theorem result_throw (e : ε) (w : σ) :
    (throw e : Deed ε σ α).result w = (.error e, w) := rfl

/-- What follows an error is not done. -/
@[simp] theorem throw_bind (e : ε) (f : α → Deed ε σ β) : (throw e : Deed ε σ α) >>= f = throw e :=
  rfl

/-- The second deed starts where the first ends. -/
theorem result_bind (p : Deed ε σ α) (f : α → Deed ε σ β) (w : σ) :
    (p >>= f).result w = match p.result w with
      | (.error e, w') => (.error e, w')
      | (.ok a, w') => (f a).result w' := by
  simp only [result, ExceptT.run_bind, StateT.run_bind]
  rcases p.run.run w with ⟨_ | _, _⟩ <;> rfl

end Deed

/-! ## Representations -/

/-- What stands for what in a heap, and still does when the heap grows. -/
structure Rep (υ α β : Type) where
  /-- In a heap, `b` stands for `a`. -/
  Holds : List υ → α → β → Prop
  /-- It still does in a heap that extends it. -/
  mono : ∀ {h h' a b}, h <+: h' → Holds h a b → Holds h' a b

namespace Rep

/-- A value that stands for another does so in a longer heap. -/
theorem Holds.mono {R : Rep υ α β} {h h' : List υ} {a : α} {b : β} (hab : R.Holds h a b)
    (hh : h <+: h') : R.Holds h' a b :=
  R.mono hh hab

/-- Everything stands for itself. -/
def self : Rep υ α α := ⟨fun _ a b => b = a, fun _ h => h⟩

/-- What stands for `a` is a function of `a`. -/
def of (f : α → β) : Rep υ α β := ⟨fun _ a b => b = f a, fun _ h => h⟩

/-- Just this one. -/
def is (b : β) : Rep υ Unit β := ⟨fun _ _ c => c = b, fun _ h => h⟩

/-- What stands for one thing. -/
def at' (R : Rep υ α β) (a : α) : Rep υ Unit β := ⟨fun h _ b => R.Holds h a b, R.mono⟩

/-- Lists, element by element. -/
def all (R : Rep υ α β) : Rep υ (List α) (List β) where
  Holds h := List.Forall₂ (R.Holds h)
  mono hh := List.Forall₂.imp fun _ _ => R.mono hh

/-- A list of one. -/
def one (R : Rep υ α β) : Rep υ α (List β) where
  Holds h a bs := ∃ b, bs = [b] ∧ R.Holds h a b
  mono := by
    rintro h h' a bs hh ⟨b, rfl, hb⟩
    exact ⟨b, rfl, R.mono hh hb⟩

/-- A list of two. -/
def two (R : Rep υ α β) (S : Rep υ γ β) : Rep υ (α × γ) (List β) where
  Holds h p bs := ∃ b b', bs = [b, b'] ∧ R.Holds h p.1 b ∧ S.Holds h p.2 b'
  mono := by
    rintro h h' p bs hh ⟨b, b', rfl, hb, hb'⟩
    exact ⟨b, b', rfl, R.mono hh hb, S.mono hh hb'⟩

/-- A list with what its first element and the others stand for. -/
def cons (R : Rep υ α β) (S : Rep υ γ (List β)) : Rep υ (α × γ) (List β) where
  Holds h p bs := ∃ b bs', bs = b :: bs' ∧ R.Holds h p.1 b ∧ S.Holds h p.2 bs'
  mono := by
    rintro h h' ⟨a, c⟩ bs hh ⟨b, bs', rfl, hb, hbs⟩
    exact ⟨b, bs', rfl, R.mono hh hb, S.mono hh hbs⟩

/-- What an outcome stands for: an error for itself. -/
inductive Outcome (R : Rep υ α β) (h : List υ) : Except ε α → Except ε β → Prop
  | ok {a : α} {b : β} : R.Holds h a b → R.Outcome h (.ok a) (.ok b)
  | error (e : ε) : R.Outcome h (.error e) (.error e)

end Rep

/-! ## Refinement -/

namespace Interp

variable (I : Interp δ κ ν ε σ) (G : String → Option (Val δ κ ν))

/-- In every heap that extends `h` and every world, the computations `F` end, with enough
    fuel, as the deed `p` does: in the world it ends in, with what it returns or raises.
    They add to the heap, and change nothing else. -/
def Refines (h : List (Val δ κ ν)) (F : Nat → I.Comp β) (R : Rep (Val δ κ ν) α β)
    (p : Deed ε σ α) : Prop :=
  ∀ heap, h <+: heap → ∀ w, ∃ N more r,
    (∀ n, N ≤ n → (F n).end? ⟨G, heap, w⟩ = some (r, ⟨G, heap ++ more, (p.result w).2⟩)) ∧
    R.Outcome (heap ++ more) (p.result w).1 r

variable {I G} {h h' : List (Val δ κ ν)}

namespace Refines

variable {F : Nat → I.Comp β} {R : Rep (Val δ κ ν) α β} {p : Deed ε σ α}

/-- What was shown for a heap is so for a longer one. -/
theorem mono (hF : I.Refines G h F R p) (hh : h <+: h') : I.Refines G h' F R p :=
  fun heap hheap w => hF heap (hh.trans hheap) w

/-- A result is refined by a value that stands for it. -/
theorem pure {a : α} {b : β} (hab : R.Holds h a b) :
    I.Refines G h (fun _ => Pure.pure b) R (Pure.pure a) := by
  intro heap hheap w
  refine ⟨0, [], .ok b, fun n _ => ?_, .ok ?_⟩
  · simp
  · exact R.mono (hheap.trans (List.prefix_append _ _)) hab

/-- An error is refined by itself. -/
theorem throw (e : ε) : I.Refines G h (fun _ => MonadExcept.throw e) R (MonadExcept.throw e) := by
  intro heap hheap w
  refine ⟨0, [], .error e, fun n _ => ?_, .error e⟩
  change some _ = _
  simp

/-- What follows is done in the heap that is there by then. -/
theorem bind {K : Nat → β → I.Comp ζ} {S : Rep (Val δ κ ν) γ ζ} {q : α → Deed ε σ γ}
    (hF : I.Refines G h F R p)
    (hK : ∀ heap, h <+: heap → ∀ a b, R.Holds heap a b → I.Refines G heap (K · b) S (q a)) :
    I.Refines G h (fun n => F n >>= K n) S (p >>= q) := by
  intro heap hheap w
  obtain ⟨N, more, r, hend, hout⟩ := hF heap hheap w
  rcases hp : p.result w with ⟨r', w'⟩
  rw [hp] at hend hout
  cases hout with
  | error e =>
    refine ⟨N, more, .error e, fun n hn => ?_, ?_⟩
    · simp only [Run.end?_bind, hend n hn, Deed.result_bind, hp]
    · simpa only [Deed.result_bind, hp] using .error e
  | @ok a b hab =>
    have hgrow : h <+: heap ++ more := hheap.trans (List.prefix_append _ _)
    obtain ⟨N', more', r', hend', hout'⟩ := hK _ hgrow a b hab _ (List.prefix_refl _) w'
    refine ⟨max N N', more ++ more', r', fun n hn => ?_, ?_⟩
    · rw [Run.end?_bind, hend n (by omega), ← List.append_assoc]
      simpa only [Deed.result_bind, hp] using hend' n (by omega)
    · simpa only [Deed.result_bind, hp, List.append_assoc] using hout'

/-- A result that is known, as one that stands for nothing else. -/
theorem fix {a : α} (hF : I.Refines G h F R (Pure.pure a)) :
    I.Refines G h F (R.at' a) (Pure.pure ()) := by
  intro heap hheap w
  obtain ⟨N, more, r, hend, hout⟩ := hF heap hheap w
  refine ⟨N, more, r, hend, ?_⟩
  cases hout with
  | ok hab => exact .ok hab

/-- What follows a result that is known. -/
theorem known {b : β} {K : Nat → β → I.Comp ζ} {S : Rep (Val δ κ ν) γ ζ} {q : Deed ε σ γ}
    (hF : I.Refines G h F (.is b) (Pure.pure ()))
    (hK : ∀ heap, h <+: heap → I.Refines G heap (K · b) S q) :
    I.Refines G h (fun n => F n >>= K n) S q := by
  have hbind := hF.bind (K := K) (S := S) (q := fun _ => q) fun heap hh _ b' hb' => by
    obtain rfl : b' = b := hb'
    exact hK heap hh
  simpa using hbind

/-- What follows an error is not done. -/
theorem stop {K : Nat → β → I.Comp ζ} {S : Rep (Val δ κ ν) γ ζ} {e : ε}
    (hF : I.Refines G h F R (MonadExcept.throw e)) :
    I.Refines G h (fun n => F n >>= K n) S (MonadExcept.throw e) := by
  intro heap hheap w
  obtain ⟨N, more, r, hend, hout⟩ := hF heap hheap w
  obtain ⟨rfl⟩ : r = .error e := by
    cases hout with
    | error => rfl
  simp only [Deed.result_throw] at hend ⊢
  exact ⟨N, more, .error e, fun n hn => by simp only [Run.end?_bind, hend n hn], .error e⟩

/-- Only an error is done by one. -/
theorem eq_throw {e : ε} {p : Deed ε σ α}
    (hp : I.Refines G h (fun _ => (MonadExcept.throw e : I.Comp β)) R p) :
    p = MonadExcept.throw e := by
  refine ExceptT.ext (StateT.ext fun w => ?_)
  obtain ⟨N, more, r, hend, hout⟩ := hp h (List.prefix_refl h) w
  have hr := hend N (Nat.le_refl N)
  simp only [Run.end?_throw, Option.some.injEq, Prod.mk.injEq, Store.mk.injEq] at hr
  obtain ⟨rfl, -, -, hw⟩ := hr
  rcases hp : p.result w with ⟨r', w'⟩
  rw [hp] at hout hw
  cases hout with
  | error => exact hp.trans (by rw [hw]; rfl)

/-- One turn of the evaluator more. -/
theorem step {F' : Nat → I.Comp β} (hF : I.Refines G h F' R p)
    (hstep : ∀ n s, (F (n + 1)).end? s = (F' n).end? s) : I.Refines G h F R p := by
  intro heap hheap w
  obtain ⟨N, more, r, hend, hout⟩ := hF heap hheap w
  refine ⟨N + 1, more, r, fun n hn => ?_, hout⟩
  obtain ⟨m, rfl⟩ : ∃ m, n = m + 1 := ⟨n - 1, by omega⟩
  rw [hstep]
  exact hend m (by omega)

/-- What comes of it stands for something else too. -/
theorem map {S : Rep (Val δ κ ν) γ β} {f : α → γ} (hF : I.Refines G h F R p)
    (hRS : ∀ heap, h <+: heap → ∀ a b, R.Holds heap a b → S.Holds heap (f a) b) :
    I.Refines G h F S (f <$> p) := by
  have hbind := hF.bind (K := fun _ b => Pure.pure b) (S := S) (q := fun a => Pure.pure (f a))
    fun heap hh a b hab => .pure (hRS heap hh a b hab)
  simpa using hbind

end Refines

/-! ## Tasks and expressions -/

variable (I G h)

/-- The task does what the deed does. -/
abbrev Does (t : Task δ κ ν) (R : Rep (Val δ κ ν) α (Val δ κ ν)) (p : Deed ε σ α) : Prop :=
  I.Refines G h (fun n => I.run n t) R p

/-- Local variables with their values. -/
abbrev Locals (δ κ ν : Type) := List (String × Val δ κ ν)

/-- In the heap, the environment gives the local variables these values. -/
def Binds (heap : List (Val δ κ ν)) (env : Env) (ρ : Locals δ κ ν) : Prop :=
  List.Forall₂ (fun p q => p.1 = q.1 ∧ heap[p.2]? = some q.2) env ρ

/-- Under local variables with these values, the expression does what the deed does. -/
def Means (ρ : Locals δ κ ν) (e : Expr δ) (R : Rep (Val δ κ ν) α (Val δ κ ν))
    (p : Deed ε σ α) : Prop :=
  ∀ heap, h <+: heap → ∀ env, Binds heap env ρ → I.Does G heap (.eval env e) R p

/-- The same for expressions one after the other. -/
def MeansAll (ρ : Locals δ κ ν) (es : List (Expr δ)) (S : Rep (Val δ κ ν) α (List (Val δ κ ν)))
    (p : Deed ε σ α) : Prop :=
  ∀ heap, h <+: heap → ∀ env, Binds heap env ρ →
    I.Refines G heap (fun n => es.mapM fun e => I.run n (.eval env e)) S p

/-- Under local variables with these values, the expression has a value. -/
abbrev Gives (ρ : Locals δ κ ν) (e : Expr δ) (v : Val δ κ ν) : Prop :=
  I.Means G h ρ e (.is v) (pure ())

/-- The same for expressions one after the other. -/
abbrev GivesAll (ρ : Locals δ κ ν) (es : List (Expr δ)) (vs : List (Val δ κ ν)) : Prop :=
  I.MeansAll G h ρ es (.is vs) (pure ())

/-- The procedure does what its body does, its parameters bound over the local variables
    around it. -/
def Unfolds (f : Val δ κ ν) (params : List String) (ρ : Locals δ κ ν) (body : Expr δ) : Prop :=
  ∀ heap, h <+: heap → ∀ vs : List (Val δ κ ν), vs.length = params.length →
    ∀ (α : Type) (R : Rep (Val δ κ ν) α (Val δ κ ν)) (p : Deed ε σ α),
      I.Means G heap (params.zip vs ++ ρ) body R p → I.Does G heap (.apply f vs) R p

variable {I G h}

/-! ### Environments -/

namespace Binds

variable {heap : List (Val δ κ ν)} {env : Env} {ρ : Locals δ κ ν}

theorem mono {heap' : List (Val δ κ ν)} (hb : Binds heap env ρ) (hh : heap <+: heap') :
    Binds heap' env ρ := by
  obtain ⟨more, rfl⟩ := hh
  refine List.Forall₂.imp (fun p q hpq => ⟨hpq.1, ?_⟩) hb
  rw [List.getElem?_append_left (List.getElem?_eq_some_iff.1 hpq.2).1, hpq.2]

/-- What a variable reads, locally or as a global. -/
theorem lookup (hb : Binds heap env ρ) (g : Option (Val δ κ ν)) (x : String) :
    ((env.lookup x).elim g fun l => heap[l]?) = (ρ.lookup x).elim g some := by
  induction hb with
  | nil => rfl
  | @cons p q env ρ hpq _ ih =>
    obtain ⟨y, l⟩ := p
    obtain ⟨_, v⟩ := q
    obtain ⟨rfl, hl⟩ := hpq
    rw [List.lookup_cons, List.lookup_cons]
    cases x == y with
    | true => exact hl
    | false => exact ih

/-- Fresh places for the variables that are bound. -/
theorem fresh {xs : List String} {vs : List (Val δ κ ν)} (hb : Binds heap env ρ)
    (hlen : vs.length = xs.length) :
    Binds (heap ++ vs) (xs.zipIdx heap.length ++ env) (xs.zip vs ++ ρ) := by
  refine List.rel_append ?_ (hb.mono (List.prefix_append _ _))
  refine List.forall₂_iff_get.2 ⟨by simp [hlen], fun i hi hi' => ?_⟩
  rw [List.length_zipIdx] at hi
  simp [hlen, hi]

end Binds

/-! ### Rules -/

section

variable {ρ : Locals δ κ ν} {R : Rep (Val δ κ ν) α (Val δ κ ν)}
  {S : Rep (Val δ κ ν) γ (Val δ κ ν)} {p : Deed ε σ α} {q : α → Deed ε σ γ}

/-- An expression means the same in a longer heap. -/
theorem Means.mono {e : Expr δ} (he : I.Means G h ρ e R p) (hh : h <+: h') :
    I.Means G h' ρ e R p :=
  fun heap hheap => he heap (hh.trans hheap)

/-- So do the arguments of a call. -/
theorem MeansAll.mono {es : List (Expr δ)} {T : Rep (Val δ κ ν) α (List (Val δ κ ν))}
    (hes : I.MeansAll G h ρ es T p) (hh : h <+: h') : I.MeansAll G h' ρ es T p :=
  fun heap hheap => hes heap (hh.trans hheap)

/-- A procedure unfolds the same in a longer heap. -/
theorem Unfolds.mono {f : Val δ κ ν} {params : List String} {body : Expr δ}
    (hf : I.Unfolds G h f params ρ body) (hh : h <+: h') : I.Unfolds G h' f params ρ body :=
  fun heap hheap => hf heap (hh.trans hheap)

/-- A closure unfolds to its body where it was made. -/
theorem unfolds_closure {params : List String} {body : Expr δ} {env : Env}
    (hb : Binds h env ρ) : I.Unfolds G h (.closure ⟨params, none, body, env⟩) params ρ body := by
  intro heap hheap vs hlen α R p hbody
  have hbind : ∀ n, I.run (n + 1) (.apply (.closure ⟨params, none, body, env⟩) vs) =
      I.bind params vs env >>= fun env => I.run n (.eval env body) := by
    intro n
    simp [arguments?, hlen, Closure.names]
  -- the fresh places extend the heap: what the body adds comes after them
  intro heap' hheap' w
  have hgrow : heap <+: heap' ++ vs := hheap'.trans (List.prefix_append _ _)
  have hfresh := (hb.mono (hheap.trans hheap')).fresh hlen
  obtain ⟨N, more, r, hend, hout⟩ := hbody _ hgrow _ hfresh _ (List.prefix_refl _) w
  refine ⟨N + 1, vs ++ more, r, fun n hn => ?_, by rwa [← List.append_assoc]⟩
  obtain ⟨m, rfl⟩ : ∃ m, n = m + 1 := ⟨n - 1, by omega⟩
  change (I.run (m + 1) _).end? _ = _
  rw [hbind, Run.end?_bind, end?_bind, ← List.append_assoc]
  exact hend m (by omega)

/-- A procedure that is defined at the top level. -/
theorem Does.procedure {params : List String} {body : Expr δ} {vs : List (Val δ κ ν)}
    (hlen : vs.length = params.length) (hbody : I.Means G h (params.zip vs) body R p) :
    I.Does G h (.apply (.closure ⟨params, none, body, []⟩) vs) R p :=
  unfolds_closure .nil h (List.prefix_refl h) vs hlen α R p (by simpa using hbody)

/-- A literal means what it quotes. -/
theorem Means.lit {d : δ} {a : α} (ha : R.Holds h a (I.quote d)) :
    I.Means G h ρ (.lit d) R (pure a) :=
  fun _ hheap _ _ => (Refines.pure (R.mono hheap ha)).step fun _ _ => rfl

/-- A variable means what it is bound to, or the global of its name. -/
theorem Means.var {x : String} {v : Val δ κ ν} {a : α} (hx : (ρ.lookup x).elim (G x) some = some v)
    (ha : R.Holds h a v) : I.Means G h ρ (.var x) R (pure a) := by
  intro heap hheap env hb heap' hheap' w
  refine ⟨1, [], .ok v, fun n hn => ?_, .ok (R.mono ?_ ha)⟩
  · obtain ⟨m, rfl⟩ : ∃ m, n = m + 1 := ⟨n - 1, by omega⟩
    have hread := ((hb.mono hheap').lookup (G x) x).trans hx
    simp only [run_var, read, Run.end?_of, hread]
    simp
  · simpa using hheap.trans hheap'

/-- A variable that is not bound. -/
theorem Means.unbound {x : String} (hx : (ρ.lookup x).elim (G x) some = none) :
    I.Means G h ρ (.var x) R (throw (I.unbound x)) := by
  intro heap hheap env hb heap' hheap' w
  refine ⟨1, [], .error (I.unbound x), fun n hn => ?_, .error _⟩
  obtain ⟨m, rfl⟩ : ∃ m, n = m + 1 := ⟨n - 1, by omega⟩
  have hread := ((hb.mono hheap').lookup (G x) x).trans hx
  simp [read, hread]

/-- An expression with a value does what returning the value does. -/
theorem Gives.means {e : Expr δ} {v : Val δ κ ν} (he : I.Gives G h ρ e v)
    (hv : I.Refines G h (fun _ => pure v) R p) : I.Means G h ρ e R p := by
  intro heap hheap env hb
  have hknown := (he heap hheap env hb).known (K := fun _ u => pure u) fun heap' hheap' =>
    hv.mono (hheap.trans hheap')
  simpa using hknown

/-- A value that is known may be named. -/
theorem Means.fix {e : Expr δ} {a : α} (he : I.Means G h ρ e R (pure a)) :
    I.Means G h ρ e (R.at' a) (pure ()) :=
  fun heap hheap env hb => (he heap hheap env hb).fix

/-- The branch that is taken depends on the value that the test has. -/
theorem Means.ite {c t e : Expr δ} (hc : I.Means G h ρ c R p)
    (hbranch : ∀ heap, h <+: heap → ∀ a v, R.Holds heap a v →
      I.Means G heap ρ (if I.truthy v then t else e) S (q a)) :
    I.Means G h ρ (.ite c t e) S (p >>= q) := by
  intro heap hheap env hb
  refine Refines.step (.bind (hc heap hheap env hb) fun heap' hheap' a v hav => ?_) fun _ _ => rfl
  have hmeans := hbranch heap' (hheap.trans hheap') a v hav heap' (List.prefix_refl _) env
    (hb.mono hheap')
  cases hv : I.truthy v with
  | true => simpa [hv] using hmeans
  | false => simpa [hv] using hmeans

/-- The second part is looked at only when the first is false. -/
theorem Means.or {a b : Expr δ} {T : Rep (Val δ κ ν) α (Val δ κ ν)} (ha : I.Means G h ρ a T p)
    (htrue : ∀ heap, h <+: heap → ∀ x v, T.Holds heap x v → I.truthy v = true →
      I.Refines G heap (fun _ => pure v) S (q x))
    (hfalse : ∀ heap, h <+: heap → ∀ x v, T.Holds heap x v → I.truthy v = false →
      I.Means G heap ρ b S (q x)) :
    I.Means G h ρ (.or a b) S (p >>= q) := by
  intro heap hheap env hb
  refine Refines.step (.bind (ha heap hheap env hb) fun heap' hheap' x v hxv => ?_) fun _ _ => rfl
  cases hv : I.truthy v with
  | true => simpa [hv] using htrue heap' (hheap.trans hheap') x v hxv hv
  | false =>
    have hmeans := hfalse heap' (hheap.trans hheap') x v hxv hv heap' (List.prefix_refl _) env
      (hb.mono hheap')
    simpa [hv] using hmeans

/-- The first part is done for its effects. -/
theorem Means.seq {a b : Expr δ} (ha : I.Means G h ρ a R p)
    (hb : ∀ heap, h <+: heap → ∀ x, I.Means G heap ρ b S (q x)) :
    I.Means G h ρ (.seq a b) S (p >>= q) := by
  intro heap hheap env hbinds
  refine Refines.step (.bind (ha heap hheap env hbinds) fun heap' hheap' x _ _ => ?_) fun _ _ => rfl
  exact hb heap' (hheap.trans hheap') x heap' (List.prefix_refl _) env (hbinds.mono hheap')

/-- No argument has no effect. -/
theorem MeansAll.nil {T : Rep (Val δ κ ν) α (List (Val δ κ ν))} {a : α} (ha : T.Holds h a []) :
    I.MeansAll G h ρ [] T (pure a) :=
  fun _ hheap _ _ => .pure (T.mono hheap ha)

/-- Arguments are evaluated from the left. -/
theorem MeansAll.cons {e : Expr δ} {es : List (Expr δ)} {T : Rep (Val δ κ ν) γ (List (Val δ κ ν))}
    {q : Deed ε σ γ} (he : I.Means G h ρ e R p) (hes : I.MeansAll G h ρ es T q) :
    I.MeansAll G h ρ (e :: es) (R.cons T) (do return (← p, ← q)) := by
  intro heap hheap env hb
  simp only [List.mapM_cons]
  refine .bind (he heap hheap env hb) fun heap' hheap' a v hav => ?_
  refine .bind (hes heap' (hheap.trans hheap') env (hb.mono hheap'))
    fun heap'' hheap'' c vs hvs => ?_
  exact .pure ⟨v, vs, rfl, R.mono hheap'' hav, hvs⟩

/-- Arguments that give values do so one by one. -/
theorem GivesAll.cons {e : Expr δ} {es : List (Expr δ)} {v : Val δ κ ν} {vs : List (Val δ κ ν)}
    (he : I.Gives G h ρ e v) (hes : I.GivesAll G h ρ es vs) :
    I.GivesAll G h ρ (e :: es) (v :: vs) := by
  intro heap hheap env hb
  simp only [List.mapM_cons]
  refine (he heap hheap env hb).known fun heap' hheap' => ?_
  refine (hes heap' (hheap.trans hheap') env (hb.mono hheap')).known fun _ _ => .pure rfl

variable (I G) in
/-- The procedures that do what a function does. -/
def functions (T : Rep (Val δ κ ν) α (List (Val δ κ ν))) (S : Rep (Val δ κ ν) γ (Val δ κ ν)) :
    Rep (Val δ κ ν) (α → Deed ε σ γ) (Val δ κ ν) where
  Holds h q f := ∀ heap, h <+: heap → ∀ a vs, T.Holds heap a vs →
    I.Does G heap (.apply f vs) S (q a)
  mono hh hf heap hheap := hf heap (hh.trans hheap)

variable (I G) in
/-- The procedures that do what a body does. -/
def closures (params : List String) (ρ : Locals δ κ ν) (body : Expr δ) :
    Rep (Val δ κ ν) Unit (Val δ κ ν) :=
  ⟨fun heap _ f => I.Unfolds G heap f params ρ body, fun hh hf => hf.mono hh⟩

variable (I G) in
/-- The procedures that do what a body does in which they have a name. -/
def loops (name : String) (params : List String) (ρ : Locals δ κ ν) (body : Expr δ) :
    Rep (Val δ κ ν) Unit (Val δ κ ν) :=
  ⟨fun heap _ f => I.Unfolds G heap f params ((name, f) :: ρ) body, fun hh hf => hf.mono hh⟩

/-- A procedure is a closure over where it is made. -/
theorem Means.lambda (params : List String) (body : Expr δ) :
    I.Means G h ρ (.lambda params none body) (I.closures G params ρ body) (pure ()) := by
  intro heap _ env hb
  exact (Refines.pure (unfolds_closure hb)).step fun _ _ => rfl

/-- The procedure of a named `let`. -/
theorem Means.letrec (name : String) (params : List String) (body : Expr δ) :
    I.Means G h ρ (.letrec [name] [.lambda params none body] (.var name))
      (I.loops G name params ρ body) (pure ()) := by
  intro heap _ env hb heap' hheap' w
  -- the closure, in the place that is made for it
  let f : Val δ κ ν := .closure ⟨params, none, body, (name, heap'.length) :: env⟩
  refine ⟨2, [f], .ok f, fun n hn => ?_, .ok (unfolds_closure ?_)⟩
  · obtain ⟨m, rfl⟩ : ∃ m, n = m + 2 := ⟨n - 2, by omega⟩
    simp [f, Run.end?_bind, assign, read]
  · exact .cons ⟨rfl, by simp [f]⟩ ((hb.mono hheap').mono (List.prefix_append _ _))

/-- A call evaluates the procedure, then the arguments, and applies the one to the others. -/
theorem Means.app {f : Expr δ} {es : List (Expr δ)} {T : Rep (Val δ κ ν) β (List (Val δ κ ν))}
    {o : Deed ε σ α} {p : Deed ε σ β} {q : α → β → Deed ε σ γ} (hf : I.Means G h ρ f R o)
    (hes : I.MeansAll G h ρ es T p)
    (hcall : ∀ heap, h <+: heap → ∀ a f b vs, R.Holds heap a f → T.Holds heap b vs →
      I.Does G heap (.apply f vs) S (q a b)) :
    I.Means G h ρ (.app f es) S (o >>= fun a => p >>= fun b => q a b) := by
  intro heap hheap env hb
  refine Refines.step (.bind (hf heap hheap env hb) fun heap' hheap' a f haf => ?_) fun _ _ => rfl
  have hall := hes heap' (hheap.trans hheap') env (hb.mono hheap')
  refine hall.bind fun heap'' hheap'' b vs hbvs => ?_
  exact hcall heap'' (hheap.trans (hheap'.trans hheap'')) a f b vs (R.mono hheap'' haf) hbvs

/-- The call of a procedure that is known, with arguments that are. -/
theorem Means.call {f : Expr δ} {es : List (Expr δ)} {u : Val δ κ ν} {vs : List (Val δ κ ν)}
    (hf : I.Gives G h ρ f u) (hes : I.GivesAll G h ρ es vs)
    (hcall : I.Does G h (.apply u vs) R p) : I.Means G h ρ (.app f es) R p := by
  intro heap hheap env hb
  refine Refines.step ?_ fun _ _ => rfl
  refine (hf heap hheap env hb).known fun heap' hheap' => ?_
  refine (hes heap' (hheap.trans hheap') env (hb.mono hheap')).known fun heap'' hheap'' => ?_
  exact hcall.mono (hheap.trans (hheap'.trans hheap''))

/-- The call of a procedure that is known, with one argument. -/
theorem Means.app₁ {f e : Expr δ} {fv : Val δ κ ν} (hf : I.Gives G h ρ f fv)
    (he : I.Means G h ρ e R p)
    (hcall : ∀ heap, h <+: heap → ∀ a v, R.Holds heap a v →
      I.Does G heap (.apply fv [v]) S (q a)) : I.Means G h ρ (.app f [e]) S (p >>= q) := by
  have happ := hf.app (MeansAll.cons he (.nil (T := .is []) (a := ()) rfl)) (S := S)
    (q := fun _ b => q b.1) fun heap hh _ f' b vs hf' hvs => by
      obtain rfl : f' = fv := hf'
      obtain ⟨v, _, rfl, hv, rfl⟩ := hvs
      exact hcall heap hh b.1 v hv
  simpa using happ

/-- The call of a procedure that is known, with two arguments. -/
theorem Means.app₂ {f e e' : Expr δ} {fv : Val δ κ ν} {R' : Rep (Val δ κ ν) β (Val δ κ ν)}
    {p' : Deed ε σ β} {q : α → β → Deed ε σ γ} (hf : I.Gives G h ρ f fv)
    (he : I.Means G h ρ e R p) (he' : I.Means G h ρ e' R' p')
    (hcall : ∀ heap, h <+: heap → ∀ a v b u, R.Holds heap a v → R'.Holds heap b u →
      I.Does G heap (.apply fv [v, u]) S (q a b)) :
    I.Means G h ρ (.app f [e, e']) S (p >>= fun a => p' >>= fun b => q a b) := by
  have hall : I.MeansAll G h ρ [e'] (R'.cons (.is [])) (do return (← p', ← pure ())) :=
    MeansAll.cons he' (.nil rfl)
  have happ := hf.app (MeansAll.cons he hall) (S := S) (q := fun _ b => q b.1 b.2.1)
    fun heap hh _ f' b vs hf' hvs => by
      obtain rfl : f' = fv := hf'
      obtain ⟨v, _, rfl, hv, u, _, rfl, hu, rfl⟩ := hvs
      exact hcall heap hh b.1 v b.2.1 u hv hu
  simpa using happ

/-- A branch on a condition whose value is known. -/
theorem Means.branch {c t e : Expr δ} {v : Val δ κ ν} (hc : I.Gives G h ρ c v)
    (hbranch : I.Means G h ρ (if I.truthy v then t else e) R p) :
    I.Means G h ρ (.ite c t e) R p := by
  intro heap hheap env hb
  refine Refines.step ?_ fun _ _ => rfl
  refine (hc heap hheap env hb).known fun heap' hheap' => ?_
  have hmeans := hbranch heap' (hheap.trans hheap') env (hb.mono hheap')
  cases hv : I.truthy v with
  | true => simpa [hv] using hmeans
  | false => simpa [hv] using hmeans

/-- A branch on a condition that raises. -/
theorem Means.ite_throw {c t e : Expr δ} {er : ε} (hc : I.Means G h ρ c R (throw er)) :
    I.Means G h ρ (.ite c t e) S (throw er) := by
  intro heap hheap env hb
  exact Refines.step (hc heap hheap env hb).stop fun _ _ => rfl

/-- `let` of one variable, with a value that raises. -/
theorem Means.let_throw {x : String} {body e : Expr δ} {er : ε}
    (he : I.Means G h ρ e R (throw er)) :
    I.Means G h ρ (.app (.lambda [x] none body) [e]) S (throw er) := by
  intro heap hheap env hb
  have hlambda := Means.lambda (I := I) (G := G) (ρ := ρ) (h := h) [x] body heap hheap env hb
  refine Refines.step (hlambda.bind (q := fun _ => throw er) fun heap' hh _ f _ => ?_)
    fun _ _ => rfl
  simp only [List.mapM_cons, bind_assoc]
  exact (he heap' (hheap.trans hh) env (hb.mono hh)).stop

/-- `let` -/
theorem MeansAll.let' (params : List String) (body : Expr δ) {es : List (Expr δ)}
    {T : Rep (Val δ κ ν) α (List (Val δ κ ν))} (hes : I.MeansAll G h ρ es T p)
    (hbody : ∀ heap, h <+: heap → ∀ a vs, T.Holds heap a vs →
      vs.length = params.length ∧ I.Means G heap (params.zip vs ++ ρ) body S (q a)) :
    I.Means G h ρ (.app (.lambda params none body) es) S (p >>= q) := by
  have happ := (Means.lambda (h := h) (ρ := ρ) (I := I) (G := G) params body).app hes (S := S)
    (q := fun _ => q) fun heap hh _ f a vs hf ha =>
      hf heap (List.prefix_refl _) vs (hbody heap hh a vs ha).1 _ _ _ (hbody heap hh a vs ha).2
  simpa using happ

/-- A named `let`. -/
theorem Means.loop {name : String} {params : List String} {body : Expr δ} {es : List (Expr δ)}
    {T : Rep (Val δ κ ν) α (List (Val δ κ ν))} (hes : I.MeansAll G h ρ es T p)
    (hloop : ∀ heap, h <+: heap → ∀ f, I.Unfolds G heap f params ((name, f) :: ρ) body →
      ∀ a vs, T.Holds heap a vs → I.Does G heap (.apply f vs) S (q a)) :
    I.Means G h ρ (.app (.letrec [name] [.lambda params none body] (.var name)) es) S
      (p >>= q) := by
  have happ := (Means.letrec (h := h) (ρ := ρ) (I := I) (G := G) name params body).app hes (S := S)
    (q := fun _ => q) fun heap hh _ f a vs hf ha => hloop heap hh f hf a vs ha
  simpa using happ

/-- `let` of values that are known. -/
theorem GivesAll.let' {params : List String} {body : Expr δ} {es : List (Expr δ)}
    {vs : List (Val δ κ ν)} (hes : I.GivesAll G h ρ es vs) (hlen : vs.length = params.length)
    (hbody : I.Means G h (params.zip vs ++ ρ) body R p) :
    I.Means G h ρ (.app (.lambda params none body) es) R p := by
  have hlet := MeansAll.let' params body (S := R) (q := fun _ => p) hes fun heap hh _ vs' hvs' => by
    obtain rfl : vs' = vs := hvs'
    exact ⟨hlen, hbody.mono hh⟩
  simpa using hlet

/-- A named `let` that starts with values that are known. -/
theorem GivesAll.loop {name : String} {params : List String} {body : Expr δ} {es : List (Expr δ)}
    {vs : List (Val δ κ ν)} (hes : I.GivesAll G h ρ es vs)
    (hloop : ∀ heap, h <+: heap → ∀ f, I.Unfolds G heap f params ((name, f) :: ρ) body →
      I.Does G heap (.apply f vs) R p) :
    I.Means G h ρ (.app (.letrec [name] [.lambda params none body] (.var name)) es) R p := by
  have hrun := Means.loop (S := R) (q := fun _ => p) hes fun heap hh f hf _ vs' hvs' => by
    obtain rfl : vs' = vs := hvs'
    exact hloop heap hh f hf
  simpa using hrun

end

/-! ## Native procedures on the way -/

/-- A result that may be unknown. -/
abbrev Part (ε : Type) := ExceptT ε Option

namespace Part

/-- Nothing is known. -/
def unknown : Part ε α := ExceptT.mk none

/-- The result is known. -/
def Is (x : Part ε α) (r : Except ε α) : Prop := x.run = some r

/-- A result is what it is. -/
@[simp] theorem is_pure {a : α} {r : Except ε α} : (pure a : Part ε α).Is r ↔ r = .ok a := by
  change some _ = some _ ↔ _
  rw [Option.some_inj, eq_comm]

/-- An error is what it is. -/
@[simp] theorem is_throw {e : ε} {r : Except ε α} : (throw e : Part ε α).Is r ↔ r = .error e := by
  change some _ = some _ ↔ _
  rw [Option.some_inj, eq_comm]

/-- Nothing can be told of what is unknown. -/
@[simp] theorem not_is_unknown {r : Except ε α} : ¬(unknown : Part ε α).Is r := by
  change ¬none = some _
  simp

@[simp] theorem throw_bind {e : ε} {f : α → Part ε β} :
    (throw e : Part ε α) >>= f = throw e := rfl

/-- A known end of two parts is the error of the first, or the end of the second. -/
theorem is_bind {x : Part ε α} {f : α → Part ε β} {r : Except ε β} :
    (x >>= f).Is r ↔ (∃ e, x.Is (.error e) ∧ r = .error e) ∨ ∃ a, x.Is (.ok a) ∧ (f a).Is r := by
  simp only [Is, ExceptT.run_bind]
  rcases x.run with _ | _ | _
  · simp
  · simp [pure, eq_comm]
  · simp

end Part

/-- What some native procedures return or raise, whatever the world. -/
structure Prims (I : Interp δ κ ν ε σ) where
  /-- What the procedure returns or raises, if it is one of them. -/
  result : ν → List (Val δ κ ν) → Option (Except ε (Val δ κ ν))
  /-- It does. -/
  sound : ∀ {f vs r}, result f vs = some r → ∀ w, I.call (.native f) vs w = (r.map .done, w)

namespace Prims

variable (P : I.Prims) (G : String → Option (Val δ κ ν))

/-- The value of an expression that ends in no call. -/
def value : Step δ κ ν → Part ε (Val δ κ ν)
  | .done v => pure v
  | _ => Part.unknown

/-- The call of a value: done, if it is that of one of the native procedures. -/
def call (f : Val δ κ ν) (vs : List (Val δ κ ν)) : Part ε (Step δ κ ν) :=
  match f with
  | .native g =>
    match P.result g vs with
    | some (.ok v) => pure (.done v)
    | some (.error e) => throw e
    | none => pure (.apply f vs)
  | _ => pure (.apply f vs)

mutual

/-- How an expression ends that calls only these native procedures on the way: with a
    value, or in a call. -/
def tail (ρ : Locals δ κ ν) : Expr δ → Part ε (Step δ κ ν)
  | .lit d => pure (.done (I.quote d))
  | .var x =>
    match (ρ.lookup x).elim (G x) some with
    | some v => pure (.done v)
    | none => throw (I.unbound x)
  | .app f es => do
    let f ← value (← tail ρ f)
    let vs ← values ρ es
    P.call f vs
  | .ite c t e => do
    let v ← value (← tail ρ c)
    if I.truthy v then tail ρ t else tail ρ e
  | .or a b => do
    let v ← value (← tail ρ a)
    if I.truthy v then pure (.done v) else tail ρ b
  | _ => Part.unknown

/-- The values of such expressions, one after the other. -/
def values (ρ : Locals δ κ ν) : List (Expr δ) → Part ε (List (Val δ κ ν))
  | [] => pure []
  | e :: es => do
    let v ← value (← tail ρ e)
    let vs ← values ρ es
    pure (v :: vs)

end

/-! ### Soundness -/

variable {P G} {h : List (Val δ κ ν)} {ρ : Locals δ κ ν} {R : Rep (Val δ κ ν) α (Val δ κ ν)}
  {p : Deed ε σ α}

/-- Only a step that is done has a value. -/
@[simp] theorem value_is {s : Step δ κ ν} {r : Except ε (Val δ κ ν)} :
    (value s : Part ε (Val δ κ ν)).Is r ↔ ∃ v, s = .done v ∧ r = .ok v := by
  cases s <;> simp [value]

/-- What is left to do at such an end. -/
def rest (I : Interp δ κ ν ε σ) (r : Except ε (Step δ κ ν)) (n : Nat) : I.Comp (Val δ κ ν) :=
  match r with
  | .ok s => I.follow (I.run n) s
  | .error e => throw e

/-- Nothing is left of a step that is done. -/
theorem rest_done {v : Val δ κ ν} {a : α} (ha : R.Holds h a v) :
    I.Refines G h (rest I (.ok (.done v))) R (pure a) :=
  .pure ha

/-- Nothing is left after an error. -/
theorem rest_error (e : ε) : I.Refines G h (rest I (.error e)) R (throw e) := .throw e

/-- A primitive does what its call gives, and then what is left of it. -/
theorem call_does {f : Val δ κ ν} {vs : List (Val δ κ ν)} {r : Except ε (Step δ κ ν)}
    (hr : (P.call f vs).Is r) (hrest : I.Refines G h (rest I r) R p) :
    I.Does G h (.apply f vs) R p := by
  have hself : (pure (.apply f vs) : Part ε (Step δ κ ν)).Is r → I.Does G h (.apply f vs) R p := by
    intro hr
    obtain rfl := Part.is_pure.1 hr
    exact hrest
  cases f with
  | node | closure => exact hself hr
  | native g =>
    simp only [call] at hr
    rcases hg : P.result g vs with _ | e | v <;> simp only [hg] at hr
    · exact hself hr
    · obtain rfl := Part.is_throw.1 hr
      refine hrest.step fun n s => ?_
      simp [rest, Run.end?_bind, P.sound hg, Except.map]
    · obtain rfl := Part.is_pure.1 hr
      refine hrest.step fun n s => ?_
      simp [rest, Run.end?_bind, P.sound hg, Except.map]

/-- An `or` whose first value is known. -/
theorem Means.either {a b : Expr δ} {v : Val δ κ ν} (ha : I.Gives G h ρ a v)
    (htrue : I.truthy v = true → I.Refines G h (fun _ => pure v) R p)
    (hfalse : I.truthy v = false → I.Means G h ρ b R p) : I.Means G h ρ (.or a b) R p := by
  have hor := ha.or (S := R) (q := fun _ => p)
    (fun heap hh _ v' hv' ht => by
      obtain rfl : v' = v := hv'
      exact (htrue ht).mono hh)
    fun heap hh _ v' hv' hf => by
      obtain rfl : v' = v := hv'
      exact (hfalse hf).mono hh
  simpa using hor

mutual

/-- What an expression does is what is left to do at its end. -/
theorem means_of_tail : ∀ {e : Expr δ} {r : Except ε (Step δ κ ν)}, (P.tail G ρ e).Is r →
    ∀ {α : Type} {R : Rep (Val δ κ ν) α (Val δ κ ν)} {p : Deed ε σ α},
      I.Refines G h (rest I r) R p → I.Means G h ρ e R p
  | .lit d, r, hr, _, _, _, hrest => by
    simp only [tail, Part.is_pure] at hr
    subst hr
    exact fun heap hheap env hb => (hrest.mono hheap).step fun _ _ => rfl
  | .var x, r, hr, _, _, _, hrest => by
    simp only [tail] at hr
    rcases hx : (ρ.lookup x).elim (G x) some with _ | v <;> simp only [hx] at hr
    · obtain rfl := Part.is_throw.1 hr
      exact hrest.eq_throw ▸ .unbound hx
    · obtain rfl := Part.is_pure.1 hr
      exact Gives.means (.var hx rfl) hrest
  | .app f es, r, hr, _, _, _, hrest => by
    simp only [tail, Part.is_bind, value_is] at hr
    rcases hr with ⟨e, hf, rfl⟩ | ⟨s, hf, ⟨e, ⟨v, _, he⟩, _⟩ | ⟨f', ⟨v, rfl, hv⟩, hr⟩⟩
    · rw [hrest.eq_throw]
      intro heap hheap env hb
      have hstop := means_of_tail (R := .self) hf (.throw e) heap hheap env hb
      exact hstop.stop.step fun _ _ => rfl
    · cases he
    · obtain rfl := Except.ok.inj hv
      have hgives : I.Gives G h ρ f f' := means_of_tail hf (rest_done rfl)
      rcases hr with ⟨e, hes, rfl⟩ | ⟨vs, hes, hr⟩
      · rw [hrest.eq_throw]
        intro heap hheap env hb
        refine Refines.step ?_ fun _ _ => rfl
        exact (hgives heap hheap env hb).known fun heap' hheap' =>
          (meansAll_of_error (T := .self) hes heap' (hheap.trans hheap') env (hb.mono hheap')).stop
      · exact hgives.call (meansAll_of_values hes) (call_does hr hrest)
  | .ite c t e, r, hr, _, _, _, hrest => by
    simp only [tail, Part.is_bind, value_is] at hr
    rcases hr with ⟨e, hc, rfl⟩ | ⟨s, hc, ⟨e, ⟨v, _, he⟩, _⟩ | ⟨v', ⟨v, rfl, hv⟩, hr⟩⟩
    · rw [hrest.eq_throw]
      intro heap hheap env hb
      have hstop := means_of_tail (R := .self) hc (.throw e) heap hheap env hb
      exact hstop.stop.step fun _ _ => rfl
    · cases he
    · obtain rfl := Except.ok.inj hv
      refine Means.branch (means_of_tail hc (rest_done rfl)) ?_
      cases hv' : I.truthy v' with
      | true => exact means_of_tail (by simpa [hv'] using hr) hrest
      | false => exact means_of_tail (by simpa [hv'] using hr) hrest
  | .or a b, r, hr, _, _, _, hrest => by
    simp only [tail, Part.is_bind, value_is] at hr
    rcases hr with ⟨e, ha, rfl⟩ | ⟨s, ha, ⟨e, ⟨v, _, he⟩, _⟩ | ⟨v', ⟨v, rfl, hv⟩, hr⟩⟩
    · rw [hrest.eq_throw]
      intro heap hheap env hb
      have hstop := means_of_tail (R := .self) ha (.throw e) heap hheap env hb
      exact hstop.stop.step fun _ _ => rfl
    · cases he
    · obtain rfl := Except.ok.inj hv
      refine Means.either (means_of_tail ha (rest_done rfl)) (fun hv' => ?_) fun hv' => ?_
      · obtain rfl := Part.is_pure.1 (by simpa [hv'] using hr)
        exact hrest
      · exact means_of_tail (by simpa [hv'] using hr) hrest

/-- Arguments whose values are known give these. -/
theorem meansAll_of_values : ∀ {es : List (Expr δ)} {vs : List (Val δ κ ν)},
    (P.values G ρ es).Is (.ok vs) → I.GivesAll G h ρ es vs
  | [], vs, hr => by
    obtain rfl := Except.ok.inj (Part.is_pure.1 hr)
    exact .nil rfl
  | e :: es, vs, hr => by
    simp only [values, Part.is_bind, value_is] at hr
    rcases hr with ⟨_, _, hr⟩ | ⟨s, he, ⟨_, _, hr⟩ | ⟨v', ⟨v, rfl, hv⟩, hr⟩⟩
    · cases hr
    · cases hr
    · obtain rfl := Except.ok.inj hv
      rcases hr with ⟨_, _, hr⟩ | ⟨vs', hes, hr⟩
      · cases hr
      · obtain rfl := Except.ok.inj (Part.is_pure.1 hr)
        exact .cons (means_of_tail he (rest_done rfl)) (meansAll_of_values hes)

/-- Arguments of which one is known to raise do so. -/
theorem meansAll_of_error : ∀ {es : List (Expr δ)} {e : ε},
    (P.values G ρ es).Is (.error e) →
    ∀ {α : Type} {T : Rep (Val δ κ ν) α (List (Val δ κ ν))}, I.MeansAll G h ρ es T (throw e)
  | [], e, hr, _, _ => by
    cases Part.is_pure.1 hr
  | e :: es, er, hr, _, _ => by
    simp only [values, Part.is_bind, value_is] at hr
    intro heap hheap env hb
    simp only [List.mapM_cons]
    rcases hr with ⟨e', he, hr⟩ | ⟨s, he, ⟨_, ⟨_, _, hr⟩, _⟩ | ⟨v', ⟨v, rfl, hv⟩, hr⟩⟩
    · obtain rfl := Except.error.inj hr
      exact (means_of_tail (R := .self) he (.throw _) heap hheap env hb).stop
    · cases hr
    · obtain rfl := Except.ok.inj hv
      rcases hr with ⟨e', hes, hr⟩ | ⟨vs', _, hr⟩
      · obtain rfl := Except.error.inj hr
        have hgives : I.Gives G h ρ e v' := means_of_tail he (rest_done rfl)
        exact (hgives heap hheap env hb).known fun heap' hheap' =>
          (meansAll_of_error (T := .self) hes heap' (hheap.trans hheap') env (hb.mono hheap')).stop
      · cases Part.is_pure.1 hr

end

/-- An expression whose value is known. -/
theorem gives {e : Expr δ} {v : Val δ κ ν} (he : (P.tail G ρ e).Is (.ok (.done v))) :
    I.Gives G h ρ e v :=
  means_of_tail he (rest_done rfl)

/-- Expressions whose values are known. -/
theorem givesAll {es : List (Expr δ)} {vs : List (Val δ κ ν)}
    (hes : (P.values G ρ es).Is (.ok vs)) : I.GivesAll G h ρ es vs :=
  meansAll_of_values hes

/-- The same for what its value stands for. -/
theorem returns {e : Expr δ} {v : Val δ κ ν} {a : α} (he : (P.tail G ρ e).Is (.ok (.done v)))
    (ha : R.Holds h a v) : I.Means G h ρ e R (pure a) :=
  means_of_tail he (rest_done ha)

/-- An expression that ends in a call that is known. -/
theorem goes {e : Expr δ} {f : Val δ κ ν} {vs : List (Val δ κ ν)}
    (he : (P.tail G ρ e).Is (.ok (.apply f vs))) (hf : I.Does G h (.apply f vs) R p) :
    I.Means G h ρ e R p :=
  means_of_tail he hf

/-- An expression that raises an error that is known. -/
theorem raises {e : Expr δ} {er : ε} (he : (P.tail G ρ e).Is (.error er)) :
    I.Means G h ρ e R (throw er) :=
  means_of_tail he (rest_error er)

end Prims

end Interp

end Lambda

end Zscheme
