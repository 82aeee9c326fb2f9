import Zscheme.Lib.Refine

/-!
# Programs that do not end

A task *outlasts* an amount of fuel if it is not done with it, in any heap that extends a
given one. A program that outlasts every fuel never ends; that a loop does is an induction
on the fuel, of which every turn takes some. There is one rule for each form that is left
only through what it ends in; on the way there, `Interp.Gives` says what the values are.
-/

namespace Zscheme

namespace Lambda

namespace Interp

variable {δ κ ν ε σ β ζ : Type} (I : Interp δ κ ν ε σ) (G : String → Option (Val δ κ ν))
  (h : List (Val δ κ ν))

/-- The task is not done with this fuel. -/
def Outlasts (n : Nat) (t : Task δ κ ν) : Prop :=
  ∀ heap, h <+: heap → ∀ w, (I.run n t).end? ⟨G, heap, w⟩ = none

/-- The expression is not, under local variables with these values. -/
def Lasts (ρ : Locals δ κ ν) (e : Expr δ) (n : Nat) : Prop :=
  ∀ heap, h <+: heap → ∀ env, Binds heap env ρ → I.Outlasts G heap n (.eval env e)

/-- The procedure is not done before its body is. -/
def Sinks (f : Val δ κ ν) (params : List String) (ρ : Locals δ κ ν) (body : Expr δ) : Prop :=
  ∀ heap, h <+: heap → ∀ vs : List (Val δ κ ν), vs.length = params.length →
    ∀ n, I.Lasts G heap (params.zip vs ++ ρ) body n → I.Outlasts G heap (n + 1) (.apply f vs)

variable {I G h} {ρ : Locals δ κ ν} {n : Nat}

theorem outlasts_zero (t : Task δ κ ν) : I.Outlasts G h 0 t := fun _ _ _ => rfl

theorem Outlasts.mono {h' : List (Val δ κ ν)} {t : Task δ κ ν} (ht : I.Outlasts G h n t)
    (hh : h <+: h') : I.Outlasts G h' n t :=
  fun heap hheap => ht heap (hh.trans hheap)

/-- What is not done with some fuel is not with less. -/
theorem Outlasts.of_le {m : Nat} {t : Task δ κ ν} (ht : I.Outlasts G h n t) (hle : m ≤ n) :
    I.Outlasts G h m t := by
  intro heap hheap w
  rcases I.run_approx t hle ⟨G, heap, w⟩ with hout | heq
  · exact hout
  · exact heq.trans (ht heap hheap w)

/-- A task that outlasts every fuel does not end. -/
theorem not_ends {t : Task δ κ ν} (ht : ∀ n, I.Outlasts G h n t) {heap : List (Val δ κ ν)}
    (hheap : h <+: heap) (w : σ) (r : Except ε (Val δ κ ν)) : ¬I.Ends t ⟨G, heap, w⟩ r := by
  rintro ⟨n, s, hend⟩
  rw [ht n heap hheap w] at hend
  cases hend

/-- With too little fuel for a value that is known, there is no result yet. -/
theorem Refines.done_or_out {F : Nat → I.Comp β} {b : β}
    (hF : I.Refines G h F (.is b) (Pure.pure ())) (hmono : ∀ {n m}, n ≤ m → (F n).Approx (F m))
    {heap : List (Val δ κ ν)} (hheap : h <+: heap)
    (n : Nat) (w : σ) :
    (F n).end? ⟨G, heap, w⟩ = none ∨
      ∃ more, (F n).end? ⟨G, heap, w⟩ = some (.ok b, ⟨G, heap ++ more, w⟩) := by
  obtain ⟨N, more, r, hend, hout⟩ := hF heap hheap w
  obtain rfl : r = .ok b := by
    cases hout with
    | ok hb => exact congrArg _ hb
  refine (hmono (Nat.le_max_left n N) ⟨G, heap, w⟩).imp_right fun heq => ⟨more, ?_⟩
  rw [heq, hend _ (Nat.le_max_right n N), Deed.result_pure]

/-- What follows a value that is known and is not done. -/
theorem Refines.bind_out {F : Nat → I.Comp β} {b : β} (hF : I.Refines G h F (.is b) (Pure.pure ()))
    (hmono : ∀ {n m}, n ≤ m → (F n).Approx (F m)) {K : β → I.Comp ζ}
    (hK : ∀ heap, h <+: heap → ∀ w, (K b).end? ⟨G, heap, w⟩ = none) {heap : List (Val δ κ ν)}
    (hheap : h <+: heap) (w : σ) : (F n >>= K).end? ⟨G, heap, w⟩ = none := by
  rw [Run.end?_bind]
  rcases hF.done_or_out hmono hheap n w with hout | ⟨more, hdone⟩
  · rw [hout]
  · rw [hdone]
    exact hK _ (hheap.trans (List.prefix_append _ _)) w

theorem args_approx (env : Env) (es : List (Expr δ)) {n m : Nat} (hnm : n ≤ m) :
    (es.mapM fun e => I.run n (.eval env e)).Approx (es.mapM fun e => I.run m (.eval env e)) :=
  .mapM (fun _ => I.run_approx _ hnm) es

/-! ## Rules -/

theorem sinks_closure {params : List String} {body : Expr δ} {env : Env} (hb : Binds h env ρ) :
    I.Sinks G h (.closure ⟨params, none, body, env⟩) params ρ body := by
  intro heap hheap vs hlen n hbody heap' hheap' w
  have hfresh := (hb.mono (hheap.trans hheap')).fresh hlen
  have hbound := hbody _ (hheap'.trans (List.prefix_append _ _)) _ hfresh _ (List.prefix_refl _) w
  simpa [arguments?, hlen, Closure.names, Run.end?_bind] using hbound

/-- A call. -/
theorem Lasts.call {f : Expr δ} {es : List (Expr δ)} {u : Val δ κ ν} {vs : List (Val δ κ ν)}
    (hf : I.Gives G h ρ f u) (hes : I.GivesAll G h ρ es vs)
    (hcall : I.Outlasts G h n (.apply u vs)) : I.Lasts G h ρ (.app f es) (n + 1) := by
  intro heap hheap env hb heap' hheap' w
  rw [run_app]
  refine (hf heap hheap env hb).bind_out (I.run_approx _) (fun heap₁ hh₁ w₁ => ?_) hheap' w
  refine (hes heap₁ (hheap.trans hh₁) env (hb.mono hh₁)).bind_out (args_approx env es)
    (fun heap₂ hh₂ w₂ => ?_) (List.prefix_refl _) w₁
  exact hcall heap₂ (hheap.trans (hh₁.trans hh₂)) w₂

/-- A branch on a condition whose value is known. -/
theorem Lasts.branch {c t e : Expr δ} {v : Val δ κ ν} (hc : I.Gives G h ρ c v)
    (hbranch : I.Lasts G h ρ (if I.truthy v then t else e) n) :
    I.Lasts G h ρ (.ite c t e) (n + 1) := by
  intro heap hheap env hb heap' hheap' w
  rw [run_ite]
  refine (hc heap hheap env hb).bind_out (I.run_approx _) (fun heap₁ hh₁ w₁ => ?_) hheap' w
  have hrest := hbranch heap₁ (hheap.trans hh₁) env (hb.mono hh₁) _ (List.prefix_refl _) w₁
  cases hv : I.truthy v with
  | true => simpa [hv] using hrest
  | false => simpa [hv] using hrest

/-- `let` of values that are known. -/
theorem Lasts.let' {params : List String} {body : Expr δ} {es : List (Expr δ)}
    {vs : List (Val δ κ ν)} (hes : I.GivesAll G h ρ es vs) (hlen : vs.length = params.length)
    (hbody : I.Lasts G h (params.zip vs ++ ρ) body n) :
    I.Lasts G h ρ (.app (.lambda params none body) es) (n + 2) := by
  intro heap hheap env hb heap' hheap' w
  rw [run_app, run_lambda, pure_bind]
  refine (hes heap hheap env hb).bind_out (args_approx env es) (fun heap₁ hh₁ w₁ => ?_) hheap' w
  refine sinks_closure (hb.mono hh₁) heap₁ (List.prefix_refl _) vs hlen n ?_ heap₁
    (List.prefix_refl _) w₁
  exact fun heap₂ hh₂ => hbody heap₂ (hheap.trans (hh₁.trans hh₂))

/-- A named `let` that starts with values that are known. -/
theorem Lasts.loop {name : String} {params : List String} {body : Expr δ} {es : List (Expr δ)}
    {vs : List (Val δ κ ν)} (hes : I.GivesAll G h ρ es vs)
    (hloop : ∀ heap, h <+: heap → ∀ f, I.Sinks G heap f params ((name, f) :: ρ) body →
      I.Outlasts G heap n (.apply f vs)) :
    I.Lasts G h ρ (.app (.letrec [name] [.lambda params none body] (.var name)) es) (n + 1) := by
  intro heap hheap env hb heap' hheap' w
  let f : Val δ κ ν := .closure ⟨params, none, body, (name, heap'.length) :: env⟩
  have hbinds : Binds (heap' ++ [f]) ((name, heap'.length) :: env) ((name, f) :: ρ) :=
    .cons ⟨rfl, by simp [f]⟩ ((hb.mono hheap').mono (List.prefix_append _ _))
  have hclosure : (I.run n (.eval env
      (.letrec [name] [.lambda params none body] (.var name)))).end? ⟨G, heap', w⟩ = none ∨
      (I.run n (.eval env (.letrec [name] [.lambda params none body] (.var name)))).end?
        ⟨G, heap', w⟩ = some (.ok f, ⟨G, heap' ++ [f], w⟩) := by
    have hmore := I.run_approx (.eval env (.letrec [name] [.lambda params none body] (.var name)))
      (Nat.le_add_right n 2) ⟨G, heap', w⟩
    refine hmore.imp_right fun heq => heq.trans ?_
    simp [f, Run.end?_bind, assign, read]
  rw [run_app, Run.end?_bind]
  rcases hclosure with hout | hdone
  · rw [hout]
  · rw [hdone]
    have hgrow : heap <+: heap' ++ [f] := hheap'.trans (List.prefix_append _ _)
    refine (hes _ (hheap.trans hgrow) env (hb.mono hgrow)).bind_out (args_approx env es)
      (fun heap₁ hh₁ w₁ => ?_) (List.prefix_refl _) w
    exact hloop _ (hheap.trans hgrow) f (sinks_closure hbinds) heap₁ hh₁ w₁

end Interp

end Lambda

end Zscheme
