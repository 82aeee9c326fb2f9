import Zscheme.Lib.Lambda

/-!
# Rebinding globals

Which globals can be rebound without changing what a task does: all those it cannot
reach. The names that keep their value are a set `S`, the native procedures that run
no code but their arguments a set `N`. A value is *clean* if every closure in it
mentions, beyond its own variables, only names in `S`, and every native procedure in
it is in `N`.

Two stores are the `Same` if they differ only in globals outside `S`, and what is in
the heap and the globals in `S` is clean. A clean task cannot tell them apart
(`run_blind`): it ends alike from both, in stores that are the same again.
-/

namespace Zscheme

namespace Lambda

variable {δ κ ν ε σ : Type}

/-! ## Computations that do not see a difference -/

namespace Run

variable {α β : Type} {R : σ → σ → Prop} {P : α → Prop} {Q : β → Prop}

/-- `p` ends alike from states related by `R`, in states related by `R`, and what it
    returns is in `P`. -/
def Blind (R : σ → σ → Prop) (P : α → Prop) (p : Run ε σ α) : Prop :=
  ∀ s t, R s t → (p.end? s = none ∧ p.end? t = none) ∨
    ∃ r s' t', p.end? s = some (r, s') ∧ p.end? t = some (r, t') ∧ R s' t' ∧ ∀ a, r = .ok a → P a

/-- One step is blind if it reads and changes what is shared alone. -/
theorem blind_of {f : σ → Except ε α × σ} (h : ∀ s t, R s t →
    (f s).1 = (f t).1 ∧ R (f s).2 (f t).2 ∧ ∀ a, (f s).1 = .ok a → P a) :
    (of f).Blind R P := by
  intro s t hst
  obtain ⟨hr, hR, hP⟩ := h s t hst
  exact .inr ⟨_, _, _, rfl, by rw [end?_of, hr], hR, hP⟩

/-- A value is. -/
theorem blind_pure {a : α} (h : P a) : (pure a : Run ε σ α).Blind R P :=
  fun _ _ hst => .inr ⟨_, _, _, rfl, rfl, hst, fun _ hb => Except.ok.inj hb ▸ h⟩

/-- An error is. -/
theorem blind_throw (e : ε) : (throw e : Run ε σ α).Blind R P :=
  fun _ _ hst => .inr ⟨_, _, _, rfl, rfl, hst, nofun⟩

/-- Two parts are, if the second is for every value the first can have. -/
theorem Blind.bind {p : Run ε σ α} {f : α → Run ε σ β} (hp : p.Blind R P)
    (hf : ∀ a, P a → (f a).Blind R Q) : (p >>= f).Blind R Q := by
  intro s t hst
  rcases hp s t hst with ⟨hs, ht⟩ | ⟨e | a, s', t', hs, ht, hst', hP⟩ <;>
    simp only [end?_bind, hs, ht]
  · exact .inl ⟨trivial, trivial⟩
  · exact .inr ⟨_, _, _, rfl, rfl, hst', nofun⟩
  · exact hf a (hP a rfl) s' t' hst'

/-- What is guarded is, with a handler that is. -/
theorem Blind.tryCatch {p : Run ε σ α} {f : ε → Run ε σ α} (hp : p.Blind R P)
    (hf : ∀ e, (f e).Blind R P) : (tryCatch p f).Blind R P := by
  intro s t hst
  rcases hp s t hst with ⟨hs, ht⟩ | ⟨e | a, s', t', hs, ht, hst', hP⟩ <;>
    simp only [end?_tryCatch, hs, ht]
  · exact .inl ⟨trivial, trivial⟩
  · exact hf e s' t' hst'
  · exact .inr ⟨_, _, _, rfl, rfl, hst', hP⟩

/-- A choice is, if both branches are. -/
theorem Blind.ite {c : Prop} [Decidable c] {p q : Run ε σ α} (hp : p.Blind R P)
    (hq : q.Blind R P) : (if c then p else q).Blind R P := by
  split
  · exact hp
  · exact hq

/-- A list is, if each of it is. -/
theorem Blind.mapM {f : α → Run ε σ β} {xs : List α} (h : ∀ a ∈ xs, (f a).Blind R Q) :
    (xs.mapM f).Blind R fun bs => ∀ b ∈ bs, Q b := by
  induction xs with
  | nil => exact blind_pure nofun
  | cons a xs ih =>
    rw [List.mapM_cons]
    refine (h a List.mem_cons_self).bind fun b hb => ?_
    refine (ih fun a' ha' => h a' (List.mem_cons_of_mem a ha')).bind fun bs hbs => ?_
    exact blind_pure (List.forall_mem_cons.2 ⟨hb, hbs⟩)

end Run

/-! ## Clean values -/

/-- Every procedure in the value is a closure in `P` or a native procedure in `Q`. -/
inductive Val.All (P : Closure δ → Prop) (Q : ν → Prop) : Val δ κ ν → Prop
  | node {a : κ} {xs : List (Val δ κ ν)} : (∀ x ∈ xs, x.All P Q) → Val.All P Q (.node a xs)
  | closure {c : Closure δ} : P c → Val.All P Q (.closure c)
  | native {f : ν} : Q f → Val.All P Q (.native f)

/-- What holds in a node holds in what it is made of. -/
theorem Val.All.of_mem {P : Closure δ → Prop} {Q : ν → Prop} {a : κ} {xs : List (Val δ κ ν)}
    (h : Val.All P Q (.node a xs)) : ∀ x ∈ xs, x.All P Q := by
  cases h with
  | node h => exact h

section

variable (S : String → Prop) (N : ν → Prop)

/-- Beyond some variables that are bound, an expression mentions only names in `S`. -/
def Expr.Within (bound : List String) (e : Expr δ) : Prop := ∀ x ∈ e.free, x ∈ bound ∨ S x

/-- Beyond its variables, a closure mentions only names in `S`. -/
def Closure.Within (c : Closure δ) : Prop := c.body.Within S (c.names ++ c.env.map Prod.fst)

/-- A value whose closures mention only names in `S`, and whose native procedures are in
    `N`. -/
abbrev Val.Clean (v : Val δ κ ν) : Prop := v.All (Closure.Within S) N

/-- A way to end that runs no code but clean code. -/
def Step.Clean : Step δ κ ν → Prop
  | .done v => v.Clean S N
  | .apply f args => f.Clean S N ∧ ∀ a ∈ args, a.Clean S N
  | .eval e => e.Within S []

/-- A task that mentions only names in `S`, and is given clean values. -/
def Task.Clean : Task δ κ ν → Prop
  | .eval env e => e.Within S (env.map Prod.fst)
  | .apply f args => f.Clean S N ∧ ∀ a ∈ args, a.Clean S N

/-- What the language is built on keeps values clean. -/
structure Interp.Lawful (I : Interp δ κ ν ε σ) : Prop where
  quote : ∀ d, (I.quote d).Clean S N
  list : ∀ {vs}, (∀ v ∈ vs, v.Clean S N) → (I.list vs).Clean S N
  void : I.void.Clean S N
  caught : ∀ e, (I.caught e).Clean S N
  call : ∀ {f args w r}, f.Clean S N → (∀ a ∈ args, a.Clean S N) →
    (I.call f args w).1 = .ok r → r.Clean S N

/-- Two stores that differ only in globals outside `S`, and hold clean values. -/
structure Store.Same (s t : Store δ κ ν σ) : Prop where
  heap : s.heap = t.heap
  world : s.world = t.world
  globals : ∀ x, S x → s.globals x = t.globals x
  clean_heap : ∀ v ∈ s.heap, v.Clean S N
  clean_globals : ∀ x v, S x → s.globals x = some v → v.Clean S N

end

/-! ## Clean tasks -/

variable {I : Interp δ κ ν ε σ} {S : String → Prop} {N : ν → Prop}

namespace Expr

variable {bound : List String}

/-- A name is bound, or shared. -/
theorem within_var {x : String} : (var x : Expr δ).Within S bound ↔ x ∈ bound ∨ S x := by
  simp [Within]

/-- What is assigned is a name like any other. -/
theorem within_set {x : String} {e : Expr δ} :
    (set x e).Within S bound ↔ (x ∈ bound ∨ S x) ∧ e.Within S bound := by
  simp [Within]

/-- Parameters are bound in the body. -/
theorem within_lambda {params : List String} {rest : Option String} {body : Expr δ} :
    (lambda params rest body).Within S bound ↔
      body.Within S ((params ++ rest.toList) ++ bound) := by
  simp only [Within, free_lambda, List.mem_filter, List.mem_append, decide_eq_true_eq]
  grind

/-- Operator and operands. -/
theorem within_app {f : Expr δ} {args : List (Expr δ)} :
    (app f args).Within S bound ↔ f.Within S bound ∧ ∀ e ∈ args, e.Within S bound := by
  simp only [Within, free_app, List.mem_append, mem_freeAll]
  grind

/-- Condition and branches. -/
theorem within_ite {c t e : Expr δ} :
    (ite c t e).Within S bound ↔ c.Within S bound ∧ t.Within S bound ∧ e.Within S bound := by
  simp only [Within, free_ite, List.mem_append]
  grind

/-- Both parts. -/
theorem within_or {a b : Expr δ} :
    (or a b).Within S bound ↔ a.Within S bound ∧ b.Within S bound := by
  simp only [Within, free_or, List.mem_append]
  grind

/-- Both parts, one after the other. -/
theorem within_seq {a b : Expr δ} :
    (seq a b).Within S bound ↔ a.Within S bound ∧ b.Within S bound := by
  simp only [Within, free_seq, List.mem_append]
  grind

/-- The names are bound in their values too. -/
theorem within_letrec {xs : List String} {es : List (Expr δ)} {body : Expr δ} :
    (letrec xs es body).Within S bound ↔
      (∀ e ∈ es, e.Within S (xs ++ bound)) ∧ body.Within S (xs ++ bound) := by
  simp only [Within, free_letrec, List.mem_filter, List.mem_append, mem_freeAll, decide_eq_true_eq]
  grind

/-- The error is bound in the handler. -/
theorem within_guard {body handler : Expr δ} {x : String} :
    (guard body x handler).Within S bound ↔
      body.Within S bound ∧ handler.Within S ([x] ++ bound) := by
  simp only [Within, free_guard, List.mem_filter, List.mem_append, decide_eq_true_eq]
  grind

end Expr

/-- A name without a value is not bound. -/
theorem not_mem_of_lookup_eq_none {env : Env} {x : String} (h : env.lookup x = none) :
    x ∉ env.map Prod.fst := by
  rw [List.mem_map]
  rintro ⟨p, hp, rfl⟩
  simpa using List.lookup_eq_none_iff.1 h p hp

namespace Interp

/-- A local name is read from the heap, and a shared one from globals that agree. -/
theorem read_blind {env : Env} {x : String} (hx : x ∈ env.map Prod.fst ∨ S x) :
    (I.read env x).Blind (Store.Same S N) (Val.Clean S N) := by
  refine Run.blind_of ?_
  rintro ⟨g, h, w⟩ ⟨g', _, _⟩ hst
  obtain rfl := hst.heap
  obtain rfl := hst.world
  rcases hl : env.lookup x with _ | l
  · have hS : S x := hx.resolve_left (not_mem_of_lookup_eq_none hl)
    -- a variable that is not bound is a global, and the stores agree on it
    have hg : g x = g' x := hst.globals x hS
    simp only [Option.elim, ← hg]
    rcases hv : g x with _ | v
    · exact ⟨rfl, hst, nofun⟩
    · refine ⟨rfl, hst, ?_⟩
      rintro _ ⟨⟩
      exact hst.clean_globals x v hS hv
  · simp only [Option.elim]
    rcases hv : h[l]? with _ | v
    · exact ⟨rfl, hst, nofun⟩
    · refine ⟨rfl, hst, ?_⟩
      rintro _ ⟨⟩
      exact hst.clean_heap v (List.mem_of_getElem? hv)

/-- So it is with an assignment. -/
theorem assign_blind {env : Env} {x : String} {v : Val δ κ ν} (hx : x ∈ env.map Prod.fst ∨ S x)
    (hv : v.Clean S N) : (I.assign env x v).Blind (Store.Same S N) fun _ => True := by
  refine Run.blind_of ?_
  rintro ⟨g, h, w⟩ ⟨g', _, _⟩ hst
  obtain rfl := hst.heap
  obtain rfl := hst.world
  -- a global variable, which both stores have or lack, or a local one
  rcases hl : env.lookup x with _ | l
  · have hS : S x := hx.resolve_left (not_mem_of_lookup_eq_none hl)
    have hg : g x = g' x := hst.globals x hS
    simp only [← hg]
    split
    · refine ⟨rfl, ⟨rfl, rfl, ?_, hst.clean_heap, ?_⟩, fun _ _ => trivial⟩
      · intro y hy
        simp only [Function.update_apply]
        split
        · rfl
        · exact hst.globals y hy
      · intro y u hy hu
        simp only [Function.update_apply] at hu
        split at hu
        · exact Option.some.inj hu ▸ hv
        · exact hst.clean_globals y u hy hu
    · exact ⟨rfl, hst, nofun⟩
  · refine ⟨rfl, ⟨rfl, rfl, hst.globals, ?_, hst.clean_globals⟩, fun _ _ => trivial⟩
    intro u hu
    rcases List.mem_or_eq_of_mem_set hu with hu | rfl
    · exact hst.clean_heap u hu
    · exact hv

/-- What is bound is in the heap, which is the same in both. -/
theorem bind_blind {xs : List String} {vs : List (Val δ κ ν)} {env : Env}
    (hvs : ∀ v ∈ vs, v.Clean S N) :
    (I.bind xs vs env).Blind (Store.Same S N) fun env' =>
      env'.map Prod.fst = xs ++ env.map Prod.fst := by
  refine Run.blind_of ?_
  rintro ⟨g, h, w⟩ ⟨g', _, _⟩ hst
  obtain rfl := hst.heap
  obtain rfl := hst.world
  refine ⟨rfl, ⟨rfl, rfl, hst.globals, ?_, hst.clean_globals⟩, ?_⟩
  · intro v hv
    exact (List.mem_append.1 hv).elim (hst.clean_heap v) (hvs v)
  · rintro _ ⟨⟩
    rw [List.map_append, List.zipIdx_map_fst]

/-- Arguments are what was passed, and the list of the rest. -/
theorem arguments?_clean (hI : I.Lawful S N) {c : Closure δ} {args vs : List (Val δ κ ν)}
    (h : I.arguments? c args = some vs) (hargs : ∀ a ∈ args, a.Clean S N) :
    ∀ v ∈ vs, v.Clean S N := by
  simp only [arguments?] at h
  split at h
  · split at h
    · exact Option.some.inj h ▸ hargs
    · exact absurd h nofun
  · split at h
    · obtain rfl := Option.some.inj h
      intro v hv
      rcases List.mem_append.1 hv with hv | hv
      · exact hargs v (List.mem_of_mem_take hv)
      · obtain rfl := List.mem_singleton.1 hv
        exact hI.list fun u hu => hargs u (List.mem_of_mem_drop hu)
    · exact absurd h nofun

/-- A native procedure that is clean does the same in both. -/
theorem perform_blind (hI : I.Lawful S N) {f : Val δ κ ν} {args : List (Val δ κ ν)}
    (hf : f.Clean S N) (hargs : ∀ a ∈ args, a.Clean S N) :
    (I.perform f args).Blind (Store.Same S N) (Step.Clean S N) := by
  refine Run.blind_of ?_
  rintro ⟨g, h, w⟩ ⟨g', _, _⟩ hst
  obtain rfl := hst.heap
  obtain rfl := hst.world
  exact ⟨rfl, ⟨rfl, rfl, hst.globals, hst.clean_heap, hst.clean_globals⟩,
    fun r hr => hI.call hf hargs hr⟩

variable {rec : Task δ κ ν → I.Comp (Val δ κ ν)}

/-- So does what it leaves to do. -/
theorem follow_blind
    (hrec : ∀ t, t.Clean S N → (rec t).Blind (Store.Same S N) (Val.Clean S N))
    {r : Step δ κ ν} (hr : r.Clean S N) :
    (I.follow rec r).Blind (Store.Same S N) (Val.Clean S N) := by
  cases r with
  | done v => exact Run.blind_pure hr
  | apply f args => exact hrec _ hr
  | eval e => exact hrec _ hr

/-- One form, or one call. -/
theorem step_blind (hI : I.Lawful S N)
    (hrec : ∀ t, t.Clean S N → (rec t).Blind (Store.Same S N) (Val.Clean S N))
    {t : Task δ κ ν} (ht : t.Clean S N) :
    (I.step rec t).Blind (Store.Same S N) (Val.Clean S N) := by
  rcases t with ⟨env, e⟩ | ⟨f, args⟩
  · cases e with
    | lit d => exact Run.blind_pure (hI.quote d)
    | var x => exact read_blind (Expr.within_var.1 ht)
    | set x e =>
      obtain ⟨hx, he⟩ := Expr.within_set.1 ht
      refine (hrec (.eval env e) he).bind fun v hv => ?_
      exact (assign_blind hx hv).bind fun _ _ => Run.blind_pure hI.void
    | lambda params rest body => exact Run.blind_pure (.closure (Expr.within_lambda.1 ht))
    | app f args =>
      obtain ⟨hf, hargs⟩ := Expr.within_app.1 ht
      refine (hrec (.eval env f) hf).bind fun fv hfv => ?_
      refine (Run.Blind.mapM fun e he => hrec (.eval env e) (hargs e he)).bind fun vs hvs => ?_
      exact hrec (.apply fv vs) ⟨hfv, hvs⟩
    | ite c t e =>
      obtain ⟨hc, ht, he⟩ := Expr.within_ite.1 ht
      refine (hrec (.eval env c) hc).bind fun _ _ => ?_
      exact .ite (hrec (.eval env t) ht) (hrec (.eval env e) he)
    | or a b =>
      obtain ⟨ha, hb⟩ := Expr.within_or.1 ht
      refine (hrec (.eval env a) ha).bind fun v hv => ?_
      exact .ite (Run.blind_pure hv) (hrec (.eval env b) hb)
    | seq a b =>
      obtain ⟨ha, hb⟩ := Expr.within_seq.1 ht
      exact (hrec (.eval env a) ha).bind fun _ _ => hrec (.eval env b) hb
    | letrec xs es body =>
      obtain ⟨hes, hbody⟩ := Expr.within_letrec.1 ht
      -- the names are bound before any of the values is there, for all of them to see
      have hvoid : ∀ v ∈ xs.map fun _ => I.void, v.Clean S N := by
        rintro v hv
        obtain ⟨_, _, rfl⟩ := List.mem_map.1 hv
        exact hI.void
      refine (bind_blind hvoid).bind fun env' henv => ?_
      rw [← henv] at hes hbody
      refine (Run.Blind.mapM (Q := fun _ => True) ?_).bind fun _ _ => hrec (.eval env' body) hbody
      rintro ⟨x, e⟩ hp
      obtain ⟨hx, he⟩ := List.of_mem_zip hp
      refine (hrec (.eval env' e) (hes e he)).bind fun v hv => assign_blind (.inl ?_) hv
      rw [henv]
      exact List.mem_append_left _ hx
    | guard body x handler =>
      obtain ⟨hbody, hhandler⟩ := Expr.within_guard.1 ht
      refine (hrec (.eval env body) hbody).tryCatch fun e => ?_
      refine (bind_blind (List.forall_mem_singleton.2 (hI.caught e))).bind fun env' henv => ?_
      rw [← henv] at hhandler
      exact hrec (.eval env' handler) hhandler
    | raise e => exact (hrec (.eval env e) ht).bind fun _ _ => Run.blind_throw _
  · obtain ⟨hf, hargs⟩ := ht
    cases f with
    | node | native => exact (perform_blind hI hf hargs).bind fun _ => follow_blind hrec
    | closure c =>
      -- the body sees what the call binds, over the variables of the closure
      simp only [step]
      split
      · rename_i vs hvs
        refine (bind_blind (arguments?_clean hI hvs hargs)).bind fun env' henv => ?_
        refine hrec (.eval env' c.body) ?_
        cases hf with
        | closure hc =>
          change c.body.Within S (env'.map Prod.fst)
          rw [henv]
          exact hc
      · exact Run.blind_throw _

/-- A clean task does not see how the globals outside `S` are bound. -/
theorem run_blind (hI : I.Lawful S N) (n : Nat) {t : Task δ κ ν} (ht : t.Clean S N) :
    (I.run n t).Blind (Store.Same S N) (Val.Clean S N) := by
  induction n generalizing t with
  | zero => exact fun _ _ _ => .inl ⟨rfl, rfl⟩
  | succ n ih => exact step_blind hI (fun _ => ih) ht

/-- What a clean task ends with does not depend on the globals outside `S`. -/
theorem Ends.same (hI : I.Lawful S N) {t : Task δ κ ν} (ht : t.Clean S N)
    {s s' : Store δ κ ν σ} (hs : s.Same S N s') {r : Except ε (Val δ κ ν)}
    (h : I.Ends t s r) : I.Ends t s' r := by
  obtain ⟨n, s₁, h⟩ := h
  rcases run_blind hI n ht s s' hs with ⟨hn, _⟩ | ⟨_, _, s₂, hr, hr', _⟩
  · rw [h] at hn
    exact absurd hn nofun
  · obtain ⟨rfl, rfl⟩ := Prod.ext_iff.1 (Option.some.inj (hr.symm.trans h))
    exact ⟨n, s₂, hr'⟩

end Interp

end Lambda

end Zscheme
