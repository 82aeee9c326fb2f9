import Mathlib.Logic.Function.Basic

/-!
# A lambda language over a table of globals

Expressions with closures, assignment and error handling, evaluated over a *store*:
a table of globals, a heap for the local variables, and the rest of the world. A
variable that no enclosing form binds is looked up in the table when it is reached,
not when the closure around it was made, so that rebinding a global changes every
procedure that mentions it.

What the language is built on is a parameter (`Interp`): its literals `δ`, the labels
`κ` of its data, its native procedures `ν` and what they do, its errors `ε`. A native
procedure may end in a call or in the evaluation of an expression, as `apply` and
`eval` do.

* `Run`: a computation that may run out of fuel; errors keep the state.
* `Interp.run n t`: the task `t` with fuel `n`; `run_mono`: more fuel changes nothing
  but the running out, so what a task returns is unique (`Returns.unique`).
-/

namespace Zscheme

namespace Lambda

/-! ## Expressions -/

/-- Expressions over the literals `δ`. -/
inductive Expr (δ : Type)
  | lit (d : δ)
  | var (x : String)
  | set (x : String) (e : Expr δ)
  | lambda (params : List String) (rest : Option String) (body : Expr δ)
  | app (f : Expr δ) (args : List (Expr δ))
  | ite (c t e : Expr δ)
  | or (a b : Expr δ)
  | seq (a b : Expr δ)
  | letrec (xs : List String) (es : List (Expr δ)) (body : Expr δ)
  | guard (body : Expr δ) (x : String) (handler : Expr δ)
  | raise (e : Expr δ)

variable {δ κ ν ε σ : Type}

namespace Expr

mutual

/-- The variables an expression mentions and does not bind. -/
def free : Expr δ → List String
  | .lit _ => []
  | .var x => [x]
  | .set x e => x :: e.free
  | .lambda params rest body => body.free.filter (· ∉ params ++ rest.toList)
  | .app f args => f.free ++ freeAll args
  | .ite c t e => c.free ++ t.free ++ e.free
  | .or a b => a.free ++ b.free
  | .seq a b => a.free ++ b.free
  | .letrec xs es body => (freeAll es ++ body.free).filter (· ∉ xs)
  | .guard body x handler => body.free ++ handler.free.filter (· ≠ x)
  | .raise e => e.free

/-- The variables some expressions mention and do not bind. -/
def freeAll : List (Expr δ) → List String
  | [] => []
  | e :: es => e.free ++ freeAll es

end

section

variable (x : String) (xs : List String) (rest : Option String) (a b c : Expr δ)
  (es : List (Expr δ))

@[simp] theorem free_var : (var x : Expr δ).free = [x] := rfl

@[simp] theorem free_set : (set x a).free = x :: a.free := rfl

@[simp] theorem free_lambda :
    (lambda xs rest a).free = a.free.filter (· ∉ xs ++ rest.toList) := rfl

@[simp] theorem free_app : (app a es).free = a.free ++ freeAll es := rfl

@[simp] theorem free_ite : (ite a b c).free = a.free ++ b.free ++ c.free := rfl

@[simp] theorem free_or : (or a b).free = a.free ++ b.free := rfl

@[simp] theorem free_seq : (seq a b).free = a.free ++ b.free := rfl

@[simp] theorem free_letrec :
    (letrec xs es a).free = (freeAll es ++ a.free).filter (· ∉ xs) := rfl

@[simp] theorem free_guard : (guard a x b).free = a.free ++ b.free.filter (· ≠ x) := rfl

@[simp] theorem freeAll_nil : freeAll ([] : List (Expr δ)) = [] := rfl

@[simp] theorem freeAll_cons : freeAll (a :: es) = a.free ++ freeAll es := rfl

end

/-- A name is free in a list of expressions if it is in one of them. -/
theorem mem_freeAll {es : List (Expr δ)} {x : String} : x ∈ freeAll es ↔ ∃ e ∈ es, x ∈ e.free := by
  induction es with
  | nil => simp
  | cons e es ih => simp [ih]

end Expr

/-! ## Values and stores -/

/-- Local variables, with their places in the heap. -/
abbrev Env := List (String × Nat)

/-- A procedure with the local variables around it. -/
structure Closure (δ : Type) where
  /-- Its parameters. -/
  params : List String
  /-- The parameter for the arguments that remain. -/
  rest : Option String
  /-- Its body. -/
  body : Expr δ
  /-- The variables it was made under. -/
  env : Env

/-- Values: data, labelled by `κ`, closures and native procedures. -/
inductive Val (δ κ ν : Type)
  | node (a : κ) (xs : List (Val δ κ ν))
  | closure (c : Closure δ)
  | native (f : ν)

/-- What programs run over. -/
structure Store (δ κ ν σ : Type) where
  /-- The globals. -/
  globals : String → Option (Val δ κ ν)
  /-- The values of the local variables. -/
  heap : List (Val δ κ ν)
  /-- The rest. -/
  world : σ

/-- How a native procedure ends. -/
inductive Step (δ κ ν : Type)
  | done (v : Val δ κ ν)
  | apply (f : Val δ κ ν) (args : List (Val δ κ ν))
  | eval (e : Expr δ)

/-- What the language is built on. -/
structure Interp (δ κ ν ε σ : Type) where
  /-- The value of a literal. -/
  quote : δ → Val δ κ ν
  /-- The list of the arguments that remain. -/
  list : List (Val δ κ ν) → Val δ κ ν
  /-- The value of a form that has none. -/
  void : Val δ κ ν
  /-- What an error is caught as. -/
  caught : ε → Val δ κ ν
  /-- The error a value is raised as. -/
  raised : Val δ κ ν → ε
  /-- A value counts as true. -/
  truthy : Val δ κ ν → Bool
  /-- The error of a variable that is not bound. -/
  unbound : String → ε
  /-- The error of a closure that refuses its arguments. -/
  arity : Closure δ → List (Val δ κ ν) → ε
  /-- The application of a value that is not a closure. -/
  call : Val δ κ ν → List (Val δ κ ν) → σ → Except ε (Step δ κ ν) × σ

/-! ## Computations -/

/-- A computation: it runs out of fuel, or ends with a value or an error. -/
abbrev Run (ε σ : Type) := ExceptT ε (StateT σ Option)

namespace Run

variable {α β : Type}

/-- The computation that needs no fuel. -/
def of (f : σ → Except ε α × σ) : Run ε σ α := ExceptT.mk fun s => some (f s)

/-- The computation that runs out of fuel. -/
def out : Run ε σ α := ExceptT.mk fun _ => none

/-- How a computation ends. -/
def end? (p : Run ε σ α) (s : σ) : Option (Except ε α × σ) := p.run.run s

/-- What is computed in one step ends with it. -/
@[simp] theorem end?_of (f : σ → Except ε α × σ) (s : σ) : (of f).end? s = some (f s) := rfl

/-- Where the fuel is used up there is no end. -/
@[simp] theorem end?_out (s : σ) : (out : Run ε σ α).end? s = none := rfl

@[simp] theorem end?_pure (a : α) (s : σ) : (pure a : Run ε σ α).end? s = some (.ok a, s) := rfl

@[simp] theorem end?_throw (e : ε) (s : σ) :
    (throw e : Run ε σ α).end? s = some (.error e, s) := rfl

/-- What follows goes on from the value, if there is one. -/
theorem end?_bind (p : Run ε σ α) (f : α → Run ε σ β) (s : σ) :
    (p >>= f).end? s = match p.end? s with
      | none => none
      | some (.error e, s') => some (.error e, s')
      | some (.ok a, s') => (f a).end? s' := by
  change (p.run.run s).bind _ = _
  rcases h : p.run.run s with _ | ⟨_ | _, _⟩ <;> simp only [end?, h] <;> rfl

/-- The handler goes on from the error, if there is one. -/
theorem end?_tryCatch (p : Run ε σ α) (f : ε → Run ε σ α) (s : σ) :
    (tryCatch p f).end? s = match p.end? s with
      | none => none
      | some (.error e, s') => (f e).end? s'
      | some (.ok a, s') => some (.ok a, s') := by
  change (p.run.run s).bind _ = _
  rcases h : p.run.run s with _ | ⟨_ | _, _⟩ <;> simp only [end?, h] <;> rfl

/-- With more fuel, `p` is `q`: where `p` does not run out, they end alike. -/
def Approx (p q : Run ε σ α) : Prop := ∀ s, p.end? s = none ∨ p.end? s = q.end? s

/-- A run approximates itself. -/
theorem Approx.refl (p : Run ε σ α) : p.Approx p := fun _ => .inr rfl

/-- More fuel for both parts is more fuel for the whole. -/
theorem Approx.bind {p q : Run ε σ α} {f g : α → Run ε σ β} (hp : p.Approx q)
    (hf : ∀ a, (f a).Approx (g a)) : (p >>= f).Approx (q >>= g) := by
  intro s
  rw [end?_bind, end?_bind]
  rcases hp s with h | h
  · exact .inl (by rw [h])
  · rw [← h]
    rcases p.end? s with _ | ⟨_ | a, s'⟩
    · exact .inl rfl
    · exact .inr rfl
    · exact hf a s'

/-- So it is for what is guarded, and its handler. -/
theorem Approx.tryCatch {p q : Run ε σ α} {f g : ε → Run ε σ α} (hp : p.Approx q)
    (hf : ∀ e, (f e).Approx (g e)) : (tryCatch p f).Approx (tryCatch q g) := by
  intro s
  rw [end?_tryCatch, end?_tryCatch]
  rcases hp s with h | h
  · exact .inl (by rw [h])
  · rw [← h]
    rcases p.end? s with _ | ⟨e | _, s'⟩
    · exact .inl rfl
    · exact hf e s'
    · exact .inr rfl

/-- And for both branches. -/
theorem Approx.ite {c : Prop} [Decidable c] {p q p' q' : Run ε σ α} (h : p.Approx q)
    (h' : p'.Approx q') : (if c then p else p').Approx (if c then q else q') := by
  split
  · exact h
  · exact h'

/-- And for each of a list. -/
theorem Approx.mapM {f g : α → Run ε σ β} (h : ∀ a, (f a).Approx (g a)) (xs : List α) :
    (xs.mapM f).Approx (xs.mapM g) := by
  induction xs with
  | nil => exact .refl _
  | cons a xs ih =>
    rw [List.mapM_cons, List.mapM_cons]
    exact (h a).bind fun _ => ih.bind fun _ => .refl _

end Run

/-! ## Evaluation -/

/-- What there is to do. -/
inductive Task (δ κ ν : Type)
  | eval (env : Env) (e : Expr δ)
  | apply (f : Val δ κ ν) (args : List (Val δ κ ν))

/-- The variables a procedure binds. -/
def Closure.names (c : Closure δ) : List String := c.params ++ c.rest.toList

namespace Interp

variable (I : Interp δ κ ν ε σ)

/-- A computation over the store of a language. -/
abbrev Comp (_ : Interp δ κ ν ε σ) := Run ε (Store δ κ ν σ)

/-- The value of a variable. -/
def read (env : Env) (x : String) : I.Comp (Val δ κ ν) :=
  Run.of fun s =>
    match (env.lookup x).elim (s.globals x) fun l => s.heap[l]? with
    | some v => (.ok v, s)
    | none => (.error (I.unbound x), s)

/-- Assigns a variable that is bound. -/
def assign (env : Env) (x : String) (v : Val δ κ ν) : I.Comp Unit :=
  Run.of fun s =>
    match env.lookup x with
    | some l => (.ok (), { s with heap := s.heap.set l v })
    | none =>
      if (s.globals x).isSome then
        (.ok (), { s with globals := Function.update s.globals x (some v) })
      else (.error (I.unbound x), s)

/-- Binds variables, in fresh places, over an environment. -/
def bind (xs : List String) (vs : List (Val δ κ ν)) (env : Env) : I.Comp Env :=
  Run.of fun s =>
    (.ok (xs.zipIdx s.heap.length ++ env), { s with heap := s.heap ++ vs })

/-- What a closure binds its variables to. -/
def arguments? (c : Closure δ) (args : List (Val δ κ ν)) : Option (List (Val δ κ ν)) :=
  match c.rest with
  | none => if args.length = c.params.length then some args else none
  | some _ =>
    if c.params.length ≤ args.length then
      some (args.take c.params.length ++ [I.list (args.drop c.params.length)])
    else none

/-- The application of a value that is not a closure, in the store. -/
def perform (f : Val δ κ ν) (args : List (Val δ κ ν)) : I.Comp (Step δ κ ν) :=
  Run.of fun s => ((I.call f args s.world).1, { s with world := (I.call f args s.world).2 })

/-- What a native procedure ends in, given how tasks are done. -/
def follow (rec : Task δ κ ν → I.Comp (Val δ κ ν)) : Step δ κ ν → I.Comp (Val δ κ ν)
  | .done v => pure v
  | .apply f args => rec (.apply f args)
  | .eval e => rec (.eval [] e)

/-- A task, given how the tasks it leads to are done. -/
def step (rec : Task δ κ ν → I.Comp (Val δ κ ν)) : Task δ κ ν → I.Comp (Val δ κ ν)
  | .eval _ (.lit d) => pure (I.quote d)
  | .eval env (.var x) => I.read env x
  | .eval env (.set x e) => do
    I.assign env x (← rec (.eval env e))
    return I.void
  | .eval env (.lambda params rest body) => pure (.closure ⟨params, rest, body, env⟩)
  | .eval env (.app f args) => do
    let f ← rec (.eval env f)
    rec (.apply f (← args.mapM fun e => rec (.eval env e)))
  | .eval env (.ite c t e) => do
    if I.truthy (← rec (.eval env c)) then rec (.eval env t) else rec (.eval env e)
  | .eval env (.or a b) => do
    let v ← rec (.eval env a)
    if I.truthy v then return v else rec (.eval env b)
  | .eval env (.seq a b) => do
    let _ ← rec (.eval env a)
    rec (.eval env b)
  | .eval env (.letrec xs es body) => do
    let env ← I.bind xs (xs.map fun _ => I.void) env
    let _ ← (xs.zip es).mapM fun p => do I.assign env p.1 (← rec (.eval env p.2))
    rec (.eval env body)
  | .eval env (.guard body x handler) =>
    tryCatch (rec (.eval env body)) fun e => do
      rec (.eval (← I.bind [x] [I.caught e] env) handler)
  | .eval env (.raise e) => do throw (I.raised (← rec (.eval env e)))
  | .apply (.closure c) args =>
    match I.arguments? c args with
    | some vs => do rec (.eval (← I.bind c.names vs c.env) c.body)
    | none => throw (I.arity c args)
  | .apply f args => do I.follow rec (← I.perform f args)

/-- A task, with fuel. -/
def run : Nat → Task δ κ ν → I.Comp (Val δ κ ν)
  | 0, _ => .out
  | n + 1, t => I.step (run n) t

/-! ## Symbolic execution -/

section

variable {n : Nat} {env : Env} {s : Store δ κ ν σ}

/-- Binding allocates the values at the end of the heap. -/
@[simp] theorem end?_bind (xs : List String) (vs : List (Val δ κ ν)) :
    (I.bind xs vs env).end? s =
      some (.ok (xs.zipIdx s.heap.length ++ env), { s with heap := s.heap ++ vs }) := rfl

/-- A native procedure changes the world, and not the heap. -/
@[simp] theorem end?_perform (f : Val δ κ ν) (args : List (Val δ κ ν)) :
    (I.perform f args).end? s =
      some ((I.call f args s.world).1, { s with world := (I.call f args s.world).2 }) := rfl

/-- A value is followed by nothing. -/
@[simp] theorem follow_done (rec : Task δ κ ν → I.Comp (Val δ κ ν)) (v : Val δ κ ν) :
    I.follow rec (.done v) = pure v := rfl

/-- An expression that `eval` is given is evaluated without locals. -/
@[simp] theorem follow_eval (rec : Task δ κ ν → I.Comp (Val δ κ ν)) (e : Expr δ) :
    I.follow rec (.eval e) = rec (.eval [] e) := rfl

/-- A literal stands for what it quotes. -/
@[simp] theorem run_lit (d : δ) : I.run (n + 1) (.eval env (.lit d)) = pure (I.quote d) := rfl

/-- A name is read. -/
@[simp] theorem run_var (x : String) : I.run (n + 1) (.eval env (.var x)) = I.read env x := rfl

/-- A procedure closes over what is bound. -/
@[simp] theorem run_lambda (params : List String) (rest : Option String) (body : Expr δ) :
    I.run (n + 1) (.eval env (.lambda params rest body)) =
      pure (.closure ⟨params, rest, body, env⟩) := rfl

/-- The operator comes first, and then the operands from the left. -/
@[simp] theorem run_app (f : Expr δ) (args : List (Expr δ)) :
    I.run (n + 1) (.eval env (.app f args)) = (do
      let f ← I.run n (.eval env f)
      I.run n (.apply f (← args.mapM fun e => I.run n (.eval env e)))) := rfl

/-- One branch is evaluated, by the truth of the condition. -/
@[simp] theorem run_ite (c t e : Expr δ) :
    I.run (n + 1) (.eval env (.ite c t e)) = (do
      if I.truthy (← I.run n (.eval env c)) then I.run n (.eval env t)
      else I.run n (.eval env e)) := rfl

/-- The second part is evaluated if the first is false. -/
@[simp] theorem run_or (a b : Expr δ) :
    I.run (n + 1) (.eval env (.or a b)) = (do
      let v ← I.run n (.eval env a)
      if I.truthy v then return v else I.run n (.eval env b)) := rfl

/-- All names are bound before any of their values is computed. -/
@[simp] theorem run_letrec (xs : List String) (es : List (Expr δ)) (body : Expr δ) :
    I.run (n + 1) (.eval env (.letrec xs es body)) = (do
      let env ← I.bind xs (xs.map fun _ => I.void) env
      let _ ← (xs.zip es).mapM fun p => do I.assign env p.1 (← I.run n (.eval env p.2))
      I.run n (.eval env body)) := rfl

/-- The body is evaluated where the procedure was made, with its arguments bound. -/
@[simp] theorem run_closure (c : Closure δ) (args : List (Val δ κ ν)) :
    I.run (n + 1) (.apply (.closure c) args) =
      match I.arguments? c args with
      | some vs => do I.run n (.eval (← I.bind c.names vs c.env) c.body)
      | none => throw (I.arity c args) := rfl

/-- What a native procedure leaves to do is followed. -/
@[simp] theorem run_native (f : ν) (args : List (Val δ κ ν)) :
    I.run (n + 1) (.apply (.native f) args) =
      (do I.follow (I.run n) (← I.perform (.native f) args)) := rfl

end

/-! ## Fuel -/

section

variable {rec rec' : Task δ κ ν → I.Comp (Val δ κ ν)}

/-- More fuel for the rest is more fuel for what follows a step. -/
theorem follow_approx (h : ∀ t, (rec t).Approx (rec' t)) (r : Step δ κ ν) :
    (I.follow rec r).Approx (I.follow rec' r) := by
  cases r with
  | done v => exact .refl _
  | apply f args => exact h _
  | eval e => exact h _

/-- And for one step of the evaluator. -/
theorem step_approx (h : ∀ t, (rec t).Approx (rec' t)) (t : Task δ κ ν) :
    (I.step rec t).Approx (I.step rec' t) := by
  rcases t with ⟨env, e⟩ | ⟨_ | c | _, args⟩
  · cases e with
    | lit | var | lambda => exact .refl _
    | set | raise => exact (h _).bind fun _ => .refl _
    | app f args =>
      exact (h _).bind fun _ => (Run.Approx.mapM (fun _ => h _) args).bind fun _ => h _
    | ite => exact (h _).bind fun _ => .ite (h _) (h _)
    | or => exact (h _).bind fun _ => .ite (.refl _) (h _)
    | seq => exact (h _).bind fun _ => h _
    | letrec xs es =>
      refine (Run.Approx.refl _).bind fun _ => Run.Approx.bind ?_ fun _ => h _
      exact .mapM (fun _ => (h _).bind fun _ => .refl _) (xs.zip es)
    | guard => exact (h _).tryCatch fun _ => (Run.Approx.refl _).bind fun _ => h _
  · exact (Run.Approx.refl _).bind (I.follow_approx h)
  · simp only [step]
    split
    · exact (Run.Approx.refl _).bind fun _ => h _
    · exact .refl _
  · exact (Run.Approx.refl _).bind (I.follow_approx h)

end

/-- More fuel changes nothing but the running out. -/
theorem run_approx (t : Task δ κ ν) {n m : Nat} (h : n ≤ m) : (I.run n t).Approx (I.run m t) := by
  -- without fuel a run is out; with fuel, both take the same step, and `ih` is for the rest
  induction n generalizing m t with
  | zero => exact fun _ => .inl rfl
  | succ n ih =>
    obtain ⟨m, rfl⟩ : ∃ k, m = k + 1 := ⟨m - 1, by omega⟩
    exact I.step_approx (fun t => ih t (by omega)) t

/-- What a task ends with, given enough fuel. -/
def Ends (t : Task δ κ ν) (s : Store δ κ ν σ) (r : Except ε (Val δ κ ν)) : Prop :=
  ∃ n s', (I.run n t).end? s = some (r, s')

/-- A task returns a value. -/
def Returns (t : Task δ κ ν) (s : Store δ κ ν σ) (v : Val δ κ ν) : Prop := I.Ends t s (.ok v)

variable {I} {t : Task δ κ ν} {s : Store δ κ ν σ}

/-- A task ends in one way. -/
theorem Ends.unique {r r' : Except ε (Val δ κ ν)} (h : I.Ends t s r) (h' : I.Ends t s r') :
    r = r' := by
  obtain ⟨n, s₁, h⟩ := h
  obtain ⟨m, s₂, h'⟩ := h'
  have hn := I.run_approx t (Nat.le_max_left n m) s
  have hm := I.run_approx t (Nat.le_max_right n m) s
  rw [h] at hn
  rw [h'] at hm
  have hend := (hn.resolve_left nofun).trans (hm.resolve_left nofun).symm
  injection hend with hend
  exact (Prod.ext_iff.1 hend).1

/-- A task that leads to another ends as it does. -/
theorem ends_congr {t' : Task δ κ ν} {s' : Store δ κ ν σ} {k j : Nat}
    (h : ∀ n, (I.run (n + k) t).end? s = (I.run (n + j) t').end? s')
    {r : Except ε (Val δ κ ν)} : I.Ends t s r ↔ I.Ends t' s' r := by
  constructor
  · rintro ⟨n, u, hn⟩
    have hmore := I.run_approx t (Nat.le_add_right n k) s
    rw [hn] at hmore
    exact ⟨n + j, u, ((hmore.resolve_left nofun).trans (h n)).symm⟩
  · rintro ⟨n, u, hn⟩
    have hmore := I.run_approx t' (Nat.le_add_right n j) s'
    rw [hn] at hmore
    exact ⟨n + k, u, ((hmore.resolve_left nofun).trans (h n).symm).symm⟩

end Interp

end Lambda

end Zscheme
