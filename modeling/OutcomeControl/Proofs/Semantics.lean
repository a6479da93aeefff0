import OutcomeControl.Proofs.Scoping

/-! What a program does when it runs.

How expressions are evaluated is left open. An `Evaluator` says which values there are and what
evaluating an expression can do: go from one state to another, call callables on the way, and end
with a value or a failure. A `Behaviour` lists the calls that are made with the answers they get, so
evaluation depends on a callable only through the calls of it. On top of an evaluator statements
have a big-step meaning (`Statement.run`), and `Evaluator.Answers` is the meaning of all callables
of a program together: the least set of answered calls that contains a call whenever its body gives
that answer with calls of the set. `Evaluator.KeepsTo` says which callables evaluation can get at.
`Sample.evaluator` is a small evaluator for truth values, outcomes, callables and tuples of them. -/

namespace OutcomeControl

/-! ### Behaviours -/

/-- A call of a callable together with its answer. -/
structure Call (V S : Type) where
  callee : QualifiedName
  argument : V
  before : S
  result : Except V V
  after : S

/-- From a state, with these calls in this order, to a result or a failure and a state. -/
def Behaviour (V S α : Type) : Type := S → List (Call V S) → Except V α → S → Prop

namespace Behaviour
variable {V S α β γ : Type}

instance : Monad (Behaviour V S) where
  pure a := fun s calls r s' => calls = [] ∧ r = .ok a ∧ s' = s
  bind x f := fun s calls r s' =>
    (∃ a first middle later, x s first (.ok a) middle ∧ f a middle later r s' ∧
      calls = first ++ later) ∨
    ∃ v, x s calls (.error v) s' ∧ r = .error v

/-- No result at all. -/
def stuck : Behaviour V S α := fun _ _ _ _ => False

def fail (v : V) : Behaviour V S α := fun s calls r s' => calls = [] ∧ r = .error v ∧ s' = s

def ofOption : Option α → Behaviour V S α
  | some a => pure a
  | none => stuck

/-- The `a` that `v` stands for. -/
def inverse (f : α → V) (v : V) : Behaviour V S α :=
  fun s calls r s' => ∃ a, v = f a ∧ (pure a : Behaviour V S α) s calls r s'

/-- Whatever the callable answers. -/
def call (q : QualifiedName) (a : V) : Behaviour V S V := fun s calls r s' => calls = [⟨q, a, s, r, s'⟩]

/-- Steps until one of them gives the final result. -/
inductive Iterates (step : α → Behaviour V S (α ⊕ β)) :
    α → S → List (Call V S) → Except V β → S → Prop where
  | done {a : α} {b : β} {s s' : S} {calls : List (Call V S)} :
    step a s calls (.ok (.inr b)) s' → Iterates step a s calls (.ok b) s'
  | failed {a : α} {v : V} {s s' : S} {calls : List (Call V S)} :
    step a s calls (.error v) s' → Iterates step a s calls (.error v) s'
  | again {a a' : α} {r : Except V β} {s middle s' : S} {first later : List (Call V S)} :
    step a s first (.ok (.inl a')) middle → Iterates step a' middle later r s' →
      Iterates step a s (first ++ later) r s'

def iterate (step : α → Behaviour V S (α ⊕ β)) (a : α) : Behaviour V S β := Iterates step a

theorem ext {x y : Behaviour V S α} (h : ∀ s calls r s', x s calls r s' ↔ y s calls r s') : x = y :=
  funext fun s => funext fun calls => funext fun r => funext fun s' => propext (h s calls r s')

theorem id_map_eq (x : Behaviour V S α) : id <$> x = x := by
  refine ext fun s calls r s' => ⟨?_, fun hx => ?_⟩
  · rintro (⟨a, first, middle, later, hx, ⟨rfl, rfl, rfl⟩, rfl⟩ | ⟨v, hx, rfl⟩)
    · rwa [List.append_nil]
    · exact hx
  · cases r with
    | ok a => exact .inl ⟨a, calls, s', [], hx, ⟨rfl, rfl, rfl⟩, (List.append_nil _).symm⟩
    | error v => exact .inr ⟨v, hx, rfl⟩

theorem pure_bind_eq (a : α) (f : α → Behaviour V S β) : pure a >>= f = f a := by
  refine ext fun s calls r s' => ⟨?_, fun hf => .inl ⟨a, [], s, calls, ⟨rfl, rfl, rfl⟩, hf, rfl⟩⟩
  rintro (⟨b, first, middle, later, ⟨rfl, hb, rfl⟩, hf, rfl⟩ | ⟨v, ⟨-, hv, -⟩, -⟩)
  · cases hb
    exact hf
  · cases hv

theorem bind_assoc_eq (x : Behaviour V S α) (f : α → Behaviour V S β) (g : β → Behaviour V S γ) :
    x >>= f >>= g = x >>= fun a => f a >>= g := by
  refine ext fun s calls r s' => ⟨?_, ?_⟩
  · rintro (⟨b, -, m, l, ⟨a, first, m', l', hx, hf, rfl⟩ | ⟨v, -, hv⟩, hg, rfl⟩ |
      ⟨v, ⟨a, first, m, l, hx, hf, rfl⟩ | ⟨w, hx, hw⟩, rfl⟩)
    · exact .inl ⟨a, first, m', l' ++ l, hx, .inl ⟨b, l', m, l, hf, hg, rfl⟩,
        List.append_assoc ..⟩
    · cases hv
    · exact .inl ⟨a, first, m, l, hx, .inr ⟨v, hf, rfl⟩, rfl⟩
    · cases hw
      exact .inr ⟨v, hx, rfl⟩
  · rintro (⟨a, first, m, later, hx, ⟨b, l, m', l', hf, hg, rfl⟩ | ⟨v, hf, rfl⟩, rfl⟩ | ⟨v, hx, rfl⟩)
    · exact .inl ⟨b, first ++ l, m', l', .inl ⟨a, first, m, l, hx, hf, rfl⟩, hg,
        (List.append_assoc ..).symm⟩
    · exact .inr ⟨v, .inl ⟨a, first, m, later, hx, hf, rfl⟩, rfl⟩
    · exact .inr ⟨v, .inr ⟨v, hx, rfl⟩, rfl⟩

instance : LawfulMonad (Behaviour V S) :=
  LawfulMonad.mk' (Behaviour V S) id_map_eq pure_bind_eq bind_assoc_eq

end Behaviour

/-! ### Evaluators -/

mutual
/-- The expression without types and all that is known about it. -/
def Expr.bare : Expr → Expr
  | ⟨kind, _⟩ => .plain kind.bare .missing
def ExprKind.bare : ExprKind → ExprKind
  | .name id _ => .name id none
  | .tuple items => .tuple (Expr.bareList items)
  | .array items => .array (Expr.bareList items)
  | .binary op lhs rhs => .binary op lhs.bare rhs.bare
  | .unary op operand => .unary op operand.bare
  | .item array index => .item array.bare index.bare
  | .choice condition yes no => .choice condition.bare yes.bare no.bare
  | .call callee argument => .call callee.bare argument.bare
  | .unit => .unit
  | .int n => .int n
  | .double d => .double d
  | .bool b => .bool b
  | .string s => .string s
  | .outcome o => .outcome o
  | .missing => .missing
  | .invalid => .invalid
def Expr.bareList : List Expr → List Expr
  | [] => []
  | e :: es => e.bare :: Expr.bareList es
end

/-- The values that matter to control flow and to calls, among whatever other values there are. -/
structure Values (V : Type) where
  bool : Bool → V
  outcome : Outcome → V
  callable : QualifiedName → V
  pack : List V → V
  /-- The items of a tuple, where so many are expected. -/
  spread : Nat → V → Option (List V)
  /-- The callables that can be got at with a value. -/
  Reaches : V → QualifiedName → Prop
  bool_injective : ∀ a b, bool a = bool b → a = b
  outcome_injective : ∀ a b, outcome a = outcome b → a = b
  callable_injective : ∀ a b, callable a = callable b → a = b
  spread_pack : ∀ vs, spread vs.length (pack vs) = some vs
  reaches_callable : ∀ q, Reaches (callable q) q
  reaches_pack : ∀ vs q, Reaches (pack vs) q → ∃ v ∈ vs, Reaches v q
  reaches_spread : ∀ n v vs q, spread n v = some vs → (∃ w ∈ vs, Reaches w q) → Reaches v q

namespace Values
variable {V S : Type} (E : Values V)

def unit : V := E.pack []

/-- A value gives access to nothing but callables of `A`. -/
def Within (A : QualifiedName → Prop) (v : V) : Prop := ∀ q, E.Reaches v q → A q

/-- What an identifier stands for. -/
def read (locals : String → Option V) : Identifier → Option V
  | .ofVariable n => locals n
  | .ofCallable q => some (E.callable q)
  | .invalid => none

/-- The value that answers a call, be it a result or a failure. -/
def answer (c : Call V S) : V := match c.result with
  | .ok v | .error v => v

/-- Every call has to do with callables of `A` only, as long as the answers before it do. -/
def Guarded (A : QualifiedName → Prop) : List (Call V S) → Prop
  | [] => True
  | c :: cs => A c.callee ∧ E.Within A c.argument ∧ (E.Within A (answer c) → Guarded A cs)

/-- All that is called, and what comes out, has to do with callables of `A` only. -/
def Confines {α : Type} (A : QualifiedName → Prop) (P : α → Prop) (x : Behaviour V S α) : Prop :=
  ∀ s calls r s', x s calls r s' → E.Guarded A calls ∧
    ((∀ c ∈ calls, E.Within A (answer c)) → match r with
      | .ok a => P a
      | .error v => E.Within A v)

end Values

/-- A way to evaluate expressions. It sees the variables that an expression mentions, but no types
and no positions. -/
structure Evaluator (V S : Type) extends Values V where
  eval : (String → Option V) → Expr → Behaviour V S V
  eval_locals : ∀ f g e, (∀ n, .ofVariable n ∈ e.identifiers → f n = g n) → eval f e = eval g e
  eval_bare : ∀ f e, eval f e.bare = eval f e
  eval_name : ∀ f id arguments info,
    eval f ⟨.name id arguments, info⟩ = .ofOption (toValues.read f id)
  eval_unit : ∀ f info, eval f ⟨.unit, info⟩ = pure toValues.unit
  eval_tuple : ∀ f items info, eval f ⟨.tuple items, info⟩ = pack <$> items.mapM (eval f)
  eval_call : ∀ f q arguments info argument info',
    eval f ⟨.call ⟨.name (.ofCallable q) arguments, info⟩ argument, info'⟩ =
      eval f argument >>= Behaviour.call q
  /-- A comparison with an outcome tests equality. It has a value only where the other side is an
  outcome, too. -/
  eval_test : ∀ f e o operand, e.outcomeComparison? = some (o, operand) →
    eval f e = do
      let found ← Behaviour.inverse outcome (← eval f operand)
      return bool (found = o)
  /-- What a loop runs over. -/
  elements : V → Option (List V)
  /-- Qubits as asked for, given the sizes of the registers. -/
  acquire : QubitScopeKind → QubitInit → List V → Behaviour V S V
  release : QubitScopeKind → V → Behaviour V S Unit
  /-- A callable that the program gives no body. -/
  external : QualifiedName → V → Behaviour V S V

/-- What is given callables of `A` only calls no others and hands no others on. Which callables of `A`
are called or handed on is open: a library may know some that nobody named to it. -/
structure Evaluator.KeepsTo {V S : Type} (E : Evaluator V S) (A : QualifiedName → Prop) : Prop where
  eval : ∀ f e, (∀ q, .ofCallable q ∈ e.identifiers → A q) →
    (∀ n v, .ofVariable n ∈ e.identifiers → f n = some v → E.Within A v) →
    E.Confines A (E.Within A) (E.eval f e)
  elements : ∀ v vs, E.elements v = some vs → E.Within A v → ∀ w ∈ vs, E.Within A w
  acquire : ∀ kind init sizes, (∀ v ∈ sizes, E.Within A v) →
    E.Confines A (E.Within A) (E.acquire kind init sizes)
  release : ∀ kind v, E.Within A v → E.Confines A (fun _ => True) (E.release kind v)
  external : ∀ q a, A q → E.Within A a → E.Confines A (E.Within A) (E.external q a)

/-! ### Environments -/

/-- The variables with their values, the innermost first. -/
abbrev Env (V : Type) := List (String × V)

namespace Env
variable {V : Type}

def names (env : Env V) : List String := env.map (·.1)

def get : Env V → String → Option V
  | [], _ => none
  | b :: env, n => if b.1 = n then some b.2 else get env n

def set (n : String) (v : V) : Env V → Env V
  | [] => []
  | b :: env => if b.1 = n then (n, v) :: env else b :: set n v env

def setAll (env bindings : Env V) : Env V := bindings.foldl (fun env b => env.set b.1 b.2) env

/-- What is left of an inner environment outside: as many variables as there were. -/
def leave (outer inner : Env V) : Env V := inner.drop (inner.length - outer.length)

end Env

mutual
/-- The names of a pattern with the parts of a value. -/
def SymbolTuple.bind {V : Type} (E : Values V) : SymbolTuple → V → Option (Env V)
  | .name n, v => some [(n, v)]
  | .tuple items, v => (E.spread items.length v).bind (SymbolTuple.bindList E items)
  | .discard, _ => some []
  | .invalid, _ => none
def SymbolTuple.bindList {V : Type} (E : Values V) : List SymbolTuple → List V → Option (Env V)
  | [], _ => some []
  | _ :: _, [] => none
  | p :: ps, v :: vs => (p.bind E v).bind fun first => (SymbolTuple.bindList E ps vs).map (first ++ ·)
end

mutual
/-- Parameters as a pattern. One without a valid name takes any value. -/
def Params.pattern : Params → SymbolTuple
  | .item d => match d.name with
    | .valid n => .name n
    | .invalid => .discard
  | .tuple items => .tuple (Params.patterns items)
def Params.patterns : List Params → List SymbolTuple
  | [] => []
  | p :: ps => p.pattern :: Params.patterns ps
end

mutual
/-- The left side of an update as a pattern: names, tuples of them and places that are left out. -/
def Expr.pattern : Expr → SymbolTuple
  | ⟨kind, _⟩ => kind.pattern
def ExprKind.pattern : ExprKind → SymbolTuple
  | .name (.ofVariable n) _ => .name n
  | .tuple items => .tuple (Expr.patterns items)
  | .missing => .discard
  | _ => .invalid
def Expr.patterns : List Expr → List SymbolTuple
  | [] => []
  | e :: es => e.pattern :: Expr.patterns es
end

/-! ### Statements -/

/-- How statements end: the next one follows, or the callable returns. -/
inductive Flow (V : Type) where
  | next (env : Env V)
  | returned (v : V)

namespace Flow
variable {V S β : Type}

def mapEnv (f : Env V → Env V) : Flow V → Flow V
  | .next env => .next (f env)
  | .returned v => .returned v

/-- Goes on where the next statement follows. -/
def follow (next : Env V → Behaviour V S β) (exit : V → β) : Flow V → Behaviour V S β
  | .next env => next env
  | .returned v => pure (exit v)

/-- A loop goes on unless the callable returns. -/
def again : Flow V → Env V ⊕ Flow V
  | .next env => .inl env
  | .returned v => .inr (.returned v)

end Flow

section
variable {V S : Type}

/-- Runs a body and leaves its variables behind. -/
def Behaviour.within (env : Env V) (x : Behaviour V S (Flow V)) : Behaviour V S (Flow V) :=
  Flow.mapEnv env.leave <$> x

def Behaviour.forEach (body : V → Env V → Behaviour V S (Flow V)) :
    List V → Env V → Behaviour V S (Flow V)
  | [], env => pure (.next env)
  | v :: vs, env => body v env >>= Flow.follow (forEach body vs) .returned

variable (E : Evaluator V S)

/-- Whether a guard holds. -/
def Evaluator.holds (env : Env V) (guard : Expr) : Behaviour V S Bool :=
  E.eval env.get guard >>= .inverse E.bool

mutual
def Statement.run : Statement → Env V → Behaviour V S (Flow V)
  | ⟨.expression e, _⟩, env => do
    let _ ← E.eval env.get e
    return .next env
  | ⟨.returns e, _⟩, env => do
    return .returned (← E.eval env.get e)
  | ⟨.fails e, _⟩, env => E.eval env.get e >>= .fail
  | ⟨.binding b, _⟩, env => do
    let v ← E.eval env.get b.rhs
    let bindings ← .ofOption (b.lhs.bind E.toValues v)
    return .next (bindings ++ env)
  | ⟨.update lhs rhs, _⟩, env => do
    let v ← E.eval env.get rhs
    let bindings ← .ofOption (lhs.pattern.bind E.toValues v)
    return .next (env.setAll bindings)
  | ⟨.conditional branches, _⟩, env => branches.run env
  | ⟨.forEach symbols _ iterable body, _⟩, env => do
    let v ← E.eval env.get iterable
    let vs ← .ofOption (E.elements v)
    Behaviour.forEach (fun v env => do
      let bindings ← .ofOption (symbols.bind E.toValues v)
      .within env (body.run (bindings ++ env))) vs env
  | ⟨.whileLoop condition body, _⟩, env =>
    .iterate (fun env => do
      if ← E.holds env condition then
        return (← Behaviour.within env (body.run env)).again
      else
        return .inr (.next env)) env
  | ⟨.repeatUntil block success fixup, _⟩, env =>
    .iterate (fun env => do
      let flow ← block.run env
      flow.follow (fun inner => do
        if ← E.holds inner success then
          return .inr (.next (env.leave inner))
        else
          return (← Behaviour.within env (fixup.run inner)).again) (.inr ∘ .returned)) env
  | ⟨.qubits kind binding body, _⟩, env => do
    let sizes ← binding.rhs.sizes.mapM (E.eval env.get)
    let v ← E.acquire kind binding.rhs sizes
    let bindings ← .ofOption (binding.lhs.bind E.toValues v)
    let flow ← Behaviour.within env (body.run (bindings ++ env))
    E.release kind v
    return flow
/-- The first guard that holds decides which block runs. -/
def Branches.run : Branches → Env V → Behaviour V S (Flow V)
  | .done, env => pure (.next env)
  | .otherwise block, env => .within env (block.run env)
  | .arm condition block rest, env => do
    if ← E.holds env condition then .within env (block.run env) else rest.run env
def Block.run : Block → Env V → Behaviour V S (Flow V)
  | ⟨body, _, _⟩, env => body.run env
/-- The variables that the statements bind are still there at the end. -/
def Scope.run : Scope → Env V → Behaviour V S (Flow V)
  | ⟨statements, _⟩, env => Statement.runList statements env
def Statement.runList : List Statement → Env V → Behaviour V S (Flow V)
  | [], env => pure (.next env)
  | s :: ss, env => s.run env >>= Flow.follow (Statement.runList ss) .returned
end

end

/-! ### Programs -/

def Implementation.provided? : Implementation → Option (Params × Scope)
  | .provided params scope => some (params, scope)
  | .intrinsic | .external | .generated _ => none

/-- The parameters and the statements of the body, where it has any. -/
def Callable.provided? (c : Callable) : Option (Params × Scope) :=
  c.body?.bind (·.implementation.provided?)

/-- What runs when a callable is called. Of several callables with this name it is the first one. -/
def Compilation.body? (c : Compilation) (q : QualifiedName) : Option (Params × Scope) :=
  ((c.namespaces.flatMap Namespace.callables).find? (·.name = q)).bind Callable.provided?

section
variable {V S : Type} (E : Evaluator V S)

/-- Runs the operation of `(outcome, (operation, argument))` when the outcome is `o`. -/
def Evaluator.applyIf (o : Outcome) (a : V) : Behaviour V S V := fun s calls r s' =>
  ∃ found q b, a = E.pack [E.outcome found, E.pack [E.callable q, b]] ∧
    (if found = o then Behaviour.call q b else pure E.unit) s calls r s'

/-- Runs statements with the parameters bound to an argument. -/
def Evaluator.invoke (params : Params) (scope : Scope) (a : V) : Behaviour V S V := do
  let env ← .ofOption (params.pattern.bind E.toValues a)
  let flow ← scope.run E env
  flow.follow (fun _ => pure E.unit) id

/-- What a callable does with an argument. -/
def Evaluator.code (primitives : Primitives) (c : Compilation) (q : QualifiedName) (a : V) :
    Behaviour V S V :=
  if q = primitives.zero.name then E.applyIf .zero a
  else if q = primitives.one.name then E.applyIf .one a
  else match c.body? q with
    | some (params, scope) => E.invoke params scope a
    | none => E.external q a

/-- A call is answered so in a run of the program. -/
inductive Evaluator.Answers (primitives : Primitives) (c : Compilation) : Call V S → Prop where
  | mk {q : QualifiedName} {a : V} {s s' : S} {r : Except V V} {calls : List (Call V S)} :
    E.code primitives c q a s calls r s' → (∀ k ∈ calls, Evaluator.Answers primitives c k) →
      Evaluator.Answers primitives c ⟨q, a, s, r, s'⟩

end

/-! ### A small evaluator -/

namespace Values
variable {V S α β : Type} {E : Values V} {A : QualifiedName → Prop}

theorem Guarded.append : {xs ys : List (Call V S)} → E.Guarded A xs →
    ((∀ c ∈ xs, E.Within A (answer c)) → E.Guarded A ys) → E.Guarded A (xs ++ ys)
  | [], _, _, hys => hys fun _ hc => (by cases hc)
  | _ :: _, _, hxs, hys => ⟨hxs.1, hxs.2.1, fun hanswer =>
      (hxs.2.2 hanswer).append fun h => hys (List.forall_mem_cons.mpr ⟨hanswer, h⟩)⟩

namespace Confines
variable {P : α → Prop} {Q : β → Prop}

theorem pure {a : α} (h : P a) : E.Confines A P (Pure.pure a : Behaviour V S α) := by
  rintro s calls r s' ⟨rfl, rfl, rfl⟩
  exact ⟨trivial, fun _ => h⟩

theorem stuck : E.Confines A P (Behaviour.stuck : Behaviour V S α) := fun _ _ _ _ h => h.elim

theorem bind {x : Behaviour V S α} {f : α → Behaviour V S β} (hx : E.Confines A P x)
    (hf : ∀ a, P a → E.Confines A Q (f a)) : E.Confines A Q (x >>= f) := by
  rintro s calls r s' (⟨a, first, middle, later, hxa, hfa, rfl⟩ | ⟨v, hxv, rfl⟩)
  · obtain ⟨hfirst, ha⟩ := hx s first (.ok a) middle hxa
    refine ⟨hfirst.append fun h => (hf a (ha h) _ _ _ _ hfa).1, fun hcalls => ?_⟩
    obtain ⟨hclean, hlater⟩ := List.forall_mem_append.mp hcalls
    exact (hf a (ha hclean) _ _ _ _ hfa).2 hlater
  · exact hx s calls (.error v) s' hxv

theorem map {x : Behaviour V S α} {f : α → β} (hx : E.Confines A P x) (hf : ∀ a, P a → Q (f a)) :
    E.Confines A Q (f <$> x) := by
  rw [map_eq_pure_bind]
  exact hx.bind fun a ha => .pure (hf a ha)

theorem call {q : QualifiedName} {a : V} (hq : A q) (ha : E.Within A a) :
    E.Confines A (E.Within A) (Behaviour.call q a : Behaviour V S V) := by
  rintro s calls r s' rfl
  refine ⟨⟨hq, ha, fun _ => trivial⟩, fun hanswer => ?_⟩
  have hr := hanswer _ (List.mem_singleton_self _)
  cases r <;> exact hr

theorem inverse (f : α → V) (v : V) :
    E.Confines A (fun _ => True) (Behaviour.inverse f v : Behaviour V S α) := by
  rintro s calls r s' ⟨a, -, rfl, rfl, rfl⟩
  exact ⟨trivial, fun _ => trivial⟩

end Confines

end Values

namespace Sample

inductive Value where
  | bool (b : Bool)
  | outcome (o : Outcome)
  | callable (q : QualifiedName)
  | tuple (items : List Value)

mutual
def Value.callables : Value → List QualifiedName
  | .callable q => [q]
  | .tuple items => Value.callablesList items
  | .bool _ | .outcome _ => []
def Value.callablesList : List Value → List QualifiedName
  | [] => []
  | v :: vs => v.callables ++ Value.callablesList vs
end

theorem Value.mem_callablesList {q : QualifiedName} {vs : List Value} :
    q ∈ Value.callablesList vs ↔ ∃ v ∈ vs, q ∈ v.callables := by
  induction vs with
  | nil => simp [Value.callablesList]
  | cons v vs ih => simp [Value.callablesList, ih]

def Value.items? : Value → Option (List Value)
  | .tuple items => some items
  | .bool _ | .outcome _ | .callable _ => none

theorem Value.eq_of_items? {v : Value} {vs : List Value} (h : v.items? = some vs) : v = .tuple vs := by
  cases v with
  | tuple items => exact congrArg _ (Option.some.inj h)
  | _ => cases h

def values : Values Value where
  bool := .bool
  outcome := .outcome
  callable := .callable
  pack := .tuple
  spread n v := v.items?.filter (·.length = n)
  Reaches v q := q ∈ v.callables
  bool_injective _ _ h := Value.bool.inj h
  outcome_injective _ _ h := Value.outcome.inj h
  callable_injective _ _ h := Value.callable.inj h
  spread_pack vs := by simp [Value.items?]
  reaches_callable q := List.mem_singleton_self q
  reaches_pack _ _ := Value.mem_callablesList.mp
  reaches_spread n v vs q h hq := by
    obtain rfl := Value.eq_of_items? (Option.filter_eq_some_iff.mp h).1
    exact Value.mem_callablesList.mpr hq

/-- The states list the callables that ran. -/
abbrev Run := Behaviour Value (List String)

def tested (o : Outcome) (x : Run Value) : Run Value := do
  let found ← Behaviour.inverse Value.outcome (← x)
  return .bool (found = o)

def literal? : ExprKind → Option Outcome
  | .outcome o => some o
  | _ => none

/-- Only a comparison with an outcome has a value. -/
def compared (op : BinaryOp) (lhs rhs : ExprKind) (x y : Run Value) : Run Value :=
  match op, literal? lhs, literal? rhs with
  | .eq, some o, _ => tested o y
  | .eq, none, some o => tested o x
  | _, _, _ => .stuck

/-- Only a callable that is named can be called. -/
def applied : ExprKind → Run Value → Run Value
  | .name (.ofCallable q) _, x => x >>= .call q
  | _, _ => .stuck

mutual
def eval (f : String → Option Value) : Expr → Run Value
  | ⟨kind, _⟩ => evalKind f kind
def evalKind (f : String → Option Value) : ExprKind → Run Value
  | .name id _ => .ofOption (values.read f id)
  | .unit => pure values.unit
  | .outcome o => pure (.outcome o)
  | .tuple items => .tuple <$> evalList f items
  | .binary op lhs rhs => compared op lhs.kind rhs.kind (eval f lhs) (eval f rhs)
  | .call callee argument => applied callee.kind (eval f argument)
  | .array _ | .int _ | .double _ | .bool _ | .string _ | .unary _ _ | .item _ _
  | .choice _ _ _ => .stuck
  | .missing | .invalid => .stuck
def evalList (f : String → Option Value) : List Expr → Run (List Value)
  | [] => pure []
  | e :: es => do
    let v ← eval f e
    return v :: (← evalList f es)
end

theorem evalList_eq (f : String → Option Value) (es : List Expr) : evalList f es = es.mapM (eval f) := by
  induction es with
  | nil => rfl
  | cons e es ih =>
    rw [List.mapM_cons, ← ih]
    rfl

mutual
theorem eval_locals {f g : String → Option Value} : (e : Expr) →
    (∀ n, .ofVariable n ∈ e.identifiers → f n = g n) → eval f e = eval g e
  | ⟨kind, _⟩, h => evalKind_locals kind h
theorem evalKind_locals {f g : String → Option Value} : (k : ExprKind) →
    (∀ n, .ofVariable n ∈ k.identifiers → f n = g n) → evalKind f k = evalKind g k
  | .name (.ofVariable n) _, h => congrArg Behaviour.ofOption (h n (List.mem_singleton_self _))
  | .name (.ofCallable _) _, _ | .name .invalid _, _ | .unit, _ | .outcome _, _ => rfl
  | .tuple items, h => congrArg (Value.tuple <$> ·) (evalList_locals items h)
  | .binary op lhs rhs, h => by
    rw [evalKind, evalKind, eval_locals lhs fun n hn => h n (List.mem_append_left _ hn),
      eval_locals rhs fun n hn => h n (List.mem_append_right _ hn)]
  | .call callee argument, h => by
    rw [evalKind, evalKind, eval_locals argument fun n hn => h n (List.mem_append_right _ hn)]
  | .array _, _ | .int _, _ | .double _, _ | .bool _, _ | .string _, _ | .unary _ _, _ => rfl
  | .item _ _, _ | .choice _ _ _, _ | .missing, _ | .invalid, _ => rfl
theorem evalList_locals {f g : String → Option Value} : (es : List Expr) →
    (∀ n, .ofVariable n ∈ Expr.identifiersList es → f n = g n) → evalList f es = evalList g es
  | [], _ => rfl
  | e :: es, h => by
    rw [evalList, evalList, eval_locals e fun n hn => h n (List.mem_append_left _ hn),
      evalList_locals es fun n hn => h n (List.mem_append_right _ hn)]
end

theorem kind_bare (e : Expr) : e.bare.kind = e.kind.bare := by
  cases e
  rfl

theorem literal?_bare (k : ExprKind) : literal? k.bare = literal? k := by cases k <;> rfl

theorem compared_bare (op : BinaryOp) (lhs rhs : ExprKind) (x y : Run Value) :
    compared op lhs.bare rhs.bare x y = compared op lhs rhs x y := by
  unfold compared
  rw [literal?_bare, literal?_bare]

theorem applied_bare (k : ExprKind) (x : Run Value) : applied k.bare x = applied k x := by
  cases k with
  | name id arguments => cases id <;> rfl
  | _ => rfl

mutual
theorem eval_bare (f : String → Option Value) : (e : Expr) → eval f e.bare = eval f e
  | ⟨kind, _⟩ => evalKind_bare f kind
theorem evalKind_bare (f : String → Option Value) : (k : ExprKind) → evalKind f k.bare = evalKind f k
  | .tuple items => congrArg (Value.tuple <$> ·) (evalList_bare f items)
  | .binary op lhs rhs => by
    rw [ExprKind.bare, evalKind, evalKind, eval_bare f lhs, eval_bare f rhs, kind_bare, kind_bare,
      compared_bare]
  | .call callee argument => by
    rw [ExprKind.bare, evalKind, evalKind, eval_bare f argument, kind_bare, applied_bare]
  | .name _ _ | .unit | .outcome _ | .array _ | .int _ | .double _ | .bool _ | .string _ => rfl
  | .unary _ _ | .item _ _ | .choice _ _ _ | .missing | .invalid => rfl
theorem evalList_bare (f : String → Option Value) :
    (es : List Expr) → evalList f (Expr.bareList es) = evalList f es
  | [] => rfl
  | e :: es => by rw [Expr.bareList, evalList, evalList, eval_bare f e, evalList_bare f es]
end

theorem eval_test (f : String → Option Value) (e : Expr) (o : Outcome) (operand : Expr)
    (h : e.outcomeComparison? = some (o, operand)) : eval f e = tested o (eval f operand) := by
  obtain ⟨kind, info⟩ := e
  cases kind with
  | binary op lhs rhs =>
    obtain ⟨lkind, linfo⟩ := lhs
    obtain ⟨rkind, rinfo⟩ := rhs
    cases op with
    | eq =>
      change compared .eq lkind rkind _ _ = _
      cases lkind with
      | outcome o' =>
        cases h
        rfl
      | _ =>
        cases rkind with
        | outcome o' =>
          cases h
          rfl
        | _ => cases h
    | _ => cases h
  | _ => cases h

section
variable {A : QualifiedName → Prop}

theorem tested_confines {P : Value → Prop} {x : Run Value} (o : Outcome)
    (hx : values.Confines A P x) : values.Confines A (values.Within A) (tested o x) :=
  hx.bind fun _ _ => (Values.Confines.inverse _ _).bind fun _ _ => .pure fun _ hq => (by cases hq)

theorem compared_confines {x y : Run Value} (op : BinaryOp) (lhs rhs : ExprKind)
    (hx : values.Confines A (values.Within A) x) (hy : values.Confines A (values.Within A) y) :
    values.Confines A (values.Within A) (compared op lhs rhs x y) := by
  unfold compared
  split
  · exact tested_confines _ hy
  · exact tested_confines _ hx
  · exact .stuck

theorem applied_confines {x : Run Value} (callee : ExprKind)
    (hcallee : ∀ q, .ofCallable q ∈ callee.identifiers → A q)
    (hx : values.Confines A (values.Within A) x) :
    values.Confines A (values.Within A) (applied callee x) := by
  unfold applied
  split
  · exact hx.bind fun a ha => .call (hcallee _ (List.mem_singleton_self _)) ha
  · exact .stuck

mutual
theorem eval_confines {f : String → Option Value} : (e : Expr) →
    (∀ q, .ofCallable q ∈ e.identifiers → A q) →
    (∀ n v, .ofVariable n ∈ e.identifiers → f n = some v → values.Within A v) →
    values.Confines A (values.Within A) (eval f e)
  | ⟨kind, _⟩, hq, hn => evalKind_confines kind hq hn
theorem evalKind_confines {f : String → Option Value} : (k : ExprKind) →
    (∀ q, .ofCallable q ∈ k.identifiers → A q) →
    (∀ n v, .ofVariable n ∈ k.identifiers → f n = some v → values.Within A v) →
    values.Confines A (values.Within A) (evalKind f k)
  | .name (.ofVariable n) _, _, hn => by
    rw [evalKind, Values.read]
    cases hv : f n with
    | none => exact .stuck
    | some v => exact .pure (hn n v (List.mem_singleton_self _) hv)
  | .name (.ofCallable q) _, hq, _ => .pure fun p hp =>
      List.mem_singleton.mp hp ▸ hq q (List.mem_singleton_self _)
  | .unit, _, _ | .outcome _, _, _ => .pure fun _ hq => (by cases hq)
  | .tuple items, hq, hn => (evalList_confines items hq hn).map fun vs hvs q hq => by
      obtain ⟨v, hv, hq⟩ := Value.mem_callablesList.mp hq
      exact hvs v hv q hq
  | .binary op lhs rhs, hq, hn => compared_confines op _ _
      (eval_confines lhs (fun q h => hq q (List.mem_append_left _ h))
        fun n v h => hn n v (List.mem_append_left _ h))
      (eval_confines rhs (fun q h => hq q (List.mem_append_right _ h))
        fun n v h => hn n v (List.mem_append_right _ h))
  | .call ⟨kind, _⟩ argument, hq, hn => applied_confines kind
      (fun q h => hq q (List.mem_append_left _ h))
      (eval_confines argument (fun q h => hq q (List.mem_append_right _ h))
        fun n v h => hn n v (List.mem_append_right _ h))
  | .name .invalid _, _, _ | .array _, _, _ | .int _, _, _ | .double _, _, _ => .stuck
  | .bool _, _, _ | .string _, _, _ | .unary _ _, _, _ | .item _ _, _, _ => .stuck
  | .choice _ _ _, _, _ | .missing, _, _ | .invalid, _, _ => .stuck
theorem evalList_confines {f : String → Option Value} : (es : List Expr) →
    (∀ q, .ofCallable q ∈ Expr.identifiersList es → A q) →
    (∀ n v, .ofVariable n ∈ Expr.identifiersList es → f n = some v → values.Within A v) →
    values.Confines A (fun vs => ∀ v ∈ vs, values.Within A v) (evalList f es)
  | [], _, _ => .pure fun _ hv => (by cases hv)
  | e :: es, hq, hn =>
    (eval_confines e (fun q h => hq q (List.mem_append_left _ h))
      fun n v h => hn n v (List.mem_append_left _ h)).bind fun _ hv =>
    (evalList_confines es (fun q h => hq q (List.mem_append_right _ h))
      fun n v h => hn n v (List.mem_append_right _ h)).bind fun _ hvs =>
        .pure (List.forall_mem_cons.mpr ⟨hv, hvs⟩)
end

/-- What a callable without a body gives back: measuring gives one, and `Default` gives `X`, whatever
it is called on. -/
def libraryResult (name : String) : Value :=
  if name = "M" then .outcome .one
  else if name = "Default" then .callable ⟨"Sample", "X"⟩
  else values.unit

theorem libraryResult_within (hX : A ⟨"Sample", "X"⟩) (name : String) :
    values.Within A (libraryResult name) := by
  intro q hq
  unfold libraryResult at hq
  split at hq
  · cases hq
  split at hq
  · obtain rfl := List.mem_singleton.mp hq
    exact hX
  · cases hq

end

/-- Names, tuples, outcomes, calls and tests are evaluated. What has no body is noted when it runs. -/
def evaluator : Evaluator Value (List String) where
  toValues := values
  eval := eval
  eval_locals _ _ e := eval_locals e
  eval_bare := eval_bare
  eval_name _ _ _ _ := rfl
  eval_unit _ _ := rfl
  eval_tuple f items _ := congrArg (Value.tuple <$> ·) (evalList_eq f items)
  eval_call _ _ _ _ _ _ := rfl
  eval_test := eval_test
  elements := Value.items?
  acquire _ _ _ := pure values.unit
  release _ _ := pure ()
  external q _ s calls r s' := calls = [] ∧ r = .ok (libraryResult q.name) ∧ s' = s ++ [q.name]

/-- `X` is the one callable that is handed on without being named. -/
theorem evaluator_keepsTo {A : QualifiedName → Prop} (hX : A ⟨"Sample", "X"⟩) : evaluator.KeepsTo A where
  eval _ e := eval_confines e
  elements v vs h hv w hw q hq := by
    obtain rfl := Value.eq_of_items? h
    exact hv q (Value.mem_callablesList.mpr ⟨w, hw, hq⟩)
  acquire _ _ _ _ := .pure fun _ hq => (by cases hq)
  release _ _ _ := .pure trivial
  external q a _ _ := by
    rintro s calls r s' ⟨rfl, rfl, rfl⟩
    exact ⟨trivial, fun _ => libraryResult_within hX q.name⟩

end Sample

end OutcomeControl
