import OutcomeControl.Program.Expr

/-! Statements, the scopes that hold them, and the variables they declare.

A conditional is a chain (`Branches`): guarded blocks tried in order, and at the end
nothing or the block that runs when no guard holds. -/

namespace OutcomeControl

/-- A declared variable: `ν` is what can stand for its name. -/
structure Declaration (ν : Type) where
  name : ν
  ty : Ty
  inferred : Inferred := {}
  position : Option Position := none
  range : Span := .origin

abbrev Variable := Declaration String

/-- What the left side of a binding names. -/
inductive SymbolTuple where
  | name (n : String)
  | tuple (items : List SymbolTuple)
  | discard
  | invalid

inductive BindingKind where
  | immutable | mutable
deriving DecidableEq

structure Binding (ρ : Type) where
  kind : BindingKind
  lhs : SymbolTuple
  rhs : ρ

inductive QubitScopeKind where
  | allocate | borrow
deriving DecidableEq

/-- The qubits a scope is given. -/
inductive QubitInit where
  | single
  | register (size : Expr)
  | tuple (items : List QubitInit)

structure StatementInfo where
  declarations : List Variable := []
  location : Option Location := none
  comments : Comments := {}

mutual
structure Statement where
  kind : StatementKind
  info : StatementInfo

inductive StatementKind where
  | expression (e : Expr)
  | returns (e : Expr)
  | fails (e : Expr)
  | binding (b : Binding Expr)
  | update (lhs rhs : Expr)
  | conditional (branches : Branches)
  | forEach (symbols : SymbolTuple) (itemTy : Ty) (iterable : Expr) (body : Scope)
  | whileLoop (condition : Expr) (body : Scope)
  | repeatUntil (block : Block) (success : Expr) (fixup : Block)
  | qubits (kind : QubitScopeKind) (binding : Binding QubitInit) (body : Scope)

/-- Guarded blocks in the order they are tried, and what follows when none applies. -/
inductive Branches where
  | done
  | otherwise (block : Block)
  | arm (condition : Expr) (block : Block) (rest : Branches)

structure Block where
  body : Scope
  location : Option Location := none
  comments : Comments := {}

/-- Statements in order, and the variables visible where they start. -/
structure Scope where
  statements : List Statement
  known : List Variable := []
end

namespace Branches

/-- The guards with their blocks. -/
def arms : Branches → List (Expr × Block)
  | .done | .otherwise _ => []
  | .arm c b rest => (c, b) :: rest.arms

/-- The block that runs when no guard holds. -/
def default? : Branches → Option Block
  | .done => none
  | .otherwise b => some b
  | .arm _ _ rest => rest.default?

/-- The chain of these guarded blocks, then the default block if there is one. -/
def ofArms (default : Option Block) : List (Expr × Block) → Branches
  | [] => match default with
    | none => .done
    | some b => .otherwise b
  | (c, b) :: rest => .arm c b (ofArms default rest)

end Branches

namespace Statement

/-- A statement with nothing declared, no location and no comments. -/
def plain (kind : StatementKind) : Statement := ⟨kind, {}⟩

def expression (e : Expr) : Statement := plain (.expression e)

/-- A conditional whose blocks have no location and no comments. -/
def conditional (arms : List (Expr × Scope)) (default : Option Scope) : Statement :=
  plain (.conditional (.ofArms (default.map fun s => ⟨s, none, {}⟩)
    (arms.map fun (c, s) => (c, ⟨s, none, {}⟩))))

end Statement

end OutcomeControl
