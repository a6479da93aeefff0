import OutcomeControl.Program.Ty

/-! Callables that are known by name and run an operation when a measurement gave one outcome. -/

namespace OutcomeControl

/-- A known callable and the names of its type parameters. -/
structure Primitive where
  name : QualifiedName
  typeParameters : List String
deriving DecidableEq

namespace Primitive

/-- A control primitive has one type parameter. -/
def control (space name : String) : Primitive := ⟨⟨space, name⟩, ["T"]⟩

/-- The parameter that stands for the argument type of the controlled operation. -/
def firstTypeParameter? (p : Primitive) : Option String := p.typeParameters.head?

/-- The type of what the controlled operation is run on. -/
def argumentTy (p : Primitive) : Ty := match p.firstTypeParameter? with
  | some name => .parameterOf p.name name
  | none => .missing

/-- From an outcome, an operation and its argument to nothing. -/
def controlTy (p : Primitive) : Ty :=
  .operationOf
    (.tupleOf [.outcome, .tupleOf [.operationOf p.argumentTy .unit, p.argumentTy]]) .unit

end Primitive

end OutcomeControl
