import OutcomeControl.Program.Statement

/-! Conditionals that test a measurement outcome, and the blocks that can be moved out of them. -/

namespace OutcomeControl

/-- The parts of `if condition == outcome { body } else { default }`. -/
structure OutcomeTest where
  outcome : Outcome
  condition : Expr
  body : Scope
  default : Option Scope

/-- The outcome literal of a comparison and its other side. The left side is looked at first. -/
def Expr.outcomeComparison? (e : Expr) : Option (Outcome × Expr) := match e.kind with
  | .binary .eq lhs rhs => match lhs.kind, rhs.kind with
    | .outcome o, _ => some (o, rhs)
    | _, .outcome o => some (o, lhs)
    | _, _ => none
  | _ => none

/-- The test of a conditional with exactly one guard, if it compares with an outcome literal. -/
def Statement.outcomeTest? (s : Statement) : Option OutcomeTest := match s.kind with
  | .conditional branches => match branches.arms with
    | [(guard, block)] => guard.outcomeComparison?.map fun (outcome, condition) =>
      ⟨outcome, condition, block.body, branches.default?.map (·.body)⟩
    | _ => none
  | _ => none

/-- A call of the unit type that stands as a statement. -/
def Statement.isUnitCall (s : Statement) : Bool := match s.kind with
  | .expression e => e.ty.isUnit && match e.kind with
    | .call _ _ => true
    | _ => false
  | _ => false

/-- Nothing but calls of the unit type. -/
def Scope.isCallSequence (s : Scope) : Bool := s.statements.all Statement.isUnitCall

/-- Every block can run as an operation of its own. -/
def OutcomeTest.isSeparable (t : OutcomeTest) : Bool :=
  t.body.isCallSequence && t.default.all Scope.isCallSequence

end OutcomeControl
