import OutcomeControl.Lowering.Hoisting

/-! The statements that take the place of an outcome test: a binding of its condition where that
is more than a name, and a call of a primitive for each block. -/

namespace OutcomeControl

namespace Target

/-- The operation by name, with the type parameters of the caller as type arguments. -/
def reference (t : Target) (frame : Frame) : Expr :=
  (Expr.globalName t.name (some frame.typeArguments) (.operationOf t.paramTy .unit)).withResolutions
    (frame.parameterNames.map fun p => ⟨t.name, p, .parameterOf frame.name p⟩)

end Target

/-- The values of the captured variables in one expression. -/
def capturedValues : List Variable → Expr
  | [] => .unit
  | vs => .tuple (vs.map fun v => .localName v.name v.ty)

/-- The call `primitive(condition, (target, captured))`. -/
def Primitive.controlCall (p : Primitive) (condition : Expr) (target : Target)
    (captured : List Variable) (frame : Frame) : Expr :=
  let arguments := capturedValues captured
  let callee := Expr.globalName p.name none p.controlTy
  (Expr.call callee (.tuple [condition, .tuple [target.reference frame, arguments]]) .unit).withResolutions
    (p.firstTypeParameter?.map fun name => ⟨p.name, name, arguments.ty⟩).toList

/-- The call as a statement in the place of `source`. It has no location: no text stands for it. -/
def Statement.replacedBy (source : Statement) (call : Expr) : Statement :=
  ⟨.expression call, { source.info with location := none }⟩

/-- The binding `let name = value` in the place of `source`, which declares `name` besides what `source`
declares. -/
def Statement.bindingOf (source : Statement) (name : String) (value : Expr) : Statement :=
  let declared : Variable :=
    { name
      ty := value.ty
      position := source.info.location.map (·.offset)
      range := (source.info.location.map (·.range)).getD .origin }
  ⟨.binding ⟨.immutable, .name name, value⟩,
    { source.info with declarations := source.info.declarations ++ [declared] }⟩

/-- Binds `value` to a fresh variable ahead of what replaces `source`, and refers to it. -/
def bindCondition (source : Statement) (value : Expr) : Pass (Statement × Expr) := do
  let name ← Pass.fresh (·.freshVariable)
  Pass.note (.bound value.ty name)
  return (source.bindingOf name value, .localName name value.ty)

end OutcomeControl
