import OutcomeControl.Lowering.NameSupply
import OutcomeControl.Lowering.Report
import OutcomeControl.Program.Parameters

/-! Moving a block into an operation of its own.

The new operation takes the variables known to the block as one tuple, declares the type
parameters of the callable that the block comes from and owns them. -/

namespace OutcomeControl

/-- What the pass remembers while it works. -/
structure Progress where
  names : NameSupply
  /-- The operations made so far. -/
  hoisted : List Callable := []
  report : List Event := []

abbrev Pass := StateM Progress

namespace Pass

def note (event : Event) : Pass Unit := modify fun p => { p with report := p.report ++ [event] }

def keep (c : Callable) : Pass Unit := modify fun p => { p with hoisted := p.hoisted ++ [c] }

/-- Draws a name from the supply. -/
def fresh {α : Type} (draw : NameSupply → α × NameSupply) : Pass α :=
  modifyGet fun p => let (a, names) := draw p.names; (a, { p with names })

end Pass

/-- The callable whose body is lowered. -/
structure Frame where
  name : QualifiedName
  typeParameters : List Symbol := []
  sourceFile : String := ""

namespace Frame

def ofCallable (c : Callable) : Frame := ⟨c.name, c.signature.typeParameters, c.sourceFile⟩

/-- The names of the type parameters that are valid. -/
def parameterNames (f : Frame) : List String := f.typeParameters.filterMap Symbol.name?

/-- The type parameters as types of this callable. -/
def typeArguments (f : Frame) : List Ty := f.parameterNames.map (Ty.parameterOf f.name)

end Frame

/-- A hoisted operation as seen from where it is called: the type of its argument is in terms of
the type parameters of the caller. -/
structure Target where
  name : QualifiedName
  paramTy : Ty

/-- A variable as a parameter. -/
def Variable.toParams (v : Variable) : Params := .item { v with name := Symbol.valid v.name }

/-- The operation that runs `body`, still in terms of the type parameters of `frame`. -/
def Frame.operation (f : Frame) (name : QualifiedName) (body : Scope) (comments : Comments) :
    Callable :=
  let params := Params.tuple (body.known.map Variable.toParams)
  let signature : Signature :=
    { typeParameters := f.typeParameters
      argument := .tupleOf (body.known.map (·.ty))
      result := .unit }
  { kind := .operation
    name
    sourceFile := f.sourceFile
    signature
    params
    specializations :=
      [{ kind := .body
         parent := name
         sourceFile := f.sourceFile
         signature
         implementation := .provided params body
         comments }]
    comments }

/-- Makes `body` an operation beside the callable of `frame`. -/
def hoist (frame : Frame) (body : Scope) (comments : Comments) : Pass Target := do
  let name ← Pass.fresh (·.freshCallable frame.name)
  Pass.note (.hoisted body.statements.length frame.name name body.known.length)
  Pass.keep ((frame.operation name body comments).reroute frame.name name)
  return ⟨name, .tupleOf (body.known.map (·.ty))⟩

end OutcomeControl
