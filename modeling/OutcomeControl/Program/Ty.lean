import OutcomeControl.Program.Source

/-! The types that expressions and declarations carry.

A type parameter belongs to the callable that declares it, so two parameters of one
name are different types when their origins differ. -/

namespace OutcomeControl

/-- A type parameter, the callable that declares it, and where it was written. -/
structure TypeParameter where
  origin : QualifiedName
  name : String
  range : Option Span := none
deriving DecidableEq

/-- What an operation offers besides running forward. -/
inductive Characteristic where
  | adjointable | controllable
deriving DecidableEq

inductive Ty where
  | unit | int | double | bool | string | outcome | qubit | range
  | array (item : Ty)
  | tuple (items : List Ty)
  | custom (name : QualifiedName)
  | parameter (p : TypeParameter)
  | operation (input output : Ty) (characteristics : List Characteristic)
  | function (input output : Ty)
  | missing | invalid

namespace Ty

/-- The type of a tuple of values of these types; without items it is the unit type. -/
def tupleOf : List Ty → Ty
  | [] => .unit
  | items => .tuple items

/-- An operation that offers nothing besides running forward. -/
def operationOf (input output : Ty) : Ty := .operation input output []

/-- The parameter `name` of the callable `origin`. -/
def parameterOf (origin : QualifiedName) (name : String) : Ty := .parameter { origin, name }

def isUnit : Ty → Bool
  | .unit => true
  | _ => false

end Ty

end OutcomeControl
