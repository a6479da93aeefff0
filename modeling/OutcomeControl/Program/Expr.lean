import OutcomeControl.Number.Double
import OutcomeControl.Program.Ty

/-! Expressions: what is computed (`ExprKind`) and what is known about it (`ExprInfo`). -/

namespace OutcomeControl

/-- The result of measuring a qubit. -/
inductive Outcome where
  | zero | one
deriving DecidableEq

namespace Outcome

def opposite : Outcome → Outcome
  | .zero => .one
  | .one => .zero

def text : Outcome → String
  | .zero => "Zero"
  | .one => "One"

end Outcome

/-- What a name in an expression refers to. -/
inductive Identifier where
  | ofVariable (name : String)
  | ofCallable (name : QualifiedName)
  | invalid
deriving DecidableEq

inductive BinaryOp where
  | eq | ne | lt | le | gt | ge | add | sub | mul | div | mod | and | or
deriving DecidableEq

def BinaryOp.symbol : BinaryOp → String
  | .eq => "==" | .ne => "!=" | .lt => "<" | .le => "<=" | .gt => ">" | .ge => ">="
  | .add => "+" | .sub => "-" | .mul => "*" | .div => "/" | .mod => "%"
  | .and => "and" | .or => "or"

inductive UnaryOp where
  | not | neg
deriving DecidableEq

/-- What stands before the operand. -/
def UnaryOp.symbol : UnaryOp → String
  | .not => "not "
  | .neg => "-"

/-- What is inferred about an expression or a variable. -/
structure Inferred where
  isMutable : Bool := false
  hasSideEffects : Bool := false
deriving DecidableEq

/-- The type that stands for one type parameter of a callable where it is used. -/
structure Resolution where
  callable : QualifiedName
  parameter : String
  ty : Ty

structure ExprInfo where
  resolutions : List Resolution := []
  ty : Ty
  inferred : Inferred := {}
  range : Option Span := none

mutual
structure Expr where
  kind : ExprKind
  info : ExprInfo

inductive ExprKind where
  | unit
  | name (id : Identifier) (arguments : Option (List Ty))
  | tuple (items : List Expr)
  | array (items : List Expr)
  | int (n : Int64)
  | double (d : Double)
  | bool (b : Bool)
  | string (s : String)
  | outcome (o : Outcome)
  | binary (op : BinaryOp) (lhs rhs : Expr)
  | unary (op : UnaryOp) (operand : Expr)
  | item (array index : Expr)
  | choice (condition yes no : Expr)
  | call (callee argument : Expr)
  | missing
  | invalid
end

namespace Expr

def ty (e : Expr) : Ty := e.info.ty

/-- An expression of which nothing is known but its type. -/
def plain (kind : ExprKind) (ty : Ty) : Expr := ⟨kind, { ty }⟩

def unit : Expr := plain .unit .unit

def int (n : Int64) : Expr := plain (.int n) .int

def bool (b : Bool) : Expr := plain (.bool b) .bool

def outcome (o : Outcome) : Expr := plain (.outcome o) .outcome

def localName (name : String) (ty : Ty) : Expr := plain (.name (.ofVariable name) none) ty

def globalName (name : QualifiedName) (arguments : Option (List Ty)) (ty : Ty) : Expr :=
  plain (.name (.ofCallable name) arguments) ty

/-- A tuple of values, of the tuple type of their types. -/
def tuple (items : List Expr) : Expr := plain (.tuple items) (.tupleOf (items.map ty))

def binary (op : BinaryOp) (lhs rhs : Expr) (ty : Ty) : Expr := plain (.binary op lhs rhs) ty

def equals (lhs rhs : Expr) : Expr := binary .eq lhs rhs .bool

/-- A call counts as having side effects. -/
def call (callee argument : Expr) (ty : Ty) : Expr :=
  ⟨.call callee argument, { ty, inferred := { hasSideEffects := true } }⟩

def withResolutions (e : Expr) (resolutions : List Resolution) : Expr :=
  { e with info := { e.info with resolutions } }

def isName (e : Expr) : Bool := match e.kind with
  | .name _ _ => true
  | _ => false

end Expr

end OutcomeControl
