import OutcomeControl.Format.Value
import OutcomeControl.Program.Callable

/-! Program trees as values of the format, and back.

Each type has `toValue` and `ofValue`; `ofValue` accepts exactly the values of the type's shape. -/

namespace OutcomeControl

/-! ### Source -/

namespace QualifiedName

def toValue (q : QualifiedName) : Value := .ofList [.text q.space, .text q.name]

def ofValue : Value → Option QualifiedName
  | .cons space (.cons name .nil) => do return ⟨← space.text?, ← name.text?⟩
  | _ => none

end QualifiedName

namespace Position

def toValue (p : Position) : Value := .ofList [.word p.line, .word p.column]

def ofValue : Value → Option Position
  | .cons line (.cons column .nil) => do return ⟨← line.word?, ← column.word?⟩
  | _ => none

end Position

namespace Span

def toValue (s : Span) : Value := .ofList [s.start.toValue, s.stop.toValue]

def ofValue : Value → Option Span
  | .cons start (.cons stop .nil) => do return ⟨← Position.ofValue start, ← Position.ofValue stop⟩
  | _ => none

end Span

namespace Location

def toValue (l : Location) : Value := .ofList [l.offset.toValue, l.range.toValue]

def ofValue : Value → Option Location
  | .cons offset (.cons range .nil) => do return ⟨← Position.ofValue offset, ← Span.ofValue range⟩
  | _ => none

end Location

namespace Comments

def lines (ls : List String) : Value := .ofList (ls.map .text)

def toValue (c : Comments) : Value := .ofList [lines c.opening, lines c.closing]

def ofValue : Value → Option Comments
  | .cons opening (.cons closing .nil) => do
    return ⟨← opening.list? Value.text?, ← closing.list? Value.text?⟩
  | _ => none

end Comments

def optionalLocation (l : Option Location) : Value := .ofOption (l.map Location.toValue)

def optionalSpan (s : Option Span) : Value := .ofOption (s.map Span.toValue)

/-! ### Types -/

namespace TypeParameter

def toValue (p : TypeParameter) : Value :=
  .ofList [p.origin.toValue, .text p.name, optionalSpan p.range]

def ofValue : Value → Option TypeParameter
  | .cons origin (.cons name (.cons range .nil)) => do
    return ⟨← QualifiedName.ofValue origin, ← name.text?, ← range.option? Span.ofValue⟩
  | _ => none

end TypeParameter

namespace Characteristic

def toValue : Characteristic → Value
  | .adjointable => .bare "Adjointable"
  | .controllable => .bare "Controllable"

def ofValue : Value → Option Characteristic
  | .tag "Adjointable" .nil => some .adjointable
  | .tag "Controllable" .nil => some .controllable
  | _ => none

/-- Characteristics stand in a record of their own. -/
def listToValue (cs : List Characteristic) : Value := .ofList [.ofList (cs.map toValue)]

def listOfValue : Value → Option (List Characteristic)
  | .cons cs .nil => cs.list? ofValue
  | _ => none

end Characteristic

namespace Ty

mutual
def toValue : Ty → Value
  | .unit => .bare "Unit"
  | .int => .bare "Int"
  | .double => .bare "Double"
  | .bool => .bare "Bool"
  | .string => .bare "String"
  | .outcome => .bare "Outcome"
  | .qubit => .bare "Qubit"
  | .range => .bare "Range"
  | .array item => .tag "Array" item.toValue
  | .tuple items => .tag "Tuple" (listToValue items)
  | .custom name => .tag "UserDefined" name.toValue
  | .parameter p => .tag "TypeParameter" p.toValue
  | .operation input output cs =>
    .tag "Operation" (.ofList [input.toValue, output.toValue, Characteristic.listToValue cs])
  | .function input output => .tag "Function" (.ofList [input.toValue, output.toValue])
  | .missing => .bare "Missing"
  | .invalid => .bare "Invalid"
def listToValue : List Ty → Value
  | [] => .nil
  | t :: ts => .cons t.toValue (listToValue ts)
end

mutual
def ofValue : Value → Option Ty
  | .tag "Unit" .nil => some .unit
  | .tag "Int" .nil => some .int
  | .tag "Double" .nil => some .double
  | .tag "Bool" .nil => some .bool
  | .tag "String" .nil => some .string
  | .tag "Outcome" .nil => some .outcome
  | .tag "Qubit" .nil => some .qubit
  | .tag "Range" .nil => some .range
  | .tag "Array" item => do return .array (← ofValue item)
  | .tag "Tuple" items => do return .tuple (← listOfValue items)
  | .tag "UserDefined" name => do return .custom (← QualifiedName.ofValue name)
  | .tag "TypeParameter" p => do return .parameter (← TypeParameter.ofValue p)
  | .tag "Operation" (.cons input (.cons output (.cons cs .nil))) => do
    return .operation (← ofValue input) (← ofValue output) (← Characteristic.listOfValue cs)
  | .tag "Function" (.cons input (.cons output .nil)) => do
    return .function (← ofValue input) (← ofValue output)
  | .tag "Missing" .nil => some .missing
  | .tag "Invalid" .nil => some .invalid
  | _ => none
def listOfValue : Value → Option (List Ty)
  | .nil => some []
  | .cons v vs => do return (← ofValue v) :: (← listOfValue vs)
  | _ => none
end

end Ty

/-! ### Expressions -/

namespace Outcome

def toValue : Outcome → Value
  | .zero => .bare "Zero"
  | .one => .bare "One"

def ofValue : Value → Option Outcome
  | .tag "Zero" .nil => some .zero
  | .tag "One" .nil => some .one
  | _ => none

end Outcome

namespace Identifier

def toValue : Identifier → Value
  | .ofVariable name => .tag "LocalVariable" (.text name)
  | .ofCallable name => .tag "GlobalCallable" name.toValue
  | .invalid => .bare "InvalidIdentifier"

def ofValue : Value → Option Identifier
  | .tag "LocalVariable" (.text name) => some (.ofVariable name)
  | .tag "GlobalCallable" name => do return .ofCallable (← QualifiedName.ofValue name)
  | .tag "InvalidIdentifier" .nil => some .invalid
  | _ => none

end Identifier

namespace BinaryOp

def toValue : BinaryOp → Value
  | .eq => .bare "Eq" | .ne => .bare "Neq" | .lt => .bare "Lt" | .le => .bare "Lte"
  | .gt => .bare "Gt" | .ge => .bare "Gte" | .add => .bare "Add" | .sub => .bare "Sub"
  | .mul => .bare "Mul" | .div => .bare "Div" | .mod => .bare "Mod" | .and => .bare "And"
  | .or => .bare "Or"

def ofValue : Value → Option BinaryOp
  | .tag "Eq" .nil => some .eq | .tag "Neq" .nil => some .ne | .tag "Lt" .nil => some .lt
  | .tag "Lte" .nil => some .le | .tag "Gt" .nil => some .gt | .tag "Gte" .nil => some .ge
  | .tag "Add" .nil => some .add | .tag "Sub" .nil => some .sub | .tag "Mul" .nil => some .mul
  | .tag "Div" .nil => some .div | .tag "Mod" .nil => some .mod | .tag "And" .nil => some .and
  | .tag "Or" .nil => some .or
  | _ => none

end BinaryOp

namespace UnaryOp

def toValue : UnaryOp → Value
  | .not => .bare "Not"
  | .neg => .bare "Neg"

def ofValue : Value → Option UnaryOp
  | .tag "Not" .nil => some .not
  | .tag "Neg" .nil => some .neg
  | _ => none

end UnaryOp

namespace Inferred

def toValue (i : Inferred) : Value := .ofList [.flag i.isMutable, .flag i.hasSideEffects]

def ofValue : Value → Option Inferred
  | .cons isMutable (.cons hasSideEffects .nil) => do
    return ⟨← isMutable.flag?, ← hasSideEffects.flag?⟩
  | _ => none

end Inferred

namespace Resolution

def toValue (r : Resolution) : Value :=
  .ofList [r.callable.toValue, .text r.parameter, r.ty.toValue]

def ofValue : Value → Option Resolution
  | .cons callable (.cons parameter (.cons ty .nil)) => do
    return ⟨← QualifiedName.ofValue callable, ← parameter.text?, ← Ty.ofValue ty⟩
  | _ => none

end Resolution

namespace Expr

mutual
def toValue : Expr → Value
  | ⟨kind, info⟩ => .ofList
    [kindToValue kind, .ofList (info.resolutions.map Resolution.toValue), info.ty.toValue,
     info.inferred.toValue, optionalSpan info.range]
def kindToValue : ExprKind → Value
  | .unit => .bare "UnitValue"
  | .name id arguments =>
    .tag "Identifier" (.ofList [id.toValue, .ofOption (arguments.map Ty.listToValue)])
  | .tuple items => .tag "ValueTuple" (listToValue items)
  | .array items => .tag "ValueArray" (listToValue items)
  | .int n => .tag "IntLiteral" (.integer n)
  | .double d => .tag "DoubleLiteral" (.double d)
  | .bool b => .tag "BoolLiteral" (.flag b)
  | .string s => .tag "StringLiteral" (.text s)
  | .outcome o => .tag "OutcomeLiteral" o.toValue
  | .binary op lhs rhs => .tag "BinOp" (.ofList [op.toValue, lhs.toValue, rhs.toValue])
  | .unary op operand => .tag "UnaryOp" (.ofList [op.toValue, operand.toValue])
  | .item array index => .tag "ArrayItem" (.ofList [array.toValue, index.toValue])
  | .choice condition yes no =>
    .tag "Conditional" (.ofList [condition.toValue, yes.toValue, no.toValue])
  | .call callee argument => .tag "Call" (.ofList [callee.toValue, argument.toValue])
  | .missing => .bare "Missing"
  | .invalid => .bare "Invalid"
def listToValue : List Expr → Value
  | [] => .nil
  | e :: es => .cons e.toValue (listToValue es)
end

mutual
def ofValue : Value → Option Expr
  | .cons kind (.cons resolutions (.cons ty (.cons inferred (.cons range .nil)))) => do
    return ⟨← kindOfValue kind, ⟨← resolutions.list? Resolution.ofValue, ← Ty.ofValue ty,
      ← Inferred.ofValue inferred, ← range.option? Span.ofValue⟩⟩
  | _ => none
def kindOfValue : Value → Option ExprKind
  | .tag "UnitValue" .nil => some .unit
  | .tag "Identifier" (.cons id (.cons arguments .nil)) => do
    return .name (← Identifier.ofValue id) (← arguments.option? Ty.listOfValue)
  | .tag "ValueTuple" items => do return .tuple (← listOfValue items)
  | .tag "ValueArray" items => do return .array (← listOfValue items)
  | .tag "IntLiteral" n => do return .int (← n.integer?)
  | .tag "DoubleLiteral" d => do return .double (← d.double?)
  | .tag "BoolLiteral" b => do return .bool (← b.flag?)
  | .tag "StringLiteral" s => do return .string (← s.text?)
  | .tag "OutcomeLiteral" o => do return .outcome (← Outcome.ofValue o)
  | .tag "BinOp" (.cons op (.cons lhs (.cons rhs .nil))) => do
    return .binary (← BinaryOp.ofValue op) (← ofValue lhs) (← ofValue rhs)
  | .tag "UnaryOp" (.cons op (.cons operand .nil)) => do
    return .unary (← UnaryOp.ofValue op) (← ofValue operand)
  | .tag "ArrayItem" (.cons array (.cons index .nil)) => do
    return .item (← ofValue array) (← ofValue index)
  | .tag "Conditional" (.cons condition (.cons yes (.cons no .nil))) => do
    return .choice (← ofValue condition) (← ofValue yes) (← ofValue no)
  | .tag "Call" (.cons callee (.cons argument .nil)) => do
    return .call (← ofValue callee) (← ofValue argument)
  | .tag "Missing" .nil => some .missing
  | .tag "Invalid" .nil => some .invalid
  | _ => none
def listOfValue : Value → Option (List Expr)
  | .nil => some []
  | .cons v vs => do return (← ofValue v) :: (← listOfValue vs)
  | _ => none
end

end Expr

/-! ### Statements -/

namespace Declaration

def toValue {ν : Type} (name : ν → Value) (d : Declaration ν) : Value :=
  .ofList [name d.name, d.ty.toValue, d.inferred.toValue,
    .ofOption (d.position.map Position.toValue), d.range.toValue]

def ofValue {ν : Type} (name : Value → Option ν) : Value → Option (Declaration ν)
  | .cons n (.cons ty (.cons inferred (.cons position (.cons range .nil)))) => do
    return ⟨← name n, ← Ty.ofValue ty, ← Inferred.ofValue inferred,
      ← position.option? Position.ofValue, ← Span.ofValue range⟩
  | _ => none

end Declaration

namespace Variable

def toValue (v : Variable) : Value := Declaration.toValue .text v

def ofValue (v : Value) : Option Variable := Declaration.ofValue Value.text? v

/-- Variables stand in a record of their own. -/
def listToValue (vs : List Variable) : Value := .ofList [.ofList (vs.map toValue)]

def listOfValue : Value → Option (List Variable)
  | .cons vs .nil => vs.list? ofValue
  | _ => none

end Variable

namespace SymbolTuple

mutual
def toValue : SymbolTuple → Value
  | .name n => .tag "VariableName" (.text n)
  | .tuple items => .tag "VariableNameTuple" (listToValue items)
  | .discard => .bare "DiscardedItem"
  | .invalid => .bare "InvalidItem"
def listToValue : List SymbolTuple → Value
  | [] => .nil
  | s :: ss => .cons s.toValue (listToValue ss)
end

mutual
def ofValue : Value → Option SymbolTuple
  | .tag "VariableName" (.text n) => some (.name n)
  | .tag "VariableNameTuple" items => do return .tuple (← listOfValue items)
  | .tag "DiscardedItem" .nil => some .discard
  | .tag "InvalidItem" .nil => some .invalid
  | _ => none
def listOfValue : Value → Option (List SymbolTuple)
  | .nil => some []
  | .cons v vs => do return (← ofValue v) :: (← listOfValue vs)
  | _ => none
end

end SymbolTuple

namespace BindingKind

def toValue : BindingKind → Value
  | .immutable => .bare "Immutable"
  | .mutable => .bare "Mutable"

def ofValue : Value → Option BindingKind
  | .tag "Immutable" .nil => some .immutable
  | .tag "Mutable" .nil => some .mutable
  | _ => none

end BindingKind

namespace Binding

def toValue {ρ : Type} (rhs : ρ → Value) (b : Binding ρ) : Value :=
  .ofList [b.kind.toValue, b.lhs.toValue, rhs b.rhs]

def ofValue {ρ : Type} (rhs : Value → Option ρ) : Value → Option (Binding ρ)
  | .cons kind (.cons lhs (.cons r .nil)) => do
    return ⟨← BindingKind.ofValue kind, ← SymbolTuple.ofValue lhs, ← rhs r⟩
  | _ => none

end Binding

namespace QubitScopeKind

def toValue : QubitScopeKind → Value
  | .allocate => .bare "Allocate"
  | .borrow => .bare "Borrow"

def ofValue : Value → Option QubitScopeKind
  | .tag "Allocate" .nil => some .allocate
  | .tag "Borrow" .nil => some .borrow
  | _ => none

end QubitScopeKind

namespace QubitInit

mutual
def toValue : QubitInit → Value
  | .single => .bare "Single"
  | .register size => .tag "Register" size.toValue
  | .tuple items => .tag "Tuple" (listToValue items)
def listToValue : List QubitInit → Value
  | [] => .nil
  | q :: qs => .cons q.toValue (listToValue qs)
end

mutual
def ofValue : Value → Option QubitInit
  | .tag "Single" .nil => some .single
  | .tag "Register" size => do return .register (← Expr.ofValue size)
  | .tag "Tuple" items => do return .tuple (← listOfValue items)
  | _ => none
def listOfValue : Value → Option (List QubitInit)
  | .nil => some []
  | .cons v vs => do return (← ofValue v) :: (← listOfValue vs)
  | _ => none
end

end QubitInit

mutual
def Statement.toValue : Statement → Value
  | ⟨kind, info⟩ => .ofList
    [kind.toValue, Variable.listToValue info.declarations, optionalLocation info.location,
     info.comments.toValue]
def StatementKind.toValue : StatementKind → Value
  | .expression e => .tag "Expression" e.toValue
  | .returns e => .tag "Return" e.toValue
  | .fails e => .tag "Fail" e.toValue
  | .binding b => .tag "VariableDeclaration" (b.toValue Expr.toValue)
  | .update lhs rhs => .tag "ValueUpdate" (.ofList [lhs.toValue, rhs.toValue])
  | .conditional branches =>
    .tag "Conditional" (.ofList [branches.armsToValue, branches.defaultToValue])
  | .forEach symbols itemTy iterable body =>
    .tag "For" (.ofList [symbols.toValue, itemTy.toValue, iterable.toValue, body.toValue])
  | .whileLoop condition body => .tag "While" (.ofList [condition.toValue, body.toValue])
  | .repeatUntil block success fixup =>
    .tag "Repeat" (.ofList [block.toValue, success.toValue, fixup.toValue])
  | .qubits kind binding body =>
    .tag "QubitScope" (.ofList [kind.toValue, binding.toValue QubitInit.toValue, body.toValue])
def Branches.armsToValue : Branches → Value
  | .done | .otherwise _ => .nil
  | .arm condition block rest =>
    .cons (.ofList [condition.toValue, block.toValue]) rest.armsToValue
def Branches.defaultToValue : Branches → Value
  | .done => .ofOption none
  | .otherwise block => .ofOption (some block.toValue)
  | .arm _ _ rest => rest.defaultToValue
def Block.toValue : Block → Value
  | ⟨body, location, comments⟩ => .ofList [body.toValue, optionalLocation location, comments.toValue]
def Scope.toValue : Scope → Value
  | ⟨statements, known⟩ => .ofList [Statement.listToValue statements, Variable.listToValue known]
def Statement.listToValue : List Statement → Value
  | [] => .nil
  | s :: ss => .cons s.toValue (Statement.listToValue ss)
end

mutual
def Statement.ofValue : Value → Option Statement
  | .cons kind (.cons declarations (.cons location (.cons comments .nil))) => do
    return ⟨← StatementKind.ofValue kind, ⟨← Variable.listOfValue declarations,
      ← location.option? Location.ofValue, ← Comments.ofValue comments⟩⟩
  | _ => none
def StatementKind.ofValue : Value → Option StatementKind
  | .tag "Expression" e => do return .expression (← Expr.ofValue e)
  | .tag "Return" e => do return .returns (← Expr.ofValue e)
  | .tag "Fail" e => do return .fails (← Expr.ofValue e)
  | .tag "VariableDeclaration" b => do return .binding (← Binding.ofValue Expr.ofValue b)
  | .tag "ValueUpdate" (.cons lhs (.cons rhs .nil)) => do
    return .update (← Expr.ofValue lhs) (← Expr.ofValue rhs)
  | .tag "Conditional" (.cons arms (.cons .nil .nil)) => do
    return .conditional (← Branches.ofValue .done arms)
  | .tag "Conditional" (.cons arms (.cons (.cons block .nil) .nil)) => do
    return .conditional (← Branches.ofValue (.otherwise (← Block.ofValue block)) arms)
  | .tag "For" (.cons symbols (.cons itemTy (.cons iterable (.cons body .nil)))) => do
    return .forEach (← SymbolTuple.ofValue symbols) (← Ty.ofValue itemTy) (← Expr.ofValue iterable)
      (← Scope.ofValue body)
  | .tag "While" (.cons condition (.cons body .nil)) => do
    return .whileLoop (← Expr.ofValue condition) (← Scope.ofValue body)
  | .tag "Repeat" (.cons block (.cons success (.cons fixup .nil))) => do
    return .repeatUntil (← Block.ofValue block) (← Expr.ofValue success) (← Block.ofValue fixup)
  | .tag "QubitScope" (.cons kind (.cons binding (.cons body .nil))) => do
    return .qubits (← QubitScopeKind.ofValue kind) (← Binding.ofValue QubitInit.ofValue binding)
      (← Scope.ofValue body)
  | _ => none
/-- The chain of these arms in front of `last`. -/
def Branches.ofValue (last : Branches) : Value → Option Branches
  | .nil => some last
  | .cons (.cons condition (.cons block .nil)) rest => do
    return .arm (← Expr.ofValue condition) (← Block.ofValue block) (← Branches.ofValue last rest)
  | _ => none
def Block.ofValue : Value → Option Block
  | .cons body (.cons location (.cons comments .nil)) => do
    return ⟨← Scope.ofValue body, ← location.option? Location.ofValue, ← Comments.ofValue comments⟩
  | _ => none
def Scope.ofValue : Value → Option Scope
  | .cons statements (.cons known .nil) => do
    return ⟨← Statement.listOfValue statements, ← Variable.listOfValue known⟩
  | _ => none
def Statement.listOfValue : Value → Option (List Statement)
  | .nil => some []
  | .cons v vs => do return (← Statement.ofValue v) :: (← Statement.listOfValue vs)
  | _ => none
end

/-! ### Callables -/

namespace Symbol

def toValue : Symbol → Value
  | .valid name => .tag "ValidName" (.text name)
  | .invalid => .bare "InvalidName"

def ofValue : Value → Option Symbol
  | .tag "ValidName" (.text name) => some (.valid name)
  | .tag "InvalidName" .nil => some .invalid
  | _ => none

end Symbol

namespace Params

mutual
def toValue : Params → Value
  | .item d => .tag "Item" (d.toValue Symbol.toValue)
  | .tuple items => .tag "Tuple" (listToValue items)
def listToValue : List Params → Value
  | [] => .nil
  | p :: ps => .cons p.toValue (listToValue ps)
end

mutual
def ofValue : Value → Option Params
  | .tag "Item" d => do return .item (← Declaration.ofValue Symbol.ofValue d)
  | .tag "Tuple" items => do return .tuple (← listOfValue items)
  | _ => none
def listOfValue : Value → Option (List Params)
  | .nil => some []
  | .cons v vs => do return (← ofValue v) :: (← listOfValue vs)
  | _ => none
end

end Params

namespace Signature

def toValue (s : Signature) : Value :=
  .ofList [.ofList (s.typeParameters.map Symbol.toValue), s.argument.toValue, s.result.toValue,
    Characteristic.listToValue s.characteristics]

def ofValue : Value → Option Signature
  | .cons typeParameters (.cons argument (.cons result (.cons characteristics .nil))) => do
    return ⟨← typeParameters.list? Symbol.ofValue, ← Ty.ofValue argument, ← Ty.ofValue result,
      ← Characteristic.listOfValue characteristics⟩
  | _ => none

end Signature

namespace Implementation

def toValue : Implementation → Value
  | .provided params scope => .tag "Provided" (.ofList [params.toValue, scope.toValue])
  | .intrinsic => .bare "Intrinsic"
  | .external => .bare "External"
  | .generated directive => .tag "Generated" (.text directive)

def ofValue : Value → Option Implementation
  | .tag "Provided" (.cons params (.cons scope .nil)) => do
    return .provided (← Params.ofValue params) (← Scope.ofValue scope)
  | .tag "Intrinsic" .nil => some .intrinsic
  | .tag "External" .nil => some .external
  | .tag "Generated" (.text directive) => some (.generated directive)
  | _ => none

end Implementation

namespace SpecializationKind

def toValue : SpecializationKind → Value
  | .body => .bare "Body"
  | .adjoint => .bare "Adjoint"
  | .controlled => .bare "Controlled"
  | .controlledAdjoint => .bare "ControlledAdjoint"

def ofValue : Value → Option SpecializationKind
  | .tag "Body" .nil => some .body
  | .tag "Adjoint" .nil => some .adjoint
  | .tag "Controlled" .nil => some .controlled
  | .tag "ControlledAdjoint" .nil => some .controlledAdjoint
  | _ => none

end SpecializationKind

namespace Specialization

def toValue (s : Specialization) : Value :=
  .ofList [s.kind.toValue, s.parent.toValue, .text s.sourceFile, optionalLocation s.location,
    .ofOption (s.typeArguments.map Ty.listToValue), s.signature.toValue, s.implementation.toValue,
    Comments.lines s.documentation, s.comments.toValue]

def ofValue : Value → Option Specialization
  | .cons kind (.cons parent (.cons sourceFile (.cons location (.cons typeArguments
      (.cons signature (.cons implementation (.cons documentation (.cons comments .nil)))))))) => do
    return ⟨← SpecializationKind.ofValue kind, ← QualifiedName.ofValue parent, ← sourceFile.text?,
      ← location.option? Location.ofValue, ← typeArguments.option? Ty.listOfValue,
      ← Signature.ofValue signature, ← Implementation.ofValue implementation,
      ← documentation.list? Value.text?, ← Comments.ofValue comments⟩
  | _ => none

end Specialization

namespace CallableKind

def toValue : CallableKind → Value
  | .operation => .bare "Operation"
  | .function => .bare "Function"
  | .constructor => .bare "TypeConstructor"

def ofValue : Value → Option CallableKind
  | .tag "Operation" .nil => some .operation
  | .tag "Function" .nil => some .function
  | .tag "TypeConstructor" .nil => some .constructor
  | _ => none

end CallableKind

namespace Callable

def toValue (c : Callable) : Value :=
  .ofList [c.kind.toValue, c.name.toValue, .text c.sourceFile, optionalLocation c.location,
    c.signature.toValue, c.params.toValue, .ofList (c.specializations.map Specialization.toValue),
    Comments.lines c.documentation, c.comments.toValue]

def ofValue : Value → Option Callable
  | .cons kind (.cons name (.cons sourceFile (.cons location (.cons signature
      (.cons params (.cons specializations (.cons documentation (.cons comments .nil)))))))) => do
    return ⟨← CallableKind.ofValue kind, ← QualifiedName.ofValue name, ← sourceFile.text?,
      ← location.option? Location.ofValue, ← Signature.ofValue signature, ← Params.ofValue params,
      ← specializations.list? Specialization.ofValue, ← documentation.list? Value.text?,
      ← Comments.ofValue comments⟩
  | _ => none

end Callable

namespace CustomType

def toValue (t : CustomType) : Value :=
  .ofList [t.name.toValue, t.underlying.toValue, .text t.sourceFile, optionalLocation t.location,
    Comments.lines t.documentation, t.comments.toValue]

def ofValue : Value → Option CustomType
  | .cons name (.cons underlying (.cons sourceFile (.cons location
      (.cons documentation (.cons comments .nil))))) => do
    return ⟨← QualifiedName.ofValue name, ← Ty.ofValue underlying, ← sourceFile.text?,
      ← location.option? Location.ofValue, ← documentation.list? Value.text?,
      ← Comments.ofValue comments⟩
  | _ => none

end CustomType

namespace Element

def toValue : Element → Value
  | .callable c => .tag "Callable" c.toValue
  | .customType t => .tag "CustomType" t.toValue

def ofValue : Value → Option Element
  | .tag "Callable" c => do return .callable (← Callable.ofValue c)
  | .tag "CustomType" t => do return .customType (← CustomType.ofValue t)
  | _ => none

end Element

namespace Namespace

def toValue (ns : Namespace) : Value :=
  .ofList [.text ns.name, .ofList (ns.elements.map Element.toValue)]

def ofValue : Value → Option Namespace
  | .cons name (.cons elements .nil) => do
    return ⟨← name.text?, ← elements.list? Element.ofValue⟩
  | _ => none

end Namespace

namespace Compilation

def toValue (c : Compilation) : Value :=
  .ofList [.ofList (c.namespaces.map Namespace.toValue),
    .ofList (c.entryPoints.map QualifiedName.toValue)]

def ofValue : Value → Option Compilation
  | .cons namespaces (.cons entryPoints .nil) => do
    return ⟨← namespaces.list? Namespace.ofValue, ← entryPoints.list? QualifiedName.ofValue⟩
  | _ => none

end Compilation

end OutcomeControl
