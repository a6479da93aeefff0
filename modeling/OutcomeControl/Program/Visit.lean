import OutcomeControl.Program.Text

/-! The nodes of a tree in the order in which a reader meets them.

Variables known to a scope come before its statements, variables that a statement declares before
its parts, and the type of an expression after its parts. -/

namespace OutcomeControl

/-- A node that is met. -/
inductive Visit where
  | callable (c : Callable)
  | scope (s : Scope)
  | statement (s : Statement)
  | expression (e : Expr)
  | type (t : Ty)
  /-- A name that a parameter, a binding or a declaration introduces. -/
  | localName (name : String)

namespace Visit

def text : Visit → String
  | .callable c => "callable " ++ c.name.text
  | .scope s => "scope " ++ toString s.statements.length
  | .statement _ => "statement"
  | .expression e => "expression " ++ e.text
  | .type t => "type " ++ t.text
  | .localName name => "local " ++ name

def localName? : Visit → Option String
  | .localName name => some name
  | _ => none

end Visit

mutual
def Ty.visits : Ty → List Visit
  | .unit => [.type .unit]
  | .int => [.type .int]
  | .double => [.type .double]
  | .bool => [.type .bool]
  | .string => [.type .string]
  | .outcome => [.type .outcome]
  | .qubit => [.type .qubit]
  | .range => [.type .range]
  | .array item => .type (.array item) :: item.visits
  | .tuple items => .type (.tuple items) :: Ty.visitsList items
  | .custom name => [.type (.custom name)]
  | .parameter p => [.type (.parameter p)]
  | .operation input output cs =>
    .type (.operation input output cs) :: (input.visits ++ output.visits)
  | .function input output => .type (.function input output) :: (input.visits ++ output.visits)
  | .missing => [.type .missing]
  | .invalid => [.type .invalid]
def Ty.visitsList : List Ty → List Visit
  | [] => []
  | t :: ts => t.visits ++ Ty.visitsList ts
end

def ExprInfo.visits (i : ExprInfo) : List Visit :=
  i.resolutions.flatMap (·.ty.visits) ++ i.ty.visits

mutual
def Expr.visits : Expr → List Visit
  | ⟨kind, info⟩ => .expression ⟨kind, info⟩ :: (kind.visits ++ info.visits)
/-- The nodes of the parts of an expression. -/
def ExprKind.visits : ExprKind → List Visit
  | .name _ arguments => Ty.visitsList (arguments.getD [])
  | .tuple items | .array items => Expr.visitsList items
  | .binary _ lhs rhs => lhs.visits ++ rhs.visits
  | .unary _ operand => operand.visits
  | .item array index => array.visits ++ index.visits
  | .choice condition yes no => condition.visits ++ (yes.visits ++ no.visits)
  | .call callee argument => callee.visits ++ argument.visits
  | .unit | .int _ | .double _ | .bool _ | .string _ | .outcome _ | .missing | .invalid => []
def Expr.visitsList : List Expr → List Visit
  | [] => []
  | e :: es => e.visits ++ Expr.visitsList es
end

def Variable.visits (v : Variable) : List Visit := .localName v.name :: v.ty.visits

mutual
def SymbolTuple.visits : SymbolTuple → List Visit
  | .name n => [.localName n]
  | .tuple items => SymbolTuple.visitsList items
  | .discard | .invalid => []
def SymbolTuple.visitsList : List SymbolTuple → List Visit
  | [] => []
  | s :: ss => s.visits ++ SymbolTuple.visitsList ss
end

mutual
def QubitInit.visits : QubitInit → List Visit
  | .single => []
  | .register size => size.visits
  | .tuple items => QubitInit.visitsList items
def QubitInit.visitsList : List QubitInit → List Visit
  | [] => []
  | q :: qs => q.visits ++ QubitInit.visitsList qs
end

mutual
def Statement.visits : Statement → List Visit
  | ⟨kind, info⟩ =>
    .statement ⟨kind, info⟩ :: (info.declarations.flatMap Variable.visits ++ kind.visits)
/-- The nodes of the parts of a statement. -/
def StatementKind.visits : StatementKind → List Visit
  | .expression e | .returns e | .fails e => e.visits
  | .binding b => b.lhs.visits ++ b.rhs.visits
  | .update lhs rhs => lhs.visits ++ rhs.visits
  | .conditional branches => branches.visits
  | .forEach symbols itemTy iterable body =>
    symbols.visits ++ (itemTy.visits ++ (iterable.visits ++ body.visits))
  | .whileLoop condition body => condition.visits ++ body.visits
  | .repeatUntil block success fixup => block.visits ++ (success.visits ++ fixup.visits)
  | .qubits _ binding body => binding.lhs.visits ++ (binding.rhs.visits ++ body.visits)
def Branches.visits : Branches → List Visit
  | .done => []
  | .otherwise block => block.visits
  | .arm condition block rest => condition.visits ++ (block.visits ++ rest.visits)
def Block.visits : Block → List Visit
  | ⟨body, _, _⟩ => body.visits
def Scope.visits : Scope → List Visit
  | ⟨statements, known⟩ =>
    .scope ⟨statements, known⟩ :: (known.flatMap Variable.visits ++ Statement.visitsList statements)
def Statement.visitsList : List Statement → List Visit
  | [] => []
  | s :: ss => s.visits ++ Statement.visitsList ss
end

mutual
def Params.visits : Params → List Visit
  | .item d => (d.name.name?.map Visit.localName).toList ++ d.ty.visits
  | .tuple items => Params.visitsList items
def Params.visitsList : List Params → List Visit
  | [] => []
  | p :: ps => p.visits ++ Params.visitsList ps
end

def Signature.visits (s : Signature) : List Visit := s.argument.visits ++ s.result.visits

def Implementation.visits : Implementation → List Visit
  | .provided params scope => params.visits ++ scope.visits
  | .intrinsic | .external | .generated _ => []

def Specialization.visits (s : Specialization) : List Visit :=
  Ty.visitsList (s.typeArguments.getD []) ++ s.signature.visits ++ s.implementation.visits

def Callable.visits (c : Callable) : List Visit :=
  .callable c
    :: (c.signature.visits ++ c.params.visits ++ c.specializations.flatMap Specialization.visits)

end OutcomeControl
