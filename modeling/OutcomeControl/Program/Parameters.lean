import OutcomeControl.Program.Callable

/-! Changing the type parameters of a tree and nothing else.

`mapParameters f` replaces every type parameter of a tree by its image under `f`, in the types of
expressions, declarations, resolutions and signatures alike. -/

namespace OutcomeControl

section
variable (f : TypeParameter → TypeParameter)

mutual
def Ty.mapParameters : Ty → Ty
  | .unit => .unit
  | .int => .int
  | .double => .double
  | .bool => .bool
  | .string => .string
  | .outcome => .outcome
  | .qubit => .qubit
  | .range => .range
  | .array item => .array item.mapParameters
  | .tuple items => .tuple (Ty.mapParametersList items)
  | .custom name => .custom name
  | .parameter p => .parameter (f p)
  | .operation input output cs => .operation input.mapParameters output.mapParameters cs
  | .function input output => .function input.mapParameters output.mapParameters
  | .missing => .missing
  | .invalid => .invalid
def Ty.mapParametersList : List Ty → List Ty
  | [] => []
  | t :: ts => t.mapParameters :: Ty.mapParametersList ts
end

def Resolution.mapParameters (r : Resolution) : Resolution := { r with ty := r.ty.mapParameters f }

def ExprInfo.mapParameters (i : ExprInfo) : ExprInfo :=
  { i with resolutions := i.resolutions.map (Resolution.mapParameters f), ty := i.ty.mapParameters f }

mutual
def Expr.mapParameters : Expr → Expr
  | ⟨kind, info⟩ => ⟨kind.mapParameters, info.mapParameters f⟩
def ExprKind.mapParameters : ExprKind → ExprKind
  | .unit => .unit
  | .name id arguments => .name id (arguments.map (Ty.mapParametersList f))
  | .tuple items => .tuple (Expr.mapParametersList items)
  | .array items => .array (Expr.mapParametersList items)
  | .int n => .int n
  | .double d => .double d
  | .bool b => .bool b
  | .string s => .string s
  | .outcome o => .outcome o
  | .binary op lhs rhs => .binary op lhs.mapParameters rhs.mapParameters
  | .unary op operand => .unary op operand.mapParameters
  | .item array index => .item array.mapParameters index.mapParameters
  | .choice condition yes no =>
    .choice condition.mapParameters yes.mapParameters no.mapParameters
  | .call callee argument => .call callee.mapParameters argument.mapParameters
  | .missing => .missing
  | .invalid => .invalid
def Expr.mapParametersList : List Expr → List Expr
  | [] => []
  | e :: es => e.mapParameters :: Expr.mapParametersList es
end

def Declaration.mapParameters {ν : Type} (d : Declaration ν) : Declaration ν :=
  { d with ty := d.ty.mapParameters f }

mutual
def QubitInit.mapParameters : QubitInit → QubitInit
  | .single => .single
  | .register size => .register (size.mapParameters f)
  | .tuple items => .tuple (QubitInit.mapParametersList items)
def QubitInit.mapParametersList : List QubitInit → List QubitInit
  | [] => []
  | q :: qs => q.mapParameters :: QubitInit.mapParametersList qs
end

def StatementInfo.mapParameters (i : StatementInfo) : StatementInfo :=
  { i with declarations := i.declarations.map (Declaration.mapParameters f) }

mutual
def Statement.mapParameters : Statement → Statement
  | ⟨kind, info⟩ => ⟨kind.mapParameters, info.mapParameters f⟩
def StatementKind.mapParameters : StatementKind → StatementKind
  | .expression e => .expression (e.mapParameters f)
  | .returns e => .returns (e.mapParameters f)
  | .fails e => .fails (e.mapParameters f)
  | .binding b => .binding { b with rhs := b.rhs.mapParameters f }
  | .update lhs rhs => .update (lhs.mapParameters f) (rhs.mapParameters f)
  | .conditional branches => .conditional branches.mapParameters
  | .forEach symbols itemTy iterable body =>
    .forEach symbols (itemTy.mapParameters f) (iterable.mapParameters f) body.mapParameters
  | .whileLoop condition body => .whileLoop (condition.mapParameters f) body.mapParameters
  | .repeatUntil block success fixup =>
    .repeatUntil block.mapParameters (success.mapParameters f) fixup.mapParameters
  | .qubits kind binding body =>
    .qubits kind { binding with rhs := binding.rhs.mapParameters f } body.mapParameters
def Branches.mapParameters : Branches → Branches
  | .done => .done
  | .otherwise block => .otherwise block.mapParameters
  | .arm condition block rest =>
    .arm (condition.mapParameters f) block.mapParameters rest.mapParameters
def Block.mapParameters : Block → Block
  | ⟨body, location, comments⟩ => ⟨body.mapParameters, location, comments⟩
def Scope.mapParameters : Scope → Scope
  | ⟨statements, known⟩ =>
    ⟨Statement.mapParametersList statements, known.map (Declaration.mapParameters f)⟩
def Statement.mapParametersList : List Statement → List Statement
  | [] => []
  | s :: ss => s.mapParameters :: Statement.mapParametersList ss
end

mutual
def Params.mapParameters : Params → Params
  | .item d => .item (d.mapParameters f)
  | .tuple items => .tuple (Params.mapParametersList items)
def Params.mapParametersList : List Params → List Params
  | [] => []
  | p :: ps => p.mapParameters :: Params.mapParametersList ps
end

def Signature.mapParameters (s : Signature) : Signature :=
  { s with argument := s.argument.mapParameters f, result := s.result.mapParameters f }

def Implementation.mapParameters : Implementation → Implementation
  | .provided params scope => .provided (params.mapParameters f) (scope.mapParameters f)
  | .intrinsic => .intrinsic
  | .external => .external
  | .generated directive => .generated directive

def Specialization.mapParameters (s : Specialization) : Specialization :=
  { s with
    typeArguments := s.typeArguments.map (Ty.mapParametersList f)
    signature := s.signature.mapParameters f
    implementation := s.implementation.mapParameters f }

def Callable.mapParameters (c : Callable) : Callable :=
  { c with
    signature := c.signature.mapParameters f
    params := c.params.mapParameters f
    specializations := c.specializations.map (Specialization.mapParameters f) }

end

/-! ### Changing the owner of type parameters -/

/-- A type parameter of `source` becomes one of `target`; any other is left alone. -/
def TypeParameter.reroute (source target : QualifiedName) (p : TypeParameter) : TypeParameter :=
  if p.origin = source then { p with origin := target } else p

def Ty.reroute (source target : QualifiedName) : Ty → Ty :=
  Ty.mapParameters (TypeParameter.reroute source target)

def Expr.reroute (source target : QualifiedName) : Expr → Expr :=
  Expr.mapParameters (TypeParameter.reroute source target)

def Scope.reroute (source target : QualifiedName) : Scope → Scope :=
  Scope.mapParameters (TypeParameter.reroute source target)

def Callable.reroute (source target : QualifiedName) : Callable → Callable :=
  Callable.mapParameters (TypeParameter.reroute source target)

end OutcomeControl
