import OutcomeControl.Program.Text

/-! Changing a tree by hooks.

An `Editor` says what happens at each kind of node. The parts of a node are edited in a fixed
order: the statements of a scope before the variables it knows, what a statement does before the
variables it declares, and the parts of an expression before its types. -/

namespace OutcomeControl

/-- What to do at the nodes of a tree. -/
structure Editor (m : Type → Type) where
  enterScope : Scope → m Unit
  enterStatement : Statement → m Unit
  enterExpr : Expr → m Unit
  /-- An expression whose parts are done. -/
  leaveExpr : Expr → m Expr
  /-- A type that takes the place of this one and is not edited further. -/
  replaceTy : Ty → m (Option Ty)
  parameter : TypeParameter → m TypeParameter

/-- The editor that changes nothing. -/
def Editor.none {m : Type → Type} [Monad m] : Editor m where
  enterScope _ := pure ()
  enterStatement _ := pure ()
  enterExpr _ := pure ()
  leaveExpr e := pure e
  replaceTy _ := pure Option.none
  parameter p := pure p

section
variable {m : Type → Type} [Monad m] (ed : Editor m)

mutual
def Ty.edit (t : Ty) : m Ty := do
  match ← ed.replaceTy t with
  | some t' => return t'
  | none => match t with
    | .array item => return .array (← item.edit)
    | .tuple items => return .tuple (← Ty.editList items)
    | .parameter p => return .parameter (← ed.parameter p)
    | .operation input output cs => do
      let input ← input.edit
      return .operation input (← output.edit) cs
    | .function input output => do
      let input ← input.edit
      return .function input (← output.edit)
    | t => return t
def Ty.editList : List Ty → m (List Ty)
  | [] => return []
  | t :: ts => do
    let t ← t.edit
    return t :: (← Ty.editList ts)
end

def Resolution.edit (r : Resolution) : m Resolution := return { r with ty := ← r.ty.edit ed }

def ExprInfo.edit (i : ExprInfo) : m ExprInfo := do
  let resolutions ← i.resolutions.mapM (Resolution.edit ed)
  return { i with resolutions, ty := ← i.ty.edit ed }

def editArguments (arguments : Option (List Ty)) : m (Option (List Ty)) :=
  match arguments with
  | none => return none
  | some ts => return some (← Ty.editList ed ts)

mutual
def Expr.edit : Expr → m Expr
  | ⟨kind, info⟩ => do
    ed.enterExpr ⟨kind, info⟩
    let kind ← kind.edit
    ed.leaveExpr ⟨kind, ← info.edit ed⟩
def ExprKind.edit : ExprKind → m ExprKind
  | .name id arguments => return .name id (← editArguments ed arguments)
  | .tuple items => return .tuple (← Expr.editList items)
  | .array items => return .array (← Expr.editList items)
  | .binary op lhs rhs => do
    let lhs ← lhs.edit
    return .binary op lhs (← rhs.edit)
  | .unary op operand => return .unary op (← operand.edit)
  | .item array index => do
    let array ← array.edit
    return .item array (← index.edit)
  | .choice condition yes no => do
    let condition ← condition.edit
    let yes ← yes.edit
    return .choice condition yes (← no.edit)
  | .call callee argument => do
    let callee ← callee.edit
    return .call callee (← argument.edit)
  | .unit => return .unit
  | .int n => return .int n
  | .double d => return .double d
  | .bool b => return .bool b
  | .string s => return .string s
  | .outcome o => return .outcome o
  | .missing => return .missing
  | .invalid => return .invalid
def Expr.editList : List Expr → m (List Expr)
  | [] => return []
  | e :: es => do
    let e ← e.edit
    return e :: (← Expr.editList es)
end

def Declaration.edit {ν : Type} (d : Declaration ν) : m (Declaration ν) :=
  return { d with ty := ← d.ty.edit ed }

mutual
def QubitInit.edit : QubitInit → m QubitInit
  | .single => return .single
  | .register size => return .register (← size.edit ed)
  | .tuple items => return .tuple (← QubitInit.editList items)
def QubitInit.editList : List QubitInit → m (List QubitInit)
  | [] => return []
  | q :: qs => do
    let q ← q.edit
    return q :: (← QubitInit.editList qs)
end

mutual
def Statement.edit : Statement → m Statement
  | ⟨kind, info⟩ => do
    ed.enterStatement ⟨kind, info⟩
    let kind ← kind.edit
    let declarations ← info.declarations.mapM (Declaration.edit ed)
    return ⟨kind, { info with declarations }⟩
def StatementKind.edit : StatementKind → m StatementKind
  | .expression e => return .expression (← e.edit ed)
  | .returns e => return .returns (← e.edit ed)
  | .fails e => return .fails (← e.edit ed)
  | .binding b => return .binding { b with rhs := ← b.rhs.edit ed }
  | .update lhs rhs => do
    let lhs ← lhs.edit ed
    return .update lhs (← rhs.edit ed)
  | .conditional branches => return .conditional (← branches.edit)
  | .forEach symbols itemTy iterable body => do
    let itemTy ← itemTy.edit ed
    let iterable ← iterable.edit ed
    return .forEach symbols itemTy iterable (← body.edit)
  | .whileLoop condition body => do
    let condition ← condition.edit ed
    return .whileLoop condition (← body.edit)
  | .repeatUntil block success fixup => do
    let block ← block.edit
    let success ← success.edit ed
    return .repeatUntil block success (← fixup.edit)
  | .qubits kind binding body => do
    let rhs ← binding.rhs.edit ed
    return .qubits kind { binding with rhs } (← body.edit)
def Branches.edit : Branches → m Branches
  | .done => return .done
  | .otherwise block => return .otherwise (← block.edit)
  | .arm condition block rest => do
    let condition ← condition.edit ed
    let block ← block.edit
    return .arm condition block (← rest.edit)
def Block.edit : Block → m Block
  | ⟨body, location, comments⟩ => return ⟨← body.edit, location, comments⟩
def Scope.edit : Scope → m Scope
  | ⟨statements, known⟩ => do
    ed.enterScope ⟨statements, known⟩
    let statements ← Statement.editList statements
    return ⟨statements, ← known.mapM (Declaration.edit ed)⟩
def Statement.editList : List Statement → m (List Statement)
  | [] => return []
  | s :: ss => do
    let s ← s.edit
    return s :: (← Statement.editList ss)
end

mutual
def Params.edit : Params → m Params
  | .item d => return .item (← d.edit ed)
  | .tuple items => return .tuple (← Params.editList items)
def Params.editList : List Params → m (List Params)
  | [] => return []
  | p :: ps => do
    let p ← p.edit
    return p :: (← Params.editList ps)
end

def Signature.edit (s : Signature) : m Signature := do
  let argument ← s.argument.edit ed
  return { s with argument, result := ← s.result.edit ed }

def Implementation.edit : Implementation → m Implementation
  | .provided params scope => do
    let params ← params.edit ed
    return .provided params (← scope.edit ed)
  | .intrinsic => return .intrinsic
  | .external => return .external
  | .generated directive => return .generated directive

def Specialization.edit (s : Specialization) : m Specialization := do
  let typeArguments ← editArguments ed s.typeArguments
  let signature ← s.signature.edit ed
  return { s with typeArguments, signature, implementation := ← s.implementation.edit ed }

def Callable.edit (c : Callable) : m Callable := do
  let signature ← c.signature.edit ed
  let params ← c.params.edit ed
  return { c with signature, params, specializations := ← c.specializations.mapM (Specialization.edit ed) }

end

/-! ### Substitutions by name -/

/-- New names for variables and type parameters, and new types by the text of the old ones. -/
structure Substitution where
  locals : List (String × String) := []
  types : List (String × Ty) := []
  parameters : List (String × String) := []

namespace Substitution

/-- A reference to a renamed variable takes its new name. -/
def rename (s : Substitution) (e : Expr) : Expr :=
  match e.kind with
  | .name (.ofVariable name) arguments => match s.locals.lookup name with
    | some name' => { e with kind := .name (.ofVariable name') arguments }
    | none => e
  | _ => e

def renameParameter (s : Substitution) (p : TypeParameter) : TypeParameter :=
  match s.parameters.lookup p.name with
  | some name => { p with name }
  | none => p

/-- Appends to the record of nodes met. -/
def record (event : String) : StateM (List String) Unit := modify (event :: ·)

/-- Applies the substitution and records the nodes met, the last one first. -/
def editor (s : Substitution) : Editor (StateM (List String)) where
  enterScope scope := record ("scope " ++ toString scope.statements.length)
  enterStatement _ := record "statement"
  enterExpr e := record ("expression " ++ e.text)
  leaveExpr e := return s.rename e
  replaceTy t := do
    record ("type " ++ t.text)
    return s.types.lookup t.text
  parameter p := do
    record ("parameter " ++ p.name ++ " of " ++ p.origin.text)
    return s.renameParameter p

/-- The result of an edit, and the nodes met in order. -/
def run {α : Type} (edit : StateM (List String) α) : α × List String :=
  let (a, events) := StateT.run edit []
  (a, events.reverse)

end Substitution

end OutcomeControl
