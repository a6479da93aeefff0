import OutcomeControl.Program.Callable
import OutcomeControl.Text.Blank
import OutcomeControl.Text.Quoted
import OutcomeControl.Number.Numeral

/-! Program trees as readable text.

Types and expressions are written on one line. Statements and declarations are lists of lines,
each level indented by four blanks. -/

namespace OutcomeControl

def commaSeparated (texts : List String) : String := ", ".intercalate texts

def Characteristic.text : Characteristic → String
  | .adjointable => "Adj"
  | .controllable => "Ctl"

/-! ### Types -/

mutual
def Ty.text : Ty → String
  | .unit => "Unit"
  | .int => "Int"
  | .double => "Double"
  | .bool => "Bool"
  | .string => "String"
  | .outcome => "Outcome"
  | .qubit => "Qubit"
  | .range => "Range"
  | .array item => item.text ++ "[]"
  | .tuple items => "(" ++ commaSeparated (Ty.texts items) ++ ")"
  | .custom name => name.name
  | .parameter p => "'" ++ p.name
  | .operation input output [] => "(" ++ input.text ++ " => " ++ output.text ++ ")"
  | .operation input output cs =>
    "(" ++ input.text ++ " => " ++ output.text ++ " is "
      ++ " + ".intercalate (cs.map Characteristic.text) ++ ")"
  | .function input output => "(" ++ input.text ++ " -> " ++ output.text ++ ")"
  | .missing => "_"
  | .invalid => "<invalid>"
def Ty.texts : List Ty → List String
  | [] => []
  | t :: ts => t.text :: Ty.texts ts
end

/-! ### Expressions -/

def Identifier.text : Identifier → String
  | .ofVariable name => name
  | .ofCallable name => name.name
  | .invalid => "<invalid>"

/-- Explicit type arguments in angle brackets, if there are any. -/
def typeArgumentsText : Option (List Ty) → String
  | none | some [] => ""
  | some ts => "<" ++ commaSeparated (Ty.texts ts) ++ ">"

/-- Whether an expression stands in parentheses when it is an operand. -/
def ExprKind.isGrouped : ExprKind → Bool
  | .binary .. | .choice .. => true
  | _ => false

/-- Whether the text of an argument brings its own parentheses. -/
def ExprKind.isParenthesized : ExprKind → Bool
  | .unit | .tuple _ => true
  | _ => false

mutual
def Expr.text : Expr → String
  | ⟨kind, _⟩ => kind.text
def ExprKind.text : ExprKind → String
  | .unit => "()"
  | .name id arguments => id.text ++ typeArgumentsText arguments
  | .tuple items => "(" ++ commaSeparated (Expr.texts items) ++ ")"
  | .array items => "[" ++ commaSeparated (Expr.texts items) ++ "]"
  | .int n => toString n.toInt
  | .double d => d.text
  | .bool b => if b then "true" else "false"
  | .string s => Text.quoted s
  | .outcome o => o.text
  | .binary op lhs rhs => lhs.operand ++ " " ++ op.symbol ++ " " ++ rhs.operand
  | .unary op e => op.symbol ++ e.operand
  | .item array index => array.text ++ "[" ++ index.text ++ "]"
  | .choice condition yes no => condition.operand ++ " ? " ++ yes.operand ++ " | " ++ no.operand
  | .call callee argument => callee.text ++ argument.argumentText
  | .missing => "_"
  | .invalid => "<invalid>"
/-- The text of an operand. -/
def Expr.operand : Expr → String
  | ⟨kind, _⟩ => if kind.isGrouped then "(" ++ kind.text ++ ")" else kind.text
/-- The text of the argument of a call. -/
def Expr.argumentText : Expr → String
  | ⟨kind, _⟩ => if kind.isParenthesized then kind.text else "(" ++ kind.text ++ ")"
def Expr.texts : List Expr → List String
  | [] => []
  | e :: es => e.text :: Expr.texts es
end

/-! ### Statements -/

mutual
def SymbolTuple.text : SymbolTuple → String
  | .name n => n
  | .tuple items => "(" ++ commaSeparated (SymbolTuple.texts items) ++ ")"
  | .discard => "_"
  | .invalid => "<invalid>"
def SymbolTuple.texts : List SymbolTuple → List String
  | [] => []
  | s :: ss => s.text :: SymbolTuple.texts ss
end

mutual
def QubitInit.text : QubitInit → String
  | .single => "Qubit()"
  | .register size => "Qubit[" ++ size.text ++ "]"
  | .tuple items => "(" ++ commaSeparated (QubitInit.texts items) ++ ")"
def QubitInit.texts : List QubitInit → List String
  | [] => []
  | q :: qs => q.text :: QubitInit.texts qs
end

def BindingKind.keyword : BindingKind → String
  | .immutable => "let"
  | .mutable => "mutable"

def QubitScopeKind.keyword : QubitScopeKind → String
  | .allocate => "use"
  | .borrow => "borrow"

/-- One level further in. -/
def indented (lines : List String) : List String := lines.map ("    " ++ ·)

/-- Lines in braces behind a header. -/
def braced (header : String) (lines : List String) : List String :=
  (header ++ " \x7b") :: indented lines ++ ["\x7d"]

/-- Only the comments ahead of a construct are shown. -/
def Comments.shown (c : Comments) : List String := c.opening.map ("// " ++ ·)

mutual
def Statement.lines : Statement → List String
  | ⟨kind, info⟩ => info.comments.shown ++ kind.lines
def StatementKind.lines : StatementKind → List String
  | .expression e => [e.text ++ ";"]
  | .returns e => ["return " ++ e.text ++ ";"]
  | .fails e => ["fail " ++ e.text ++ ";"]
  | .binding b => [b.kind.keyword ++ " " ++ b.lhs.text ++ " = " ++ b.rhs.text ++ ";"]
  | .update lhs rhs => ["set " ++ lhs.text ++ " = " ++ rhs.text ++ ";"]
  | .conditional branches => branches.lines "if"
  | .forEach symbols _ iterable body =>
    braced ("for (" ++ symbols.text ++ " in " ++ iterable.text ++ ")") body.lines
  | .whileLoop condition body => braced ("while (" ++ condition.text ++ ")") body.lines
  | .repeatUntil block success fixup =>
    braced "repeat" block.lines ++ ["until (" ++ success.text ++ ")"] ++ braced "fixup" fixup.lines
  | .qubits kind binding body =>
    braced (kind.keyword ++ " " ++ binding.lhs.text ++ " = " ++ binding.rhs.text) body.lines
/-- The arms, of which the first has the given keyword. -/
def Branches.lines (keyword : String) : Branches → List String
  | .done => []
  | .otherwise block => braced "else" block.lines
  | .arm condition block rest =>
    braced (keyword ++ " (" ++ condition.text ++ ")") block.lines ++ rest.lines "elif"
def Block.lines : Block → List String
  | ⟨body, _, _⟩ => body.lines
def Scope.lines : Scope → List String
  | ⟨statements, _⟩ => Statement.allLines statements
def Statement.allLines : List Statement → List String
  | [] => []
  | s :: ss => s.lines ++ Statement.allLines ss
end

/-- Every line ends in a line feed. -/
def joinLines (lines : List String) : String := String.join (lines.map (· ++ "\n"))

def Scope.text (s : Scope) : String := joinLines s.lines

/-- A statement without blanks at its end. -/
def Statement.text (s : Statement) : String := Text.trimRight (joinLines s.lines)

/-! ### Declarations -/

def Symbol.text : Symbol → String
  | .valid name => name
  | .invalid => "_"

def Signature.typeParametersText (s : Signature) : String :=
  if s.typeParameters.isEmpty then ""
  else "<" ++ commaSeparated (s.typeParameters.map fun
    | .valid name => "'" ++ name
    | .invalid => "_") ++ ">"

mutual
def Params.text : Params → String
  | .item d => d.name.text ++ " : " ++ d.ty.text
  | .tuple items => "(" ++ commaSeparated (Params.texts items) ++ ")"
def Params.texts : List Params → List String
  | [] => []
  | p :: ps => p.text :: Params.texts ps
end

def CallableKind.keyword : CallableKind → String
  | .operation => "operation"
  | .function => "function"
  | .constructor => "constructor"

def Specialization.lines (s : Specialization) : List String :=
  match s.implementation with
  | .provided params scope => braced (s.kind.keyword ++ " " ++ params.text) scope.lines
  | .intrinsic => [s.kind.keyword ++ " intrinsic;"]
  | .external => [s.kind.keyword ++ " external;"]
  | .generated directive => [s.kind.keyword ++ " " ++ directive ++ ";"]

/-- A callable with a single provided body shows its statements directly. -/
def Callable.bodyLines (c : Callable) : List String :=
  match c.specializations with
  | [⟨.body, _, _, _, _, _, .provided _ scope, _, _⟩] => scope.lines
  | specializations => specializations.flatMap Specialization.lines

/-- A callable, marked when it is one of the entry points. -/
def Callable.lines (entryPoints : List QualifiedName) (c : Callable) : List String :=
  c.comments.shown
    ++ (if c.name ∈ entryPoints then ["@EntryPoint()"] else [])
    ++ braced (c.kind.keyword ++ " " ++ c.name.name ++ c.signature.typeParametersText
      ++ c.params.text ++ " : " ++ c.signature.result.text) c.bodyLines

def CustomType.lines (t : CustomType) : List String :=
  t.comments.shown ++ ["newtype " ++ t.name.name ++ " = " ++ t.underlying.text ++ ";"]

def Element.lines (entryPoints : List QualifiedName) : Element → List String
  | .callable c => c.lines entryPoints
  | .customType t => t.lines

/-- Indents all lines but those that only separate. -/
def indentedUnlessEmpty (line : Option String) : String :=
  match line with
  | none => ""
  | some l => "    " ++ l

/-- Groups of lines with an empty line between each two. -/
def separated : List (List String) → List (Option String)
  | [] => []
  | [g] => g.map some
  | g :: gs => g.map some ++ none :: separated gs

def Namespace.lines (entryPoints : List QualifiedName) (ns : Namespace) : List String :=
  ("namespace " ++ ns.name ++ " \x7b")
    :: (separated (ns.elements.map (Element.lines entryPoints))).map indentedUnlessEmpty ++ ["\x7d"]

def Callable.text (c : Callable) : String := joinLines (c.lines [])

def Namespace.text (ns : Namespace) : String := joinLines (ns.lines [])

def Compilation.text (c : Compilation) : String :=
  joinLines ((separated (c.namespaces.map (Namespace.lines c.entryPoints))).map (·.getD ""))

end OutcomeControl
