import OutcomeControl.Format.Value

/-! The JSON format of program trees, as a table.

`Kind` names the types of the format and `Kind.head` says what each is made of: a record of
fields, a tuple, or a choice between variants. Fields stand in the order of their declaration;
a field with a value in `absent` may be left out. -/

namespace OutcomeControl

/-- The named types of the format. -/
inductive Kind where
  | position | span | location | qualifiedName | comments | inferred
  | typeParameter | characteristic | information | ty | operationTy | functionTy
  | outcome | identifier | binaryOp | unaryOp | resolution
  | expr | exprKind | nameUse | binary | unary | item | choice | call
  | variable | parameter | declarations | symbolTuple | bindingKind | exprBinding
  | qubitInit | qubitBinding | qubitScopeKind
  | statement | statementKind | update | conditional | arm | forEach | whileLoop | repeatUntil
  | qubits | block | scope
  | symbol | params | signature | provided | implementation | specializationKind | specialization
  | callableKind | callable | customType | element | space | compilation
  | primitive | primitives | settings | frame | target
deriving DecidableEq

inductive Shape where
  | null | text | word | integer | double | flag
  | named (k : Kind)
  | list (item : Shape)
  | optional (inner : Shape)
deriving DecidableEq

structure Field where
  name : String
  shape : Shape
  /-- The value of the field when it is left out. -/
  absent : Option Value := none

/-- What a shape asks of a value. -/
inductive Head where
  | null | text | word | integer | double | flag
  | list (item : Shape)
  | tuple (items : List Shape)
  | record (fields : List Field)
  | choice (variants : List (String × Shape))

namespace Kind

/-- A choice between names that carry nothing. -/
def names (ns : List String) : Head := .choice (ns.map fun n => (n, .null))

def zeroSpan : Value :=
  let zero := Value.ofList [.int 0, .int 0]
  .ofList [zero, zero]

def noComments : Value := .ofList [.nil, .nil]

def notInferred : Value := .ofList [.flag false, .flag false]

/-- The absent value of a record whose one field is an empty list. -/
def emptyRecord : Value := .ofList [.nil]

def types : Shape := .list (.named .ty)

def texts : Shape := .list .text

/-- The fields of a declared variable whose name has the given shape. -/
def declarationFields (name : Shape) : List Field :=
  [⟨"name", name, none⟩, ⟨"ty", .named .ty, none⟩, ⟨"inferred", .named .inferred, some notInferred⟩,
   ⟨"position", .optional (.named .position), some .nil⟩, ⟨"range", .named .span, some zeroSpan⟩]

/-- The fields of a binding whose right side has the given shape. -/
def bindingFields (rhs : Shape) : List Field :=
  [⟨"kind", .named .bindingKind, none⟩, ⟨"lhs", .named .symbolTuple, none⟩, ⟨"rhs", rhs, none⟩]

def sourceFile : Field := ⟨"source_file", .text, some (.text "")⟩

def location? : Field := ⟨"location", .optional (.named .location), some .nil⟩

def documentation : Field := ⟨"documentation", texts, some .nil⟩

def comments? : Field := ⟨"comments", .named .comments, some noComments⟩

def head : Kind → Head
  | .position => .record [⟨"line", .word, none⟩, ⟨"column", .word, none⟩]
  | .span => .record [⟨"start", .named .position, none⟩, ⟨"end", .named .position, none⟩]
  | .location => .record [⟨"offset", .named .position, none⟩, ⟨"range", .named .span, none⟩]
  | .qualifiedName => .record [⟨"namespace", .text, none⟩, ⟨"name", .text, none⟩]
  | .comments => .record [⟨"opening", texts, some .nil⟩, ⟨"closing", texts, some .nil⟩]
  | .inferred => .record [⟨"is_mutable", .flag, none⟩, ⟨"has_side_effects", .flag, none⟩]
  | .typeParameter => .record
    [⟨"origin", .named .qualifiedName, none⟩, ⟨"name", .text, none⟩,
     ⟨"range", .optional (.named .span), some .nil⟩]
  | .characteristic => names ["Adjointable", "Controllable"]
  | .information => .record [⟨"characteristics", .list (.named .characteristic), some .nil⟩]
  | .ty => .choice
    [("Unit", .null), ("Int", .null), ("Double", .null), ("Bool", .null), ("String", .null),
     ("Outcome", .null), ("Qubit", .null), ("Range", .null), ("Array", .named .ty),
     ("Tuple", types), ("UserDefined", .named .qualifiedName),
     ("TypeParameter", .named .typeParameter), ("Operation", .named .operationTy),
     ("Function", .named .functionTy), ("Missing", .null), ("Invalid", .null)]
  | .operationTy => .tuple [.named .ty, .named .ty, .named .information]
  | .functionTy => .tuple [.named .ty, .named .ty]
  | .outcome => names ["Zero", "One"]
  | .identifier => .choice
    [("LocalVariable", .text), ("GlobalCallable", .named .qualifiedName), ("InvalidIdentifier", .null)]
  | .binaryOp => names
    ["Eq", "Neq", "Lt", "Lte", "Gt", "Gte", "Add", "Sub", "Mul", "Div", "Mod", "And", "Or"]
  | .unaryOp => names ["Not", "Neg"]
  | .resolution => .record
    [⟨"callable", .named .qualifiedName, none⟩, ⟨"parameter", .text, none⟩, ⟨"ty", .named .ty, none⟩]
  | .expr => .record
    [⟨"kind", .named .exprKind, none⟩, ⟨"type_args", .list (.named .resolution), some .nil⟩,
     ⟨"ty", .named .ty, none⟩, ⟨"inferred", .named .inferred, some notInferred⟩,
     ⟨"range", .optional (.named .span), some .nil⟩]
  | .exprKind => .choice
    [("UnitValue", .null), ("Identifier", .named .nameUse), ("ValueTuple", .list (.named .expr)),
     ("ValueArray", .list (.named .expr)), ("IntLiteral", .integer), ("DoubleLiteral", .double),
     ("BoolLiteral", .flag), ("StringLiteral", .text), ("OutcomeLiteral", .named .outcome),
     ("BinOp", .named .binary), ("UnaryOp", .named .unary), ("ArrayItem", .named .item),
     ("Conditional", .named .choice), ("Call", .named .call), ("Missing", .null), ("Invalid", .null)]
  | .nameUse => .tuple [.named .identifier, .optional types]
  | .binary => .record
    [⟨"op", .named .binaryOp, none⟩, ⟨"lhs", .named .expr, none⟩, ⟨"rhs", .named .expr, none⟩]
  | .unary => .record [⟨"op", .named .unaryOp, none⟩, ⟨"operand", .named .expr, none⟩]
  | .item => .record [⟨"array", .named .expr, none⟩, ⟨"index", .named .expr, none⟩]
  | .choice => .record
    [⟨"cond", .named .expr, none⟩, ⟨"then", .named .expr, none⟩, ⟨"otherwise", .named .expr, none⟩]
  | .call => .record [⟨"callee", .named .expr, none⟩, ⟨"arg", .named .expr, none⟩]
  | .variable => .record (declarationFields .text)
  | .parameter => .record (declarationFields (.named .symbol))
  | .declarations => .record [⟨"variables", .list (.named .variable), some .nil⟩]
  | .symbolTuple => .choice
    [("VariableName", .text), ("VariableNameTuple", .list (.named .symbolTuple)),
     ("DiscardedItem", .null), ("InvalidItem", .null)]
  | .bindingKind => names ["Immutable", "Mutable"]
  | .exprBinding => .record (bindingFields (.named .expr))
  | .qubitInit => .choice
    [("Single", .null), ("Register", .named .expr), ("Tuple", .list (.named .qubitInit))]
  | .qubitBinding => .record (bindingFields (.named .qubitInit))
  | .qubitScopeKind => names ["Allocate", "Borrow"]
  | .statement => .record
    [⟨"kind", .named .statementKind, none⟩,
     ⟨"symbol_declarations", .named .declarations, some emptyRecord⟩, location?, comments?]
  | .statementKind => .choice
    [("Expression", .named .expr), ("Return", .named .expr), ("Fail", .named .expr),
     ("VariableDeclaration", .named .exprBinding), ("ValueUpdate", .named .update),
     ("Conditional", .named .conditional), ("For", .named .forEach), ("While", .named .whileLoop),
     ("Repeat", .named .repeatUntil), ("QubitScope", .named .qubits)]
  | .update => .record [⟨"lhs", .named .expr, none⟩, ⟨"rhs", .named .expr, none⟩]
  | .conditional => .record
    [⟨"blocks", .list (.named .arm), none⟩, ⟨"default", .optional (.named .block), some .nil⟩]
  | .arm => .record [⟨"condition", .named .expr, none⟩, ⟨"block", .named .block, none⟩]
  | .forEach => .record
    [⟨"item", .named .symbolTuple, none⟩, ⟨"item_type", .named .ty, none⟩,
     ⟨"iterable", .named .expr, none⟩, ⟨"body", .named .scope, none⟩]
  | .whileLoop => .record [⟨"condition", .named .expr, none⟩, ⟨"body", .named .scope, none⟩]
  | .repeatUntil => .record
    [⟨"repeat_block", .named .block, none⟩, ⟨"success", .named .expr, none⟩,
     ⟨"fixup_block", .named .block, none⟩]
  | .qubits => .record
    [⟨"kind", .named .qubitScopeKind, none⟩, ⟨"binding", .named .qubitBinding, none⟩,
     ⟨"body", .named .scope, none⟩]
  | .block => .record [⟨"body", .named .scope, none⟩, location?, comments?]
  | .scope => .record
    [⟨"statements", .list (.named .statement), none⟩,
     ⟨"known_symbols", .named .declarations, some emptyRecord⟩]
  | .symbol => .choice [("ValidName", .text), ("InvalidName", .null)]
  | .params => .choice [("Item", .named .parameter), ("Tuple", .list (.named .params))]
  | .signature => .record
    [⟨"type_parameters", .list (.named .symbol), some .nil⟩, ⟨"argument_type", .named .ty, none⟩,
     ⟨"return_type", .named .ty, none⟩, ⟨"information", .named .information, some emptyRecord⟩]
  | .provided => .record [⟨"params", .named .params, none⟩, ⟨"scope", .named .scope, none⟩]
  | .implementation => .choice
    [("Provided", .named .provided), ("Intrinsic", .null), ("External", .null), ("Generated", .text)]
  | .specializationKind => names ["Body", "Adjoint", "Controlled", "ControlledAdjoint"]
  | .specialization => .record
    [⟨"kind", .named .specializationKind, none⟩, ⟨"parent", .named .qualifiedName, none⟩,
     sourceFile, location?, ⟨"type_arguments", .optional types, some .nil⟩,
     ⟨"signature", .named .signature, none⟩, ⟨"implementation", .named .implementation, none⟩,
     documentation, comments?]
  | .callableKind => names ["Operation", "Function", "TypeConstructor"]
  | .callable => .record
    [⟨"kind", .named .callableKind, none⟩, ⟨"name", .named .qualifiedName, none⟩, sourceFile,
     location?, ⟨"signature", .named .signature, none⟩, ⟨"arg_tuple", .named .params, none⟩,
     ⟨"specializations", .list (.named .specialization), none⟩, documentation, comments?]
  | .customType => .record
    [⟨"name", .named .qualifiedName, none⟩, ⟨"underlying", .named .ty, none⟩, sourceFile, location?,
     documentation, comments?]
  | .element => .choice [("Callable", .named .callable), ("CustomType", .named .customType)]
  | .space => .record [⟨"name", .text, none⟩, ⟨"elements", .list (.named .element), none⟩]
  | .compilation => .record
    [⟨"namespaces", .list (.named .space), none⟩,
     ⟨"entry_points", .list (.named .qualifiedName), some .nil⟩]
  | .primitive => .record [⟨"name", .named .qualifiedName, none⟩, ⟨"type_parameters", texts, none⟩]
  | .primitives => .record
    [⟨"apply_if_zero", .named .primitive, none⟩, ⟨"apply_if_one", .named .primitive, none⟩]
  | .settings => .record
    [⟨"callable_prefix", .text, some (.text "_ctrl")⟩,
     ⟨"variable_prefix", .text, some (.text "__classic_ctrl")⟩,
     ⟨"builtin_namespace", .text,
      some (.text "Microsoft.Quantum.Simulation.QuantumProcessor.Extensions")⟩,
     ⟨"apply_if_zero", .text, some (.text "ApplyIfZero")⟩,
     ⟨"apply_if_one", .text, some (.text "ApplyIfOne")⟩]
  | .frame => .record
    [⟨"name", .named .qualifiedName, none⟩,
     ⟨"type_parameters", .list (.named .symbol), some .nil⟩, sourceFile]
  | .target => .record [⟨"name", .named .qualifiedName, none⟩, ⟨"param_type", .named .ty, none⟩]

end Kind

namespace Shape

def head : Shape → Head
  | .null => .null | .text => .text | .word => .word | .integer => .integer
  | .double => .double | .flag => .flag
  | .named k => k.head
  | .list item => .list item
  | .optional inner => inner.head

/-- Whether `null` may stand for the absence of a value. -/
def nullable : Shape → Bool
  | .optional _ => true
  | _ => false

end Shape

end OutcomeControl
