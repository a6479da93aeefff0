import OutcomeControl.Format.Reading
import OutcomeControl.Format.Tree
import OutcomeControl.Format.Writing
import OutcomeControl.Json.Reader

/-! Encoding and decoding of every type of the format. -/

namespace OutcomeControl

/-- A type that the JSON format covers. -/
class Formatted (α : Type) where
  shape : Shape
  toValue : α → Value
  ofValue : Value → Option α

namespace Formatted

/-- The tree that a JSON value spells. -/
def decode {α : Type} [Formatted α] (j : Json) : Except Fault α := do
  let v ← j.readAs (shape α)
  match ofValue v with
  | some a => return a
  | none => throw .mismatch

/-- The tree that a whole text spells. Faults inside the value come before text after it. -/
def decodeText {α : Type} [Formatted α] (text : String) : Except Fault α := do
  let doc := Json.read text
  let a ← decode doc.root
  if doc.complete then return a else throw .malformed

/-- The tree as JSON, with doubles written as `double` says. -/
def encodeWith {α : Type} [Formatted α] (double : Double → Json) (a : α) : Json :=
  (toValue a).writeAs double (shape α)

def encode {α : Type} [Formatted α] (a : α) : Json := encodeWith Double.json a

end Formatted

open Formatted (shape toValue ofValue)

instance : Formatted String := ⟨.text, .text, Value.text?⟩
instance : Formatted Bool := ⟨.flag, .flag, Value.flag?⟩
instance : Formatted Int64 := ⟨.integer, .integer, Value.integer?⟩

instance {α : Type} [Formatted α] : Formatted (List α) :=
  ⟨.list (shape α), fun as => .ofList (as.map toValue), Value.list? ofValue⟩

instance {α : Type} [Formatted α] : Formatted (Option α) :=
  ⟨.optional (shape α), fun a => .ofOption (a.map toValue), Value.option? ofValue⟩

instance : Formatted QualifiedName := ⟨.named .qualifiedName, (·.toValue), QualifiedName.ofValue⟩
instance : Formatted Position := ⟨.named .position, (·.toValue), Position.ofValue⟩
instance : Formatted Span := ⟨.named .span, (·.toValue), Span.ofValue⟩
instance : Formatted Location := ⟨.named .location, (·.toValue), Location.ofValue⟩
instance : Formatted Comments := ⟨.named .comments, (·.toValue), Comments.ofValue⟩
instance : Formatted TypeParameter := ⟨.named .typeParameter, (·.toValue), TypeParameter.ofValue⟩
instance : Formatted Characteristic := ⟨.named .characteristic, (·.toValue), Characteristic.ofValue⟩
instance : Formatted Ty := ⟨.named .ty, (·.toValue), Ty.ofValue⟩
instance : Formatted Outcome := ⟨.named .outcome, (·.toValue), Outcome.ofValue⟩
instance : Formatted Identifier := ⟨.named .identifier, (·.toValue), Identifier.ofValue⟩
instance : Formatted BinaryOp := ⟨.named .binaryOp, (·.toValue), BinaryOp.ofValue⟩
instance : Formatted UnaryOp := ⟨.named .unaryOp, (·.toValue), UnaryOp.ofValue⟩
instance : Formatted Inferred := ⟨.named .inferred, (·.toValue), Inferred.ofValue⟩
instance : Formatted Resolution := ⟨.named .resolution, (·.toValue), Resolution.ofValue⟩
instance : Formatted Expr := ⟨.named .expr, (·.toValue), Expr.ofValue⟩
instance : Formatted ExprKind := ⟨.named .exprKind, Expr.kindToValue, Expr.kindOfValue⟩
instance : Formatted Variable := ⟨.named .variable, Variable.toValue, Variable.ofValue⟩
instance : Formatted (Declaration Symbol) :=
  ⟨.named .parameter, Declaration.toValue Symbol.toValue, Declaration.ofValue Symbol.ofValue⟩
instance : Formatted SymbolTuple := ⟨.named .symbolTuple, (·.toValue), SymbolTuple.ofValue⟩
instance : Formatted BindingKind := ⟨.named .bindingKind, (·.toValue), BindingKind.ofValue⟩
instance : Formatted (Binding Expr) :=
  ⟨.named .exprBinding, Binding.toValue Expr.toValue, Binding.ofValue Expr.ofValue⟩
instance : Formatted QubitInit := ⟨.named .qubitInit, (·.toValue), QubitInit.ofValue⟩
instance : Formatted (Binding QubitInit) :=
  ⟨.named .qubitBinding, Binding.toValue QubitInit.toValue, Binding.ofValue QubitInit.ofValue⟩
instance : Formatted QubitScopeKind := ⟨.named .qubitScopeKind, (·.toValue), QubitScopeKind.ofValue⟩
instance : Formatted Statement := ⟨.named .statement, (·.toValue), Statement.ofValue⟩
instance : Formatted StatementKind := ⟨.named .statementKind, (·.toValue), StatementKind.ofValue⟩
instance : Formatted Block := ⟨.named .block, (·.toValue), Block.ofValue⟩
instance : Formatted Scope := ⟨.named .scope, (·.toValue), Scope.ofValue⟩
instance : Formatted Symbol := ⟨.named .symbol, (·.toValue), Symbol.ofValue⟩
instance : Formatted Params := ⟨.named .params, (·.toValue), Params.ofValue⟩
instance : Formatted Signature := ⟨.named .signature, (·.toValue), Signature.ofValue⟩
instance : Formatted Implementation := ⟨.named .implementation, (·.toValue), Implementation.ofValue⟩
instance : Formatted SpecializationKind :=
  ⟨.named .specializationKind, (·.toValue), SpecializationKind.ofValue⟩
instance : Formatted Specialization := ⟨.named .specialization, (·.toValue), Specialization.ofValue⟩
instance : Formatted CallableKind := ⟨.named .callableKind, (·.toValue), CallableKind.ofValue⟩
instance : Formatted Callable := ⟨.named .callable, (·.toValue), Callable.ofValue⟩
instance : Formatted CustomType := ⟨.named .customType, (·.toValue), CustomType.ofValue⟩
instance : Formatted Element := ⟨.named .element, (·.toValue), Element.ofValue⟩
instance : Formatted Namespace := ⟨.named .space, (·.toValue), Namespace.ofValue⟩
instance : Formatted Compilation := ⟨.named .compilation, (·.toValue), Compilation.ofValue⟩

end OutcomeControl
