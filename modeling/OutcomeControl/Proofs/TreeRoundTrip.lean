import OutcomeControl.Format.Lowering
import OutcomeControl.Proofs.JsonText
import OutcomeControl.Proofs.ShapeRoundTrip

/-! Trees come back from their JSON.

Each type of the format is `LawfulFormatted`: its values have its shape, which is what reading and
writing in a shape needs, and the tree is read back from its value. Both follow the recursion of the
type. `Formatted.decode_encode` and `Formatted.decodeText_pretty` then hold of every type at once: what
was written spells the tree, unless too many arrays and objects are open at once. -/

namespace OutcomeControl

open Formatted (shape toValue ofValue)

/-- The values of a type have its shape, and the type is read back from them. -/
class LawfulFormatted (α : Type) [Formatted α] : Prop where
  hasShape (a : α) : (toValue a).HasShape (shape α)
  ofValue_toValue (a : α) : ofValue (toValue a) = some a

/-- Nothing of the shape is written as `null`. -/
def Shape.IsSolid (s : Shape) : Prop := s.nullable = false ∧ s.head ≠ .null

theorem Shape.isSolid_named (k : Kind) : (Shape.named k).IsSolid :=
  ⟨rfl, by cases k <;> exact Head.noConfusion⟩

theorem Shape.isSolid_list (item : Shape) : (Shape.list item).IsSolid :=
  ⟨rfl, Head.noConfusion⟩

/-! ### Reading one part after the other -/

section
variable {α β γ δ ε ζ : Type} {x : Option α} {y : Option β} {z : Option γ} {u : Option δ} {w : Option ε}
variable {a : α} {b : β} {c : γ} {d : δ} {e : ε}

theorem return₁ (f : α → β) (hx : x = some a) : (do return f (← x)) = some (f a) := by
  rw [hx]
  rfl

theorem return₂ (f : α → β → γ) (hx : x = some a) (hy : y = some b) :
    (do return f (← x) (← y)) = some (f a b) := by
  rw [hx, hy]
  rfl

theorem return₃ (f : α → β → γ → δ) (hx : x = some a) (hy : y = some b) (hz : z = some c) :
    (do return f (← x) (← y) (← z)) = some (f a b c) := by
  rw [hx, hy, hz]
  rfl

theorem return₄ (f : α → β → γ → δ → ε) (hx : x = some a) (hy : y = some b) (hz : z = some c)
    (hu : u = some d) : (do return f (← x) (← y) (← z) (← u)) = some (f a b c d) := by
  rw [hx, hy, hz, hu]
  rfl

theorem return₅ (f : α → β → γ → δ → ε → ζ) (hx : x = some a) (hy : y = some b) (hz : z = some c)
    (hu : u = some d) (hw : w = some e) :
    (do return f (← x) (← y) (← z) (← u) (← w)) = some (f a b c d e) := by
  rw [hx, hy, hz, hu, hw]
  rfl

end

/-! ### Words, lists and options -/

namespace Value

theorem hasShape_text (s : String) : (text s).HasShape .text := ⟨rfl, rfl⟩

@[simp] theorem text?_text (s : String) : text? (.text s) = some s := rfl
@[simp] theorem flag?_flag (b : Bool) : flag? (.flag b) = some b := rfl
@[simp] theorem double?_double (d : Double) : double? (.double d) = some d := rfl

theorem hasShape_word (n : UInt32) : (word n).HasShape .word :=
  ⟨rfl, Int.natCast_nonneg _, Int.ofNat_lt.mpr n.toNat_lt⟩

@[simp] theorem word?_word (n : UInt32) : (word n).word? = some n := by
  have h : 0 ≤ (n.toNat : Int) ∧ (n.toNat : Int) < wordBound :=
    ⟨Int.natCast_nonneg _, Int.ofNat_lt.mpr n.toNat_lt⟩
  simp [word, word?, h.2]

theorem hasShape_integer (n : Int64) : (integer n).HasShape .integer :=
  ⟨rfl, n.minValue_le_toInt, n.toInt_lt⟩

@[simp] theorem integer?_integer (n : Int64) : (integer n).integer? = some n := by
  have h : -integerBound ≤ n.toInt ∧ n.toInt < integerBound := ⟨n.minValue_le_toInt, n.toInt_lt⟩
  simp [integer, integer?, h.1, h.2]

variable {α : Type} {f : α → Value} {g : Value → Option α} {s : Shape}

theorem hasShape_list {v : Value} (h : v.AreItems s) : v.HasShape (.list s) := by
  match v, h with
  | .nil, _ => trivial
  | .cons _ _, h => exact h

theorem areItems_ofList (h : ∀ a, (f a).HasShape s) : (as : List α) → (ofList (as.map f)).AreItems s
  | [] => trivial
  | a :: as => ⟨h a, areItems_ofList h as⟩

theorem list?_ofList (h : ∀ a, g (f a) = some a) (as : List α) :
    list? g (ofList (as.map f)) = some as := by
  induction as with
  | nil => rfl
  | cons a as ih => simp [ofList, list?, h, ih]

theorem hasShape_ofOption (hs : s.IsSolid) (h : ∀ a, (f a).HasShape s) :
    (o : Option α) → (ofOption (o.map f)).HasShape (.optional s)
  | none => trivial
  | some a => ⟨rfl, hs.2, by have := h a; rwa [HasShape, hs.1] at this⟩

theorem option?_ofOption (h : ∀ a, g (f a) = some a) (o : Option α) :
    option? g (ofOption (o.map f)) = some o := by
  cases o with
  | none => rfl
  | some a => simp [ofOption, option?, h]

end Value

/-! ### Source and types -/

namespace QualifiedName

theorem hasShape (q : QualifiedName) : q.toValue.HasShape (.named .qualifiedName) :=
  ⟨⟨rfl, rfl⟩, ⟨rfl, rfl⟩, rfl⟩

@[simp] theorem ofValue_toValue (q : QualifiedName) : ofValue q.toValue = some q := rfl

end QualifiedName

namespace Position

theorem hasShape (p : Position) : p.toValue.HasShape (.named .position) :=
  ⟨Value.hasShape_word _, Value.hasShape_word _, rfl⟩

@[simp] theorem ofValue_toValue (p : Position) : ofValue p.toValue = some p := by
  simp [toValue, Value.ofList, ofValue]

end Position

namespace Span

theorem hasShape (s : Span) : s.toValue.HasShape (.named .span) :=
  ⟨s.start.hasShape, s.stop.hasShape, rfl⟩

@[simp] theorem ofValue_toValue (s : Span) : ofValue s.toValue = some s := by
  simp [toValue, Value.ofList, ofValue]

end Span

namespace Location

theorem hasShape (l : Location) : l.toValue.HasShape (.named .location) :=
  ⟨l.offset.hasShape, l.range.hasShape, rfl⟩

@[simp] theorem ofValue_toValue (l : Location) : ofValue l.toValue = some l := by
  simp [toValue, Value.ofList, ofValue]

end Location

namespace Comments

theorem hasShape_lines (ls : List String) : (lines ls).HasShape Kind.texts :=
  Value.hasShape_list (Value.areItems_ofList Value.hasShape_text ls)

@[simp] theorem list?_lines (ls : List String) : (lines ls).list? Value.text? = some ls :=
  Value.list?_ofList Value.text?_text ls

theorem hasShape (c : Comments) : c.toValue.HasShape (.named .comments) :=
  ⟨hasShape_lines _, hasShape_lines _, rfl⟩

@[simp] theorem ofValue_toValue (c : Comments) : ofValue c.toValue = some c := by
  simp [toValue, Value.ofList, ofValue]

end Comments

theorem hasShape_optionalLocation (l : Option Location) :
    (optionalLocation l).HasShape (.optional (.named .location)) :=
  Value.hasShape_ofOption (Shape.isSolid_named _) Location.hasShape l

@[simp] theorem option?_optionalLocation (l : Option Location) :
    (optionalLocation l).option? Location.ofValue = some l :=
  Value.option?_ofOption Location.ofValue_toValue l

theorem hasShape_optionalSpan (s : Option Span) :
    (optionalSpan s).HasShape (.optional (.named .span)) :=
  Value.hasShape_ofOption (Shape.isSolid_named _) Span.hasShape s

@[simp] theorem option?_optionalSpan (s : Option Span) :
    (optionalSpan s).option? Span.ofValue = some s :=
  Value.option?_ofOption Span.ofValue_toValue s

namespace TypeParameter

theorem hasShape (p : TypeParameter) : p.toValue.HasShape (.named .typeParameter) :=
  ⟨p.origin.hasShape, ⟨rfl, rfl⟩, hasShape_optionalSpan _, rfl⟩

@[simp] theorem ofValue_toValue (p : TypeParameter) : ofValue p.toValue = some p := by
  simp [toValue, Value.ofList, ofValue]

end TypeParameter

namespace Characteristic

theorem hasShape (c : Characteristic) : c.toValue.HasShape (.named .characteristic) := by
  cases c <;> exact ⟨rfl, _, _, rfl, rfl, trivial⟩

@[simp] theorem ofValue_toValue (c : Characteristic) : ofValue c.toValue = some c := by
  cases c <;> rfl

theorem hasShape_list (cs : List Characteristic) :
    (listToValue cs).HasShape (.named .information) :=
  ⟨Value.hasShape_list (Value.areItems_ofList hasShape cs), rfl⟩

@[simp] theorem listOfValue_listToValue (cs : List Characteristic) :
    listOfValue (listToValue cs) = some cs :=
  Value.list?_ofList ofValue_toValue cs

end Characteristic

namespace Ty

mutual
theorem hasShape : (t : Ty) → t.toValue.HasShape (.named .ty)
  | .unit | .int | .double | .bool | .string | .outcome | .qubit | .range | .missing | .invalid =>
    ⟨rfl, _, _, rfl, rfl, trivial⟩
  | .array item => ⟨rfl, _, _, rfl, rfl, item.hasShape⟩
  | .tuple items => ⟨rfl, _, _, rfl, rfl, Value.hasShape_list (areItems items)⟩
  | .custom name => ⟨rfl, _, _, rfl, rfl, name.hasShape⟩
  | .parameter p => ⟨rfl, _, _, rfl, rfl, p.hasShape⟩
  | .operation input output cs =>
    ⟨rfl, _, _, rfl, rfl, input.hasShape, output.hasShape, Characteristic.hasShape_list cs, rfl⟩
  | .function input output => ⟨rfl, _, _, rfl, rfl, input.hasShape, output.hasShape, rfl⟩
theorem areItems : (ts : List Ty) → (listToValue ts).AreItems (.named .ty)
  | [] => trivial
  | t :: ts => ⟨t.hasShape, areItems ts⟩
end

mutual
@[simp] theorem ofValue_toValue : (t : Ty) → ofValue t.toValue = some t
  | .unit | .int | .double | .bool | .string | .outcome | .qubit | .range | .missing | .invalid => rfl
  | .array item => return₁ Ty.array (ofValue_toValue item)
  | .tuple items => return₁ Ty.tuple (listOfValue_listToValue items)
  | .custom name => return₁ Ty.custom name.ofValue_toValue
  | .parameter p => return₁ Ty.parameter p.ofValue_toValue
  | .operation input output cs =>
    return₃ Ty.operation (ofValue_toValue input) (ofValue_toValue output)
      (Characteristic.listOfValue_listToValue cs)
  | .function input output => return₂ Ty.function (ofValue_toValue input) (ofValue_toValue output)
@[simp] theorem listOfValue_listToValue : (ts : List Ty) → listOfValue (listToValue ts) = some ts
  | [] => rfl
  | t :: ts => return₂ List.cons (ofValue_toValue t) (listOfValue_listToValue ts)
end

end Ty

/-! ### Expressions -/

namespace Outcome

theorem hasShape (x : Outcome) : x.toValue.HasShape (.named .outcome) := by
  cases x <;> exact ⟨rfl, _, _, rfl, rfl, trivial⟩

@[simp] theorem ofValue_toValue (x : Outcome) : ofValue x.toValue = some x := by
  cases x <;> rfl

end Outcome

namespace BinaryOp

theorem hasShape (x : BinaryOp) : x.toValue.HasShape (.named .binaryOp) := by
  cases x <;> exact ⟨rfl, _, _, rfl, rfl, trivial⟩

@[simp] theorem ofValue_toValue (x : BinaryOp) : ofValue x.toValue = some x := by
  cases x <;> rfl

end BinaryOp

namespace UnaryOp

theorem hasShape (x : UnaryOp) : x.toValue.HasShape (.named .unaryOp) := by
  cases x <;> exact ⟨rfl, _, _, rfl, rfl, trivial⟩

@[simp] theorem ofValue_toValue (x : UnaryOp) : ofValue x.toValue = some x := by
  cases x <;> rfl

end UnaryOp

namespace Identifier

theorem hasShape : (id : Identifier) → id.toValue.HasShape (.named .identifier)
  | .ofVariable _ => ⟨rfl, _, _, rfl, rfl, rfl, rfl⟩
  | .ofCallable name => ⟨rfl, _, _, rfl, rfl, name.hasShape⟩
  | .invalid => ⟨rfl, _, _, rfl, rfl, trivial⟩

@[simp] theorem ofValue_toValue (id : Identifier) : ofValue id.toValue = some id := by
  cases id <;> rfl

end Identifier

namespace Inferred

theorem hasShape (i : Inferred) : i.toValue.HasShape (.named .inferred) :=
  ⟨⟨rfl, rfl⟩, ⟨rfl, rfl⟩, rfl⟩

@[simp] theorem ofValue_toValue (i : Inferred) : ofValue i.toValue = some i := rfl

end Inferred

namespace Resolution

theorem hasShape (r : Resolution) : r.toValue.HasShape (.named .resolution) :=
  ⟨r.callable.hasShape, Value.hasShape_text _, r.ty.hasShape, rfl⟩

@[simp] theorem ofValue_toValue (r : Resolution) : ofValue r.toValue = some r := by
  simp [toValue, Value.ofList, ofValue]

end Resolution

/-- Type arguments, where there may be none. -/
theorem hasShape_typeArguments (ts : Option (List Ty)) :
    (Value.ofOption (ts.map Ty.listToValue)).HasShape (.optional Kind.types) :=
  Value.hasShape_ofOption (Shape.isSolid_list _) (fun ts => Value.hasShape_list (Ty.areItems ts)) ts

@[simp] theorem option?_typeArguments (ts : Option (List Ty)) :
    (Value.ofOption (ts.map Ty.listToValue)).option? Ty.listOfValue = some ts :=
  Value.option?_ofOption Ty.listOfValue_listToValue ts

namespace Expr

mutual
theorem hasShape : (e : Expr) → e.toValue.HasShape (.named .expr)
  | ⟨kind, info⟩ =>
    ⟨hasShape_kind kind, Value.hasShape_list (Value.areItems_ofList Resolution.hasShape _),
      info.ty.hasShape, info.inferred.hasShape, hasShape_optionalSpan _, rfl⟩
theorem hasShape_kind : (k : ExprKind) → (kindToValue k).HasShape (.named .exprKind)
  | .unit | .missing | .invalid => ⟨rfl, _, _, rfl, rfl, trivial⟩
  | .name id arguments =>
    ⟨rfl, _, _, rfl, rfl, id.hasShape, hasShape_typeArguments arguments, rfl⟩
  | .tuple items | .array items => ⟨rfl, _, _, rfl, rfl, Value.hasShape_list (areItems items)⟩
  | .int n => ⟨rfl, _, _, rfl, rfl, Value.hasShape_integer n⟩
  | .double _ | .bool _ | .string _ => ⟨rfl, _, _, rfl, rfl, rfl, rfl⟩
  | .outcome o => ⟨rfl, _, _, rfl, rfl, o.hasShape⟩
  | .binary op lhs rhs => ⟨rfl, _, _, rfl, rfl, op.hasShape, lhs.hasShape, rhs.hasShape, rfl⟩
  | .unary op operand => ⟨rfl, _, _, rfl, rfl, op.hasShape, operand.hasShape, rfl⟩
  | .item array index => ⟨rfl, _, _, rfl, rfl, array.hasShape, index.hasShape, rfl⟩
  | .choice condition yes no =>
    ⟨rfl, _, _, rfl, rfl, condition.hasShape, yes.hasShape, no.hasShape, rfl⟩
  | .call callee argument => ⟨rfl, _, _, rfl, rfl, callee.hasShape, argument.hasShape, rfl⟩
theorem areItems : (es : List Expr) → (listToValue es).AreItems (.named .expr)
  | [] => trivial
  | e :: es => ⟨e.hasShape, areItems es⟩
end

mutual
@[simp] theorem ofValue_toValue : (e : Expr) → ofValue e.toValue = some e
  | ⟨kind, info⟩ =>
    return₅ (fun kind resolutions ty inferred range => Expr.mk kind ⟨resolutions, ty, inferred, range⟩)
      (kindOfValue_kindToValue kind) (Value.list?_ofList Resolution.ofValue_toValue info.resolutions)
      info.ty.ofValue_toValue info.inferred.ofValue_toValue (option?_optionalSpan info.range)
@[simp] theorem kindOfValue_kindToValue : (k : ExprKind) → kindOfValue (kindToValue k) = some k
  | .unit | .double _ | .bool _ | .string _ | .missing | .invalid => rfl
  | .name id arguments => return₂ ExprKind.name id.ofValue_toValue (option?_typeArguments arguments)
  | .tuple items => return₁ ExprKind.tuple (listOfValue_listToValue items)
  | .array items => return₁ ExprKind.array (listOfValue_listToValue items)
  | .int n => return₁ ExprKind.int (Value.integer?_integer n)
  | .outcome o => return₁ ExprKind.outcome o.ofValue_toValue
  | .binary op lhs rhs =>
    return₃ ExprKind.binary op.ofValue_toValue (ofValue_toValue lhs) (ofValue_toValue rhs)
  | .unary op operand => return₂ ExprKind.unary op.ofValue_toValue (ofValue_toValue operand)
  | .item array index => return₂ ExprKind.item (ofValue_toValue array) (ofValue_toValue index)
  | .choice condition yes no =>
    return₃ ExprKind.choice (ofValue_toValue condition) (ofValue_toValue yes) (ofValue_toValue no)
  | .call callee argument => return₂ ExprKind.call (ofValue_toValue callee) (ofValue_toValue argument)
@[simp] theorem listOfValue_listToValue : (es : List Expr) → listOfValue (listToValue es) = some es
  | [] => rfl
  | e :: es => return₂ List.cons (ofValue_toValue e) (listOfValue_listToValue es)
end

end Expr

/-! ### Statements -/

namespace Declaration

variable {ν : Type} {f : ν → Value} {g : Value → Option ν} {s : Shape}

theorem hasHead (h : ∀ n, (f n).HasShape s) (d : Declaration ν) :
    (d.toValue f).HasHead (.record (Kind.declarationFields s)) false :=
  ⟨h d.name, d.ty.hasShape, d.inferred.hasShape,
    Value.hasShape_ofOption (Shape.isSolid_named _) Position.hasShape d.position, d.range.hasShape, rfl⟩

theorem ofValue_toValue (h : ∀ n, g (f n) = some n) (d : Declaration ν) :
    ofValue g (d.toValue f) = some d := by
  simp [toValue, Value.ofList, ofValue, h, Value.option?_ofOption Position.ofValue_toValue]

end Declaration

namespace Variable

theorem hasShape (v : Variable) : v.toValue.HasShape (.named .variable) :=
  Declaration.hasHead Value.hasShape_text v

@[simp] theorem ofValue_toValue (v : Variable) : ofValue v.toValue = some v :=
  Declaration.ofValue_toValue Value.text?_text v

theorem hasShape_list (vs : List Variable) : (listToValue vs).HasShape (.named .declarations) :=
  ⟨Value.hasShape_list (Value.areItems_ofList hasShape vs), rfl⟩

@[simp] theorem listOfValue_listToValue (vs : List Variable) :
    listOfValue (listToValue vs) = some vs :=
  Value.list?_ofList ofValue_toValue vs

end Variable

namespace SymbolTuple

mutual
theorem hasShape : (s : SymbolTuple) → s.toValue.HasShape (.named .symbolTuple)
  | .name _ => ⟨rfl, _, _, rfl, rfl, rfl, rfl⟩
  | .tuple items => ⟨rfl, _, _, rfl, rfl, Value.hasShape_list (areItems items)⟩
  | .discard | .invalid => ⟨rfl, _, _, rfl, rfl, trivial⟩
theorem areItems : (ss : List SymbolTuple) → (listToValue ss).AreItems (.named .symbolTuple)
  | [] => trivial
  | s :: ss => ⟨s.hasShape, areItems ss⟩
end

mutual
@[simp] theorem ofValue_toValue : (s : SymbolTuple) → ofValue s.toValue = some s
  | .name _ | .discard | .invalid => rfl
  | .tuple items => return₁ SymbolTuple.tuple (listOfValue_listToValue items)
@[simp] theorem listOfValue_listToValue :
    (ss : List SymbolTuple) → listOfValue (listToValue ss) = some ss
  | [] => rfl
  | s :: ss => return₂ List.cons (ofValue_toValue s) (listOfValue_listToValue ss)
end

end SymbolTuple

namespace BindingKind

theorem hasShape (x : BindingKind) : x.toValue.HasShape (.named .bindingKind) := by
  cases x <;> exact ⟨rfl, _, _, rfl, rfl, trivial⟩

@[simp] theorem ofValue_toValue (x : BindingKind) : ofValue x.toValue = some x := by
  cases x <;> rfl

end BindingKind

namespace QubitScopeKind

theorem hasShape (x : QubitScopeKind) : x.toValue.HasShape (.named .qubitScopeKind) := by
  cases x <;> exact ⟨rfl, _, _, rfl, rfl, trivial⟩

@[simp] theorem ofValue_toValue (x : QubitScopeKind) : ofValue x.toValue = some x := by
  cases x <;> rfl

end QubitScopeKind

namespace Binding

variable {ρ : Type} {f : ρ → Value} {g : Value → Option ρ} {s : Shape}

theorem hasHead (h : ∀ r, (f r).HasShape s) (b : Binding ρ) :
    (b.toValue f).HasHead (.record (Kind.bindingFields s)) false :=
  ⟨b.kind.hasShape, b.lhs.hasShape, h b.rhs, rfl⟩

theorem ofValue_toValue (h : ∀ r, g (f r) = some r) (b : Binding ρ) :
    ofValue g (b.toValue f) = some b := by
  simp [toValue, Value.ofList, ofValue, h]

end Binding

namespace QubitInit

mutual
theorem hasShape : (q : QubitInit) → q.toValue.HasShape (.named .qubitInit)
  | .single => ⟨rfl, _, _, rfl, rfl, trivial⟩
  | .register size => ⟨rfl, _, _, rfl, rfl, size.hasShape⟩
  | .tuple items => ⟨rfl, _, _, rfl, rfl, Value.hasShape_list (areItems items)⟩
theorem areItems : (qs : List QubitInit) → (listToValue qs).AreItems (.named .qubitInit)
  | [] => trivial
  | q :: qs => ⟨q.hasShape, areItems qs⟩
end

mutual
@[simp] theorem ofValue_toValue : (q : QubitInit) → ofValue q.toValue = some q
  | .single => rfl
  | .register size => return₁ QubitInit.register size.ofValue_toValue
  | .tuple items => return₁ QubitInit.tuple (listOfValue_listToValue items)
@[simp] theorem listOfValue_listToValue :
    (qs : List QubitInit) → listOfValue (listToValue qs) = some qs
  | [] => rfl
  | q :: qs => return₂ List.cons (ofValue_toValue q) (listOfValue_listToValue qs)
end

end QubitInit

mutual
theorem Statement.hasShape : (s : Statement) → s.toValue.HasShape (.named .statement)
  | ⟨kind, info⟩ =>
    ⟨kind.hasShape, Variable.hasShape_list _, hasShape_optionalLocation _, info.comments.hasShape, rfl⟩
theorem StatementKind.hasShape : (k : StatementKind) → k.toValue.HasShape (.named .statementKind)
  | .expression e | .returns e | .fails e => ⟨rfl, _, _, rfl, rfl, e.hasShape⟩
  | .binding b => ⟨rfl, _, _, rfl, rfl, b.hasHead Expr.hasShape⟩
  | .update lhs rhs => ⟨rfl, _, _, rfl, rfl, lhs.hasShape, rhs.hasShape, rfl⟩
  | .conditional branches =>
    ⟨rfl, _, _, rfl, rfl, Value.hasShape_list branches.areItems, branches.hasShape_default, rfl⟩
  | .forEach symbols itemTy iterable body =>
    ⟨rfl, _, _, rfl, rfl, symbols.hasShape, itemTy.hasShape, iterable.hasShape, body.hasShape, rfl⟩
  | .whileLoop condition body => ⟨rfl, _, _, rfl, rfl, condition.hasShape, body.hasShape, rfl⟩
  | .repeatUntil block success fixup =>
    ⟨rfl, _, _, rfl, rfl, block.hasShape, success.hasShape, fixup.hasShape, rfl⟩
  | .qubits kind binding body =>
    ⟨rfl, _, _, rfl, rfl, kind.hasShape, binding.hasHead QubitInit.hasShape, body.hasShape, rfl⟩
theorem Branches.areItems : (b : Branches) → b.armsToValue.AreItems (.named .arm)
  | .done | .otherwise _ => trivial
  | .arm condition block rest => ⟨⟨condition.hasShape, block.hasShape, rfl⟩, rest.areItems⟩
theorem Branches.hasShape_default :
    (b : Branches) → b.defaultToValue.HasShape (.optional (.named .block))
  | .done => trivial
  | .otherwise block => ⟨rfl, (Shape.isSolid_named _).2, block.hasShape⟩
  | .arm _ _ rest => rest.hasShape_default
theorem Block.hasShape : (b : Block) → b.toValue.HasShape (.named .block)
  | ⟨body, _, comments⟩ =>
    ⟨body.hasShape, hasShape_optionalLocation _, comments.hasShape, rfl⟩
theorem Scope.hasShape : (s : Scope) → s.toValue.HasShape (.named .scope)
  | ⟨statements, _⟩ =>
    ⟨Value.hasShape_list (Statement.areItems statements), Variable.hasShape_list _, rfl⟩
theorem Statement.areItems :
    (ss : List Statement) → (Statement.listToValue ss).AreItems (.named .statement)
  | [] => trivial
  | s :: ss => ⟨s.hasShape, Statement.areItems ss⟩
end

/-- The end of a chain, after its arms. -/
def Branches.last : Branches → Branches
  | .done => .done
  | .otherwise block => .otherwise block
  | .arm _ _ rest => rest.last

mutual
@[simp] theorem Statement.ofValue_toValue : (s : Statement) → Statement.ofValue s.toValue = some s
  | ⟨kind, info⟩ =>
    return₄ (fun kind declared location comments => Statement.mk kind ⟨declared, location, comments⟩)
      kind.ofValue_toValue (Variable.listOfValue_listToValue info.declarations)
      (option?_optionalLocation info.location) info.comments.ofValue_toValue
@[simp] theorem StatementKind.ofValue_toValue :
    (k : StatementKind) → StatementKind.ofValue k.toValue = some k
  | .expression e => return₁ StatementKind.expression e.ofValue_toValue
  | .returns e => return₁ StatementKind.returns e.ofValue_toValue
  | .fails e => return₁ StatementKind.fails e.ofValue_toValue
  | .binding b => return₁ StatementKind.binding (b.ofValue_toValue Expr.ofValue_toValue)
  | .update lhs rhs => return₂ StatementKind.update lhs.ofValue_toValue rhs.ofValue_toValue
  | .conditional branches => by
    have harms := branches.ofValue_arms
    change StatementKind.ofValue
      (.tag "Conditional" (.cons branches.armsToValue (.cons branches.defaultToValue .nil))) = _
    rcases branches.ofValue_default with ⟨hdefault, hlast⟩ | ⟨block, hdefault, hlast, hblock⟩
    · rw [hlast] at harms
      rw [hdefault]
      exact return₁ StatementKind.conditional harms
    · rw [hlast] at harms
      rw [hdefault]
      change (do
        return StatementKind.conditional
          (← Branches.ofValue (.otherwise (← Block.ofValue block.toValue)) branches.armsToValue)) = _
      rw [hblock]
      exact return₁ StatementKind.conditional harms
  | .forEach symbols itemTy iterable body =>
    return₄ StatementKind.forEach symbols.ofValue_toValue itemTy.ofValue_toValue
      iterable.ofValue_toValue body.ofValue_toValue
  | .whileLoop condition body =>
    return₂ StatementKind.whileLoop condition.ofValue_toValue body.ofValue_toValue
  | .repeatUntil block success fixup =>
    return₃ StatementKind.repeatUntil block.ofValue_toValue success.ofValue_toValue
      fixup.ofValue_toValue
  | .qubits kind binding body =>
    return₃ StatementKind.qubits kind.ofValue_toValue
      (binding.ofValue_toValue QubitInit.ofValue_toValue) body.ofValue_toValue
theorem Branches.ofValue_arms : (b : Branches) → Branches.ofValue b.last b.armsToValue = some b
  | .done | .otherwise _ => rfl
  | .arm condition block rest =>
    return₃ Branches.arm condition.ofValue_toValue block.ofValue_toValue rest.ofValue_arms
/-- What the default of a chain gives, and what the chain ends in. -/
theorem Branches.ofValue_default : (b : Branches) →
    (b.defaultToValue = .nil ∧ b.last = .done)
      ∨ ∃ block : Block, b.defaultToValue = .cons block.toValue .nil ∧ b.last = .otherwise block
        ∧ Block.ofValue block.toValue = some block
  | .done => .inl ⟨rfl, rfl⟩
  | .otherwise block => .inr ⟨block, rfl, rfl, block.ofValue_toValue⟩
  | .arm _ _ rest => rest.ofValue_default
@[simp] theorem Block.ofValue_toValue : (b : Block) → Block.ofValue b.toValue = some b
  | ⟨body, location, comments⟩ =>
    return₃ Block.mk body.ofValue_toValue (option?_optionalLocation location) comments.ofValue_toValue
@[simp] theorem Scope.ofValue_toValue : (s : Scope) → Scope.ofValue s.toValue = some s
  | ⟨statements, known⟩ =>
    return₂ Scope.mk (Statement.listOfValue_listToValue statements)
      (Variable.listOfValue_listToValue known)
@[simp] theorem Statement.listOfValue_listToValue :
    (ss : List Statement) → Statement.listOfValue (Statement.listToValue ss) = some ss
  | [] => rfl
  | s :: ss => return₂ List.cons s.ofValue_toValue (Statement.listOfValue_listToValue ss)
end

/-! ### Callables -/

namespace Symbol

theorem hasShape : (s : Symbol) → s.toValue.HasShape (.named .symbol)
  | .valid _ => ⟨rfl, _, _, rfl, rfl, rfl, rfl⟩
  | .invalid => ⟨rfl, _, _, rfl, rfl, trivial⟩

@[simp] theorem ofValue_toValue (s : Symbol) : ofValue s.toValue = some s := by
  cases s <;> rfl

end Symbol

namespace Params

mutual
theorem hasShape : (p : Params) → p.toValue.HasShape (.named .params)
  | .item d => ⟨rfl, _, _, rfl, rfl, d.hasHead Symbol.hasShape⟩
  | .tuple items => ⟨rfl, _, _, rfl, rfl, Value.hasShape_list (areItems items)⟩
theorem areItems : (ps : List Params) → (listToValue ps).AreItems (.named .params)
  | [] => trivial
  | p :: ps => ⟨p.hasShape, areItems ps⟩
end

mutual
@[simp] theorem ofValue_toValue : (p : Params) → ofValue p.toValue = some p
  | .item d => return₁ Params.item (d.ofValue_toValue Symbol.ofValue_toValue)
  | .tuple items => return₁ Params.tuple (listOfValue_listToValue items)
@[simp] theorem listOfValue_listToValue :
    (ps : List Params) → listOfValue (listToValue ps) = some ps
  | [] => rfl
  | p :: ps => return₂ List.cons (ofValue_toValue p) (listOfValue_listToValue ps)
end

end Params

namespace Signature

theorem hasShape (s : Signature) : s.toValue.HasShape (.named .signature) :=
  ⟨Value.hasShape_list (Value.areItems_ofList Symbol.hasShape _), s.argument.hasShape,
    s.result.hasShape, Characteristic.hasShape_list _, rfl⟩

@[simp] theorem ofValue_toValue (s : Signature) : ofValue s.toValue = some s := by
  simp [toValue, Value.ofList, ofValue, Value.list?_ofList Symbol.ofValue_toValue]

end Signature

namespace Implementation

theorem hasShape : (i : Implementation) → i.toValue.HasShape (.named .implementation)
  | .provided params scope => ⟨rfl, _, _, rfl, rfl, params.hasShape, scope.hasShape, rfl⟩
  | .intrinsic | .external => ⟨rfl, _, _, rfl, rfl, trivial⟩
  | .generated _ => ⟨rfl, _, _, rfl, rfl, rfl, rfl⟩

@[simp] theorem ofValue_toValue : (i : Implementation) → ofValue i.toValue = some i
  | .provided params scope =>
    return₂ Implementation.provided params.ofValue_toValue scope.ofValue_toValue
  | .intrinsic | .external | .generated _ => rfl

end Implementation

namespace SpecializationKind

theorem hasShape (x : SpecializationKind) : x.toValue.HasShape (.named .specializationKind) := by
  cases x <;> exact ⟨rfl, _, _, rfl, rfl, trivial⟩

@[simp] theorem ofValue_toValue (x : SpecializationKind) : ofValue x.toValue = some x := by
  cases x <;> rfl

end SpecializationKind

namespace Specialization

theorem hasShape (s : Specialization) : s.toValue.HasShape (.named .specialization) :=
  ⟨s.kind.hasShape, s.parent.hasShape, Value.hasShape_text _, hasShape_optionalLocation _,
    hasShape_typeArguments _, s.signature.hasShape, s.implementation.hasShape,
    Comments.hasShape_lines _, s.comments.hasShape, rfl⟩

@[simp] theorem ofValue_toValue (s : Specialization) : ofValue s.toValue = some s := by
  simp [toValue, Value.ofList, ofValue]

end Specialization

namespace CallableKind

theorem hasShape (x : CallableKind) : x.toValue.HasShape (.named .callableKind) := by
  cases x <;> exact ⟨rfl, _, _, rfl, rfl, trivial⟩

@[simp] theorem ofValue_toValue (x : CallableKind) : ofValue x.toValue = some x := by
  cases x <;> rfl

end CallableKind

namespace Callable

theorem hasShape (c : Callable) : c.toValue.HasShape (.named .callable) :=
  ⟨c.kind.hasShape, c.name.hasShape, Value.hasShape_text _, hasShape_optionalLocation _,
    c.signature.hasShape, c.params.hasShape,
    Value.hasShape_list (Value.areItems_ofList Specialization.hasShape _),
    Comments.hasShape_lines _, c.comments.hasShape, rfl⟩

@[simp] theorem ofValue_toValue (c : Callable) : ofValue c.toValue = some c := by
  simp [toValue, Value.ofList, ofValue, Value.list?_ofList Specialization.ofValue_toValue]

end Callable

namespace CustomType

theorem hasShape (t : CustomType) : t.toValue.HasShape (.named .customType) :=
  ⟨t.name.hasShape, t.underlying.hasShape, Value.hasShape_text _, hasShape_optionalLocation _,
    Comments.hasShape_lines _, t.comments.hasShape, rfl⟩

@[simp] theorem ofValue_toValue (t : CustomType) : ofValue t.toValue = some t := by
  simp [toValue, Value.ofList, ofValue]

end CustomType

namespace Element

theorem hasShape : (e : Element) → e.toValue.HasShape (.named .element)
  | .callable c => ⟨rfl, _, _, rfl, rfl, c.hasShape⟩
  | .customType t => ⟨rfl, _, _, rfl, rfl, t.hasShape⟩

@[simp] theorem ofValue_toValue : (e : Element) → ofValue e.toValue = some e
  | .callable c => return₁ Element.callable c.ofValue_toValue
  | .customType t => return₁ Element.customType t.ofValue_toValue

end Element

namespace Namespace

theorem hasShape (ns : Namespace) : ns.toValue.HasShape (.named .space) :=
  ⟨Value.hasShape_text _, Value.hasShape_list (Value.areItems_ofList Element.hasShape _), rfl⟩

@[simp] theorem ofValue_toValue (ns : Namespace) : ofValue ns.toValue = some ns := by
  simp [toValue, Value.ofList, ofValue, Value.list?_ofList Element.ofValue_toValue]

end Namespace

namespace Compilation

theorem hasShape (c : Compilation) : c.toValue.HasShape (.named .compilation) :=
  ⟨Value.hasShape_list (Value.areItems_ofList Namespace.hasShape _),
    Value.hasShape_list (Value.areItems_ofList QualifiedName.hasShape _), rfl⟩

theorem ofValue_toValue (c : Compilation) : ofValue c.toValue = some c := by
  simp [toValue, Value.ofList, ofValue, Value.list?_ofList Namespace.ofValue_toValue,
    Value.list?_ofList QualifiedName.ofValue_toValue]

end Compilation

/-! ### The types of the format -/

instance : LawfulFormatted String := ⟨Value.hasShape_text, Value.text?_text⟩
instance : LawfulFormatted Bool := ⟨fun _ => ⟨rfl, rfl⟩, Value.flag?_flag⟩
instance : LawfulFormatted Int64 := ⟨Value.hasShape_integer, Value.integer?_integer⟩

instance {α : Type} [Formatted α] [LawfulFormatted α] : LawfulFormatted (List α) :=
  ⟨fun as => Value.hasShape_list (Value.areItems_ofList LawfulFormatted.hasShape as),
    Value.list?_ofList LawfulFormatted.ofValue_toValue⟩

instance : LawfulFormatted QualifiedName := ⟨QualifiedName.hasShape, QualifiedName.ofValue_toValue⟩
instance : LawfulFormatted Position := ⟨Position.hasShape, Position.ofValue_toValue⟩
instance : LawfulFormatted Span := ⟨Span.hasShape, Span.ofValue_toValue⟩
instance : LawfulFormatted Location := ⟨Location.hasShape, Location.ofValue_toValue⟩
instance : LawfulFormatted Comments := ⟨Comments.hasShape, Comments.ofValue_toValue⟩
instance : LawfulFormatted TypeParameter := ⟨TypeParameter.hasShape, TypeParameter.ofValue_toValue⟩
instance : LawfulFormatted Characteristic := ⟨Characteristic.hasShape, Characteristic.ofValue_toValue⟩
instance : LawfulFormatted Ty := ⟨Ty.hasShape, Ty.ofValue_toValue⟩
instance : LawfulFormatted Outcome := ⟨Outcome.hasShape, Outcome.ofValue_toValue⟩
instance : LawfulFormatted Identifier := ⟨Identifier.hasShape, Identifier.ofValue_toValue⟩
instance : LawfulFormatted BinaryOp := ⟨BinaryOp.hasShape, BinaryOp.ofValue_toValue⟩
instance : LawfulFormatted UnaryOp := ⟨UnaryOp.hasShape, UnaryOp.ofValue_toValue⟩
instance : LawfulFormatted Inferred := ⟨Inferred.hasShape, Inferred.ofValue_toValue⟩
instance : LawfulFormatted Resolution := ⟨Resolution.hasShape, Resolution.ofValue_toValue⟩
instance : LawfulFormatted Expr := ⟨Expr.hasShape, Expr.ofValue_toValue⟩
instance : LawfulFormatted Variable := ⟨Variable.hasShape, Variable.ofValue_toValue⟩
instance : LawfulFormatted SymbolTuple := ⟨SymbolTuple.hasShape, SymbolTuple.ofValue_toValue⟩
instance : LawfulFormatted BindingKind := ⟨BindingKind.hasShape, BindingKind.ofValue_toValue⟩
instance : LawfulFormatted QubitInit := ⟨QubitInit.hasShape, QubitInit.ofValue_toValue⟩
instance : LawfulFormatted QubitScopeKind := ⟨QubitScopeKind.hasShape, QubitScopeKind.ofValue_toValue⟩
instance : LawfulFormatted Statement := ⟨Statement.hasShape, Statement.ofValue_toValue⟩
instance : LawfulFormatted StatementKind := ⟨StatementKind.hasShape, StatementKind.ofValue_toValue⟩
instance : LawfulFormatted Block := ⟨Block.hasShape, Block.ofValue_toValue⟩
instance : LawfulFormatted Scope := ⟨Scope.hasShape, Scope.ofValue_toValue⟩
instance : LawfulFormatted Symbol := ⟨Symbol.hasShape, Symbol.ofValue_toValue⟩
instance : LawfulFormatted Params := ⟨Params.hasShape, Params.ofValue_toValue⟩
instance : LawfulFormatted Signature := ⟨Signature.hasShape, Signature.ofValue_toValue⟩
instance : LawfulFormatted Implementation := ⟨Implementation.hasShape, Implementation.ofValue_toValue⟩
instance : LawfulFormatted SpecializationKind :=
  ⟨SpecializationKind.hasShape, SpecializationKind.ofValue_toValue⟩
instance : LawfulFormatted Specialization := ⟨Specialization.hasShape, Specialization.ofValue_toValue⟩
instance : LawfulFormatted CallableKind := ⟨CallableKind.hasShape, CallableKind.ofValue_toValue⟩
instance : LawfulFormatted Callable := ⟨Callable.hasShape, Callable.ofValue_toValue⟩
instance : LawfulFormatted CustomType := ⟨CustomType.hasShape, CustomType.ofValue_toValue⟩
instance : LawfulFormatted Element := ⟨Element.hasShape, Element.ofValue_toValue⟩
instance : LawfulFormatted Namespace := ⟨Namespace.hasShape, Namespace.ofValue_toValue⟩
instance : LawfulFormatted Compilation := ⟨Compilation.hasShape, Compilation.ofValue_toValue⟩
instance : LawfulFormatted ExprKind := ⟨Expr.hasShape_kind, Expr.kindOfValue_kindToValue⟩
instance : LawfulFormatted (Declaration Symbol) :=
  ⟨Declaration.hasHead Symbol.hasShape, Declaration.ofValue_toValue Symbol.ofValue_toValue⟩
instance : LawfulFormatted (Binding Expr) :=
  ⟨Binding.hasHead Expr.hasShape, Binding.ofValue_toValue Expr.ofValue_toValue⟩
instance : LawfulFormatted (Binding QubitInit) :=
  ⟨Binding.hasHead QubitInit.hasShape, Binding.ofValue_toValue QubitInit.ofValue_toValue⟩
instance : LawfulFormatted Declarations :=
  ⟨fun ds => Variable.hasShape_list ds.declared, fun ds => by
    change (Variable.listOfValue (Variable.listToValue ds.declared)).map Declarations.mk = some ds
    rw [Variable.listOfValue_listToValue]
    rfl⟩

/-! ### Encoding and decoding -/

namespace Formatted

/-- Every tree of the type comes back from its JSON, as a value and as a text, if its doubles are finite
with numbers that are read back and fewer than 128 arrays and objects are open at once. -/
def RoundTrips (α : Type) [Formatted α] : Prop :=
  ∀ a : α, (∀ d ∈ (toValue a).doubles, d.Legible) → (encode a).depth < 128 →
    decode (encode a) = .ok a ∧ decodeText ((encode a).pretty 0) = .ok a

variable {α : Type} [Formatted α] [LawfulFormatted α]

theorem decode_encode (a : α) (hd : ∀ d ∈ (toValue a).doubles, d.Legible) :
    decode (encode a) = within nestingLimit (encode a).depth a := by
  have hread : (encode a).readAs (shape α) = within nestingLimit (encode a).depth (toValue a) :=
    Value.readHead_writeHead (shape α).head_isProper nestingLimit (toValue a)
      (LawfulFormatted.hasShape a) hd
  rw [decode, hread]
  refine (within_bind _ _ 0 _ ?_).trans (by rw [Nat.max_zero])
  rw [LawfulFormatted.ofValue_toValue, within_zero]
  rfl

/-- What is printed for a tree spells the tree, or is too deep. -/
theorem decodeText_pretty (a : α) (hd : ∀ d ∈ (toValue a).doubles, d.Legible) (tail : String)
    (hstops : Json.Stops tail.toList) (hblank : Json.skipBlanks tail.toList = []) :
    decodeText ((encode a).pretty 0 ++ tail) = within nestingLimit (encode a).depth a := by
  have hintact : (encode a).intact = true := Value.intact_writeHead _ _ _
  rw [decodeText, Json.read_pretty hintact hstops hblank]
  refine (congrArg (· >>= fun a => pure a) (decode_encode a hd)).trans ?_
  exact within_bind_pure ..

theorem roundTrips : RoundTrips α := by
  intro a hd hdepth
  have hwithin : within nestingLimit (encode a).depth a = .ok a := if_pos (Nat.le_of_lt_succ hdepth)
  have htext := decodeText_pretty a hd "" .nothing rfl
  rw [String.append_empty] at htext
  exact ⟨(decode_encode a hd).trans hwithin, htext.trans hwithin⟩

/-- **The whole tree format is read back as it was written.** -/
theorem tree_roundTrips :
    RoundTrips Compilation ∧ RoundTrips Namespace ∧ RoundTrips Element ∧ RoundTrips CustomType ∧
      RoundTrips Callable ∧ RoundTrips CallableKind ∧ RoundTrips Specialization ∧
      RoundTrips SpecializationKind ∧ RoundTrips Implementation ∧ RoundTrips Signature ∧
      RoundTrips Params ∧ RoundTrips (Declaration Symbol) ∧ RoundTrips Symbol ∧ RoundTrips Scope ∧
      RoundTrips Block ∧ RoundTrips Statement ∧ RoundTrips StatementKind ∧
      RoundTrips (Binding Expr) ∧ RoundTrips (Binding QubitInit) ∧ RoundTrips QubitInit ∧
      RoundTrips QubitScopeKind ∧ RoundTrips BindingKind ∧ RoundTrips SymbolTuple ∧
      RoundTrips Declarations ∧ RoundTrips Variable ∧ RoundTrips Expr ∧ RoundTrips ExprKind ∧
      RoundTrips Identifier ∧ RoundTrips Resolution ∧ RoundTrips Inferred ∧ RoundTrips BinaryOp ∧
      RoundTrips UnaryOp ∧ RoundTrips Outcome ∧ RoundTrips Ty ∧ RoundTrips TypeParameter ∧
      RoundTrips Characteristic ∧ RoundTrips Comments ∧ RoundTrips Location ∧ RoundTrips Span ∧
      RoundTrips Position ∧ RoundTrips QualifiedName := by
  and_intros <;> exact roundTrips

end Formatted

namespace Sample

/-- `let angle = 0.1;` with a comment. -/
def angle : Statement :=
  ⟨.binding ⟨.immutable, .name "angle", ⟨.double ⟨0x3FB999999999999A⟩, { ty := .double }⟩⟩,
    { location := some ⟨⟨3, 8⟩, ⟨⟨0, 0⟩, ⟨0, 16⟩⟩⟩, comments := { opening := [" a \"tenth\"\t"] } }⟩

def turn : Compilation :=
  let name : QualifiedName := ⟨"Sample", "Turn"⟩
  let signature : Signature := { argument := .unit, result := .unit }
  { namespaces :=
      [⟨"Sample", [.callable
        { kind := .operation
          name
          signature
          params := .unit
          specializations :=
            [{ kind := .body
               parent := name
               signature
               implementation := .provided .unit ⟨[angle], []⟩ }] }]⟩]
    entryPoints := [name] }

end Sample

open Formatted in
theorem Sample.turn_read_back :
    (toValue turn).doubles = [⟨0x3FB999999999999A⟩] ∧ (encode turn).depth = 17 ∧
      decode (encode turn) = .ok turn ∧ decodeText ((encode turn).pretty 0) = .ok turn := by
  have hdoubles : (toValue turn).doubles = [⟨0x3FB999999999999A⟩] := by decide +kernel
  have hdepth : (encode turn).depth = 17 := by decide +kernel
  have hlegible : ∀ d ∈ (toValue turn).doubles, d.Legible := by
    rw [hdoubles]
    intro d hd
    obtain rfl := List.mem_singleton.mp hd
    exact ⟨by decide +kernel, by decide +kernel⟩
  exact ⟨hdoubles, hdepth, tree_roundTrips.1 turn hlegible (by rw [hdepth]; decide)⟩

end OutcomeControl
