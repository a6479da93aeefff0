import OutcomeControl.Proofs.Gathering
import OutcomeControl.Proofs.ShapeTrees
import OutcomeControl.Proofs.Yield

/-! The doubles that a program spells.

They are the double literals among its expressions (`Compilation.doubles`), which are also the doubles
of its value in the format (`Compilation.doubles_toValue`). The pass moves expressions and copies
conditions, and makes no literal of its own, so a lowered program spells no double that the program did
not (`Compilation.doubles_lower`). -/

namespace OutcomeControl

/-! ### Literals -/

def ExprKind.double? : ExprKind → Option Double
  | .double d => some d
  | _ => none

/-- The double that is spelled here. -/
def Visit.double? : Visit → Option Double
  | .expression e => e.kind.double?
  | _ => none

theorem Visit.content_double? : Visit.Content Visit.double? where
  callable _ := rfl
  scope _ := rfl
  compound _ _ := rfl
  type _ := rfl
  localName _ := rfl

theorem Visit.double?_mapParameters (f : TypeParameter → TypeParameter) (v : Visit) :
    (v.mapParameters f).double? = v.double? := by
  cases v with
  | expression e =>
    obtain ⟨kind, info⟩ := e
    cases kind <;> rfl
  | _ => rfl

def Expr.doubles (e : Expr) : List Double := e.visits.filterMap Visit.double?

def Callable.doubles (c : Callable) : List Double := c.visits.filterMap Visit.double?

def Element.doubles (e : Element) : List Double := e.visits.filterMap Visit.double?

def Compilation.doubles (c : Compilation) : List Double :=
  c.namespaces.flatMap fun ns => ns.elements.flatMap Element.doubles

/-! ### What is generated -/

theorem Visit.generated_double? : Visit.Generated Visit.double? where
  localName _ _ := rfl
  tuple _ := rfl
  unit := rfl

theorem Expr.doubles_localName (name : String) (ty : Ty) : (Expr.localName name ty).doubles = [] :=
  Visit.content_double?.variableName Visit.generated_double? name ty

/-- The doubles in a call of a primitive stand in its condition. -/
theorem Primitive.doubles_controlCall (p : Primitive) (condition : Expr) (target : Target)
    (captured : List Variable) (frame : Frame) :
    (p.controlCall condition target captured frame).doubles = condition.doubles :=
  (Visit.content_double?.controlCall Visit.generated_double? p condition target captured frame).trans
    (List.append_nil _)

/-! ### The pass -/

/-- If `X` holds of the doubles before, it holds of those after, and of those in the operations made. -/
def Keeps (X : Double → Prop) (xs : List Double) (p : Progress) (ys : List Double) (q : Progress) :
    Prop :=
  (∀ d ∈ xs, X d) → (∀ d ∈ ys, X d) ∧ p.Adds (fun op => ∀ d ∈ op.doubles, X d) q

namespace Keeps
variable {X : Double → Prop} {xs ys zs xs' ys' : List Double} {p q r : Progress}

theorem of_hoisted_eq (h : q.hoisted = p.hoisted) (hys : ∀ d ∈ ys, d ∈ xs ∨ X d) : Keeps X xs p ys q :=
  fun hX => ⟨fun d hd => (hys d hd).elim (hX d) id, [], by simp [h]⟩

theorem append (hxs : Keeps X xs p xs' q) (hys : Keeps X ys q ys' r) :
    Keeps X (xs ++ ys) p (xs' ++ ys') r := by
  intro hX
  rw [List.forall_mem_append] at hX
  obtain ⟨hfirst, hpq⟩ := hxs hX.1
  obtain ⟨hsecond, hqr⟩ := hys hX.2
  exact ⟨List.forall_mem_append.mpr ⟨hfirst, hsecond⟩, hpq.trans hqr⟩

theorem trans (hxy : Keeps X xs p ys q) (hyz : Keeps X ys q zs r) : Keeps X xs p zs r := by
  intro hX
  obtain ⟨hys, hpq⟩ := hxy hX
  obtain ⟨hzs, hqr⟩ := hyz hys
  exact ⟨hzs, hpq.trans hqr⟩

theorem gathers (primitives : Primitives) (frame : Frame) :
    Gathers primitives frame Visit.double? (Keeps X) fun v => ∀ d, v.double? = some d → X d where
  content := Visit.content_double?
  refl xs p := of_hoisted_eq rfl fun _ => .inl
  note xs p event _ := of_hoisted_eq rfl fun _ => .inl
  append := append
  trans := trans
  localName name ty v hv d hd := by
    have hmem := List.mem_filterMap.mpr ⟨v, hv, hd⟩
    rw [← Expr.doubles, Expr.doubles_localName] at hmem
    cases hmem
  guard e p _ := of_hoisted_eq rfl nofun
  binding s value p hvalue := by
    refine of_hoisted_eq rfl fun d hd => .inr ?_
    change d ∈ (s.bindingOf _ value).visits.filterMap Visit.double? at hd
    rw [Statement.bindingOf, Visit.content_double?.statementParts rfl, StatementKind.visits,
      List.filterMap_append, Visit.content_double?.symbols, List.nil_append] at hd
    obtain ⟨v, hv, hd⟩ := List.mem_filterMap.mp hd
    exact hvalue v hv d hd
  block s outcome condition body p hcondition _ := by
    rw [applyBlock_run]
    generalize (p.names.freshCallable frame.name).1 = name
    intro hX
    refine ⟨fun d hd => ?_, .of_hoisted_eq rfl fun d hd => hX d ?_⟩
    · change d ∈ (s.replacedBy ((primitives.forOutcome outcome).controlCall condition _ _
        frame)).visits.filterMap Visit.double? at hd
      rw [Statement.replacedBy, Visit.content_double?.statementParts rfl] at hd
      change d ∈ Expr.doubles _ at hd
      rw [Primitive.doubles_controlCall] at hd
      obtain ⟨v, hv, hd⟩ := List.mem_filterMap.mp hd
      exact hcondition v hv d hd
    · have hoperation := Visit.content_double?.operation (F := id)
        (f := TypeParameter.reroute frame.name name)
        (fun v => by rw [Visit.double?_mapParameters, Option.map_id]; rfl) frame name body s.info.comments
      rw [List.map_id] at hoperation
      exact hoperation ▸ hd

end Keeps

/-- What holds of the doubles of an element holds of those in all that it yields. -/
theorem Yield.Arises.doubles {primitives : Primitives} {X : Double → Prop} {p q : Progress} {y : Yield}
    (h : y.Arises primitives p q) (hX : ∀ d ∈ y.before.doubles, X d) :
    (∀ d ∈ y.after.doubles, X d) ∧ ∀ op ∈ y.operations, ∀ d ∈ op.doubles, X d := by
  have hkeeps := Gathers.visits (e := y.before) (fun c _ => Keeps.gathers primitives (.ofCallable c))
    (fun xs p => Keeps.of_hoisted_eq rfl fun _ => .inl)
    (fun v hv d hd => hX d (List.mem_filterMap.mpr ⟨v, hv, hd⟩)) p
  rw [h.run] at hkeeps
  obtain ⟨hafter, hadds⟩ := hkeeps hX
  exact ⟨hafter, hadds.forall_mem h.hoisted⟩

/-- **Lowering spells no double that was not there.** -/
theorem Compilation.doubles_lower (c : Compilation) (options : Options) :
    (c.lower options).result.doubles ⊆ c.doubles := by
  intro d hd
  obtain ⟨-, hafter, -⟩ := c.lower_yields options
  obtain ⟨ns, hns, hd⟩ := List.mem_flatMap.mp hd
  obtain ⟨e, he, hd⟩ := List.mem_flatMap.mp hd
  have hmem : ns.elements ∈ (c.yields options).map Yield.elements := hafter ▸ List.mem_map_of_mem hns
  obtain ⟨ys, hys, hyields⟩ := List.mem_map.mp hmem
  rw [← hyields, Yield.elements, List.mem_append] at he
  have harises : ∀ y ∈ ys, (∀ d ∈ y.after.doubles, d ∈ c.doubles) ∧
      ∀ op ∈ y.operations, ∀ d ∈ op.doubles, d ∈ c.doubles := by
    intro y hy
    obtain ⟨ns', hns', hbefore, p, q, harises⟩ := Compilation.of_mem_yields hys hy
    exact harises.doubles fun d hd =>
      List.mem_flatMap.mpr ⟨ns', hns', List.mem_flatMap.mpr ⟨y.before, hbefore, hd⟩⟩
  obtain he | he := he
  · obtain ⟨y, hy, rfl⟩ := List.mem_map.mp he
    exact (harises y hy).1 d hd
  · obtain ⟨op, hop, rfl⟩ := List.mem_map.mp he
    obtain ⟨y, hy, hop⟩ := List.mem_flatMap.mp hop
    exact (harises y hy).2 op hop d hd

/-! ### Shapes without doubles -/

namespace Kind

/-- The types of the format that hold no expression. -/
def isPlain : Kind → Bool
  | .expr | .exprKind | .binary | .unary | .item | .choice | .call | .exprBinding | .qubitInit
  | .qubitBinding | .statement | .statementKind | .update | .conditional | .arm | .forEach | .whileLoop
  | .repeatUntil | .qubits | .block | .scope | .provided | .implementation | .specialization
  | .callable | .element | .space | .compilation => false
  | _ => true

end Kind

def Shape.isPlain : Shape → Bool
  | .double => false
  | .named k => k.isPlain
  | .list item => item.isPlain
  | .optional inner => inner.isPlain
  | _ => true

def Head.isPlain : Head → Bool
  | .double => false
  | .list item => item.isPlain
  | .tuple shapes => shapes.all (·.isPlain)
  | .record fields => fields.all (·.shape.isPlain)
  | .choice variants => variants.all (·.2.isPlain)
  | _ => true

theorem Kind.head_isPlain {k : Kind} (h : k.isPlain = true) : k.head.isPlain = true := by
  revert h
  cases k <;> decide

theorem Shape.head_isPlain {s : Shape} (h : s.isPlain = true) : s.head.isPlain = true := by
  induction s with
  | named k => exact Kind.head_isPlain h
  | optional inner ih => exact ih h
  | double => cases h
  | list item => exact h
  | _ => rfl

namespace Value

mutual
/-- There is no double in a value of a plain shape. -/
theorem doubles_of_hasHead {h : Head} {nullable : Bool} (hplain : h.isPlain = true) :
    (v : Value) → v.HasHead h nullable → v.doubles = []
  | .text _, _ | .int _, _ | .flag _, _ | .nil, _ => rfl
  | .double d, hv => by
    obtain ⟨-, rfl⟩ := hv
    cases hplain
  | .cons v vs, hv => by
    refine List.append_eq_nil_iff.mpr ?_
    match nullable, h, hv with
    | true, h, ⟨hnil, _, hthis⟩ =>
      subst hnil
      exact ⟨doubles_of_hasHead hplain v hthis, rfl⟩
    | false, .list item, hv =>
      exact ⟨doubles_of_hasHead (Shape.head_isPlain hplain) v hv.1, doubles_of_areItems hplain vs hv.2⟩
    | false, .tuple (s :: ss), hv =>
      rw [Head.isPlain, List.all_cons, Bool.and_eq_true] at hplain
      exact ⟨doubles_of_hasHead (Shape.head_isPlain hplain.1) v hv.1,
        doubles_of_areTuple hplain.2 vs hv.2⟩
    | false, .record (f :: fs), hv =>
      rw [Head.isPlain, List.all_cons, Bool.and_eq_true] at hplain
      exact ⟨doubles_of_hasHead (Shape.head_isPlain hplain.1) v hv.1,
        doubles_of_areFields hplain.2 vs hv.2⟩
  | .tag name payload, hv => by
    obtain ⟨-, variants, s, rfl, hs, hpayload⟩ := hv
    have hmem := List.all_eq_true.mp hplain (name, s) (mem_of_lookup hs)
    exact doubles_of_hasHead (Shape.head_isPlain hmem) payload hpayload
theorem doubles_of_areItems {item : Shape} (hplain : item.isPlain = true) :
    (vs : Value) → vs.AreItems item → vs.doubles = []
  | .nil, _ => rfl
  | .cons v vs, hv => List.append_eq_nil_iff.mpr
    ⟨doubles_of_hasHead (Shape.head_isPlain hplain) v hv.1, doubles_of_areItems hplain vs hv.2⟩
theorem doubles_of_areTuple {shapes : List Shape} (hplain : shapes.all (·.isPlain) = true) :
    (vs : Value) → vs.AreTuple shapes → vs.doubles = []
  | .nil, _ => rfl
  | .cons v vs, hv => by
    match shapes, hv with
    | s :: ss, hv =>
      rw [List.all_cons, Bool.and_eq_true] at hplain
      exact List.append_eq_nil_iff.mpr ⟨doubles_of_hasHead (Shape.head_isPlain hplain.1) v hv.1,
        doubles_of_areTuple hplain.2 vs hv.2⟩
theorem doubles_of_areFields {fields : List Field} (hplain : fields.all (·.shape.isPlain) = true) :
    (vs : Value) → vs.AreFields fields → vs.doubles = []
  | .nil, _ => rfl
  | .cons v vs, hv => by
    match fields, hv with
    | f :: fs, hv =>
      rw [List.all_cons, Bool.and_eq_true] at hplain
      exact List.append_eq_nil_iff.mpr ⟨doubles_of_hasHead (Shape.head_isPlain hplain.1) v hv.1,
        doubles_of_areFields hplain.2 vs hv.2⟩
end

theorem doubles_ofList {α : Type} {f : α → Value} {g : α → List Double}
    (h : ∀ a, (f a).doubles = g a) (as : List α) : (ofList (as.map f)).doubles = as.flatMap g := by
  induction as with
  | nil => rfl
  | cons a as ih => rw [List.map_cons, ofList, doubles, ih, h, List.flatMap_cons]

theorem doubles_of_hasShape {s : Shape} {v : Value} (h : v.HasShape s) (hplain : s.isPlain = true) :
    v.doubles = [] :=
  doubles_of_hasHead (Shape.head_isPlain hplain) v h

end Value

/-! ### Values of trees -/

section
open Value (doubles_of_hasShape)

@[simp] theorem Ty.doubles_toValue (t : Ty) : t.toValue.doubles = [] :=
  doubles_of_hasShape t.hasShape rfl

@[simp] theorem Inferred.doubles_toValue (i : Inferred) : i.toValue.doubles = [] :=
  doubles_of_hasShape i.hasShape rfl

@[simp] theorem Identifier.doubles_toValue (id : Identifier) : id.toValue.doubles = [] :=
  doubles_of_hasShape id.hasShape rfl

@[simp] theorem BinaryOp.doubles_toValue (op : BinaryOp) : op.toValue.doubles = [] :=
  doubles_of_hasShape op.hasShape rfl

@[simp] theorem UnaryOp.doubles_toValue (op : UnaryOp) : op.toValue.doubles = [] :=
  doubles_of_hasShape op.hasShape rfl

@[simp] theorem Comments.doubles_toValue (c : Comments) : c.toValue.doubles = [] :=
  doubles_of_hasShape c.hasShape rfl

@[simp] theorem doubles_optionalSpan (s : Option Span) : (optionalSpan s).doubles = [] :=
  doubles_of_hasShape (hasShape_optionalSpan s) rfl

@[simp] theorem doubles_optionalLocation (l : Option Location) : (optionalLocation l).doubles = [] :=
  doubles_of_hasShape (hasShape_optionalLocation l) rfl

@[simp] theorem doubles_typeArguments (ts : Option (List Ty)) :
    (Value.ofOption (ts.map Ty.listToValue)).doubles = [] :=
  doubles_of_hasShape (hasShape_typeArguments ts) rfl

@[simp] theorem Variable.doubles_listToValue (vs : List Variable) : (listToValue vs).doubles = [] :=
  doubles_of_hasShape (hasShape_list vs) rfl

@[simp] theorem SymbolTuple.doubles_toValue (s : SymbolTuple) : s.toValue.doubles = [] :=
  doubles_of_hasShape s.hasShape rfl

@[simp] theorem BindingKind.doubles_toValue (k : BindingKind) : k.toValue.doubles = [] :=
  doubles_of_hasShape k.hasShape rfl

@[simp] theorem QubitScopeKind.doubles_toValue (k : QubitScopeKind) : k.toValue.doubles = [] :=
  doubles_of_hasShape k.hasShape rfl

@[simp] theorem SpecializationKind.doubles_toValue (k : SpecializationKind) : k.toValue.doubles = [] :=
  doubles_of_hasShape k.hasShape rfl

@[simp] theorem CallableKind.doubles_toValue (k : CallableKind) : k.toValue.doubles = [] :=
  doubles_of_hasShape k.hasShape rfl

@[simp] theorem Params.doubles_toValue (p : Params) : p.toValue.doubles = [] :=
  doubles_of_hasShape p.hasShape rfl

@[simp] theorem Signature.doubles_toValue (s : Signature) : s.toValue.doubles = [] :=
  doubles_of_hasShape s.hasShape rfl

@[simp] theorem CustomType.doubles_toValue (t : CustomType) : t.toValue.doubles = [] :=
  doubles_of_hasShape t.hasShape rfl

@[simp] theorem QualifiedName.doubles_toValue (q : QualifiedName) : q.toValue.doubles = [] := rfl

@[simp] theorem Comments.doubles_lines (ls : List String) : (lines ls).doubles = [] :=
  doubles_of_hasShape (hasShape_lines ls) rfl

theorem Resolution.doubles_ofList (rs : List Resolution) :
    (Value.ofList (rs.map Resolution.toValue)).doubles = [] :=
  doubles_of_hasShape (Value.hasShape_list (Value.areItems_ofList Resolution.hasShape rs)) rfl

end

namespace Expr

mutual
theorem doubles_toValue : (e : Expr) → e.toValue.doubles = e.doubles
  | ⟨kind, info⟩ => by
    simp only [toValue, Value.ofList, Value.doubles, doubles_kindToValue kind,
      Resolution.doubles_ofList, Ty.doubles_toValue, Inferred.doubles_toValue, doubles_optionalSpan,
      List.append_nil]
    exact (Visit.content_double?.expression ⟨kind, info⟩).symm
theorem doubles_kindToValue : (k : ExprKind) →
    (kindToValue k).doubles = k.double?.toList ++ k.parts.flatMap doubles
  | .unit | .int _ | .double _ | .bool _ | .string _ | .missing | .invalid => rfl
  | .outcome o => by cases o <;> rfl
  | .name id arguments => by
    simp [kindToValue, Value.ofList, Value.doubles, ExprKind.double?, ExprKind.parts]
  | .tuple items | .array items => doubles_listToValue items
  | .binary op lhs rhs => by
    simp [kindToValue, Value.ofList, Value.doubles, ExprKind.double?, ExprKind.parts,
      doubles_toValue lhs, doubles_toValue rhs]
  | .unary op operand => by
    simp [kindToValue, Value.ofList, Value.doubles, ExprKind.double?, ExprKind.parts,
      doubles_toValue operand]
  | .item array index => by
    simp [kindToValue, Value.ofList, Value.doubles, ExprKind.double?, ExprKind.parts,
      doubles_toValue array, doubles_toValue index]
  | .choice condition yes no => by
    simp [kindToValue, Value.ofList, Value.doubles, ExprKind.double?, ExprKind.parts,
      doubles_toValue condition, doubles_toValue yes, doubles_toValue no]
  | .call callee argument => by
    simp [kindToValue, Value.ofList, Value.doubles, ExprKind.double?, ExprKind.parts,
      doubles_toValue callee, doubles_toValue argument]
theorem doubles_listToValue : (es : List Expr) → (listToValue es).doubles = es.flatMap doubles
  | [] => rfl
  | e :: es => congrArg₂ (· ++ ·) (doubles_toValue e) (doubles_listToValue es)
end

end Expr

namespace QubitInit

mutual
theorem doubles_toValue : (q : QubitInit) → q.toValue.doubles = q.visits.filterMap Visit.double?
  | .single => rfl
  | .register size => size.doubles_toValue
  | .tuple items => doubles_listToValue items
theorem doubles_listToValue : (qs : List QubitInit) →
    (listToValue qs).doubles = (visitsList qs).filterMap Visit.double?
  | [] => rfl
  | q :: qs => by
    rw [visitsList, List.filterMap_append, ← doubles_toValue q, ← doubles_listToValue qs]
    rfl
end

end QubitInit

mutual
theorem Statement.doubles_toValue : (s : Statement) →
    s.toValue.doubles = s.visits.filterMap Visit.double?
  | ⟨kind, info⟩ => by
    rw [Visit.content_double?.statementParts rfl, ← kind.doubles_toValue]
    simp [Statement.toValue, Value.ofList, Value.doubles]
theorem StatementKind.doubles_toValue : (k : StatementKind) →
    k.toValue.doubles = k.visits.filterMap Visit.double?
  | .expression e | .returns e | .fails e => e.doubles_toValue
  | .binding b => by
    simp [StatementKind.toValue, Binding.toValue, Value.ofList, Value.doubles, StatementKind.visits,
      Visit.content_double?.symbols, Expr.doubles_toValue, Expr.doubles]
  | .update lhs rhs => by
    simp [StatementKind.toValue, Value.ofList, Value.doubles, StatementKind.visits,
      Expr.doubles_toValue, Expr.doubles]
  | .conditional branches => by
    rw [StatementKind.visits, ← branches.doubles_toValue]
    simp [StatementKind.toValue, Value.ofList, Value.doubles]
  | .forEach symbols itemTy iterable body => by
    simp [StatementKind.toValue, Value.ofList, Value.doubles, StatementKind.visits,
      Visit.content_double?.symbols, Visit.content_double?.ty, Expr.doubles_toValue, Expr.doubles,
      body.doubles_toValue]
  | .whileLoop condition body => by
    simp [StatementKind.toValue, Value.ofList, Value.doubles, StatementKind.visits,
      Expr.doubles_toValue, Expr.doubles, body.doubles_toValue]
  | .repeatUntil block success fixup => by
    simp [StatementKind.toValue, Value.ofList, Value.doubles, StatementKind.visits,
      Expr.doubles_toValue, Expr.doubles, block.doubles_toValue, fixup.doubles_toValue]
  | .qubits kind binding body => by
    simp [StatementKind.toValue, Binding.toValue, Value.ofList, Value.doubles, StatementKind.visits,
      Visit.content_double?.symbols, QubitInit.doubles_toValue, body.doubles_toValue]
theorem Branches.doubles_toValue : (b : Branches) →
    b.armsToValue.doubles ++ b.defaultToValue.doubles = b.visits.filterMap Visit.double?
  | .done => rfl
  | .otherwise block => (List.append_nil _).trans block.doubles_toValue
  | .arm condition block rest => by
    rw [Branches.visits, List.filterMap_append, List.filterMap_append, ← rest.doubles_toValue,
      ← block.doubles_toValue, ← Expr.doubles, ← condition.doubles_toValue]
    simp [Branches.armsToValue, Branches.defaultToValue, Value.ofList, Value.doubles]
theorem Block.doubles_toValue : (b : Block) → b.toValue.doubles = b.visits.filterMap Visit.double?
  | ⟨body, location, comments⟩ => by
    simp [Block.toValue, Value.ofList, Value.doubles, Block.visits, body.doubles_toValue]
theorem Scope.doubles_toValue : (s : Scope) → s.toValue.doubles = s.visits.filterMap Visit.double?
  | ⟨statements, known⟩ => by
    rw [Visit.content_double?.body]
    simp [Scope.toValue, Value.ofList, Value.doubles, Statement.doubles_listToValue statements]
theorem Statement.doubles_listToValue : (ss : List Statement) →
    (Statement.listToValue ss).doubles = (Statement.visitsList ss).filterMap Visit.double?
  | [] => rfl
  | s :: ss => by
    rw [Statement.visitsList, List.filterMap_append, ← s.doubles_toValue,
      ← Statement.doubles_listToValue ss]
    rfl
end

theorem Specialization.doubles_toValue (s : Specialization) :
    s.toValue.doubles = s.visits.filterMap Visit.double? := by
  have himplementation : s.implementation.toValue.doubles =
      s.implementation.visits.filterMap Visit.double? := by
    cases s.implementation with
    | provided params scope =>
      simp [Implementation.toValue, Value.ofList, Value.doubles, Implementation.visits,
        Visit.content_double?.params, scope.doubles_toValue]
    | _ => rfl
  simp [Specialization.toValue, Value.ofList, Value.doubles, Specialization.visits, himplementation,
    Visit.content_double?.tys, Visit.content_double?.signature]

theorem Callable.doubles_toValue (c : Callable) : c.toValue.doubles = c.doubles := by
  rw [Callable.doubles, Visit.content_double?.callables,
    ← Value.doubles_ofList Specialization.doubles_toValue c.specializations]
  simp [Callable.toValue, Value.ofList, Value.doubles]

theorem Element.doubles_toValue (e : Element) : e.toValue.doubles = e.doubles := by
  cases e with
  | callable c => exact c.doubles_toValue
  | customType t => exact t.doubles_toValue.trans (Visit.content_double?.ty t.underlying).symm

theorem Namespace.doubles_toValue (ns : Namespace) :
    ns.toValue.doubles = ns.elements.flatMap Element.doubles := by
  rw [← Value.doubles_ofList Element.doubles_toValue ns.elements]
  simp [Namespace.toValue, Value.ofList, Value.doubles]

/-- **The doubles of the value of a program are those that it spells.** -/
theorem Compilation.doubles_toValue (c : Compilation) : c.toValue.doubles = c.doubles := by
  have hentries : (Value.ofList (c.entryPoints.map QualifiedName.toValue)).doubles = [] :=
    Value.doubles_of_hasShape
      (Value.hasShape_list (Value.areItems_ofList QualifiedName.hasShape c.entryPoints)) rfl
  rw [Compilation.doubles, ← Value.doubles_ofList Namespace.doubles_toValue c.namespaces]
  simp [Compilation.toValue, Value.ofList, Value.doubles, hentries]

end OutcomeControl
