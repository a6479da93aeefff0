import OutcomeControl.Proofs.Visits

/-! Changing type parameters and nothing else.

Every node is changed in its place (`Callable.visits_mapParameters`), so what is looked for among the
nodes is found where it was. Two changes in a row are one (`Callable.mapParameters_mapParameters`), and a
change that keeps the type parameters that occur leaves no trace (`Callable.mapParameters_eq_self`). -/

namespace OutcomeControl

/-- The node as it is after a change of type parameters. -/
def Visit.mapParameters (f : TypeParameter → TypeParameter) : Visit → Visit
  | .callable c => .callable (c.mapParameters f)
  | .scope s => .scope (s.mapParameters f)
  | .statement s => .statement (s.mapParameters f)
  | .expression e => .expression (e.mapParameters f)
  | .type t => .type (t.mapParameters f)
  | .localName n => .localName n

/-! ### Nodes -/

section
variable (f : TypeParameter → TypeParameter)

mutual
theorem Ty.visits_mapParameters :
    (t : Ty) → (t.mapParameters f).visits = t.visits.map (Visit.mapParameters f)
  | .unit | .int | .double | .bool | .string | .outcome | .qubit | .range => rfl
  | .custom _ | .parameter _ | .missing | .invalid => rfl
  | .array item => congrArg (_ :: ·) item.visits_mapParameters
  | .tuple items => congrArg (_ :: ·) (Ty.visitsList_mapParameters items)
  | .operation input output cs => by
    simp only [Ty.mapParameters, Ty.visits, input.visits_mapParameters,
      output.visits_mapParameters, List.map_cons, List.map_append, Visit.mapParameters]
  | .function input output => by
    simp only [Ty.mapParameters, Ty.visits, input.visits_mapParameters,
      output.visits_mapParameters, List.map_cons, List.map_append, Visit.mapParameters]
theorem Ty.visitsList_mapParameters :
    (ts : List Ty) →
      Ty.visitsList (Ty.mapParametersList f ts) = (Ty.visitsList ts).map (Visit.mapParameters f)
  | [] => rfl
  | t :: ts => by
    simp only [Ty.mapParametersList, Ty.visitsList, t.visits_mapParameters,
      Ty.visitsList_mapParameters ts, List.map_append]
end

theorem Ty.visitsList_getD_mapParameters (arguments : Option (List Ty)) :
    Ty.visitsList ((arguments.map (Ty.mapParametersList f)).getD []) =
      (Ty.visitsList (arguments.getD [])).map (Visit.mapParameters f) := by
  cases arguments with
  | none => rfl
  | some ts => exact Ty.visitsList_mapParameters f ts

theorem ExprInfo.visits_mapParameters (i : ExprInfo) :
    (i.mapParameters f).visits = i.visits.map (Visit.mapParameters f) := by
  simp only [ExprInfo.visits, ExprInfo.mapParameters, List.flatMap_map, List.map_append,
    List.map_flatMap, Resolution.mapParameters, Ty.visits_mapParameters]

mutual
theorem Expr.visits_mapParameters :
    (e : Expr) → (e.mapParameters f).visits = e.visits.map (Visit.mapParameters f)
  | ⟨kind, info⟩ => by
    simp only [Expr.mapParameters, Expr.visits, kind.visits_mapParameters,
      info.visits_mapParameters f, List.map_cons, List.map_append, Visit.mapParameters]
theorem ExprKind.visits_mapParameters :
    (k : ExprKind) → (k.mapParameters f).visits = k.visits.map (Visit.mapParameters f)
  | .unit | .int _ | .double _ | .bool _ | .string _ | .outcome _ | .missing | .invalid => rfl
  | .name _ arguments => Ty.visitsList_getD_mapParameters f arguments
  | .tuple items | .array items => Expr.visitsList_mapParameters items
  | .unary _ operand => operand.visits_mapParameters
  | .binary _ lhs rhs => by
    simp only [ExprKind.mapParameters, ExprKind.visits, lhs.visits_mapParameters,
      rhs.visits_mapParameters, List.map_append]
  | .item array index => by
    simp only [ExprKind.mapParameters, ExprKind.visits, array.visits_mapParameters,
      index.visits_mapParameters, List.map_append]
  | .choice condition yes no => by
    simp only [ExprKind.mapParameters, ExprKind.visits, condition.visits_mapParameters,
      yes.visits_mapParameters, no.visits_mapParameters, List.map_append]
  | .call callee argument => by
    simp only [ExprKind.mapParameters, ExprKind.visits, callee.visits_mapParameters,
      argument.visits_mapParameters, List.map_append]
theorem Expr.visitsList_mapParameters :
    (es : List Expr) →
      Expr.visitsList (Expr.mapParametersList f es) =
        (Expr.visitsList es).map (Visit.mapParameters f)
  | [] => rfl
  | e :: es => by
    simp only [Expr.mapParametersList, Expr.visitsList, e.visits_mapParameters,
      Expr.visitsList_mapParameters es, List.map_append]
end

theorem Variable.visits_mapParameters (v : Variable) :
    Variable.visits (v.mapParameters f) = (Variable.visits v).map (Visit.mapParameters f) :=
  congrArg (Visit.localName v.name :: ·) (v.ty.visits_mapParameters f)

theorem Variable.flatMap_visits_mapParameters (vs : List Variable) :
    (vs.map (Declaration.mapParameters f)).flatMap Variable.visits =
      (vs.flatMap Variable.visits).map (Visit.mapParameters f) := by
  simp only [List.flatMap_map, List.map_flatMap, Variable.visits_mapParameters]

/-- Names that a binding introduces have no type. -/
theorem SymbolTuple.map_mapParameters_visits (s : SymbolTuple) :
    s.visits.map (Visit.mapParameters f) = s.visits := by
  rw [SymbolTuple.visits_eq, List.map_map]
  rfl

mutual
theorem QubitInit.visits_mapParameters :
    (q : QubitInit) → (q.mapParameters f).visits = q.visits.map (Visit.mapParameters f)
  | .single => rfl
  | .register size => size.visits_mapParameters f
  | .tuple items => QubitInit.visitsList_mapParameters items
theorem QubitInit.visitsList_mapParameters :
    (qs : List QubitInit) →
      QubitInit.visitsList (QubitInit.mapParametersList f qs) =
        (QubitInit.visitsList qs).map (Visit.mapParameters f)
  | [] => rfl
  | q :: qs => by
    simp only [QubitInit.mapParametersList, QubitInit.visitsList, q.visits_mapParameters,
      QubitInit.visitsList_mapParameters qs, List.map_append]
end

mutual
theorem Statement.visits_mapParameters :
    (s : Statement) → (s.mapParameters f).visits = s.visits.map (Visit.mapParameters f)
  | ⟨kind, info⟩ => by
    simp only [Statement.mapParameters, Statement.visits, kind.visits_mapParameters,
      StatementInfo.mapParameters, Variable.flatMap_visits_mapParameters, List.map_cons,
      List.map_append, Visit.mapParameters]
theorem StatementKind.visits_mapParameters :
    (k : StatementKind) → (k.mapParameters f).visits = k.visits.map (Visit.mapParameters f)
  | .expression e | .returns e | .fails e => e.visits_mapParameters f
  | .binding b => by
    simp only [StatementKind.mapParameters, StatementKind.visits, b.rhs.visits_mapParameters f,
      List.map_append, SymbolTuple.map_mapParameters_visits]
  | .update lhs rhs => by
    simp only [StatementKind.mapParameters, StatementKind.visits, lhs.visits_mapParameters f,
      rhs.visits_mapParameters f, List.map_append]
  | .conditional branches => branches.visits_mapParameters
  | .forEach symbols itemTy iterable body => by
    simp only [StatementKind.mapParameters, StatementKind.visits, itemTy.visits_mapParameters f,
      iterable.visits_mapParameters f, body.visits_mapParameters, List.map_append,
      SymbolTuple.map_mapParameters_visits]
  | .whileLoop condition body => by
    simp only [StatementKind.mapParameters, StatementKind.visits,
      condition.visits_mapParameters f, body.visits_mapParameters, List.map_append]
  | .repeatUntil block success fixup => by
    simp only [StatementKind.mapParameters, StatementKind.visits, block.visits_mapParameters,
      success.visits_mapParameters f, fixup.visits_mapParameters, List.map_append]
  | .qubits _ binding body => by
    simp only [StatementKind.mapParameters, StatementKind.visits,
      binding.rhs.visits_mapParameters f, body.visits_mapParameters, List.map_append,
      SymbolTuple.map_mapParameters_visits]
theorem Branches.visits_mapParameters :
    (b : Branches) → (b.mapParameters f).visits = b.visits.map (Visit.mapParameters f)
  | .done => rfl
  | .otherwise block => block.visits_mapParameters
  | .arm condition block rest => by
    simp only [Branches.mapParameters, Branches.visits, condition.visits_mapParameters f,
      block.visits_mapParameters, rest.visits_mapParameters, List.map_append]
theorem Block.visits_mapParameters :
    (b : Block) → (b.mapParameters f).visits = b.visits.map (Visit.mapParameters f)
  | ⟨body, _, _⟩ => body.visits_mapParameters
theorem Scope.visits_mapParameters :
    (s : Scope) → (s.mapParameters f).visits = s.visits.map (Visit.mapParameters f)
  | ⟨statements, known⟩ => by
    simp only [Scope.mapParameters, Scope.visits, Variable.flatMap_visits_mapParameters,
      Statement.visitsList_mapParameters statements, List.map_cons, List.map_append,
      Visit.mapParameters]
theorem Statement.visitsList_mapParameters :
    (ss : List Statement) →
      Statement.visitsList (Statement.mapParametersList f ss) =
        (Statement.visitsList ss).map (Visit.mapParameters f)
  | [] => rfl
  | s :: ss => by
    simp only [Statement.mapParametersList, Statement.visitsList, s.visits_mapParameters,
      Statement.visitsList_mapParameters ss, List.map_append]
end

mutual
theorem Params.visits_mapParameters :
    (ps : Params) → (ps.mapParameters f).visits = ps.visits.map (Visit.mapParameters f)
  | .item ⟨name, ty, _, _, _⟩ => by
    simp only [Params.mapParameters, Params.visits, Declaration.mapParameters,
      ty.visits_mapParameters f, List.map_append]
    cases name <;> rfl
  | .tuple items => Params.visitsList_mapParameters items
theorem Params.visitsList_mapParameters :
    (ps : List Params) →
      Params.visitsList (Params.mapParametersList f ps) =
        (Params.visitsList ps).map (Visit.mapParameters f)
  | [] => rfl
  | p :: ps => by
    simp only [Params.mapParametersList, Params.visitsList, p.visits_mapParameters,
      Params.visitsList_mapParameters ps, List.map_append]
end

theorem Signature.visits_mapParameters (s : Signature) :
    (s.mapParameters f).visits = s.visits.map (Visit.mapParameters f) := by
  simp only [Signature.mapParameters, Signature.visits, Ty.visits_mapParameters, List.map_append]

theorem Implementation.visits_mapParameters (i : Implementation) :
    (i.mapParameters f).visits = i.visits.map (Visit.mapParameters f) := by
  cases i with
  | provided params scope =>
    simp only [Implementation.mapParameters, Implementation.visits, params.visits_mapParameters,
      scope.visits_mapParameters, List.map_append]
  | intrinsic | external | generated directive => rfl

theorem Specialization.visits_mapParameters (s : Specialization) :
    (s.mapParameters f).visits = s.visits.map (Visit.mapParameters f) := by
  simp only [Specialization.mapParameters, Specialization.visits,
    Ty.visitsList_getD_mapParameters, Signature.visits_mapParameters,
    Implementation.visits_mapParameters, List.map_append]

/-- **Every node is changed in its place.** -/
theorem Callable.visits_mapParameters (c : Callable) :
    (c.mapParameters f).visits = c.visits.map (Visit.mapParameters f) := by
  simp only [Callable.visits, List.map_cons, Visit.mapParameters]
  simp only [Callable.mapParameters, Signature.visits_mapParameters, Params.visits_mapParameters,
    List.flatMap_map, Specialization.visits_mapParameters, List.map_append, List.map_flatMap]

end

/-! ### What is found -/

theorem Expr.mapParametersList_eq (f : TypeParameter → TypeParameter) (es : List Expr) :
    Expr.mapParametersList f es = es.map (Expr.mapParameters f) := by
  induction es with
  | nil => rfl
  | cons e es ih => rw [Expr.mapParametersList, List.map_cons, ih]

theorem Statement.mapParametersList_eq (f : TypeParameter → TypeParameter) (ss : List Statement) :
    Statement.mapParametersList f ss = ss.map (Statement.mapParameters f) := by
  induction ss with
  | nil => rfl
  | cons s ss ih => rw [Statement.mapParametersList, List.map_cons, ih]

section
variable (f : TypeParameter → TypeParameter)

theorem Expr.global?_mapParameters (e : Expr) : (e.mapParameters f).global? = e.global? := by
  obtain ⟨kind, info⟩ := e
  cases kind with
  | name id arguments => cases id <;> rfl
  | _ => rfl

theorem Visit.reference?_mapParameters (v : Visit) :
    (v.mapParameters f).reference? = v.reference? := by
  cases v with
  | expression e => exact e.global?_mapParameters f
  | _ => rfl

theorem Visit.leaf?_mapParameters (v : Visit) :
    (v.mapParameters f).leaf? = v.leaf?.map (Statement.mapParameters f) := by
  cases v with
  | statement s =>
    obtain ⟨kind, info⟩ := s
    cases kind <;> rfl
  | _ => rfl

theorem Expr.items_mapParameters (e : Expr) :
    (e.mapParameters f).items = e.items.map (Expr.mapParameters f) := by
  obtain ⟨kind, info⟩ := e
  cases kind with
  | tuple items => exact Expr.mapParametersList_eq f items
  | _ => rfl

theorem Expr.controlTarget?_mapParameters (primitives : Primitives) (e : Expr) :
    (e.mapParameters f).controlTarget? primitives = e.controlTarget? primitives := by
  obtain ⟨kind, info⟩ := e
  cases kind with
  | call callee argument =>
    simp only [Expr.mapParameters, ExprKind.mapParameters, Expr.controlTarget?,
      Expr.items_mapParameters, Expr.global?_mapParameters]
    rcases argument.items with _ | ⟨condition, _ | ⟨pair, _ | ⟨other, others⟩⟩⟩
    · rfl
    · rfl
    · simp only [List.map_cons, List.map_nil, Expr.items_mapParameters]
      rcases pair.items with _ | ⟨operation, _ | ⟨arguments, _ | ⟨other, others⟩⟩⟩ <;>
        simp [Expr.global?_mapParameters]
    · rfl
  | _ => rfl

theorem Statement.controlTarget?_mapParameters (primitives : Primitives) (s : Statement) :
    (s.mapParameters f).controlTarget? primitives = s.controlTarget? primitives := by
  obtain ⟨kind, info⟩ := s
  cases kind with
  | expression e => exact e.controlTarget?_mapParameters f primitives
  | _ => rfl
end

/-! ### Two changes in a row -/

section
variable (f g : TypeParameter → TypeParameter)

mutual
theorem Ty.mapParameters_mapParameters :
    (t : Ty) → (t.mapParameters f).mapParameters g = t.mapParameters (g ∘ f)
  | .unit | .int | .double | .bool | .string | .outcome | .qubit | .range => rfl
  | .custom _ | .parameter _ | .missing | .invalid => rfl
  | .array item => congrArg Ty.array item.mapParameters_mapParameters
  | .tuple items => congrArg Ty.tuple (Ty.mapParametersList_mapParametersList items)
  | .operation input output cs => by
    simp only [Ty.mapParameters, input.mapParameters_mapParameters,
      output.mapParameters_mapParameters]
  | .function input output => by
    simp only [Ty.mapParameters, input.mapParameters_mapParameters,
      output.mapParameters_mapParameters]
theorem Ty.mapParametersList_mapParametersList :
    (ts : List Ty) →
      Ty.mapParametersList g (Ty.mapParametersList f ts) = Ty.mapParametersList (g ∘ f) ts
  | [] => rfl
  | t :: ts => by
    simp only [Ty.mapParametersList, t.mapParameters_mapParameters,
      Ty.mapParametersList_mapParametersList ts]
end

theorem Ty.map_mapParametersList (arguments : Option (List Ty)) :
    (arguments.map (Ty.mapParametersList f)).map (Ty.mapParametersList g) =
      arguments.map (Ty.mapParametersList (g ∘ f)) := by
  rw [Option.map_map]
  exact congrArg (Option.map · arguments) (funext (Ty.mapParametersList_mapParametersList f g))

theorem Resolution.mapParameters_mapParameters (r : Resolution) :
    (r.mapParameters f).mapParameters g = r.mapParameters (g ∘ f) := by
  simp only [Resolution.mapParameters, Ty.mapParameters_mapParameters]

theorem ExprInfo.mapParameters_mapParameters (i : ExprInfo) :
    (i.mapParameters f).mapParameters g = i.mapParameters (g ∘ f) := by
  simp only [ExprInfo.mapParameters, List.map_map, Function.comp_def,
    Resolution.mapParameters_mapParameters, Ty.mapParameters_mapParameters]

mutual
theorem Expr.mapParameters_mapParameters :
    (e : Expr) → (e.mapParameters f).mapParameters g = e.mapParameters (g ∘ f)
  | ⟨kind, info⟩ => by
    simp only [Expr.mapParameters, kind.mapParameters_mapParameters,
      info.mapParameters_mapParameters f g]
theorem ExprKind.mapParameters_mapParameters :
    (k : ExprKind) → (k.mapParameters f).mapParameters g = k.mapParameters (g ∘ f)
  | .unit | .int _ | .double _ | .bool _ | .string _ | .outcome _ | .missing | .invalid => rfl
  | .name id arguments => congrArg (ExprKind.name id) (Ty.map_mapParametersList f g arguments)
  | .tuple items => congrArg ExprKind.tuple (Expr.mapParametersList_mapParametersList items)
  | .array items => congrArg ExprKind.array (Expr.mapParametersList_mapParametersList items)
  | .unary op operand => congrArg (ExprKind.unary op) operand.mapParameters_mapParameters
  | .binary op lhs rhs => by
    simp only [ExprKind.mapParameters, lhs.mapParameters_mapParameters,
      rhs.mapParameters_mapParameters]
  | .item array index => by
    simp only [ExprKind.mapParameters, array.mapParameters_mapParameters,
      index.mapParameters_mapParameters]
  | .choice condition yes no => by
    simp only [ExprKind.mapParameters, condition.mapParameters_mapParameters,
      yes.mapParameters_mapParameters, no.mapParameters_mapParameters]
  | .call callee argument => by
    simp only [ExprKind.mapParameters, callee.mapParameters_mapParameters,
      argument.mapParameters_mapParameters]
theorem Expr.mapParametersList_mapParametersList :
    (es : List Expr) →
      Expr.mapParametersList g (Expr.mapParametersList f es) = Expr.mapParametersList (g ∘ f) es
  | [] => rfl
  | e :: es => by
    simp only [Expr.mapParametersList, e.mapParameters_mapParameters,
      Expr.mapParametersList_mapParametersList es]
end

theorem Declaration.mapParameters_mapParameters {ν : Type} (d : Declaration ν) :
    (d.mapParameters f).mapParameters g = d.mapParameters (g ∘ f) := by
  simp only [Declaration.mapParameters, Ty.mapParameters_mapParameters]

theorem Declaration.map_mapParameters_mapParameters {ν : Type} (ds : List (Declaration ν)) :
    (ds.map (Declaration.mapParameters f)).map (Declaration.mapParameters g) =
      ds.map (Declaration.mapParameters (g ∘ f)) := by
  simp only [List.map_map, Function.comp_def, Declaration.mapParameters_mapParameters]

mutual
theorem QubitInit.mapParameters_mapParameters :
    (q : QubitInit) → (q.mapParameters f).mapParameters g = q.mapParameters (g ∘ f)
  | .single => rfl
  | .register size => congrArg QubitInit.register (size.mapParameters_mapParameters f g)
  | .tuple items => congrArg QubitInit.tuple (QubitInit.mapParametersList_mapParametersList items)
theorem QubitInit.mapParametersList_mapParametersList :
    (qs : List QubitInit) →
      QubitInit.mapParametersList g (QubitInit.mapParametersList f qs) =
        QubitInit.mapParametersList (g ∘ f) qs
  | [] => rfl
  | q :: qs => by
    simp only [QubitInit.mapParametersList, q.mapParameters_mapParameters,
      QubitInit.mapParametersList_mapParametersList qs]
end

mutual
theorem Statement.mapParameters_mapParameters :
    (s : Statement) → (s.mapParameters f).mapParameters g = s.mapParameters (g ∘ f)
  | ⟨kind, info⟩ => by
    simp only [Statement.mapParameters, kind.mapParameters_mapParameters,
      StatementInfo.mapParameters, Declaration.map_mapParameters_mapParameters]
theorem StatementKind.mapParameters_mapParameters :
    (k : StatementKind) → (k.mapParameters f).mapParameters g = k.mapParameters (g ∘ f)
  | .expression e => congrArg StatementKind.expression (e.mapParameters_mapParameters f g)
  | .returns e => congrArg StatementKind.returns (e.mapParameters_mapParameters f g)
  | .fails e => congrArg StatementKind.fails (e.mapParameters_mapParameters f g)
  | .binding b => by
    simp only [StatementKind.mapParameters, b.rhs.mapParameters_mapParameters f g]
  | .update lhs rhs => by
    simp only [StatementKind.mapParameters, lhs.mapParameters_mapParameters f g,
      rhs.mapParameters_mapParameters f g]
  | .conditional branches => congrArg StatementKind.conditional branches.mapParameters_mapParameters
  | .forEach symbols itemTy iterable body => by
    simp only [StatementKind.mapParameters, itemTy.mapParameters_mapParameters f g,
      iterable.mapParameters_mapParameters f g, body.mapParameters_mapParameters]
  | .whileLoop condition body => by
    simp only [StatementKind.mapParameters, condition.mapParameters_mapParameters f g,
      body.mapParameters_mapParameters]
  | .repeatUntil block success fixup => by
    simp only [StatementKind.mapParameters, block.mapParameters_mapParameters,
      success.mapParameters_mapParameters f g, fixup.mapParameters_mapParameters]
  | .qubits kind binding body => by
    simp only [StatementKind.mapParameters, binding.rhs.mapParameters_mapParameters f g,
      body.mapParameters_mapParameters]
theorem Branches.mapParameters_mapParameters :
    (b : Branches) → (b.mapParameters f).mapParameters g = b.mapParameters (g ∘ f)
  | .done => rfl
  | .otherwise block => congrArg Branches.otherwise block.mapParameters_mapParameters
  | .arm condition block rest => by
    simp only [Branches.mapParameters, condition.mapParameters_mapParameters f g,
      block.mapParameters_mapParameters, rest.mapParameters_mapParameters]
theorem Block.mapParameters_mapParameters :
    (b : Block) → (b.mapParameters f).mapParameters g = b.mapParameters (g ∘ f)
  | ⟨body, location, comments⟩ =>
    congrArg (Block.mk · location comments) body.mapParameters_mapParameters
theorem Scope.mapParameters_mapParameters :
    (s : Scope) → (s.mapParameters f).mapParameters g = s.mapParameters (g ∘ f)
  | ⟨statements, known⟩ => by
    simp only [Scope.mapParameters, Statement.mapParametersList_mapParametersList statements,
      Declaration.map_mapParameters_mapParameters]
theorem Statement.mapParametersList_mapParametersList :
    (ss : List Statement) →
      Statement.mapParametersList g (Statement.mapParametersList f ss) =
        Statement.mapParametersList (g ∘ f) ss
  | [] => rfl
  | s :: ss => by
    simp only [Statement.mapParametersList, s.mapParameters_mapParameters,
      Statement.mapParametersList_mapParametersList ss]
end

mutual
theorem Params.mapParameters_mapParameters :
    (ps : Params) → (ps.mapParameters f).mapParameters g = ps.mapParameters (g ∘ f)
  | .item d => congrArg Params.item (d.mapParameters_mapParameters f g)
  | .tuple items => congrArg Params.tuple (Params.mapParametersList_mapParametersList items)
theorem Params.mapParametersList_mapParametersList :
    (ps : List Params) →
      Params.mapParametersList g (Params.mapParametersList f ps) =
        Params.mapParametersList (g ∘ f) ps
  | [] => rfl
  | p :: ps => by
    simp only [Params.mapParametersList, p.mapParameters_mapParameters,
      Params.mapParametersList_mapParametersList ps]
end

theorem Signature.mapParameters_mapParameters (s : Signature) :
    (s.mapParameters f).mapParameters g = s.mapParameters (g ∘ f) := by
  simp only [Signature.mapParameters, Ty.mapParameters_mapParameters]

theorem Implementation.mapParameters_mapParameters (i : Implementation) :
    (i.mapParameters f).mapParameters g = i.mapParameters (g ∘ f) := by
  cases i with
  | provided params scope =>
    simp only [Implementation.mapParameters, params.mapParameters_mapParameters,
      scope.mapParameters_mapParameters]
  | intrinsic | external | generated directive => rfl

theorem Specialization.mapParameters_mapParameters (s : Specialization) :
    (s.mapParameters f).mapParameters g = s.mapParameters (g ∘ f) := by
  simp only [Specialization.mapParameters, Ty.map_mapParametersList,
    Signature.mapParameters_mapParameters, Implementation.mapParameters_mapParameters]

/-- **Two changes in a row are one.** -/
theorem Callable.mapParameters_mapParameters (c : Callable) :
    (c.mapParameters f).mapParameters g = c.mapParameters (g ∘ f) := by
  simp only [Callable.mapParameters, Signature.mapParameters_mapParameters,
    Params.mapParameters_mapParameters, List.map_map, Function.comp_def,
    Specialization.mapParameters_mapParameters]

end

/-! ### A change that is none -/

section
variable {f : TypeParameter → TypeParameter}

mutual
theorem Ty.mapParameters_eq_self : (t : Ty) → (∀ x, .type (.parameter x) ∈ t.visits → f x = x) →
    t.mapParameters f = t
  | .unit, _ | .int, _ | .double, _ | .bool, _ | .string, _ | .outcome, _ | .qubit, _ => rfl
  | .range, _ | .custom _, _ | .missing, _ | .invalid, _ => rfl
  | .parameter x, h => congrArg Ty.parameter (h x (List.mem_singleton_self _))
  | .array item, h => congrArg Ty.array
    (item.mapParameters_eq_self fun x hx => h x (List.mem_cons_of_mem _ hx))
  | .tuple items, h => congrArg Ty.tuple
    (Ty.mapParametersList_eq_self items fun x hx => h x (List.mem_cons_of_mem _ hx))
  | .operation input output cs, h => by
    rw [Ty.mapParameters, input.mapParameters_eq_self fun x hx => h x (by simp [Ty.visits, hx]),
      output.mapParameters_eq_self fun x hx => h x (by simp [Ty.visits, hx])]
  | .function input output, h => by
    rw [Ty.mapParameters, input.mapParameters_eq_self fun x hx => h x (by simp [Ty.visits, hx]),
      output.mapParameters_eq_self fun x hx => h x (by simp [Ty.visits, hx])]
theorem Ty.mapParametersList_eq_self : (ts : List Ty) →
    (∀ x, .type (.parameter x) ∈ Ty.visitsList ts → f x = x) → Ty.mapParametersList f ts = ts
  | [], _ => rfl
  | t :: ts, h => by
    rw [Ty.mapParametersList, t.mapParameters_eq_self fun x hx => h x (List.mem_append_left _ hx),
      Ty.mapParametersList_eq_self ts fun x hx => h x (List.mem_append_right _ hx)]
end

theorem Ty.map_mapParametersList_eq_self (arguments : Option (List Ty))
    (h : ∀ x, .type (.parameter x) ∈ Ty.visitsList (arguments.getD []) → f x = x) :
    arguments.map (Ty.mapParametersList f) = arguments := by
  cases arguments with
  | none => rfl
  | some ts => exact congrArg some (Ty.mapParametersList_eq_self ts h)

theorem ExprInfo.mapParameters_eq_self (i : ExprInfo)
    (h : ∀ x, .type (.parameter x) ∈ i.visits → f x = x) : i.mapParameters f = i := by
  obtain ⟨resolutions, ty, inferred, range⟩ := i
  have hresolutions : resolutions.map (Resolution.mapParameters f) = resolutions := by
    refine (List.map_congr_left fun r hr => ?_).trans (List.map_id resolutions)
    have hr : ∀ v ∈ r.ty.visits, v ∈ ExprInfo.visits ⟨resolutions, ty, inferred, range⟩ :=
      fun v hv => List.mem_append_left _ (List.mem_flatMap.mpr ⟨r, hr, hv⟩)
    exact congrArg (Resolution.mk r.callable r.parameter)
      (r.ty.mapParameters_eq_self fun x hx => h x (hr _ hx))
  have hty := ty.mapParameters_eq_self fun x hx => h x (List.mem_append_right _ hx)
  simp only [ExprInfo.mapParameters, hresolutions, hty]

mutual
theorem Expr.mapParameters_eq_self : (e : Expr) →
    (∀ x, .type (.parameter x) ∈ e.visits → f x = x) → e.mapParameters f = e
  | ⟨kind, info⟩, h => by
    rw [Expr.mapParameters, kind.mapParameters_eq_self fun x hx => h x (by simp [Expr.visits, hx]),
      info.mapParameters_eq_self fun x hx => h x (by simp [Expr.visits, hx])]
theorem ExprKind.mapParameters_eq_self : (k : ExprKind) →
    (∀ x, .type (.parameter x) ∈ k.visits → f x = x) → k.mapParameters f = k
  | .unit, _ | .int _, _ | .double _, _ | .bool _, _ | .string _, _ | .outcome _, _ => rfl
  | .missing, _ | .invalid, _ => rfl
  | .name id arguments, h =>
    congrArg (ExprKind.name id) (Ty.map_mapParametersList_eq_self arguments h)
  | .tuple items, h => congrArg ExprKind.tuple (Expr.mapParametersList_eq_self items h)
  | .array items, h => congrArg ExprKind.array (Expr.mapParametersList_eq_self items h)
  | .unary op operand, h => congrArg (ExprKind.unary op) (operand.mapParameters_eq_self h)
  | .binary op lhs rhs, h => by
    rw [ExprKind.mapParameters,
      lhs.mapParameters_eq_self fun x hx => h x (List.mem_append_left _ hx),
      rhs.mapParameters_eq_self fun x hx => h x (List.mem_append_right _ hx)]
  | .item array index, h => by
    rw [ExprKind.mapParameters,
      array.mapParameters_eq_self fun x hx => h x (List.mem_append_left _ hx),
      index.mapParameters_eq_self fun x hx => h x (List.mem_append_right _ hx)]
  | .choice condition yes no, h => by
    rw [ExprKind.mapParameters,
      condition.mapParameters_eq_self fun x hx => h x (by simp [ExprKind.visits, hx]),
      yes.mapParameters_eq_self fun x hx => h x (by simp [ExprKind.visits, hx]),
      no.mapParameters_eq_self fun x hx => h x (by simp [ExprKind.visits, hx])]
  | .call callee argument, h => by
    rw [ExprKind.mapParameters,
      callee.mapParameters_eq_self fun x hx => h x (List.mem_append_left _ hx),
      argument.mapParameters_eq_self fun x hx => h x (List.mem_append_right _ hx)]
theorem Expr.mapParametersList_eq_self : (es : List Expr) →
    (∀ x, .type (.parameter x) ∈ Expr.visitsList es → f x = x) → Expr.mapParametersList f es = es
  | [], _ => rfl
  | e :: es, h => by
    rw [Expr.mapParametersList,
      e.mapParameters_eq_self fun x hx => h x (List.mem_append_left _ hx),
      Expr.mapParametersList_eq_self es fun x hx => h x (List.mem_append_right _ hx)]
end

theorem Variable.map_mapParameters_eq_self (vs : List Variable)
    (h : ∀ x, .type (.parameter x) ∈ vs.flatMap Variable.visits → f x = x) :
    vs.map (Declaration.mapParameters f) = vs := by
  refine (List.map_congr_left fun v hv => ?_).trans (List.map_id vs)
  have hty := v.ty.mapParameters_eq_self fun x hx =>
    h x (List.mem_flatMap.mpr ⟨v, hv, List.mem_cons_of_mem _ hx⟩)
  exact congrArg (fun ty => { v with ty }) hty

mutual
theorem QubitInit.mapParameters_eq_self : (q : QubitInit) →
    (∀ x, .type (.parameter x) ∈ q.visits → f x = x) → q.mapParameters f = q
  | .single, _ => rfl
  | .register size, h => congrArg QubitInit.register (size.mapParameters_eq_self h)
  | .tuple items, h => congrArg QubitInit.tuple (QubitInit.mapParametersList_eq_self items h)
theorem QubitInit.mapParametersList_eq_self : (qs : List QubitInit) →
    (∀ x, .type (.parameter x) ∈ QubitInit.visitsList qs → f x = x) →
      QubitInit.mapParametersList f qs = qs
  | [], _ => rfl
  | q :: qs, h => by
    rw [QubitInit.mapParametersList,
      q.mapParameters_eq_self fun x hx => h x (List.mem_append_left _ hx),
      QubitInit.mapParametersList_eq_self qs fun x hx => h x (List.mem_append_right _ hx)]
end

mutual
theorem Statement.mapParameters_eq_self : (s : Statement) →
    (∀ x, .type (.parameter x) ∈ s.visits → f x = x) → s.mapParameters f = s
  | ⟨kind, info⟩, h => by
    rw [Statement.mapParameters,
      kind.mapParameters_eq_self fun x hx => h x (by simp [Statement.visits, hx]),
      StatementInfo.mapParameters, Variable.map_mapParameters_eq_self info.declarations fun x hx =>
        h x (List.mem_cons_of_mem _ (List.mem_append_left _ hx))]
theorem StatementKind.mapParameters_eq_self : (k : StatementKind) →
    (∀ x, .type (.parameter x) ∈ k.visits → f x = x) → k.mapParameters f = k
  | .expression e, h => congrArg StatementKind.expression (e.mapParameters_eq_self h)
  | .returns e, h => congrArg StatementKind.returns (e.mapParameters_eq_self h)
  | .fails e, h => congrArg StatementKind.fails (e.mapParameters_eq_self h)
  | .binding b, h => by
    rw [StatementKind.mapParameters,
      b.rhs.mapParameters_eq_self fun x hx => h x (List.mem_append_right _ hx)]
  | .update lhs rhs, h => by
    rw [StatementKind.mapParameters,
      lhs.mapParameters_eq_self fun x hx => h x (List.mem_append_left _ hx),
      rhs.mapParameters_eq_self fun x hx => h x (List.mem_append_right _ hx)]
  | .conditional branches, h =>
    congrArg StatementKind.conditional (branches.mapParameters_eq_self h)
  | .forEach symbols itemTy iterable body, h => by
    rw [StatementKind.mapParameters,
      itemTy.mapParameters_eq_self fun x hx => h x (by simp [StatementKind.visits, hx]),
      iterable.mapParameters_eq_self fun x hx => h x (by simp [StatementKind.visits, hx]),
      body.mapParameters_eq_self fun x hx => h x (by simp [StatementKind.visits, hx])]
  | .whileLoop condition body, h => by
    rw [StatementKind.mapParameters,
      condition.mapParameters_eq_self fun x hx => h x (List.mem_append_left _ hx),
      body.mapParameters_eq_self fun x hx => h x (List.mem_append_right _ hx)]
  | .repeatUntil block success fixup, h => by
    rw [StatementKind.mapParameters,
      block.mapParameters_eq_self fun x hx => h x (by simp [StatementKind.visits, hx]),
      success.mapParameters_eq_self fun x hx => h x (by simp [StatementKind.visits, hx]),
      fixup.mapParameters_eq_self fun x hx => h x (by simp [StatementKind.visits, hx])]
  | .qubits kind binding body, h => by
    rw [StatementKind.mapParameters,
      binding.rhs.mapParameters_eq_self fun x hx => h x (by simp [StatementKind.visits, hx]),
      body.mapParameters_eq_self fun x hx => h x (by simp [StatementKind.visits, hx])]
theorem Branches.mapParameters_eq_self : (b : Branches) →
    (∀ x, .type (.parameter x) ∈ b.visits → f x = x) → b.mapParameters f = b
  | .done, _ => rfl
  | .otherwise block, h => congrArg Branches.otherwise (block.mapParameters_eq_self h)
  | .arm condition block rest, h => by
    rw [Branches.mapParameters,
      condition.mapParameters_eq_self fun x hx => h x (by simp [Branches.visits, hx]),
      block.mapParameters_eq_self fun x hx => h x (by simp [Branches.visits, hx]),
      rest.mapParameters_eq_self fun x hx => h x (by simp [Branches.visits, hx])]
theorem Block.mapParameters_eq_self : (b : Block) →
    (∀ x, .type (.parameter x) ∈ b.visits → f x = x) → b.mapParameters f = b
  | ⟨body, location, comments⟩, h =>
    congrArg (Block.mk · location comments) (body.mapParameters_eq_self h)
theorem Scope.mapParameters_eq_self : (s : Scope) →
    (∀ x, .type (.parameter x) ∈ s.visits → f x = x) → s.mapParameters f = s
  | ⟨statements, known⟩, h => by
    rw [Scope.mapParameters,
      Statement.mapParametersList_eq_self statements fun x hx => h x (by simp [Scope.visits, hx]),
      Variable.map_mapParameters_eq_self known fun x hx =>
        h x (List.mem_cons_of_mem _ (List.mem_append_left _ hx))]
theorem Statement.mapParametersList_eq_self : (ss : List Statement) →
    (∀ x, .type (.parameter x) ∈ Statement.visitsList ss → f x = x) →
      Statement.mapParametersList f ss = ss
  | [], _ => rfl
  | s :: ss, h => by
    rw [Statement.mapParametersList,
      s.mapParameters_eq_self fun x hx => h x (List.mem_append_left _ hx),
      Statement.mapParametersList_eq_self ss fun x hx => h x (List.mem_append_right _ hx)]
end

mutual
theorem Params.mapParameters_eq_self : (ps : Params) →
    (∀ x, .type (.parameter x) ∈ ps.visits → f x = x) → ps.mapParameters f = ps
  | .item d, h => congrArg (fun ty => Params.item { d with ty })
    (d.ty.mapParameters_eq_self fun x hx => h x (List.mem_append_right _ hx))
  | .tuple items, h => congrArg Params.tuple (Params.mapParametersList_eq_self items h)
theorem Params.mapParametersList_eq_self : (ps : List Params) →
    (∀ x, .type (.parameter x) ∈ Params.visitsList ps → f x = x) → Params.mapParametersList f ps = ps
  | [], _ => rfl
  | p :: ps, h => by
    rw [Params.mapParametersList,
      p.mapParameters_eq_self fun x hx => h x (List.mem_append_left _ hx),
      Params.mapParametersList_eq_self ps fun x hx => h x (List.mem_append_right _ hx)]
end

theorem Signature.mapParameters_eq_self (s : Signature)
    (h : ∀ x, .type (.parameter x) ∈ s.visits → f x = x) : s.mapParameters f = s := by
  rw [Signature.mapParameters,
    s.argument.mapParameters_eq_self fun x hx => h x (List.mem_append_left _ hx),
    s.result.mapParameters_eq_self fun x hx => h x (List.mem_append_right _ hx)]

theorem Implementation.mapParameters_eq_self (i : Implementation)
    (h : ∀ x, .type (.parameter x) ∈ i.visits → f x = x) : i.mapParameters f = i := by
  cases i with
  | provided params scope =>
    rw [Implementation.mapParameters,
      params.mapParameters_eq_self fun x hx => h x (List.mem_append_left _ hx),
      scope.mapParameters_eq_self fun x hx => h x (List.mem_append_right _ hx)]
  | intrinsic | external | generated directive => rfl

theorem Specialization.mapParameters_eq_self (s : Specialization)
    (h : ∀ x, .type (.parameter x) ∈ s.visits → f x = x) : s.mapParameters f = s := by
  rw [Specialization.mapParameters,
    Ty.map_mapParametersList_eq_self s.typeArguments fun x hx =>
      h x (by simp [Specialization.visits, hx]),
    s.signature.mapParameters_eq_self fun x hx => h x (by simp [Specialization.visits, hx]),
    s.implementation.mapParameters_eq_self fun x hx => h x (List.mem_append_right _ hx)]

/-- **A change that keeps every type parameter that occurs changes nothing.** -/
theorem Callable.mapParameters_eq_self (c : Callable)
    (h : ∀ x, .type (.parameter x) ∈ c.visits → f x = x) : c.mapParameters f = c := by
  have hspecializations : c.specializations.map (Specialization.mapParameters f) =
      c.specializations := by
    refine (List.map_congr_left fun s hs => ?_).trans (List.map_id c.specializations)
    exact s.mapParameters_eq_self fun x hx => h x (List.mem_cons_of_mem _
      (List.mem_append_right _ (List.mem_flatMap.mpr ⟨s, hs, hx⟩)))
  rw [Callable.mapParameters, hspecializations,
    c.signature.mapParameters_eq_self fun x hx => h x (by simp [Callable.visits, hx]),
    c.params.mapParameters_eq_self fun x hx => h x (by simp [Callable.visits, hx])]

end

/-- A type parameter that the new owner did not have goes back to the old one. -/
theorem TypeParameter.reroute_reroute {x : TypeParameter} {source target : QualifiedName}
    (h : x.origin ≠ target) : (x.reroute source target).reroute target source = x := by
  by_cases hx : x.origin = source
  · obtain ⟨origin, name, range⟩ := x
    obtain rfl : origin = source := hx
    simp [TypeParameter.reroute]
  · have hkept : x.reroute source target = x := if_neg hx
    rw [hkept]
    exact if_neg h

end OutcomeControl
