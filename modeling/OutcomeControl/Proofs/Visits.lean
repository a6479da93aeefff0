import OutcomeControl.Proofs.Induction
import OutcomeControl.Proofs.Mention

/-! What stands in a tree, at whatever depth.

The nodes of a tree are those that a reader meets (`visits`). What a proof looks for among them is
given by a function on nodes, such as the callable that is referred to or the statement without blocks
that stands there. A statement at any depth of a body has all its nodes in the body
(`Scope.Holds.visits_subset`). -/

namespace OutcomeControl

/-! ### Nodes that are looked for -/

instance : DecidablePred StatementKind.IsLeaf := fun
  | .expression _ | .returns _ | .fails _ | .binding _ | .update _ _ => isTrue trivial
  | .conditional _ | .forEach _ _ _ _ | .whileLoop _ _ | .repeatUntil _ _ _ | .qubits _ _ _ =>
    isFalse id

/-- The callable that the expression names. -/
def Expr.global? (e : Expr) : Option QualifiedName := match e.kind with
  | .name (.ofCallable q) _ => some q
  | _ => none

namespace Visit

/-- The statement that stands here. -/
def statement? : Visit → Option Statement
  | .statement s => some s
  | _ => none

/-- The statement that stands here, if it has no blocks. -/
def leaf? (v : Visit) : Option Statement := v.statement?.filter (·.kind.IsLeaf)

/-- The callable that is referred to here. -/
def reference? : Visit → Option QualifiedName
  | .expression e => e.global?
  | _ => none

end Visit

/-- The statements of a body that has some. -/
def Specialization.bodyScope? (s : Specialization) : Option Scope := match s.kind, s.implementation with
  | .body, .provided _ scope => some scope
  | _, _ => none

theorem Specialization.bodyScope?_eq_some {s : Specialization} {scope : Scope} :
    s.bodyScope? = some scope ↔
      ∃ params, s.kind = .body ∧ s.implementation = .provided params scope := by
  obtain ⟨kind, _, _, _, _, _, implementation, _, _⟩ := s
  cases kind <;> cases implementation <;> simp [Specialization.bodyScope?]

/-- The bodies that the pass works on. -/
def Callable.bodies (c : Callable) : List Scope := c.specializations.filterMap Specialization.bodyScope?

namespace Element

def bodies : Element → List Scope
  | .callable c => c.bodies
  | .customType _ => []

def visits : Element → List Visit
  | .callable c => c.visits
  | .customType t => t.underlying.visits

end Element

/-! ### Kinds of nodes -/

mutual
theorem Ty.of_mem_visits {v : Visit} : {t : Ty} → v ∈ t.visits → ∃ u, v = .type u
  | .unit, h | .int, h | .double, h | .bool, h | .string, h | .outcome, h | .qubit, h
  | .range, h | .custom _, h | .parameter _, h | .missing, h | .invalid, h =>
    ⟨_, List.mem_singleton.mp h⟩
  | .array _, h => (List.mem_cons.mp h).elim (⟨_, ·⟩) Ty.of_mem_visits
  | .tuple _, h => (List.mem_cons.mp h).elim (⟨_, ·⟩) Ty.of_mem_visitsList
  | .operation _ _ _, h | .function _ _, h =>
    (List.mem_cons.mp h).elim (⟨_, ·⟩) fun h =>
      (List.mem_append.mp h).elim Ty.of_mem_visits Ty.of_mem_visits
theorem Ty.of_mem_visitsList {v : Visit} : {ts : List Ty} → v ∈ Ty.visitsList ts →
    ∃ u, v = .type u
  | _ :: _, h => (List.mem_append.mp h).elim Ty.of_mem_visits Ty.of_mem_visitsList
end

theorem ExprInfo.of_mem_visits {v : Visit} {i : ExprInfo} (h : v ∈ i.visits) :
    ∃ u, v = .type u := by
  obtain h | h := List.mem_append.mp h
  · obtain ⟨r, -, h⟩ := List.mem_flatMap.mp h
    exact Ty.of_mem_visits h
  · exact Ty.of_mem_visits h

mutual
theorem Expr.of_mem_visits {v : Visit} : {e : Expr} → v ∈ e.visits →
    (∃ f, v = .expression f) ∨ ∃ u, v = .type u
  | ⟨_, _⟩, h => (List.mem_cons.mp h).elim (.inl ⟨_, ·⟩) fun h =>
    (List.mem_append.mp h).elim ExprKind.of_mem_visits (.inr <| ExprInfo.of_mem_visits ·)
theorem ExprKind.of_mem_visits {v : Visit} : {k : ExprKind} → v ∈ k.visits →
    (∃ f, v = .expression f) ∨ ∃ u, v = .type u
  | .name _ _, h => .inr (Ty.of_mem_visitsList h)
  | .tuple _, h | .array _, h => Expr.of_mem_visitsList h
  | .unary _ _, h => Expr.of_mem_visits h
  | .binary _ _ _, h | .item _ _, h | .call _ _, h =>
    (List.mem_append.mp h).elim Expr.of_mem_visits Expr.of_mem_visits
  | .choice _ _ _, h => (List.mem_append.mp h).elim Expr.of_mem_visits fun h =>
    (List.mem_append.mp h).elim Expr.of_mem_visits Expr.of_mem_visits
theorem Expr.of_mem_visitsList {v : Visit} : {es : List Expr} → v ∈ Expr.visitsList es →
    (∃ f, v = .expression f) ∨ ∃ u, v = .type u
  | _ :: _, h => (List.mem_append.mp h).elim Expr.of_mem_visits Expr.of_mem_visitsList
end

theorem Params.visitsList_eq (ps : List Params) : Params.visitsList ps = ps.flatMap Params.visits := by
  induction ps with
  | nil => rfl
  | cons p ps ih => simp only [Params.visitsList, List.flatMap_cons, ih]

mutual
theorem Params.of_mem_visits {v : Visit} : {ps : Params} → v ∈ ps.visits →
    (∃ n, v = .localName n) ∨ ∃ u, v = .type u
  | .item ⟨name, ty, _, _, _⟩, h => by
    obtain h | h := List.mem_append.mp h
    · cases name with
      | valid n => exact .inl ⟨n, List.mem_singleton.mp h⟩
      | invalid => cases h
    · exact .inr (Ty.of_mem_visits h)
  | .tuple _, h => Params.of_mem_visitsList h
theorem Params.of_mem_visitsList {v : Visit} : {ps : List Params} → v ∈ Params.visitsList ps →
    (∃ n, v = .localName n) ∨ ∃ u, v = .type u
  | _ :: _, h => (List.mem_append.mp h).elim Params.of_mem_visits Params.of_mem_visitsList
end

section
variable (t : Statement)

theorem Ty.statement_notMem_visits (ty : Ty) : .statement t ∉ ty.visits :=
  fun h => (by obtain ⟨u, hu⟩ := Ty.of_mem_visits h; cases hu)

theorem Expr.statement_notMem_visits (e : Expr) : .statement t ∉ e.visits :=
  fun h => (by obtain ⟨u, hu⟩ | ⟨u, hu⟩ := Expr.of_mem_visits h <;> cases hu)

theorem SymbolTuple.statement_notMem_visits (s : SymbolTuple) : .statement t ∉ s.visits := by
  rw [SymbolTuple.visits_eq, List.mem_map]
  rintro ⟨n, -, hn⟩
  cases hn

theorem QubitInit.statement_notMem_visits (q : QubitInit) : .statement t ∉ q.visits := by
  rw [QubitInit.visits_eq, List.mem_flatMap]
  rintro ⟨e, -, he⟩
  exact e.statement_notMem_visits t he

theorem Variable.statement_notMem_visits (vs : List Variable) :
    .statement t ∉ vs.flatMap Variable.visits := by
  rw [List.mem_flatMap]
  rintro ⟨v, -, hv⟩
  obtain hv | hv := List.mem_cons.mp hv
  · cases hv
  · exact v.ty.statement_notMem_visits t hv

end

/-! ### Statements at any depth -/

theorem Statement.visitsList_append (ss ts : List Statement) :
    visitsList (ss ++ ts) = visitsList ss ++ visitsList ts := by
  simp only [visitsList_eq, List.flatMap_append]

theorem Statement.visitsList_singleton (s : Statement) : visitsList [s] = s.visits :=
  List.append_nil _

theorem Scope.visits_statements (s : Scope) {v : Visit} (h : v ∈ Statement.visitsList s.statements) :
    v ∈ s.visits := by
  obtain ⟨statements, known⟩ := s
  exact List.mem_cons_of_mem _ (List.mem_append_right _ h)

theorem Block.visits_statements (b : Block) {v : Visit}
    (h : v ∈ Statement.visitsList b.body.statements) : v ∈ b.visits :=
  b.visits_eq ▸ b.body.visits_statements h

/-- The statement stands in the scope, at any depth. -/
inductive Scope.Holds (t : Statement) : Scope → Prop where
  | here {s : Scope} : t ∈ s.statements → s.Holds t
  | inside {s inner : Scope} {u : Statement} :
    u ∈ s.statements → inner ∈ u.kind.scopes → inner.Holds t → s.Holds t

section
variable {t : Statement}

mutual
theorem Statement.of_mem_visits : (s : Statement) → .statement t ∈ s.visits →
    t = s ∨ ∃ inner ∈ s.kind.scopes, inner.Holds t
  | ⟨kind, info⟩, h => by
    simp only [Statement.visits, List.mem_cons, List.mem_append, Visit.statement.injEq,
      Variable.statement_notMem_visits, false_or] at h
    refine h.imp id fun h => ?_
    cases kind with
    | conditional branches => exact Branches.of_mem_visits branches h
    | forEach symbols itemTy iterable body =>
      simp only [StatementKind.visits, List.mem_append, SymbolTuple.statement_notMem_visits,
        Ty.statement_notMem_visits, Expr.statement_notMem_visits, false_or] at h
      exact ⟨body, List.mem_singleton_self _, Scope.of_mem_visits body h⟩
    | whileLoop condition body =>
      simp only [StatementKind.visits, List.mem_append, Expr.statement_notMem_visits, false_or] at h
      exact ⟨body, List.mem_singleton_self _, Scope.of_mem_visits body h⟩
    | repeatUntil block success fixup =>
      simp only [StatementKind.visits, List.mem_append, Expr.statement_notMem_visits, false_or] at h
      obtain h | h := h
      · exact ⟨block.body, List.mem_cons_self .., Block.of_mem_visits block h⟩
      · exact ⟨fixup.body, List.mem_cons_of_mem _ (List.mem_singleton_self _),
          Block.of_mem_visits fixup h⟩
    | qubits qkind binding body =>
      simp only [StatementKind.visits, List.mem_append, SymbolTuple.statement_notMem_visits,
        QubitInit.statement_notMem_visits, false_or] at h
      exact ⟨body, List.mem_singleton_self _, Scope.of_mem_visits body h⟩
    | expression e | returns e | fails e => exact absurd h (e.statement_notMem_visits _)
    | binding b =>
      simp [StatementKind.visits, SymbolTuple.statement_notMem_visits,
        Expr.statement_notMem_visits] at h
    | update lhs rhs => simp [StatementKind.visits, Expr.statement_notMem_visits] at h
theorem Branches.of_mem_visits : (b : Branches) → .statement t ∈ b.visits →
    ∃ inner ∈ (StatementKind.conditional b).scopes, inner.Holds t
  | .otherwise block, h => ⟨block.body, List.mem_singleton_self _, Block.of_mem_visits block h⟩
  | .arm condition block rest, h => by
    simp only [Branches.visits, List.mem_append, Expr.statement_notMem_visits, false_or] at h
    obtain h | h := h
    · exact ⟨block.body, List.mem_cons_self .., Block.of_mem_visits block h⟩
    · obtain ⟨inner, hinner, hholds⟩ := Branches.of_mem_visits rest h
      exact ⟨inner, List.mem_cons_of_mem _ hinner, hholds⟩
theorem Block.of_mem_visits : (b : Block) → .statement t ∈ b.visits → b.body.Holds t
  | ⟨body, _, _⟩, h => Scope.of_mem_visits body h
theorem Scope.of_mem_visits : (s : Scope) → .statement t ∈ s.visits → s.Holds t
  | ⟨statements, known⟩, h => by
    simp only [Scope.visits, List.mem_cons, List.mem_append, reduceCtorEq,
      Variable.statement_notMem_visits, false_or] at h
    obtain ⟨s, hs, rfl | ⟨inner, hinner, hholds⟩⟩ := Statement.of_mem_visitsList statements h
    · exact .here hs
    · exact .inside hs hinner hholds
theorem Statement.of_mem_visitsList : (ss : List Statement) → .statement t ∈ Statement.visitsList ss →
    ∃ s ∈ ss, t = s ∨ ∃ inner ∈ s.kind.scopes, inner.Holds t
  | s :: ss, h => by
    obtain h | h := List.mem_append.mp h
    · exact ⟨s, List.mem_cons_self .., Statement.of_mem_visits s h⟩
    · obtain ⟨u, hu, h⟩ := Statement.of_mem_visitsList ss h
      exact ⟨u, List.mem_cons_of_mem _ hu, h⟩
end

/-- What stands in a statement of a body stands in the body. -/
theorem Scope.Holds.visits_subset {s : Scope} (h : s.Holds t) : t.visits ⊆ s.visits := by
  induction h with
  | @here s ht =>
    intro v hv
    refine s.visits_statements ?_
    rw [Statement.visitsList_eq]
    exact List.mem_flatMap.mpr ⟨t, ht, hv⟩
  | inside hu hinner _ ih =>
    exact List.Subset.trans ih
      (List.Subset.trans (StatementKind.visits_scope hinner) (Scope.visits_kind hu))

end

/-! ### Elements -/

theorem Element.visits_body {e : Element} {body : Scope} (h : body ∈ e.bodies) :
    body.visits ⊆ e.visits := by
  cases e with
  | customType t => cases h
  | callable c =>
    obtain ⟨s, hs, hscope⟩ := List.mem_filterMap.mp h
    obtain ⟨params, -, himpl⟩ := Specialization.bodyScope?_eq_some.mp hscope
    intro v hv
    refine List.mem_cons_of_mem _ (List.mem_append_right _ (List.mem_flatMap.mpr ⟨s, hs, ?_⟩))
    simp [Specialization.visits, himpl, Implementation.visits, hv]

theorem Element.mem_names {e : Element} {v : Visit} (hv : v ∈ e.visits) {n : String}
    (hn : n ∈ v.names) : n ∈ e.names := by
  cases e with
  | callable c => exact List.mem_cons_of_mem _ (List.mem_flatMap.mpr ⟨v, hv, hn⟩)
  | customType t => exact List.mem_cons_of_mem _ (List.mem_flatMap.mpr ⟨v, hv, hn⟩)

theorem Visit.mem_names_of_reference? {v : Visit} {q : QualifiedName} (h : v.reference? = some q) :
    q.name ∈ v.names := by
  cases v with
  | expression e =>
    obtain ⟨kind, info⟩ := e
    cases kind with
    | name id arguments =>
      cases id with
      | ofCallable name =>
        obtain rfl := Option.some.inj h
        exact List.mem_append_left _ (List.mem_singleton_self _)
      | _ => cases h
    | _ => cases h
  | _ => cases h

/-! ### Calls of the primitives -/

/-- The values in a tuple. -/
def Expr.items (e : Expr) : List Expr := match e.kind with
  | .tuple items => items
  | _ => []

/-- The operation that is run by `primitive(condition, (operation, arguments))`. -/
def Expr.controlTarget? (primitives : Primitives) (e : Expr) : Option QualifiedName := match e.kind with
  | .call callee argument => match argument.items with
    | [_, pair] => match pair.items with
      | [operation, _] =>
        if callee.global? = some primitives.zero.name ∨ callee.global? = some primitives.one.name then
          operation.global?
        else none
      | _ => none
    | _ => none
  | _ => none

def Statement.controlTarget? (primitives : Primitives) (s : Statement) : Option QualifiedName :=
  match s.kind with
  | .expression e => e.controlTarget? primitives
  | _ => none

theorem Statement.controlTarget?_replacedBy (source : Statement) (primitives : Primitives)
    (outcome : Outcome) (condition : Expr) (target : Target) (captured : List Variable)
    (frame : Frame) :
    (source.replacedBy ((primitives.forOutcome outcome).controlCall condition target captured
      frame)).controlTarget? primitives = some target.name := by
  have hcallee : some (primitives.forOutcome outcome).name = some primitives.zero.name ∨
      some (primitives.forOutcome outcome).name = some primitives.one.name := by
    cases outcome with
    | zero => exact .inl rfl
    | one => exact .inr rfl
  exact if_pos hcallee

theorem Expr.visits_of_items {e item : Expr} (h : item ∈ e.items) : item.visits ⊆ e.visits := by
  refine Expr.visits_part ?_
  unfold Expr.items at h
  split at h
  next items hkind => rwa [hkind]
  next => cases h

/-- The operation that is run is referred to. -/
theorem Expr.visits_of_controlTarget? {primitives : Primitives} {e : Expr} {q : QualifiedName}
    (h : e.controlTarget? primitives = some q) : ∃ v ∈ e.visits, v.reference? = some q := by
  obtain ⟨kind, info⟩ := e
  cases kind with
  | call callee argument =>
    unfold Expr.controlTarget? at h
    dsimp only at h
    split at h
    next condition pair hargument =>
      split at h
      next operation arguments hpair =>
        split at h
        next =>
          have hoperation : .expression operation ∈ operation.visits := by simp [Expr.visits_eq]
          have hpair : operation.visits ⊆ pair.visits := Expr.visits_of_items (by simp [hpair])
          have hargument : pair.visits ⊆ argument.visits := Expr.visits_of_items (by simp [hargument])
          exact ⟨_, Expr.visits_part (f := argument) (by simp [ExprKind.parts])
            (hargument (hpair hoperation)), h⟩
        next => cases h
      next => cases h
    next => cases h
  | _ => cases h

theorem Statement.visits_of_controlTarget? {primitives : Primitives} {s : Statement}
    {q : QualifiedName} (h : s.controlTarget? primitives = some q) :
    ∃ v ∈ s.visits, v.reference? = some q := by
  obtain ⟨kind, info⟩ := s
  cases kind with
  | expression e =>
    obtain ⟨v, hv, hq⟩ := Expr.visits_of_controlTarget? h
    exact ⟨v, List.mem_cons_of_mem _ (List.mem_append_right _ hv), hq⟩
  | _ => cases h

end OutcomeControl
