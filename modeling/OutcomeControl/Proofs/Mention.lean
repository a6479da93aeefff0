import OutcomeControl.Lowering.NameSupply

/-! The names that a program mentions.

`Mentions` says, construct by construct, which names are declared or referred to: it knows the
parts of a type, an expression or a statement and where names stand, and nothing of the order in
which a tree is read. The names that a supply reserves are collected by visiting the tree instead;
`Compilation.mem_names` is the statement that the visit misses none. -/

namespace OutcomeControl

/-! ### Types -/

/-- The types that a type is made of. -/
def Ty.parts : Ty → List Ty
  | .array item => [item]
  | .tuple items => items
  | .operation input output _ | .function input output => [input, output]
  | .unit | .int | .double | .bool | .string | .outcome | .qubit | .range => []
  | .custom _ | .parameter _ | .missing | .invalid => []

/-- A type refers to the user-defined type called `n`. -/
inductive Ty.Mentions (n : String) : Ty → Prop where
  | custom {q : QualifiedName} : q.name = n → Ty.Mentions n (.custom q)
  | part {t u : Ty} : u ∈ t.parts → u.Mentions n → t.Mentions n

theorem Ty.visitsList_eq (ts : List Ty) : Ty.visitsList ts = ts.flatMap Ty.visits := by
  induction ts with
  | nil => rfl
  | cons t ts ih => simp only [Ty.visitsList, List.flatMap_cons, ih]

theorem Ty.visits_part {t u : Ty} (h : u ∈ t.parts) : u.visits ⊆ t.visits := by
  cases t with
  | array item =>
    obtain rfl := List.mem_singleton.mp h
    simp [Ty.visits]
  | tuple items =>
    intro v hv
    rw [Ty.visits, Ty.visitsList_eq]
    exact List.mem_cons_of_mem _ (List.mem_flatMap.mpr ⟨u, h, hv⟩)
  | operation input output cs =>
    simp only [Ty.parts, List.mem_cons, List.not_mem_nil, or_false] at h
    rcases h with rfl | rfl <;> intro v hv <;> simp [Ty.visits, hv]
  | function input output =>
    simp only [Ty.parts, List.mem_cons, List.not_mem_nil, or_false] at h
    rcases h with rfl | rfl <;> intro v hv <;> simp [Ty.visits, hv]
  | _ => cases h

/-- The names met while a tree is visited. -/
def Visit.collect (visits : List Visit) : List String := visits.flatMap Visit.names

@[simp] theorem Visit.collect_cons (v : Visit) (vs : List Visit) :
    collect (v :: vs) = v.names ++ collect vs := List.flatMap_cons

@[simp] theorem Visit.collect_append (vs ws : List Visit) :
    collect (vs ++ ws) = collect vs ++ collect ws := List.flatMap_append

@[simp] theorem Visit.names_callable (c : Callable) : (Visit.callable c).names = [] := rfl

@[simp] theorem Visit.names_statement (s : Statement) : (Visit.statement s).names = [] := rfl

@[simp] theorem Visit.names_scope (s : Scope) : (Visit.scope s).names = [] := rfl

theorem Visit.collect_subset {vs ws : List Visit} (h : vs ⊆ ws) : collect vs ⊆ collect ws := by
  intro n hn
  obtain ⟨v, hv, hn⟩ := List.mem_flatMap.mp hn
  exact List.mem_flatMap.mpr ⟨v, h hv, hn⟩

theorem Visit.mem_collect {n : String} {v : Visit} {vs : List Visit} (hv : v ∈ vs)
    (hn : n ∈ v.names) : n ∈ collect vs := List.mem_flatMap.mpr ⟨v, hv, hn⟩

theorem Ty.mem_names {n : String} {t : Ty} (h : t.Mentions n) : n ∈ Visit.collect t.visits := by
  induction h with
  | custom hq => exact Visit.mem_collect (List.mem_singleton_self _) (by simp [Visit.names, hq])
  | part hpart _ ih => exact Visit.collect_subset (Ty.visits_part hpart) ih

/-! ### Expressions -/

/-- The expressions that an expression is made of. -/
def ExprKind.parts : ExprKind → List Expr
  | .tuple items | .array items => items
  | .binary _ lhs rhs => [lhs, rhs]
  | .unary _ operand => [operand]
  | .item whole index => [whole, index]
  | .choice condition yes no => [condition, yes, no]
  | .call callee argument => [callee, argument]
  | .name _ _ | .unit | .int _ | .double _ | .bool _ | .string _ | .outcome _ => []
  | .missing | .invalid => []

/-- The types that are written or recorded at an expression itself. -/
def Expr.types (e : Expr) : List Ty :=
  (match e.kind with
    | .name _ (some arguments) => arguments
    | _ => [])
    ++ e.info.resolutions.map (·.ty) ++ [e.info.ty]

/-- An expression refers to a variable, a callable or a type called `n`. -/
inductive Expr.Mentions (n : String) : Expr → Prop where
  | ofVariable {arguments : Option (List Ty)} {info : ExprInfo} :
    Expr.Mentions n ⟨.name (.ofVariable n) arguments, info⟩
  | ofCallable {q : QualifiedName} {arguments : Option (List Ty)} {info : ExprInfo} :
    q.name = n → Expr.Mentions n ⟨.name (.ofCallable q) arguments, info⟩
  | resolution {e : Expr} {r : Resolution} :
    r ∈ e.info.resolutions → r.callable.name = n → e.Mentions n
  | type {e : Expr} {t : Ty} : t ∈ e.types → t.Mentions n → e.Mentions n
  | part {e f : Expr} : f ∈ e.kind.parts → f.Mentions n → e.Mentions n

theorem Expr.visitsList_eq (es : List Expr) : Expr.visitsList es = es.flatMap Expr.visits := by
  induction es with
  | nil => rfl
  | cons e es ih => simp only [Expr.visitsList, List.flatMap_cons, ih]

theorem Expr.visits_eq (e : Expr) :
    e.visits = .expression e :: (e.kind.visits ++ e.info.visits) := by
  cases e
  rfl

theorem Expr.visits_part {e f : Expr} (h : f ∈ e.kind.parts) : f.visits ⊆ e.visits := by
  obtain ⟨kind, info⟩ := e
  have hkind : f.visits ⊆ kind.visits := by
    change f ∈ kind.parts at h
    intro v hv
    cases kind with
    | tuple items | array items =>
      rw [ExprKind.visits, Expr.visitsList_eq]
      exact List.mem_flatMap.mpr ⟨f, h, hv⟩
    | binary op lhs rhs =>
      simp only [ExprKind.parts, List.mem_cons, List.not_mem_nil, or_false] at h
      rcases h with rfl | rfl <;> simp [ExprKind.visits, hv]
    | unary op operand =>
      obtain rfl := List.mem_singleton.mp h
      exact hv
    | item array index =>
      simp only [ExprKind.parts, List.mem_cons, List.not_mem_nil, or_false] at h
      rcases h with rfl | rfl <;> simp [ExprKind.visits, hv]
    | choice condition yes no =>
      simp only [ExprKind.parts, List.mem_cons, List.not_mem_nil, or_false] at h
      rcases h with rfl | rfl | rfl <;> simp [ExprKind.visits, hv]
    | call callee argument =>
      simp only [ExprKind.parts, List.mem_cons, List.not_mem_nil, or_false] at h
      rcases h with rfl | rfl <;> simp [ExprKind.visits, hv]
    | _ => cases h
  intro v hv
  simp [Expr.visits, hkind hv]

theorem Expr.visits_type {e : Expr} {t : Ty} (h : t ∈ e.types) : t.visits ⊆ e.visits := by
  obtain ⟨kind, info⟩ := e
  intro v hv
  simp only [Expr.types, List.mem_append, List.mem_map, List.mem_singleton] at h
  rw [Expr.visits]
  rcases h with (h | ⟨r, hr, rfl⟩) | rfl
  · have hkind : v ∈ kind.visits := by
      cases kind with
      | name id arguments =>
        cases arguments with
        | none => cases h
        | some arguments =>
          rw [ExprKind.visits, Ty.visitsList_eq]
          exact List.mem_flatMap.mpr ⟨t, h, hv⟩
      | _ => cases h
    simp [hkind]
  · have hinfo : v ∈ info.visits :=
      List.mem_append_left _ (List.mem_flatMap.mpr ⟨r, hr, hv⟩)
    simp [hinfo]
  · have hinfo : v ∈ info.visits := List.mem_append_right _ hv
    simp [hinfo]

theorem Expr.mem_names {n : String} {e : Expr} (h : e.Mentions n) :
    n ∈ Visit.collect e.visits := by
  induction h with
  | ofVariable => exact Visit.mem_collect (List.mem_cons_self ..) (by simp [Visit.names])
  | ofCallable hq => exact Visit.mem_collect (List.mem_cons_self ..) (by simp [Visit.names, hq])
  | @resolution e r hr hn =>
    rw [Expr.visits_eq]
    refine Visit.mem_collect (List.mem_cons_self ..) (List.mem_append_right _ ?_)
    exact List.mem_map.mpr ⟨r, hr, hn⟩
  | type ht hn => exact Visit.collect_subset (Expr.visits_type ht) (Ty.mem_names hn)
  | part hf _ ih => exact Visit.collect_subset (Expr.visits_part hf) ih

/-! ### Statements -/

mutual
/-- The names that the left side of a binding introduces. -/
def SymbolTuple.names : SymbolTuple → List String
  | .name n => [n]
  | .tuple items => SymbolTuple.namesList items
  | .discard | .invalid => []
def SymbolTuple.namesList : List SymbolTuple → List String
  | [] => []
  | s :: ss => s.names ++ SymbolTuple.namesList ss
end

mutual
/-- The sizes of the registers that are asked for. -/
def QubitInit.sizes : QubitInit → List Expr
  | .single => []
  | .register size => [size]
  | .tuple items => QubitInit.sizesList items
def QubitInit.sizesList : List QubitInit → List Expr
  | [] => []
  | q :: qs => q.sizes ++ QubitInit.sizesList qs
end

def Variable.Mentions (n : String) (v : Variable) : Prop := v.name = n ∨ v.ty.Mentions n

namespace StatementKind

/-- The names that a statement introduces, for itself or for what follows. -/
def symbols : StatementKind → List String
  | .binding b => b.lhs.names
  | .forEach symbols _ _ _ => symbols.names
  | .qubits _ b _ => b.lhs.names
  | .expression _ | .returns _ | .fails _ | .update _ _ => []
  | .conditional _ | .whileLoop _ _ | .repeatUntil _ _ _ => []

/-- The expressions that stand in a statement and in no block of it. -/
def expressions : StatementKind → List Expr
  | .expression e | .returns e | .fails e => [e]
  | .binding b => [b.rhs]
  | .update lhs rhs => [lhs, rhs]
  | .conditional branches => branches.arms.map (·.1)
  | .forEach _ _ iterable _ => [iterable]
  | .whileLoop condition _ => [condition]
  | .repeatUntil _ success _ => [success]
  | .qubits _ b _ => b.rhs.sizes

/-- The types that a statement gives, besides those of its expressions. -/
def types : StatementKind → List Ty
  | .forEach _ itemTy _ _ => [itemTy]
  | .expression _ | .returns _ | .fails _ | .binding _ | .update _ _ => []
  | .conditional _ | .whileLoop _ _ | .repeatUntil _ _ _ | .qubits _ _ _ => []

/-- The blocks of a statement. -/
def scopes : StatementKind → List Scope
  | .conditional branches =>
    branches.arms.map (·.2.body) ++ (branches.default?.map (·.body)).toList
  | .forEach _ _ _ body | .whileLoop _ body | .qubits _ _ body => [body]
  | .repeatUntil block _ fixup => [block.body, fixup.body]
  | .expression _ | .returns _ | .fails _ | .binding _ | .update _ _ => []

end StatementKind

/-- Somewhere in a scope a name is declared, introduced or referred to. -/
inductive Scope.Mentions (n : String) : Scope → Prop where
  | known {s : Scope} {v : Variable} : v ∈ s.known → v.Mentions n → s.Mentions n
  | declared {s : Scope} {t : Statement} {v : Variable} :
    t ∈ s.statements → v ∈ t.info.declarations → v.Mentions n → s.Mentions n
  | symbol {s : Scope} {t : Statement} : t ∈ s.statements → n ∈ t.kind.symbols → s.Mentions n
  | type {s : Scope} {t : Statement} {ty : Ty} :
    t ∈ s.statements → ty ∈ t.kind.types → ty.Mentions n → s.Mentions n
  | expression {s : Scope} {t : Statement} {e : Expr} :
    t ∈ s.statements → e ∈ t.kind.expressions → e.Mentions n → s.Mentions n
  | inner {s u : Scope} {t : Statement} :
    t ∈ s.statements → u ∈ t.kind.scopes → u.Mentions n → s.Mentions n

mutual
theorem SymbolTuple.visits_eq : (s : SymbolTuple) → s.visits = s.names.map Visit.localName
  | .name _ => rfl
  | .tuple items => SymbolTuple.visitsList_eq items
  | .discard => rfl
  | .invalid => rfl
theorem SymbolTuple.visitsList_eq :
    (ss : List SymbolTuple) → SymbolTuple.visitsList ss = (SymbolTuple.namesList ss).map Visit.localName
  | [] => rfl
  | s :: ss => by
    rw [SymbolTuple.visitsList, SymbolTuple.namesList, List.map_append, s.visits_eq,
      SymbolTuple.visitsList_eq ss]
end

mutual
theorem QubitInit.visits_eq : (q : QubitInit) → q.visits = q.sizes.flatMap Expr.visits
  | .single => rfl
  | .register size => (List.append_nil size.visits).symm
  | .tuple items => QubitInit.visitsList_eq items
theorem QubitInit.visitsList_eq :
    (qs : List QubitInit) → QubitInit.visitsList qs = (QubitInit.sizesList qs).flatMap Expr.visits
  | [] => rfl
  | q :: qs => by
    rw [QubitInit.visitsList, QubitInit.sizesList, List.flatMap_append, q.visits_eq,
      QubitInit.visitsList_eq qs]
end

theorem Block.visits_eq (b : Block) : b.visits = b.body.visits := by
  cases b
  rfl

theorem Branches.visits_arm {a : Expr × Block} :
    {b : Branches} → a ∈ b.arms → a.1.visits ++ a.2.body.visits ⊆ b.visits
  | .arm c block rest, h => by
    rw [Branches.visits, block.visits_eq]
    obtain rfl | h := List.mem_cons.mp h
    · intro v hv
      obtain hv | hv := List.mem_append.mp hv <;> simp [hv]
    · intro v hv
      simp [Branches.visits_arm h hv]

theorem Branches.visits_default {d : Block} :
    {b : Branches} → b.default? = some d → d.body.visits ⊆ b.visits
  | .otherwise block, h => by
    obtain rfl := Option.some.inj h
    rw [Branches.visits, block.visits_eq]
    exact List.Subset.refl _
  | .arm c block rest, h => by
    intro v hv
    simp [Branches.visits, Branches.visits_default (b := rest) h hv]

namespace StatementKind

theorem visits_symbol {k : StatementKind} {n : String} (h : n ∈ k.symbols) :
    Visit.localName n ∈ k.visits := by
  cases k with
  | binding b => simpa [visits, SymbolTuple.visits_eq] using .inl h
  | forEach symbols itemTy iterable body => simpa [visits, SymbolTuple.visits_eq] using .inl h
  | qubits kind b body => simpa [visits, SymbolTuple.visits_eq] using .inl h
  | _ => cases h

theorem visits_type {k : StatementKind} {t : Ty} (h : t ∈ k.types) : t.visits ⊆ k.visits := by
  cases k with
  | forEach symbols itemTy iterable body =>
    obtain rfl := List.mem_singleton.mp h
    intro v hv
    simp [visits, hv]
  | _ => cases h

theorem visits_expression {k : StatementKind} {e : Expr} (h : e ∈ k.expressions) :
    e.visits ⊆ k.visits := by
  intro v hv
  cases k with
  | expression f | returns f | fails f =>
    obtain rfl := List.mem_singleton.mp h
    exact hv
  | binding b =>
    obtain rfl := List.mem_singleton.mp h
    simp [visits, hv]
  | update lhs rhs =>
    simp only [expressions, List.mem_cons, List.not_mem_nil, or_false] at h
    rcases h with rfl | rfl <;> simp [visits, hv]
  | conditional branches =>
    obtain ⟨a, ha, rfl⟩ := List.mem_map.mp h
    exact Branches.visits_arm ha (List.mem_append_left _ hv)
  | forEach symbols itemTy iterable body =>
    obtain rfl := List.mem_singleton.mp h
    simp [visits, hv]
  | whileLoop condition body =>
    obtain rfl := List.mem_singleton.mp h
    simp [visits, hv]
  | repeatUntil block success fixup =>
    obtain rfl := List.mem_singleton.mp h
    simp [visits, hv]
  | qubits kind b body =>
    have hsize : v ∈ b.rhs.visits := by
      rw [QubitInit.visits_eq]
      exact List.mem_flatMap.mpr ⟨e, h, hv⟩
    simp [visits, hsize]

theorem visits_scope {k : StatementKind} {s : Scope} (h : s ∈ k.scopes) :
    s.visits ⊆ k.visits := by
  intro v hv
  cases k with
  | conditional branches =>
    obtain h | h := List.mem_append.mp h
    · obtain ⟨a, ha, rfl⟩ := List.mem_map.mp h
      exact Branches.visits_arm ha (List.mem_append_right _ hv)
    · obtain ⟨d, hd, rfl⟩ := Option.map_eq_some_iff.mp (Option.mem_toList.mp h)
      exact Branches.visits_default hd hv
  | forEach symbols itemTy iterable body =>
    obtain rfl := List.mem_singleton.mp h
    simp [visits, hv]
  | whileLoop condition body =>
    obtain rfl := List.mem_singleton.mp h
    simp [visits, hv]
  | repeatUntil block success fixup =>
    simp only [scopes, List.mem_cons, List.not_mem_nil, or_false] at h
    rcases h with rfl | rfl <;> simp [visits, Block.visits_eq, hv]
  | qubits kind b body =>
    obtain rfl := List.mem_singleton.mp h
    simp [visits, hv]
  | _ => cases h

end StatementKind

theorem Variable.mem_names {n : String} {v : Variable} (h : v.Mentions n) :
    n ∈ Visit.collect (Variable.visits v) := by
  obtain rfl | h := h
  · exact Visit.mem_collect (List.mem_cons_self ..) (List.mem_singleton_self _)
  · exact Visit.collect_subset (List.subset_cons_self ..) (Ty.mem_names h)

theorem Statement.visitsList_eq (ss : List Statement) :
    Statement.visitsList ss = ss.flatMap Statement.visits := by
  induction ss with
  | nil => rfl
  | cons s ss ih => simp only [Statement.visitsList, List.flatMap_cons, ih]

theorem Scope.visits_known {s : Scope} {v : Variable} (h : v ∈ s.known) :
    Variable.visits v ⊆ s.visits := by
  obtain ⟨statements, known⟩ := s
  intro w hw
  rw [Scope.visits]
  exact List.mem_cons_of_mem _ (List.mem_append_left _ (List.mem_flatMap.mpr ⟨v, h, hw⟩))

/-- What a statement declares, and its parts. -/
theorem Scope.visits_statement {s : Scope} {t : Statement} (h : t ∈ s.statements) :
    t.info.declarations.flatMap Variable.visits ++ t.kind.visits ⊆ s.visits := by
  obtain ⟨statements, known⟩ := s
  obtain ⟨kind, info⟩ := t
  intro w hw
  rw [Scope.visits, Statement.visitsList_eq]
  refine List.mem_cons_of_mem _ (List.mem_append_right _ (List.mem_flatMap.mpr ⟨_, h, ?_⟩))
  rw [Statement.visits]
  exact List.mem_cons_of_mem _ hw

theorem Scope.visits_kind {s : Scope} {t : Statement} (h : t ∈ s.statements) :
    t.kind.visits ⊆ s.visits :=
  List.Subset.trans (List.subset_append_right ..) (Scope.visits_statement h)

theorem Scope.mem_names {n : String} {s : Scope} (h : s.Mentions n) :
    n ∈ Visit.collect s.visits := by
  induction h with
  | known hv hn => exact Visit.collect_subset (Scope.visits_known hv) (Variable.mem_names hn)
  | @declared s t v ht hv hn =>
    refine Visit.collect_subset ?_ (Variable.mem_names hn)
    intro w hw
    exact Scope.visits_statement ht (List.mem_append_left _ (List.mem_flatMap.mpr ⟨v, hv, hw⟩))
  | symbol ht hn =>
    exact Visit.mem_collect (Scope.visits_kind ht (StatementKind.visits_symbol hn))
      (List.mem_singleton_self _)
  | type ht hty hn =>
    exact Visit.collect_subset
      (List.Subset.trans (StatementKind.visits_type hty) (Scope.visits_kind ht)) (Ty.mem_names hn)
  | expression ht he hn =>
    exact Visit.collect_subset
      (List.Subset.trans (StatementKind.visits_expression he) (Scope.visits_kind ht))
      (Expr.mem_names hn)
  | inner ht hu _ ih =>
    exact Visit.collect_subset
      (List.Subset.trans (StatementKind.visits_scope hu) (Scope.visits_kind ht)) ih

/-! ### Callables -/

mutual
/-- The names that parameters introduce. -/
def Params.names : Params → List String
  | .item d => d.name.name?.toList
  | .tuple items => Params.namesList items
def Params.namesList : List Params → List String
  | [] => []
  | p :: ps => p.names ++ Params.namesList ps
end

mutual
def Params.types : Params → List Ty
  | .item d => [d.ty]
  | .tuple items => Params.typesList items
def Params.typesList : List Params → List Ty
  | [] => []
  | p :: ps => p.types ++ Params.typesList ps
end

def Params.Mentions (n : String) (ps : Params) : Prop :=
  n ∈ ps.names ∨ ∃ t ∈ ps.types, t.Mentions n

def Signature.Mentions (n : String) (s : Signature) : Prop :=
  s.argument.Mentions n ∨ s.result.Mentions n

/-- A specialization of any kind mentions a name. -/
inductive Specialization.Mentions (n : String) (s : Specialization) : Prop where
  | typeArgument {ts : List Ty} {t : Ty} :
    s.typeArguments = some ts → t ∈ ts → t.Mentions n → s.Mentions n
  | signature : s.signature.Mentions n → s.Mentions n
  | params {ps : Params} {scope : Scope} :
    s.implementation = .provided ps scope → ps.Mentions n → s.Mentions n
  | scope {ps : Params} {scope : Scope} :
    s.implementation = .provided ps scope → scope.Mentions n → s.Mentions n

inductive Callable.Mentions (n : String) (c : Callable) : Prop where
  | name : c.name.name = n → c.Mentions n
  | signature : c.signature.Mentions n → c.Mentions n
  | params : c.params.Mentions n → c.Mentions n
  | specialization {s : Specialization} : s ∈ c.specializations → s.Mentions n → c.Mentions n

def CustomType.Mentions (n : String) (t : CustomType) : Prop :=
  t.name.name = n ∨ t.underlying.Mentions n

/-- A program declares something called `n` or refers to it. -/
inductive Compilation.Mentions (n : String) (c : Compilation) : Prop where
  | callable {ns : Namespace} {d : Callable} :
    ns ∈ c.namespaces → .callable d ∈ ns.elements → d.Mentions n → c.Mentions n
  | customType {ns : Namespace} {t : CustomType} :
    ns ∈ c.namespaces → .customType t ∈ ns.elements → t.Mentions n → c.Mentions n
  | entryPoint {q : QualifiedName} : q ∈ c.entryPoints → q.name = n → c.Mentions n

mutual
theorem Params.visits_name {n : String} :
    {ps : Params} → n ∈ ps.names → Visit.localName n ∈ ps.visits
  | .item d, h => List.mem_append_left _ (by
      rw [Params.names] at h
      cases hd : d.name.name? <;> simp_all)
  | .tuple _, h => Params.visitsList_name h
theorem Params.visitsList_name {n : String} :
    {ps : List Params} → n ∈ Params.namesList ps → Visit.localName n ∈ Params.visitsList ps
  | _ :: _, h => List.mem_append.mpr
      ((List.mem_append.mp h).imp Params.visits_name Params.visitsList_name)
end

mutual
theorem Params.visits_type {t : Ty} :
    {ps : Params} → t ∈ ps.types → t.visits ⊆ ps.visits
  | .item d, h => by
    obtain rfl := List.mem_singleton.mp h
    exact List.subset_append_right ..
  | .tuple _, h => Params.visitsList_type h
theorem Params.visitsList_type {t : Ty} :
    {ps : List Params} → t ∈ Params.typesList ps → t.visits ⊆ Params.visitsList ps
  | _ :: _, h, _, hv => List.mem_append.mpr
      ((List.mem_append.mp h).imp (Params.visits_type · hv) (Params.visitsList_type · hv))
end

theorem Params.mem_names {n : String} {ps : Params} (h : ps.Mentions n) :
    n ∈ Visit.collect ps.visits := by
  obtain h | ⟨t, ht, hn⟩ := h
  · exact Visit.mem_collect (Params.visits_name h) (List.mem_singleton_self _)
  · exact Visit.collect_subset (Params.visits_type ht) (Ty.mem_names hn)

theorem Signature.mem_names {n : String} {s : Signature} (h : s.Mentions n) :
    n ∈ Visit.collect s.visits := by
  obtain h | h := h
  · exact Visit.collect_subset (List.subset_append_left ..) (Ty.mem_names h)
  · exact Visit.collect_subset (List.subset_append_right ..) (Ty.mem_names h)

theorem Specialization.mem_names {n : String} {s : Specialization} (h : s.Mentions n) :
    n ∈ Visit.collect s.visits := by
  unfold Specialization.visits
  cases h with
  | @typeArgument ts t hts ht hn =>
    refine Visit.collect_subset (fun v hv => ?_) (Ty.mem_names hn)
    have hv : v ∈ Ty.visitsList (s.typeArguments.getD []) := by
      rw [hts, Option.getD_some, Ty.visitsList_eq]
      exact List.mem_flatMap.mpr ⟨t, ht, hv⟩
    exact List.mem_append_left _ (List.mem_append_left _ hv)
  | signature hn =>
    exact Visit.collect_subset
      (fun v hv => List.mem_append_left _ (List.mem_append_right _ hv)) (Signature.mem_names hn)
  | params himpl hn =>
    rw [himpl]
    exact Visit.collect_subset
      (fun v hv => List.mem_append_right _ (List.mem_append_left _ hv)) (Params.mem_names hn)
  | scope himpl hn =>
    rw [himpl]
    exact Visit.collect_subset
      (fun v hv => List.mem_append_right _ (List.mem_append_right _ hv)) (Scope.mem_names hn)

theorem Callable.mem_names {n : String} {c : Callable} (h : c.Mentions n) :
    n ∈ (Element.callable c).names := by
  change n ∈ c.name.name :: Visit.collect (_ :: (_ ++ _ ++ _))
  cases h with
  | name hn => exact hn ▸ List.mem_cons_self ..
  | signature hn =>
    refine List.mem_cons_of_mem _ (Visit.collect_subset (fun v hv => ?_) (Signature.mem_names hn))
    simp [hv]
  | params hn =>
    refine List.mem_cons_of_mem _ (Visit.collect_subset (fun v hv => ?_) (Params.mem_names hn))
    simp [hv]
  | @specialization s hs hn =>
    refine List.mem_cons_of_mem _
      (Visit.collect_subset (fun v hv => ?_) (Specialization.mem_names hn))
    exact List.mem_cons_of_mem _ (List.mem_append_right _ (List.mem_flatMap.mpr ⟨s, hs, hv⟩))

/-- **The visit misses no name.** -/
theorem Compilation.mem_names {n : String} {c : Compilation} (h : c.Mentions n) : n ∈ c.names := by
  have helement : ∀ ns ∈ c.namespaces, ∀ e ∈ ns.elements, n ∈ e.names → n ∈ c.names :=
    fun ns hns e he hn => List.mem_append_left _
      (List.mem_flatMap.mpr ⟨ns, hns, List.mem_flatMap.mpr ⟨e, he, hn⟩⟩)
  cases h with
  | callable hns he hn => exact helement _ hns _ he (Callable.mem_names hn)
  | customType hns he hn =>
    refine helement _ hns _ he ?_
    obtain rfl | hn := hn
    · exact List.mem_cons_self ..
    · exact List.mem_cons_of_mem _ (Ty.mem_names hn)
  | @entryPoint q hq hn => exact List.mem_append_right _ (List.mem_map.mpr ⟨q, hq, hn⟩)

end OutcomeControl
