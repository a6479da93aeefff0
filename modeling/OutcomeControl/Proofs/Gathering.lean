import Mathlib.Data.List.Basic
import OutcomeControl.Proofs.Parameters

/-! Following the nodes of a body through the pass.

A proof that follows certain nodes (`g`) says how those of a body relate to those of what takes its
place: `R xs p ys q`. What it owes is listed in `Gathers`, and most of it is about one block that is
moved out. That it then holds of every body is proved here once (`Gathers.scope`). -/

namespace OutcomeControl

/-! ### Nodes that stand in expressions and in statements without blocks -/

/-- What is looked for stands in expressions and in statements without blocks. -/
structure Visit.Content {α : Type} (g : Visit → Option α) : Prop where
  callable : ∀ c, g (.callable c) = none
  scope : ∀ s, g (.scope s) = none
  compound : ∀ s : Statement, ¬ s.kind.IsLeaf → g (.statement s) = none
  type : ∀ t, g (.type t) = none
  localName : ∀ n, g (.localName n) = none

namespace Visit.Content
variable {α : Type} {g : Visit → Option α} (h : Visit.Content g)
include h

theorem tys (ts : List Ty) : (Ty.visitsList ts).filterMap g = [] := by
  refine List.filterMap_eq_nil_iff.mpr fun v hv => ?_
  obtain ⟨u, rfl⟩ := Ty.of_mem_visitsList hv
  exact h.type u

theorem ty (t : Ty) : t.visits.filterMap g = [] := by
  simpa [Ty.visitsList] using h.tys [t]

theorem known (vs : List Variable) : (vs.flatMap Variable.visits).filterMap g = [] := by
  induction vs with
  | nil => rfl
  | cons v vs ih =>
    rw [List.flatMap_cons, List.filterMap_append, ih, List.append_nil, Variable.visits,
      List.filterMap_cons_none (h.localName _), h.ty]

theorem symbols (s : SymbolTuple) : s.visits.filterMap g = [] := by
  rw [SymbolTuple.visits_eq, List.filterMap_map]
  exact List.filterMap_eq_nil_iff.mpr fun n _ => h.localName n

theorem params (ps : Params) : ps.visits.filterMap g = [] := by
  refine List.filterMap_eq_nil_iff.mpr fun v hv => ?_
  obtain ⟨n, rfl⟩ | ⟨u, rfl⟩ := Params.of_mem_visits hv
  · exact h.localName n
  · exact h.type u

theorem body (s : Scope) :
    s.visits.filterMap g = (Statement.visitsList s.statements).filterMap g := by
  obtain ⟨statements, known⟩ := s
  rw [Scope.visits, List.filterMap_cons_none (h.scope _), List.filterMap_append, h.known,
    List.nil_append]

theorem block (b : Block) :
    b.visits.filterMap g = (Statement.visitsList b.body.statements).filterMap g := by
  rw [b.visits_eq, h.body]

theorem parts (k : ExprKind) :
    k.visits.filterMap g = k.parts.flatMap (·.visits.filterMap g) := by
  cases k with
  | name id arguments => exact h.tys _
  | tuple items | array items =>
    rw [ExprKind.visits, Expr.visitsList_eq, List.filterMap_flatMap]
    rfl
  | _ => simp [ExprKind.visits, ExprKind.parts]

/-- An expression is looked at itself, and then its parts are. -/
theorem expression (e : Expr) :
    e.visits.filterMap g =
      (g (.expression e)).toList ++ e.kind.parts.flatMap (·.visits.filterMap g) := by
  have hinfo : e.info.visits.filterMap g = [] := by
    refine List.filterMap_eq_nil_iff.mpr fun v hv => ?_
    obtain ⟨t, rfl⟩ := ExprInfo.of_mem_visits hv
    exact h.type t
  rw [Expr.visits_eq, List.filterMap_cons, List.filterMap_append, hinfo, List.append_nil, h.parts]
  cases g (.expression e) <;> rfl

theorem statementParts {kind : StatementKind} {info : StatementInfo}
    (hnone : g (.statement ⟨kind, info⟩) = none) :
    (Statement.visits ⟨kind, info⟩).filterMap g = kind.visits.filterMap g := by
  rw [Statement.visits, List.filterMap_cons_none hnone, List.filterMap_append, h.known,
    List.nil_append]

theorem statement {kind : StatementKind} (hkind : ¬ kind.IsLeaf) (info : StatementInfo) :
    (Statement.visits ⟨kind, info⟩).filterMap g = kind.visits.filterMap g :=
  h.statementParts (h.compound _ hkind)

theorem forEach (symbols : SymbolTuple) (itemTy : Ty) (iterable : Expr) (body : Scope)
    (info : StatementInfo) :
    (Statement.visits ⟨.forEach symbols itemTy iterable body, info⟩).filterMap g =
      iterable.visits.filterMap g ++ (Statement.visitsList body.statements).filterMap g := by
  rw [h.statement id, StatementKind.visits]
  simp only [List.filterMap_append, h.symbols, h.ty, h.body, List.nil_append]

theorem whileLoop (condition : Expr) (body : Scope) (info : StatementInfo) :
    (Statement.visits ⟨.whileLoop condition body, info⟩).filterMap g =
      condition.visits.filterMap g ++ (Statement.visitsList body.statements).filterMap g := by
  rw [h.statement id, StatementKind.visits, List.filterMap_append, h.body]

theorem repeatUntil (block fixup : Block) (success : Expr) (info : StatementInfo) :
    (Statement.visits ⟨.repeatUntil block success fixup, info⟩).filterMap g =
      (Statement.visitsList block.body.statements).filterMap g ++
        (success.visits.filterMap g ++ (Statement.visitsList fixup.body.statements).filterMap g) := by
  rw [h.statement id, StatementKind.visits, List.filterMap_append, List.filterMap_append, h.block,
    h.block]

theorem qubits (kind : QubitScopeKind) (binding : Binding QubitInit) (body : Scope)
    (info : StatementInfo) :
    (Statement.visits ⟨.qubits kind binding body, info⟩).filterMap g =
      binding.rhs.visits.filterMap g ++ (Statement.visitsList body.statements).filterMap g := by
  rw [h.statement id, StatementKind.visits]
  simp only [List.filterMap_append, h.symbols, h.body, List.nil_append]

theorem arm (condition : Expr) (block : Block) (rest : Branches) :
    (Branches.arm condition block rest).visits.filterMap g =
      condition.visits.filterMap g ++
        ((Statement.visitsList block.body.statements).filterMap g ++ rest.visits.filterMap g) := by
  rw [Branches.visits, List.filterMap_append, List.filterMap_append, h.block]

theorem signature (s : Signature) : s.visits.filterMap g = [] := by
  rw [Signature.visits, List.filterMap_append, h.ty, h.ty, List.append_nil]

/-- Of a body with statements only these are looked at. -/
theorem specialization {s : Specialization} {ps : Params} {scope : Scope}
    (himpl : s.implementation = .provided ps scope) :
    s.visits.filterMap g = scope.visits.filterMap g := by
  simp only [Specialization.visits, himpl, Implementation.visits, List.filterMap_append, h.tys,
    h.signature, h.params, List.nil_append]

theorem callables (c : Callable) :
    c.visits.filterMap g = c.specializations.flatMap (·.visits.filterMap g) := by
  rw [Callable.visits, List.filterMap_cons_none (h.callable c), List.filterMap_append,
    List.filterMap_append, h.signature, h.params, List.nil_append, List.nil_append,
    List.filterMap_flatMap]

/-- Of an operation that a block was moved to, the block is looked at. -/
theorem operation {F : α → α} {f : TypeParameter → TypeParameter}
    (hmap : ∀ v : Visit, g (v.mapParameters f) = (g v).map F) (frame : Frame) (name : QualifiedName)
    (body : Scope) (comments : Comments) :
    ((frame.operation name body comments).mapParameters f).visits.filterMap g =
      (body.visits.filterMap g).map F := by
  have hoperation : (frame.operation name body comments).visits.filterMap g =
      body.visits.filterMap g := by
    rw [h.callables]
    exact (List.append_nil _).trans (h.specialization rfl)
  rw [Callable.visits_mapParameters, List.filterMap_map, ← hoperation, List.map_filterMap]
  exact congrArg (List.filterMap · _) (funext hmap)

end Visit.Content

/-- Nothing is looked for in names of variables, tuples and the unit value. -/
structure Visit.Generated {α : Type} (g : Visit → Option α) : Prop where
  localName : ∀ name ty, g (.expression (.localName name ty)) = none
  tuple : ∀ items, g (.expression (.tuple items)) = none
  unit : g (.expression .unit) = none

namespace Visit.Content
variable {α : Type} {g : Visit → Option α} (h : Visit.Content g) (hgenerated : Visit.Generated g)
include h hgenerated

theorem variableName (name : String) (ty : Ty) : (Expr.localName name ty).visits.filterMap g = [] := by
  rw [h.expression, hgenerated.localName]
  rfl

theorem pair (a b : Expr) :
    (Expr.tuple [a, b]).visits.filterMap g = a.visits.filterMap g ++ b.visits.filterMap g := by
  rw [h.expression, hgenerated.tuple]
  change [] ++ (a.visits.filterMap g ++ (b.visits.filterMap g ++ [])) = _
  rw [List.nil_append, List.append_nil]

theorem captured (captured : List Variable) : (capturedValues captured).visits.filterMap g = [] := by
  cases captured with
  | nil =>
    rw [h.expression, capturedValues, hgenerated.unit]
    rfl
  | cons v vs =>
    change (Expr.tuple ((v :: vs).map fun v => .localName v.name v.ty)).visits.filterMap g = []
    rw [h.expression, hgenerated.tuple]
    refine List.flatMap_eq_nil_iff.mpr fun e he => ?_
    obtain ⟨w, -, rfl⟩ := List.mem_map.mp he
    exact h.variableName hgenerated w.name w.ty

/-- Besides a call of a primitive itself its callee, the condition and the operation are looked at. -/
theorem controlCall (p : Primitive) (condition : Expr) (target : Target) (captured : List Variable)
    (frame : Frame) :
    (p.controlCall condition target captured frame).visits.filterMap g =
      (g (.expression (p.controlCall condition target captured frame))).toList ++
        ((g (.expression (.globalName p.name none p.controlTy))).toList ++
          (condition.visits.filterMap g ++ (g (.expression (target.reference frame))).toList)) := by
  have hcallee : (Expr.globalName p.name none p.controlTy).visits.filterMap g =
      (g (.expression (.globalName p.name none p.controlTy))).toList ++ [] := h.expression _
  have htarget : (target.reference frame).visits.filterMap g =
      (g (.expression (target.reference frame))).toList ++ [] := h.expression _
  rw [h.expression]
  change _ ++ (List.filterMap g (Expr.visits (.globalName p.name none p.controlTy)) ++
    (List.filterMap g (Expr.visits (.tuple [condition, .tuple [target.reference frame,
      capturedValues captured]])) ++ [])) = _
  rw [hcallee, h.pair hgenerated, h.pair hgenerated, htarget, h.captured hgenerated]
  simp only [List.append_nil]

end Visit.Content

theorem Visit.filterMap_leaf? {vs : List Visit} (h : ∀ t, .statement t ∉ vs) :
    vs.filterMap Visit.leaf? = [] := by
  refine List.filterMap_eq_nil_iff.mpr fun v hv => ?_
  cases v with
  | statement s => exact absurd hv (h s)
  | _ => rfl

theorem Visit.content_leaf? : Visit.Content Visit.leaf? where
  callable _ := rfl
  scope _ := rfl
  compound s h := by simp [Visit.leaf?, Visit.statement?, h]
  type _ := rfl
  localName _ := rfl

theorem Statement.filterMap_leaf? {s : Statement} (h : s.kind.IsLeaf) :
    s.visits.filterMap Visit.leaf? = [s] := by
  obtain ⟨kind, info⟩ := s
  have hparts : ∀ t, .statement t ∉ info.declarations.flatMap Variable.visits ++ kind.visits := by
    intro t
    rw [List.mem_append, not_or]
    refine ⟨Variable.statement_notMem_visits t _, ?_⟩
    cases kind with
    | expression e | returns e | fails e => exact e.statement_notMem_visits t
    | binding b =>
      simp [StatementKind.visits, SymbolTuple.statement_notMem_visits, Expr.statement_notMem_visits]
    | update lhs rhs => simp [StatementKind.visits, Expr.statement_notMem_visits]
    | _ => cases h
  have hhead : Visit.leaf? (.statement ⟨kind, info⟩) = some ⟨kind, info⟩ := by
    simp [Visit.leaf?, Visit.statement?, h]
  rw [Statement.visits, List.filterMap_cons_some hhead, Visit.filterMap_leaf? hparts]

theorem Statement.isLeaf_of_isUnitCall {s : Statement} (h : s.isUnitCall = true) :
    s.kind.IsLeaf := by
  obtain ⟨callee, argument, info, hkind⟩ := Statement.of_isUnitCall h
  rw [hkind]
  trivial

theorem Expr.visits_of_outcomeComparison {e operand : Expr} {o : Outcome}
    (h : e.outcomeComparison? = some (o, operand)) : operand.visits ⊆ e.visits := by
  refine Expr.visits_part ?_
  unfold Expr.outcomeComparison? at h
  split at h
  next lhs rhs heq =>
    rw [heq]
    split at h <;> cases h <;> simp [ExprKind.parts]
  next => cases h

theorem Chain.flatMap {α β γ : Type} {R : α → Progress → β → Progress → Prop}
    {S : List γ → Progress → List γ → Progress → Prop} {f : α → List γ} {g : β → List γ}
    {as : List α} {bs : List β} {p q : Progress} (h : Chain R as p bs q) (nil : ∀ p, S [] p [] p)
    (append : ∀ {xs xs' ys ys' p q r}, S xs p xs' q → S ys q ys' r → S (xs ++ ys) p (xs' ++ ys') r)
    (hR : ∀ a ∈ as, ∀ p b q, R a p b q → S (f a) p (g b) q) :
    S (as.flatMap f) p (bs.flatMap g) q := by
  induction h with
  | nil p => exact nil p
  | cons hab _ ih =>
    exact append (hR _ (List.mem_cons_self ..) _ _ _ hab)
      (ih fun a ha => hR a (List.mem_cons_of_mem _ ha))

/-! ### What a proof owes -/

/-- `R` relates what stands in a body to what stands in its place after the pass, where all nodes of
the body satisfy `N`. It is enough to know what becomes of a guard that goes, of a binding that is
added and of a block that is moved out. -/
structure Gathers {α : Type} (primitives : Primitives) (frame : Frame) (g : Visit → Option α)
    (R : List α → Progress → List α → Progress → Prop) (N : Visit → Prop) : Prop where
  content : Visit.Content g
  refl : ∀ xs p, R xs p xs p
  note : ∀ xs p event, event.Stays → R xs p xs { p with report := p.report ++ [event] }
  append : ∀ {xs xs' ys ys' p q r}, R xs p xs' q → R ys q ys' r → R (xs ++ ys) p (xs' ++ ys') r
  trans : ∀ {xs ys zs p q r}, R xs p ys q → R ys q zs r → R xs p zs r
  localName : ∀ name ty, ∀ v ∈ (Expr.localName name ty).visits, N v
  guard : ∀ (e : Expr) p, (∀ v ∈ e.visits, N v) → R (e.visits.filterMap g) p [] p
  binding : ∀ s (value : Expr) p, (∀ v ∈ value.visits, N v) →
    R [] p (((bindCondition s value).run p).1.1.visits.filterMap g) ((bindCondition s value).run p).2
  block : ∀ s outcome (condition : Expr) body p, (∀ v ∈ condition.visits, N v) →
    body.isCallSequence = true →
    R (body.visits.filterMap g) p
      (((applyBlock primitives frame s outcome condition body).run p).1.visits.filterMap g)
      ((applyBlock primitives frame s outcome condition body).run p).2

namespace Gathers
variable {α : Type} {primitives : Primitives} {frame : Frame} {g : Visit → Option α}
  {R : List α → Progress → List α → Progress → Prop} {N : Visit → Prop}
  (h : Gathers primitives frame g R N)
include h

theorem applyTest (s : Statement) (t : OutcomeTest) (p : Progress) (hsep : t.isSeparable = true)
    (hcondition : ∀ v ∈ t.condition.visits, N v) :
    R (t.bodies.flatMap (·.visits.filterMap g)) p
      ((Statement.visitsList ((applyTest primitives frame s t).run p).1).filterMap g)
      ((applyTest primitives frame s t).run p).2 := by
  obtain ⟨outcome, condition, body, default⟩ := t
  simp only [OutcomeTest.isSeparable, Bool.and_eq_true] at hsep
  have hyes := h.block s outcome condition body p hcondition hsep.1
  cases default with
  | none =>
    change R (_ ++ []) p ((_ ++ []).filterMap g) _
    rw [List.append_nil, List.append_nil]
    exact hyes
  | some other =>
    have hno := h.block s outcome.opposite condition other
      ((applyBlock primitives frame s outcome condition body).run p).2 hcondition hsep.2
    change R (_ ++ (_ ++ [])) p ((_ ++ (_ ++ [])).filterMap g) _
    rw [List.append_nil, List.append_nil, List.filterMap_append]
    exact h.append hyes hno

/-- What stands in a test stands in its guard or in its blocks. -/
theorem test {below : Branches} {info : StatementInfo} {t : OutcomeTest}
    (ht : Statement.outcomeTest? ⟨.conditional below, info⟩ = some t)
    (hguards : ∀ arm ∈ below.arms, ∀ v ∈ arm.1.visits, N v) :
    ∃ guard : Expr, (∀ v ∈ guard.visits, N v) ∧ (∀ v ∈ t.condition.visits, N v) ∧
      below.visits.filterMap g =
        guard.visits.filterMap g ++ t.bodies.flatMap (·.visits.filterMap g) := by
  obtain ⟨guard, block, rest, info', heq, harms, hguard, hbody, hdefault⟩ :=
    Statement.of_outcomeTest ht
  injection heq with heq
  injection heq with heq
  subst heq
  have hN : ∀ v ∈ guard.visits, N v := hguards (guard, block) (List.mem_cons_self ..)
  refine ⟨guard, hN, fun v hv => hN v (guard.visits_of_outcomeComparison hguard hv), ?_⟩
  rw [h.content.arm, OutcomeTest.bodies, List.flatMap_cons, hbody, hdefault, h.content.body]
  cases rest with
  | done => rfl
  | otherwise other =>
    change _ ++ (_ ++ other.visits.filterMap g) = _ ++ (_ ++ (other.body.visits.filterMap g ++ []))
    rw [other.visits_eq, List.append_nil]
  | arm c b r => simp [Branches.arms] at harms

/-- A conditional stays with all that stands in it; or its guard goes and its blocks are moved out,
where a condition that is more than a name is bound first. -/
theorem conclude (below : Branches) (info : StatementInfo) (p : Progress)
    (hguards : ∀ arm ∈ below.arms, ∀ v ∈ arm.1.visits, N v) :
    let out := (OutcomeControl.conclude primitives frame ⟨.conditional below, info⟩).run p
    R (below.visits.filterMap g) p ((Statement.visitsList out.1).filterMap g) out.2 := by
  intro out
  obtain ⟨event, hstays, heq, -⟩ | ⟨t, ht, hsep, -, heq⟩ | ⟨t, ht, hsep, -, heq⟩ :=
    conclude_cases primitives frame ⟨.conditional below, info⟩ p
  · have hstatement := h.content.statement (show ¬ StatementKind.IsLeaf (.conditional below) from id) info
    simp only [out, heq, Statement.visitsList_singleton, hstatement, StatementKind.visits]
    exact h.note _ p event hstays
  · obtain ⟨guard, hguard, hcondition, hbelow⟩ := h.test ht hguards
    simp only [out, heq, hbelow]
    exact h.append (h.guard guard p hguard) (h.applyTest _ t p hsep hcondition)
  · obtain ⟨guard, hguard, hcondition, hbelow⟩ := h.test ht hguards
    simp only [out, heq, hbelow, Statement.visitsList, List.filterMap_append]
    exact h.append (h.trans (h.guard guard p hguard) (h.binding _ t.condition p hcondition))
      (h.applyTest _ { t with condition := ((bindCondition _ t.condition).run p).1.2 } _ hsep
        (h.localName _ _))

/-- **What a proof owes for one block holds of every body.** -/
theorem scope (scope : Scope) (p : Progress) (hN : ∀ v ∈ scope.visits, N v) :
    R (scope.visits.filterMap g) p
      (((scope.lower primitives frame).run p).1.visits.filterMap g)
      ((scope.lower primitives frame).run p).2 := by
  have hlist := ((lower_induction primitives frame
    (P := fun s p out q => (∀ v ∈ s.visits, N v) →
      R (s.visits.filterMap g) p ((Statement.visitsList out).filterMap g) q)
    (L := fun ss p out q => (∀ v ∈ Statement.visitsList ss, N v) →
      R ((Statement.visitsList ss).filterMap g) p ((Statement.visitsList out).filterMap g) q)
    (Q := fun _ b p below q => (∀ v ∈ b.visits, N v) →
      R (b.visits.filterMap g) p (below.visits.filterMap g) q ∧
        ∀ arm ∈ below.arms, ∀ v ∈ arm.1.visits, N v)
    ?nil ?cons ?leaf ?forEach ?whileLoop ?repeatUntil ?qubits ?conditional ?done ?otherwise ?last
    ?nested).2.1 scope.statements p).2
  · rw [Scope.lower_run, h.content.body, h.content.body]
    exact hlist fun v hv => hN v (scope.visits_statements hv)
  case nil => exact fun p _ => h.refl [] p
  case cons =>
    intro s ss p out q outs r _ _ hs hss hN
    rw [Statement.visitsList_append, List.filterMap_append, Statement.visitsList,
      List.filterMap_append]
    exact h.append (hs fun v hv => hN v (List.mem_append_left _ hv))
      (hss fun v hv => hN v (List.mem_append_right _ hv))
  case leaf =>
    intro kind info p _ _
    rw [Statement.visitsList_singleton]
    exact h.refl _ p
  case forEach =>
    intro symbols itemTy iterable body info p out q _ hbody hN
    rw [Statement.visitsList_singleton, h.content.forEach, h.content.forEach]
    refine h.append (h.refl _ p) (hbody fun v hv => hN v ?_)
    simp [Statement.visits, StatementKind.visits, body.visits_statements hv]
  case whileLoop =>
    intro condition body info p out q _ hbody hN
    rw [Statement.visitsList_singleton, h.content.whileLoop, h.content.whileLoop]
    refine h.append (h.refl _ p) (hbody fun v hv => hN v ?_)
    simp [Statement.visits, StatementKind.visits, body.visits_statements hv]
  case repeatUntil =>
    intro block success fixup info p out q outs r _ _ hblock hfixup hN
    rw [Statement.visitsList_singleton, h.content.repeatUntil, h.content.repeatUntil]
    refine h.append (hblock fun v hv => hN v ?_)
      (h.append (h.refl _ q) (hfixup fun v hv => hN v ?_))
    · simp [Statement.visits, StatementKind.visits, block.visits_statements hv]
    · simp [Statement.visits, StatementKind.visits, fixup.visits_statements hv]
  case qubits =>
    intro kind binding body info p out q _ hbody hN
    rw [Statement.visitsList_singleton, h.content.qubits, h.content.qubits]
    refine h.append (h.refl _ p) (hbody fun v hv => hN v ?_)
    simp [Statement.visits, StatementKind.visits, body.visits_statements hv]
  case conditional =>
    intro branches info p below q _ hbranches hN
    obtain ⟨hbelow, hguards⟩ := hbranches fun v hv => hN v (by
      simp [Statement.visits, StatementKind.visits, hv])
    rw [h.content.statement id, StatementKind.visits]
    exact h.trans hbelow (h.conclude below info q hguards)
  case done => exact fun _ p _ => ⟨h.refl [] p, fun arm harm => (by cases harm)⟩
  case otherwise =>
    intro block info p out q _ hblock hN
    refine ⟨?_, fun arm harm => (by cases harm)⟩
    rw [Branches.visits, Branches.visits, h.content.block, h.content.block]
    exact hblock fun v hv => hN v (block.visits_statements hv)
  case last =>
    intro condition block rest info p out q below r _ _ hblock hrest _ hN
    obtain ⟨hbelow, hguards⟩ := hrest fun v hv => hN v (by simp [Branches.visits, hv])
    refine ⟨?_, List.forall_mem_cons.mpr ⟨fun v hv => hN v ?_, hguards⟩⟩
    · rw [h.content.arm, h.content.arm]
      refine h.append (h.refl _ p) (h.append (hblock fun v hv => hN v ?_) hbelow)
      simp [Branches.visits, block.visits_statements hv]
    · simp [Branches.visits, hv]
  case nested =>
    intro condition block rest info p out q c b below r _ _ hblock hrest hN
    obtain ⟨hbelow, hguards⟩ := hrest fun v hv => hN v (by simp [Branches.visits, hv])
    refine ⟨?_, List.forall_mem_singleton.mpr fun v hv => hN v ?_⟩
    · rw [h.content.arm, h.content.arm, Branches.visits, h.content.block]
      refine h.append (h.refl _ p) (h.append (hblock fun v hv => hN v ?_)
        (h.trans hbelow (h.conclude (.arm c b below) info r hguards)))
      simp [Branches.visits, block.visits_statements hv]
    · simp [Branches.visits, hv]

/-- What holds of the bodies holds of all specializations together, whatever else of them `m` looks
at. -/
theorem specializations (m : Specialization → List α)
    (hm : ∀ s params scope, s.kind = .body → s.implementation = .provided params scope →
      m s = scope.visits.filterMap g) (ss : List Specialization) (p : Progress)
    (hN : ∀ s ∈ ss, ∀ scope, s.bodyScope? = some scope → ∀ v ∈ scope.visits, N v) :
    R (ss.flatMap m) p
      (((ss.mapM (Specialization.lower primitives frame)).run p).1.flatMap m)
      ((ss.mapM (Specialization.lower primitives frame)).run p).2 := by
  refine (Chain.mapM (Specialization.lower primitives frame) ss p).flatMap (h.refl []) h.append
    fun s hs p b q hrun => ?_
  obtain ⟨params, scope, hkind, himpl, heq⟩ | ⟨-, heq⟩ := s.lower_cases primitives frame p
  · obtain ⟨hb, rfl⟩ := Prod.mk.inj (hrun.symm.trans heq)
    rw [hm s params scope hkind himpl, hm b params _ (by rw [hb]; exact hkind) (by rw [hb])]
    exact h.scope scope p (hN s hs scope (Specialization.bodyScope?_eq_some.mpr ⟨params, hkind, himpl⟩))
  · obtain ⟨rfl, rfl⟩ := Prod.mk.inj (heq.symm.trans hrun)
    exact h.refl _ p

end Gathers

/-- What is looked for in the bodies of an element. -/
def Element.gather {α : Type} (g : Visit → Option α) (e : Element) : List α :=
  e.bodies.flatMap (·.visits.filterMap g)

section
variable {α : Type} {primitives : Primitives} {g : Visit → Option α}
  {R : List α → Progress → List α → Progress → Prop} {N : Visit → Prop} {e : Element}

theorem Callable.bodies_flatMap {β : Type} (c : Callable) (f : Scope → List β) :
    c.bodies.flatMap f = c.specializations.flatMap fun s => s.bodyScope?.toList.flatMap f := by
  rw [Callable.bodies, List.filterMap_eq_flatMap_toList, List.flatMap_assoc]

/-- What holds of every body holds of the bodies of an element together. -/
theorem Gathers.bodies (h : ∀ c, e = .callable c → Gathers primitives (.ofCallable c) g R N)
    (refl : ∀ xs p, R xs p xs p) (hN : ∀ body ∈ e.bodies, ∀ v ∈ body.visits, N v) (p : Progress) :
    R (e.gather g) p (((e.lower primitives).run p).1.gather g) ((e.lower primitives).run p).2 := by
  cases e with
  | customType t => exact refl [] p
  | callable c =>
    rw [Element.lower_callable_run]
    simp only [Element.gather, Element.bodies, Callable.bodies_flatMap]
    refine (h c rfl).specializations _ (fun s params scope hkind himpl => ?_) c.specializations p
      fun s hs scope hscope => hN scope (List.mem_filterMap.mpr ⟨s, hs, hscope⟩)
    rw [Specialization.bodyScope?_eq_some.mpr ⟨params, hkind, himpl⟩]
    exact List.append_nil _

/-- What holds of every body holds of the element with all that stands in it. -/
theorem Gathers.visits (h : ∀ c, e = .callable c → Gathers primitives (.ofCallable c) g R N)
    (refl : ∀ xs p, R xs p xs p) (hN : ∀ v ∈ e.visits, N v) (p : Progress) :
    R (e.visits.filterMap g) p (((e.lower primitives).run p).1.visits.filterMap g)
      ((e.lower primitives).run p).2 := by
  cases e with
  | customType t => exact refl _ p
  | callable c =>
    rw [Element.lower_callable_run]
    simp only [Element.visits, (h c rfl).content.callables]
    refine (h c rfl).specializations _ (fun s params scope _ himpl => ?_) c.specializations p
      fun s hs scope hscope v hv => hN v (Element.visits_body ?_ hv)
    · exact (h c rfl).content.specialization himpl
    · exact List.mem_filterMap.mpr ⟨s, hs, hscope⟩

end

end OutcomeControl
