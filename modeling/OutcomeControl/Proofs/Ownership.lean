import OutcomeControl.Proofs.Conservation

/-! Whose type parameters stand where.

An operation takes over the type parameters of the callable that its block comes from, and the calls
that were generated in the block before it was moved are in terms of that callable too. So wherever a
type parameter stands in a lowered program, it belongs to the callable around it, to a primitive, or to
a callable that owned type parameters there before (`Compilation.lower_owned`). -/

namespace OutcomeControl

/-! ### Owners -/

/-- The owners of the type parameters in a callable. -/
def Callable.origins (c : Callable) : List QualifiedName := c.visits.filterMap Visit.origin?

def Element.origins (e : Element) : List QualifiedName := e.visits.filterMap Visit.origin?

/-- `X` holds of the owners of all type parameters that are met. -/
def Owned (X : QualifiedName → Prop) (vs : List Visit) : Prop :=
  ∀ n ∈ vs.filterMap Visit.origin?, X n

section
variable {X : QualifiedName → Prop}

theorem Owned.of_subset {vs ws : List Visit} (h : Owned X ws) (hsub : vs ⊆ ws) : Owned X vs := by
  intro n hn
  obtain ⟨v, hv, hn⟩ := List.mem_filterMap.mp hn
  exact h n (List.mem_filterMap.mpr ⟨v, hsub hv, hn⟩)

@[simp] theorem owned_nil : Owned X [] := fun n hn => by cases hn

@[simp] theorem owned_cons {v : Visit} {vs : List Visit} :
    Owned X (v :: vs) ↔ (∀ n, v.origin? = some n → X n) ∧ Owned X vs := by
  simp only [Owned, List.mem_filterMap, List.mem_cons]
  grind

@[simp] theorem owned_append {vs ws : List Visit} :
    Owned X (vs ++ ws) ↔ Owned X vs ∧ Owned X ws := by
  simp only [Owned, List.filterMap_append, List.mem_append, or_imp, forall_and]

@[simp] theorem owned_flatMap {α : Type} {f : α → List Visit} {as : List α} :
    Owned X (as.flatMap f) ↔ ∀ a ∈ as, Owned X (f a) := by
  simp only [Owned, List.filterMap_flatMap, List.mem_flatMap]
  grind

/-! ### What is generated -/

@[simp] theorem Ty.owned_tupleOf {ts : List Ty} :
    Owned X (Ty.tupleOf ts).visits ↔ ∀ t ∈ ts, Owned X t.visits := by
  cases ts with
  | nil => simp [Ty.tupleOf, Ty.visits]
  | cons t ts => simp [Ty.tupleOf, Ty.visits, Ty.visitsList_eq]

@[simp] theorem Variable.owned {v : Variable} : Owned X (Variable.visits v) ↔ Owned X v.ty.visits := by
  simp [Variable.visits]

theorem Owned.ty {e : Expr} (h : Owned X e.visits) : Owned X e.ty.visits := by
  rw [Expr.visits_eq] at h
  simp only [owned_cons, owned_append, ExprInfo.visits] at h
  exact h.2.2.2

theorem Expr.owned_localName {name : String} {ty : Ty} (h : Owned X ty.visits) :
    Owned X (Expr.localName name ty).visits := by
  simpa [Expr.localName, Expr.plain, Expr.visits, ExprKind.visits, ExprInfo.visits, Ty.visitsList]

theorem Expr.owned_tuple {es : List Expr} (h : ∀ e ∈ es, Owned X e.visits) :
    Owned X (Expr.tuple es).visits := by
  simpa [Expr.tuple, Expr.plain, Expr.visits, ExprKind.visits, ExprInfo.visits, Expr.visitsList_eq]
    using ⟨h, fun e he => (h e he).ty⟩

theorem owned_capturedValues {captured : List Variable}
    (h : ∀ v ∈ captured, Owned X v.ty.visits) : Owned X (capturedValues captured).visits := by
  cases captured with
  | nil => simp [capturedValues, Expr.unit, Expr.plain, Expr.visits, ExprKind.visits, ExprInfo.visits,
      Ty.visits]
  | cons v vs =>
    refine Expr.owned_tuple fun e he => ?_
    obtain ⟨w, hw, rfl⟩ := List.mem_map.mp he
    exact Expr.owned_localName (h w hw)

theorem Target.owned_reference {target : Target} {frame : Frame} (hframe : X frame.name)
    (h : Owned X target.paramTy.visits) : Owned X (target.reference frame).visits := by
  simp [Target.reference, Expr.globalName, Expr.plain, Expr.withResolutions, Expr.visits,
    ExprKind.visits, ExprInfo.visits, Ty.visitsList_eq, Frame.typeArguments, Ty.parameterOf, Ty.visits,
    Ty.operationOf, hframe, h]

theorem Primitive.owned_controlTy {p : Primitive} (h : X p.name) : Owned X p.controlTy.visits := by
  have hargument : Owned X p.argumentTy.visits := by
    rw [Primitive.argumentTy]
    cases p.firstTypeParameter? <;> simp [Ty.parameterOf, Ty.visits, h]
  simp [Primitive.controlTy, Ty.operationOf, Ty.visits, hargument]

/-- A generated call has type parameters of the caller and of the primitive, besides those of its
parts. -/
theorem Primitive.owned_controlCall {p : Primitive} {condition : Expr} {target : Target}
    {captured : List Variable} {frame : Frame} (hprimitive : X p.name) (hframe : X frame.name)
    (hcondition : Owned X condition.visits) (htarget : Owned X target.paramTy.visits)
    (hcaptured : ∀ v ∈ captured, Owned X v.ty.visits) :
    Owned X (p.controlCall condition target captured frame).visits := by
  have hvalues := owned_capturedValues hcaptured
  have hargument : Owned X (Expr.tuple [condition,
      .tuple [target.reference frame, capturedValues captured]]).visits := by
    refine Expr.owned_tuple (List.forall_mem_cons.mpr ⟨hcondition, List.forall_mem_singleton.mpr ?_⟩)
    exact Expr.owned_tuple (List.forall_mem_cons.mpr ⟨Target.owned_reference hframe htarget,
      List.forall_mem_singleton.mpr hvalues⟩)
  simp [Primitive.controlCall, Expr.call, Expr.withResolutions, Expr.globalName, Expr.plain,
    Expr.visits, ExprKind.visits, ExprInfo.visits, Ty.visitsList, Ty.visits,
    Primitive.owned_controlTy hprimitive, hargument, hvalues.ty]

/-! ### Statements and the pass -/

@[simp] theorem Statement.owned {s : Statement} : Owned X s.visits ↔
    (∀ v ∈ s.info.declarations, Owned X v.ty.visits) ∧ Owned X s.kind.visits := by
  cases s
  simp [Statement.visits]

@[simp] theorem Scope.owned {s : Scope} : Owned X s.visits ↔
    (∀ v ∈ s.known, Owned X v.ty.visits) ∧ Owned X (Statement.visitsList s.statements) := by
  cases s
  simp [Scope.visits]

@[simp] theorem Block.owned {b : Block} : Owned X b.visits ↔
    (∀ v ∈ b.body.known, Owned X v.ty.visits) ∧ Owned X (Statement.visitsList b.body.statements) := by
  rw [b.visits_eq, Scope.owned]

/-- An outcome test has its condition and its blocks from the conditional. -/
theorem Statement.owned_test {s : Statement} {t : OutcomeTest} (ht : s.outcomeTest? = some t)
    (h : Owned X s.visits) : Owned X t.condition.visits ∧ ∀ body ∈ t.bodies, Owned X body.visits := by
  obtain ⟨guard, block, rest, info, rfl, harms, hguard, hbody, hdefault⟩ :=
    Statement.of_outcomeTest ht
  obtain ⟨-, hkind⟩ := Statement.owned.mp h
  simp only [StatementKind.visits, Branches.visits, owned_append] at hkind
  obtain ⟨hcondition, hblock, hrest⟩ := hkind
  rw [Block.visits_eq] at hblock
  refine ⟨hcondition.of_subset (Expr.visits_of_outcomeComparison hguard),
    List.forall_mem_cons.mpr ⟨hbody ▸ hblock, ?_⟩⟩
  rw [hdefault]
  cases rest with
  | done => exact fun body hmem => (by cases hmem)
  | otherwise other => exact List.forall_mem_singleton.mpr (other.visits_eq ▸ hrest)
  | arm c b r => simp [Branches.arms] at harms

/-- An operation that a block was moved to, where `X` holds of the owners in the block. -/
def Frame.MakesOwned (frame : Frame) (X : QualifiedName → Prop) (op : Callable) : Prop :=
  ∃ name body comments, name ≠ frame.name ∧ Owned X body.visits ∧
    op = (frame.operation name body comments).reroute frame.name name

theorem NameSupply.freshCallable_ne (s : NameSupply) (q : QualifiedName) :
    (s.freshCallable q).1 ≠ q := by
  intro heq
  have hlength := congrArg (·.name.length) heq
  simp [NameSupply.freshCallable, NameSupply.draw, NameSupply.callableName, QualifiedName.sibling,
    String.length_append] at hlength

variable {primitives : Primitives} {frame : Frame} (hframe : X frame.name)
  (hprimitives : ∀ o, X (primitives.forOutcome o).name)
include hframe hprimitives

theorem applyBlock_owned {s : Statement} (outcome : Outcome) {condition : Expr} {body : Scope}
    (p : Progress) (hs : ∀ v ∈ s.info.declarations, Owned X v.ty.visits)
    (hcondition : Owned X condition.visits) (hbody : Owned X body.visits) :
    Owned X ((applyBlock primitives frame s outcome condition body).run p).1.visits ∧
      p.Adds (frame.MakesOwned X) ((applyBlock primitives frame s outcome condition body).run p).2 := by
  have hknown : ∀ v ∈ body.known, Owned X v.ty.visits := (Scope.owned.mp hbody).1
  rw [applyBlock_run]
  refine ⟨Statement.owned.mpr ⟨hs, ?_⟩,
    .of_hoisted_eq rfl ⟨_, body, _, p.names.freshCallable_ne frame.name, hbody, rfl⟩⟩
  exact Primitive.owned_controlCall (hprimitives outcome) hframe hcondition (by simpa using hknown) hknown

theorem applyTest_owned {s : Statement} {t : OutcomeTest} (p : Progress)
    (hs : ∀ v ∈ s.info.declarations, Owned X v.ty.visits) (hcondition : Owned X t.condition.visits)
    (hbodies : ∀ body ∈ t.bodies, Owned X body.visits) :
    Owned X (Statement.visitsList ((applyTest primitives frame s t).run p).1) ∧
      p.Adds (frame.MakesOwned X) ((applyTest primitives frame s t).run p).2 := by
  obtain ⟨outcome, condition, body, default⟩ := t
  obtain ⟨hbody, hdefault⟩ := List.forall_mem_cons.mp hbodies
  obtain ⟨hyes, hadds⟩ := applyBlock_owned hframe hprimitives outcome p hs hcondition hbody
  cases default with
  | none =>
    change Owned X (_ ++ []) ∧ _
    rw [List.append_nil]
    exact ⟨hyes, hadds⟩
  | some block =>
    obtain ⟨hno, hadds'⟩ := applyBlock_owned hframe hprimitives outcome.opposite
      ((applyBlock primitives frame s outcome condition body).run p).2 hs hcondition
      (hdefault block (List.mem_singleton_self _))
    change Owned X (_ ++ (_ ++ [])) ∧ _
    rw [List.append_nil]
    exact ⟨owned_append.mpr ⟨hyes, hno⟩, hadds.trans hadds'⟩

theorem conclude_owned {s : Statement} (p : Progress) (hs : Owned X s.visits) :
    Owned X (Statement.visitsList ((conclude primitives frame s).run p).1) ∧
      p.Adds (frame.MakesOwned X) ((conclude primitives frame s).run p).2 := by
  have hinfo : ∀ v ∈ s.info.declarations, Owned X v.ty.visits := (Statement.owned.mp hs).1
  obtain ⟨event, -, heq, -⟩ | ⟨t, ht, -, -, heq⟩ | ⟨t, ht, -, -, heq⟩ :=
    conclude_cases primitives frame s p
  · rw [heq, Statement.visitsList_singleton]
    exact ⟨hs, .refl p⟩
  · obtain ⟨hcondition, hbodies⟩ := Statement.owned_test ht hs
    rw [heq]
    exact applyTest_owned hframe hprimitives p hinfo hcondition hbodies
  · obtain ⟨hcondition, hbodies⟩ := Statement.owned_test ht hs
    rw [heq, bindCondition_run]
    obtain ⟨hcalls, hadds⟩ := applyTest_owned hframe hprimitives
      (t := { t with condition := .localName p.names.freshVariable.1 t.condition.ty })
      ((bindCondition s t.condition).run p).2 hinfo (Expr.owned_localName hcondition.ty) hbodies
    refine ⟨owned_append.mpr ⟨?_, hcalls⟩, hadds⟩
    refine Statement.owned.mpr ⟨List.forall_mem_append.mpr ⟨hinfo, ?_⟩, ?_⟩
    · exact List.forall_mem_singleton.mpr hcondition.ty
    · simpa [Statement.bindingOf, StatementKind.visits, SymbolTuple.visits] using hcondition

/-- `X` holds of all owners in a body that is lowered and in the blocks that were moved out of it. -/
theorem Scope.owned_lower {scope : Scope} (p : Progress) (h : Owned X scope.visits) :
    Owned X ((scope.lower primitives frame).run p).1.visits ∧
      p.Adds (frame.MakesOwned X) ((scope.lower primitives frame).run p).2 := by
  have hlist := (lower_induction primitives frame
    (P := fun s p out q => Owned X s.visits →
      Owned X (Statement.visitsList out) ∧ p.Adds (frame.MakesOwned X) q)
    (L := fun ss p out q => Owned X (Statement.visitsList ss) →
      Owned X (Statement.visitsList out) ∧ p.Adds (frame.MakesOwned X) q)
    (Q := fun info branches p below q => (∀ v ∈ info.declarations, Owned X v.ty.visits) →
      Owned X branches.visits → Owned X below.visits ∧ p.Adds (frame.MakesOwned X) q)
    ?nil ?cons ?leaf ?forEach ?whileLoop ?repeatUntil ?qubits ?conditional ?done ?otherwise ?last
    ?nested).2.1
  · rw [Scope.lower_run, Scope.owned]
    obtain ⟨hknown, hstatements⟩ := Scope.owned.mp h
    obtain ⟨hout, hadds⟩ := (hlist scope.statements p).2 hstatements
    exact ⟨⟨hknown, hout⟩, hadds⟩
  case nil => exact fun p _ => ⟨owned_nil, .refl p⟩
  case cons =>
    intro s ss p out q outs r _ _ hs hss h
    rw [Statement.visitsList, owned_append] at h
    obtain ⟨hout, hadds⟩ := hs h.1
    obtain ⟨houts, hadds'⟩ := hss h.2
    rw [Statement.visitsList_append, owned_append]
    exact ⟨⟨hout, houts⟩, hadds.trans hadds'⟩
  case leaf =>
    intro kind info p _ h
    rw [Statement.visitsList_singleton]
    exact ⟨h, .refl p⟩
  case forEach =>
    intro symbols itemTy iterable body info p out q _ hbody h
    simp only [Statement.owned, StatementKind.visits, owned_append, Scope.owned,
      Statement.visitsList_singleton] at h ⊢
    obtain ⟨hinfo, hsymbols, hitem, hiterable, hknown, hstatements⟩ := h
    obtain ⟨hout, hadds⟩ := hbody hstatements
    exact ⟨⟨hinfo, hsymbols, hitem, hiterable, hknown, hout⟩, hadds⟩
  case whileLoop =>
    intro condition body info p out q _ hbody h
    simp only [Statement.owned, StatementKind.visits, owned_append, Scope.owned,
      Statement.visitsList_singleton] at h ⊢
    obtain ⟨hinfo, hcondition, hknown, hstatements⟩ := h
    obtain ⟨hout, hadds⟩ := hbody hstatements
    exact ⟨⟨hinfo, hcondition, hknown, hout⟩, hadds⟩
  case repeatUntil =>
    intro block success fixup info p out q outs r _ _ hblock hfixup h
    simp only [Statement.owned, StatementKind.visits, owned_append, Block.owned,
      Statement.visitsList_singleton] at h ⊢
    obtain ⟨hinfo, ⟨hknown, hstatements⟩, hsuccess, hknown', hstatements'⟩ := h
    obtain ⟨hout, hadds⟩ := hblock hstatements
    obtain ⟨houts, hadds'⟩ := hfixup hstatements'
    exact ⟨⟨hinfo, ⟨hknown, hout⟩, hsuccess, hknown', houts⟩, hadds.trans hadds'⟩
  case qubits =>
    intro kind binding body info p out q _ hbody h
    simp only [Statement.owned, StatementKind.visits, owned_append, Scope.owned,
      Statement.visitsList_singleton] at h ⊢
    obtain ⟨hinfo, hsymbols, hinit, hknown, hstatements⟩ := h
    obtain ⟨hout, hadds⟩ := hbody hstatements
    exact ⟨⟨hinfo, hsymbols, hinit, hknown, hout⟩, hadds⟩
  case conditional =>
    intro branches info p below q _ hbranches h
    obtain ⟨hinfo, hbranches'⟩ := Statement.owned.mp h
    obtain ⟨hbelow, hadds⟩ := hbranches hinfo hbranches'
    obtain ⟨hout, hadds'⟩ := conclude_owned hframe hprimitives
      (s := ⟨.conditional below, info⟩) q (Statement.owned.mpr ⟨hinfo, hbelow⟩)
    exact ⟨hout, hadds.trans hadds'⟩
  case done => exact fun _ p _ _ => ⟨owned_nil, .refl p⟩
  case otherwise =>
    intro block info p out q _ hblock _ h
    obtain ⟨hknown, hstatements⟩ := Block.owned.mp h
    obtain ⟨hout, hadds⟩ := hblock hstatements
    exact ⟨Block.owned.mpr ⟨hknown, hout⟩, hadds⟩
  case last =>
    intro condition block rest info p out q below r _ _ hblock hrest _ hinfo h
    simp only [Branches.visits, owned_append, Block.owned] at h ⊢
    obtain ⟨hcondition, ⟨hknown, hstatements⟩, hrest'⟩ := h
    obtain ⟨hout, hadds⟩ := hblock hstatements
    obtain ⟨hbelow, hadds'⟩ := hrest hinfo hrest'
    exact ⟨⟨hcondition, ⟨hknown, hout⟩, hbelow⟩, hadds.trans hadds'⟩
  case nested =>
    intro condition block rest info p out q c b below r _ _ hblock hrest hinfo h
    simp only [Branches.visits, owned_append, Block.owned] at h ⊢
    obtain ⟨hcondition, ⟨hknown, hstatements⟩, hrest'⟩ := h
    obtain ⟨hout, hadds⟩ := hblock hstatements
    obtain ⟨hbelow, hadds'⟩ := hrest hinfo hrest'
    obtain ⟨hinner, hadds''⟩ := conclude_owned hframe hprimitives
      (s := ⟨.conditional (.arm c b below), info⟩) r (Statement.owned.mpr ⟨hinfo, hbelow⟩)
    -- The new default block is described as the second guarded block is.
    simp only [Branches.visits, owned_append, Block.owned] at hbelow
    exact ⟨⟨hcondition, ⟨hknown, hout⟩, hbelow.2.1.1, hinner⟩, (hadds.trans hadds').trans hadds''⟩

theorem Specialization.owned_lower {s : Specialization} (p : Progress) (h : Owned X s.visits) :
    Owned X ((s.lower primitives frame).run p).1.visits ∧
      p.Adds (frame.MakesOwned X) ((s.lower primitives frame).run p).2 := by
  obtain ⟨params, scope, -, himpl, heq⟩ | ⟨-, heq⟩ := s.lower_cases primitives frame p
  · simp only [heq, Specialization.visits, himpl, Implementation.visits, owned_append] at h ⊢
    obtain ⟨hheader, hparams, hscope⟩ := h
    obtain ⟨hout, hadds⟩ := Scope.owned_lower hframe hprimitives p hscope
    exact ⟨⟨hheader, hparams, hout⟩, hadds⟩
  · rw [heq]
    exact ⟨h, .refl p⟩

omit hframe in
/-- If `X` holds of an element's name and of all owners in it, it holds of all owners in what takes
its place and in the blocks that were moved out. -/
theorem Element.owned_lower {e : Element} (p : Progress) (hname : X e.name) (h : Owned X e.visits) :
    Owned X ((e.lower primitives).run p).1.visits ∧
      p.Adds (fun op => ∃ c, e = .callable c ∧ (Frame.ofCallable c).MakesOwned X op)
        ((e.lower primitives).run p).2 := by
  cases e with
  | customType t => exact ⟨h, .refl p⟩
  | callable c =>
    rw [Element.lower_callable_run]
    simp only [Element.visits, Callable.visits, owned_cons, owned_append, owned_flatMap] at h ⊢
    obtain ⟨-, hheader, hspecializations⟩ := h
    have hchain := (Chain.mapM (Specialization.lower primitives (.ofCallable c))
      c.specializations p).imp (S := fun _ p s' q => Owned X s'.visits ∧
        p.Adds (fun op => ∃ d, Element.callable c = .callable d ∧ (Frame.ofCallable d).MakesOwned X op) q)
      fun s hs p s' q hrun => by
        have hstep : Owned X ((s.lower primitives (.ofCallable c)).run p).1.visits ∧ _ :=
          Specialization.owned_lower hname hprimitives p (hspecializations s hs)
        rw [hrun] at hstep
        exact ⟨hstep.1, hstep.2.imp fun op hop => ⟨c, rfl, hop⟩⟩
    refine ⟨⟨by simp, hheader, fun s' hs' => ?_⟩,
      hchain.preorder .refl (fun _ _ _ => .trans) fun _ _ _ _ h => h.2⟩
    obtain ⟨-, -, -, -, hout, -⟩ := hchain.of_mem hs'
    exact hout

end

/-! ### Operations take over type parameters -/

theorem Visit.origin?_reroute (source target : QualifiedName) (v : Visit) :
    (v.mapParameters (TypeParameter.reroute source target)).origin? =
      v.origin?.map fun n => if n = source then target else n := by
  cases v with
  | type t =>
    cases t with
    | parameter x =>
      simp only [Visit.mapParameters, Ty.mapParameters, Visit.origin?, TypeParameter.reroute, Option.map]
      split <;> rfl
    | _ => rfl
  | _ => rfl

theorem Callable.origins_reroute (source target : QualifiedName) (c : Callable) :
    (c.reroute source target).origins = c.origins.map fun n => if n = source then target else n := by
  rw [Callable.origins, Callable.reroute, Callable.visits_mapParameters, List.filterMap_map,
    Callable.origins, List.map_filterMap]
  exact congrArg (List.filterMap · _) (funext fun v => v.origin?_reroute source target)

section
variable {X : QualifiedName → Prop} {frame : Frame}

/-- The parameters of an operation have the types of variables known to the block. -/
theorem Frame.owned_operation {name : QualifiedName} {body : Scope} {comments : Comments}
    (h : Owned X body.visits) : Owned X (frame.operation name body comments).visits := by
  have hknown : ∀ v ∈ body.known, Owned X v.ty.visits := (Scope.owned.mp h).1
  have hparams : Owned X (Params.tuple (body.known.map Variable.toParams)).visits := by
    rw [Params.visits, Params.visitsList_eq, List.flatMap_map, owned_flatMap]
    exact fun v hv => by simpa [Variable.toParams, Params.visits, Symbol.name?] using hknown v hv
  have hargument : Owned X (Ty.tupleOf (body.known.map (·.ty))).visits := by simpa using hknown
  simp [Frame.operation, Callable.visits, Specialization.visits, Signature.visits,
    Implementation.visits, Ty.visitsList, Ty.visits, -Scope.owned, hargument, hparams, h]

/-- In an operation, the type parameters that the frame owned are its own, and others are left alone. -/
theorem Frame.MakesOwned.of_mem_origins {op : Callable} (h : frame.MakesOwned X op)
    {n : QualifiedName} (hn : n ∈ op.origins) :
    n ≠ frame.name ∧ (n = op.name ∨ X n) := by
  obtain ⟨name, body, comments, hname, hbody, rfl⟩ := h
  rw [Callable.origins_reroute] at hn
  obtain ⟨m, hm, rfl⟩ := List.mem_map.mp hn
  split
  · exact ⟨hname, .inl rfl⟩
  · exact ⟨‹_›, .inr (Frame.owned_operation hbody m hm)⟩

end

/-! ### Programs -/

/-- One of the two primitives is called `n`. -/
def Primitives.Has (primitives : Primitives) (n : QualifiedName) : Prop :=
  ∃ o, n = (primitives.forOutcome o).name

/-- Whose type parameters stand in what an element yields. -/
theorem Yield.Arises.owned {primitives : Primitives} {p q : Progress} {y : Yield}
    (h : y.Arises primitives p q) :
    (∀ op ∈ y.operations, ∀ n ∈ op.origins, n ≠ y.before.name ∧
      (n = op.name ∨ primitives.Has n ∨ n ∈ y.before.origins)) ∧
    ∀ n ∈ y.after.origins, n = y.before.name ∨ primitives.Has n ∨ n ∈ y.before.origins := by
  have hprimitives : ∀ o, primitives.Has (primitives.forOutcome o).name := fun o => ⟨o, rfl⟩
  obtain ⟨hafter, hadds⟩ := Element.owned_lower
    (X := fun n => n = y.before.name ∨ primitives.Has n ∨ n ∈ y.before.origins)
    (fun o => .inr (.inl (hprimitives o))) p (.inl rfl) fun n hn => .inr (.inr hn)
  rw [h.run] at hafter hadds
  refine ⟨fun op hop n hn => ?_, hafter⟩
  obtain ⟨c, hc, hmakes⟩ := hadds.forall_mem h.hoisted op hop
  obtain ⟨hne, howner⟩ := hmakes.of_mem_origins hn
  have hname : y.before.name = c.name := by rw [hc]; rfl
  exact ⟨hname ▸ hne, howner.imp id fun h => h.resolve_left (hname ▸ hne)⟩

theorem Element.name_mem_names (e : Element) : e.name.name ∈ e.names := by
  cases e <;> exact List.mem_cons_self ..

theorem Yield.Arises.name {primitives : Primitives} {p q : Progress} {y : Yield}
    (h : y.Arises primitives p q) : y.after.name = y.before.name := by
  have hrun := congrArg (·.1.name) h.run
  cases hbefore : y.before <;> rw [hbefore] at hrun <;> exact hrun.symm

/-- **Type parameters belong to the callable around them.** Suppose that drawing names comes to an end and
that no type parameter of the program is owned by an operation that is made from it. Then no operation
has a type parameter of the callable that it was made from. Where a type parameter belongs to an operation
that was made, it stands in this operation, or a primitive has the same name. All others belong to the
callable around them, to a primitive, or to an owner of type parameters in the callable that was there
before. -/
theorem Compilation.lower_owned (c : Compilation) (options : Options)
    (hends : ∀ e ∈ (c.lower options).report, e.Ends (.forCompilation c options.settings))
    (horigins : ∀ ns ∈ c.namespaces, ∀ e ∈ ns.elements, ∀ n ∈ e.origins,
      n ∉ (c.lower options).targets) :
    ((c.yields options).map (·.map Yield.before) = c.namespaces.map Namespace.elements ∧
      (c.lower options).result.namespaces.map Namespace.elements =
        (c.yields options).map Yield.elements) ∧
    ∀ ys ∈ c.yields options, ∀ y ∈ ys,
      (∀ op ∈ y.operations, ∀ n ∈ op.origins, n ≠ y.before.name ∧
        (n ∈ (c.lower options).targets → n = op.name ∨ options.primitives.Has n) ∧
        (n = op.name ∨ options.primitives.Has n ∨ n ∈ y.before.origins)) ∧
      y.after.name = y.before.name ∧
      ∀ n ∈ y.after.origins, (n ∈ (c.lower options).targets → options.primitives.Has n) ∧
        (n = y.after.name ∨ options.primitives.Has n ∨ n ∈ y.before.origins) := by
  obtain ⟨hbefore, hresult, -⟩ := c.lower_yields options
  refine ⟨⟨hbefore, hresult⟩, fun ys hys y hy => ?_⟩
  obtain ⟨ns, hns, hmem, p, q, harises⟩ := Compilation.of_mem_yields hys hy
  obtain ⟨hoperations, hafter⟩ := harises.owned
  have hold : ∀ n ∈ (c.lower options).targets, n ∉ y.before.origins :=
    fun n hn hmem' => horigins ns hns y.before hmem n hmem' hn
  refine ⟨fun op hop n hn => ?_, harises.name, fun n hn => ?_⟩
  · obtain ⟨hne, howner⟩ := hoperations op hop n hn
    exact ⟨hne, fun htarget => howner.imp id fun h => h.resolve_right (hold n htarget), howner⟩
  · have howner := hafter n hn
    have hname : y.before.name ∉ (c.lower options).targets := by
      intro htarget
      refine Event.Avoids.target (fun e he => ?_) htarget
        (Compilation.names_reserved hns hmem options.settings y.before.name_mem_names)
      exact Namespace.lowerAll_avoids options.primitives (.forCompilation c options.settings)
        c.namespaces e he (hends e he)
    refine ⟨fun htarget => ?_, harises.name ▸ howner⟩
    obtain rfl | hprimitive | horigin := howner
    · exact absurd htarget hname
    · exact hprimitive
    · exact absurd horigin (hold n htarget)

/-- The last operation has a generated call, whose type arguments are its own parameters. -/
theorem Sample.generic_owned :
    (∀ n ∈ (Element.callable Sample.generic).origins, n = ⟨"Sample", "Main"⟩) ∧
      ∃ ys ∈ Compilation.yields {} ⟨[Sample.genericSpace], []⟩, ∃ y ∈ ys,
        y.operations.map (·.name) =
          [⟨"Sample", "_ctrl1_Main"⟩, ⟨"Sample", "_ctrl3_Main"⟩, ⟨"Sample", "_ctrl4_Main"⟩] ∧
        (∀ op ∈ y.operations, op.name ∈ op.origins) ∧
        ∀ op ∈ y.operations, ∀ n ∈ op.origins, n ≠ y.before.name ∧
          (n = op.name ∨ Primitives.standard.Has n ∨ n ∈ y.before.origins) := by
  have hgeneric : ∀ n ∈ (Element.callable Sample.generic).origins, n = ⟨"Sample", "Main"⟩ := by
    decide +kernel
  have htargets : (Compilation.lower {} ⟨[Sample.genericSpace], []⟩).targets =
      [⟨"Sample", "_ctrl1_Main"⟩, ⟨"Sample", "_ctrl3_Main"⟩, ⟨"Sample", "_ctrl4_Main"⟩] := by
    decide +kernel
  obtain ⟨-, howned⟩ := Compilation.lower_owned ⟨[Sample.genericSpace], []⟩ {}
    (fun e _ => e.ends_of_length_lt (by decide +kernel)) (fun ns hns e he n hn => by
      obtain rfl := List.mem_singleton.mp hns
      obtain rfl := List.mem_singleton.mp he
      rw [hgeneric n hn, htargets]
      decide)
  have hys := howned _ (List.mem_cons_self ..)
  obtain ⟨hoperations, -⟩ := hys _ (List.mem_cons_self ..)
  exact ⟨hgeneric, _, List.mem_cons_self .., _, List.mem_cons_self .., by decide +kernel,
    by decide +kernel, fun op hop n hn => ⟨(hoperations op hop n hn).1, (hoperations op hop n hn).2.2⟩⟩

namespace Sample

/-- `if r == One { X(q); }`. -/
def single : Compilation :=
  { namespaces :=
      [⟨"Sample",
        [.callable (operation "Main" (.provided (.tuple [q.toParams, r.toParams])
          ⟨[.conditional [(.equals (.localName "r" .outcome) (.outcome .one), block "X")] none],
            [q, r]⟩))]⟩] }

/-- The primitive for `One` has the first name that is given to a block of `Main`. -/
def namesake : Options := { settings := { primitiveSpace := "Sample", oneName := "_ctrl1_Main" } }

end Sample

/-- Where a primitive has the name of an operation, the callable that the operation was made from seems
to have a type parameter of it: the supply does not know the names of the primitives. -/
theorem Sample.single_namesake :
    (∀ ns ∈ Sample.single.namespaces, ∀ e ∈ ns.elements, e.origins = []) ∧
      ∃ ys ∈ Sample.single.yields Sample.namesake, ∃ y ∈ ys, ∃ op ∈ y.operations,
        op.name = ⟨"Sample", "_ctrl1_Main"⟩ ∧ op.name ∈ y.after.origins := by
  decide +kernel

end OutcomeControl
