import OutcomeControl.Proofs.Conservation

/-! The types of a generated call fit together.

The type of what a block captures is written three times: as the type argument of the primitive, in the
type of the operation as its caller sees it, and in the signature of the operation, where the type
parameters of the caller have become its own. With the type arguments of the call filled in, all three
are the same (`applyBlock_typed`). For the last one this is so because the type arguments give each
parameter back to the callable from which it was taken (`Frame.resolve_reroute`). -/

namespace OutcomeControl

/-! ### Filling in type arguments -/

section
variable (f : TypeParameter → Ty)

mutual
/-- The type with every type parameter replaced, all at once. -/
def Ty.substitute : Ty → Ty
  | .unit => .unit
  | .int => .int
  | .double => .double
  | .bool => .bool
  | .string => .string
  | .outcome => .outcome
  | .qubit => .qubit
  | .range => .range
  | .array item => .array item.substitute
  | .tuple items => .tuple (Ty.substituteList items)
  | .custom name => .custom name
  | .parameter p => f p
  | .operation input output cs => .operation input.substitute output.substitute cs
  | .function input output => .function input.substitute output.substitute
  | .missing => .missing
  | .invalid => .invalid
def Ty.substituteList : List Ty → List Ty
  | [] => []
  | t :: ts => t.substitute :: Ty.substituteList ts
end

end

/-- What stands for a type parameter. One that no resolution is for stands for itself. -/
def TypeParameter.resolve (resolutions : List Resolution) (x : TypeParameter) : Ty :=
  match resolutions.find? fun r => r.callable = x.origin ∧ r.parameter = x.name with
  | some r => r.ty
  | none => .parameter x

/-- The type with its type parameters resolved. -/
def Ty.resolve (resolutions : List Resolution) : Ty → Ty :=
  Ty.substitute (TypeParameter.resolve resolutions)

/-- The type without the places where its type parameters are written. -/
def Ty.unplaced : Ty → Ty := Ty.mapParameters fun x => { x with range := none }

section
variable {f : TypeParameter → Ty} {g : TypeParameter → TypeParameter}

mutual
/-- What `f` puts in the place of renamed parameters gives the type back if it does so for each of its
parameters. -/
theorem Ty.unplaced_substitute : (t : Ty) →
    (∀ x, .type (.parameter x) ∈ t.visits → (f (g x)).unplaced = (Ty.parameter x).unplaced) →
    ((t.mapParameters g).substitute f).unplaced = t.unplaced
  | .unit, _ | .int, _ | .double, _ | .bool, _ | .string, _ | .outcome, _ | .qubit, _ => rfl
  | .range, _ | .custom _, _ | .missing, _ | .invalid, _ => rfl
  | .parameter x, h => h x (List.mem_singleton_self _)
  | .array item, h => congrArg Ty.array
    (item.unplaced_substitute fun x hx => h x (List.mem_cons_of_mem _ hx))
  | .tuple items, h => congrArg Ty.tuple
    (Ty.unplaced_substituteList items fun x hx => h x (List.mem_cons_of_mem _ hx))
  | .operation input output cs, h =>
    congrArg₂ (Ty.operation · · cs)
      (input.unplaced_substitute fun x hx => h x (List.mem_cons_of_mem _ (List.mem_append_left _ hx)))
      (output.unplaced_substitute fun x hx => h x (List.mem_cons_of_mem _ (List.mem_append_right _ hx)))
  | .function input output, h =>
    congrArg₂ Ty.function
      (input.unplaced_substitute fun x hx => h x (List.mem_cons_of_mem _ (List.mem_append_left _ hx)))
      (output.unplaced_substitute fun x hx => h x (List.mem_cons_of_mem _ (List.mem_append_right _ hx)))
theorem Ty.unplaced_substituteList : (ts : List Ty) →
    (∀ x, .type (.parameter x) ∈ Ty.visitsList ts → (f (g x)).unplaced = (Ty.parameter x).unplaced) →
    Ty.mapParametersList (fun x => { x with range := none })
        (Ty.substituteList f (Ty.mapParametersList g ts)) =
      Ty.mapParametersList (fun x => { x with range := none }) ts
  | [], _ => rfl
  | t :: ts, h =>
    congrArg₂ List.cons (t.unplaced_substitute fun x hx => h x (List.mem_append_left _ hx))
      (Ty.unplaced_substituteList ts fun x hx => h x (List.mem_append_right _ hx))
end

end

/-! ### What is captured -/

theorem Ty.mapParametersList_eq (g : TypeParameter → TypeParameter) (ts : List Ty) :
    Ty.mapParametersList g ts = ts.map (Ty.mapParameters g) := by
  induction ts with
  | nil => rfl
  | cons t ts ih => exact congrArg (t.mapParameters g :: ·) ih

theorem Ty.mapParameters_tupleOf (g : TypeParameter → TypeParameter) (ts : List Ty) :
    (Ty.tupleOf ts).mapParameters g = .tupleOf (ts.map (Ty.mapParameters g)) := by
  cases ts with
  | nil => rfl
  | cons t ts => exact congrArg Ty.tuple (Ty.mapParametersList_eq g (t :: ts))

theorem Ty.visits_tupleOf {x : TypeParameter} {ts : List Ty}
    (h : .type (.parameter x) ∈ (Ty.tupleOf ts).visits) :
    ∃ t ∈ ts, .type (.parameter x) ∈ t.visits := by
  cases ts with
  | nil => simp [Ty.tupleOf, Ty.visits] at h
  | cons t ts => simpa [Ty.tupleOf, Ty.visits, Ty.visitsList_eq] using h

theorem Params.mapParametersList_captured (g : TypeParameter → TypeParameter) (vs : List Variable) :
    Params.mapParametersList g (vs.map Variable.toParams) =
      vs.map fun v => .item { v with name := Symbol.valid v.name, ty := v.ty.mapParameters g } := by
  induction vs with
  | nil => rfl
  | cons v vs ih => exact congrArg (_ :: ·) ih

theorem capturedValues_ty (vs : List Variable) : (capturedValues vs).ty = .tupleOf (vs.map (·.ty)) := by
  cases vs with
  | nil => rfl
  | cons v vs =>
    change Ty.tupleOf (((v :: vs).map fun v => Expr.localName v.name v.ty).map Expr.ty) = _
    rw [List.map_map]
    rfl

theorem capturedValues_items (vs : List Variable) :
    (capturedValues vs).items = vs.map fun v => .localName v.name v.ty := by
  cases vs with
  | nil => rfl
  | cons v vs => rfl

/-! ### The operation -/

theorem TypeParameter.resolve_of_mem {resolutions : List Resolution} {x : TypeParameter} {t : Ty}
    (hmem : ∃ r ∈ resolutions, r.callable = x.origin ∧ r.parameter = x.name)
    (hall : ∀ r ∈ resolutions, r.callable = x.origin → r.parameter = x.name → r.ty = t) :
    x.resolve resolutions = t := by
  unfold TypeParameter.resolve
  split
  next r hfind =>
    obtain ⟨hcallable, hparameter⟩ : r.callable = x.origin ∧ r.parameter = x.name := by
      simpa using List.find?_some hfind
    exact hall r (List.mem_of_find?_eq_some hfind) hcallable hparameter
  next hnone =>
    obtain ⟨r, hr, hresolves⟩ := hmem
    exact absurd (decide_eq_true hresolves) (List.find?_eq_none.mp hnone r hr)

theorem TypeParameter.resolve_of_notMem {resolutions : List Resolution} {x : TypeParameter}
    (h : ∀ r ∈ resolutions, r.callable ≠ x.origin) : x.resolve resolutions = .parameter x := by
  unfold TypeParameter.resolve
  split
  next r hfind =>
    have hresolves : r.callable = x.origin ∧ r.parameter = x.name := by
      simpa using List.find?_some hfind
    exact absurd hresolves.1 (h r (List.mem_of_find?_eq_some hfind))
  next => rfl

/-- A type parameter of the caller that was made one of the operation is resolved to what it was. Any
other has no resolution. -/
theorem Frame.resolve_reroute (frame : Frame) {name : QualifiedName} {x : TypeParameter}
    (hdeclared : x.origin = frame.name → .valid x.name ∈ frame.typeParameters)
    (horigin : x.origin ≠ name) :
    (TypeParameter.resolve (frame.parameterNames.map fun p => ⟨name, p, .parameterOf frame.name p⟩)
      (x.reroute frame.name name)).unplaced = (Ty.parameter x).unplaced := by
  -- What the caller owns is found under its name, since all valid names have a resolution. What it does not
  -- own kept its origin, and no resolution is for that.
  by_cases howner : x.origin = frame.name
  · have hresolve : TypeParameter.resolve
        (frame.parameterNames.map fun p => ⟨name, p, .parameterOf frame.name p⟩)
        { x with origin := name } = .parameterOf frame.name x.name := by
      refine TypeParameter.resolve_of_mem ?_ ?_
      · refine ⟨_, List.mem_map_of_mem (a := x.name) ?_, rfl, rfl⟩
        exact List.mem_filterMap.mpr ⟨.valid x.name, hdeclared howner, rfl⟩
      · intro r hr _ hparameter
        obtain ⟨p, -, rfl⟩ := List.mem_map.mp hr
        exact congrArg (Ty.parameterOf frame.name) hparameter
    rw [TypeParameter.reroute, if_pos howner, hresolve, ← howner]
    rfl
  · rw [TypeParameter.reroute, if_neg howner, TypeParameter.resolve_of_notMem]
    intro r hr
    obtain ⟨p, -, rfl⟩ := List.mem_map.mp hr
    exact horigin.symm

/-- A type parameter of the callable that occurs in a captured type is one that it declares, and none
belongs to the operation `name`. -/
def Frame.Declares (frame : Frame) (known : List Variable) (name : QualifiedName) : Prop :=
  ∀ v ∈ known, ∀ x, .type (.parameter x) ∈ v.ty.visits →
    (x.origin = frame.name → .valid x.name ∈ frame.typeParameters) ∧ x.origin ≠ name

/-- The parameter type of the operation, with the type arguments of its caller, is the type of what is
captured. -/
theorem Frame.resolve_argument (frame : Frame) (name : QualifiedName) (known : List Variable)
    (hknown : frame.Declares known name) :
    (((Ty.tupleOf (known.map (·.ty))).reroute frame.name name).resolve
        (frame.parameterNames.map fun p => ⟨name, p, .parameterOf frame.name p⟩)).unplaced =
      (Ty.tupleOf (known.map (·.ty))).unplaced := by
  refine Ty.unplaced_substitute _ fun x hx => ?_
  obtain ⟨t, ht, hx⟩ := Ty.visits_tupleOf hx
  obtain ⟨v, hv, rfl⟩ := List.mem_map.mp ht
  obtain ⟨hdeclared, horigin⟩ := hknown v hv x hx
  exact frame.resolve_reroute hdeclared horigin

/-! ### The call -/

/-- Resolving the first type parameter of a primitive gives the type of a call that runs an operation on
its argument. -/
theorem Primitive.resolve_controlTy (p : Primitive) {name : String}
    (hname : p.firstTypeParameter? = some name) (t : Ty) :
    p.controlTy.resolve [⟨p.name, name, t⟩] =
      .operationOf (.tupleOf [.outcome, .tupleOf [.operationOf t .unit, t]]) .unit := by
  simp [Primitive.controlTy, Primitive.argumentTy, hname, Ty.resolve, Ty.operationOf, Ty.tupleOf,
    Ty.parameterOf, Ty.substitute, Ty.substituteList, TypeParameter.resolve]

/-- The parts of a call `callee(condition, (reference, arguments))`. -/
structure ControlCall where
  callee : Expr
  condition : Expr
  reference : Expr
  arguments : Expr
  info : ExprInfo

namespace ControlCall
variable (call : ControlCall)

def argument : Expr := .tuple [call.condition, .tuple [call.reference, call.arguments]]

def toExpr : Expr := ⟨.call call.callee call.argument, call.info⟩

/-- The primitive, with the type argument of the call, is an operation from exactly what it is called with
to the unit type. -/
structure FitsPrimitive (p : Primitive) : Prop where
  callee : call.callee = .globalName p.name none p.controlTy
  resolved : p.controlTy.resolve call.info.resolutions = .operationOf call.argument.ty .unit
  result : call.info.ty = .unit

/-- The operation, with the type arguments of the reference to it, takes what the reference says it takes
and what it is run on, up to the places where type parameters are written. -/
structure FitsOperation (op : Callable) (paramTy : Ty) : Prop where
  parameter : (op.signature.argument.resolve call.reference.info.resolutions).unplaced = paramTy.unplaced
  arguments :
    (op.signature.argument.resolve call.reference.info.resolutions).unplaced = call.arguments.ty.unplaced

/-- The operation takes these variables of the callable `source`, and the call passes their values: both
one by one in the given order, and the unit value if there are none. -/
structure Passes (op : Callable) (source : QualifiedName) (known : List Variable) : Prop where
  params : op.params = .tuple (known.map fun v =>
    .item { v with name := .valid v.name, ty := v.ty.reroute source op.name })
  argument : op.signature.argument = .tupleOf (known.map fun v => v.ty.reroute source op.name)
  specializations : ∀ s ∈ op.specializations, s.signature = op.signature ∧
    ∃ scope, s.implementation = .provided op.params scope
  values : call.arguments.items = known.map fun v => .localName v.name v.ty
  valuesTy : call.arguments.ty = .tupleOf (known.map (·.ty))
  none_captured : known = [] →
    op.params = .unit ∧ op.signature.argument = .unit ∧ call.arguments = .unit

end ControlCall

/-! ### Calls that are generated -/

/-- The parts of the call that is made for a block that has become the operation `name`. -/
def Primitive.controlParts (p : Primitive) (condition : Expr) (name : QualifiedName)
    (known : List Variable) (frame : Frame) : ControlCall :=
  let target : Target := ⟨name, .tupleOf (known.map (·.ty))⟩
  { callee := .globalName p.name none p.controlTy
    condition
    reference := target.reference frame
    arguments := capturedValues known
    info := (p.controlCall condition target known frame).info }

section
variable {p : Primitive} {condition : Expr} (name : QualifiedName) (frame : Frame)

theorem Primitive.controlParts_fitsPrimitive (known : List Variable) (hcondition : condition.ty = .outcome)
    (hprimitive : p.typeParameters ≠ []) :
    (p.controlParts condition name known frame).FitsPrimitive p := by
  obtain ⟨parameter, hparameter⟩ : ∃ parameter, p.firstTypeParameter? = some parameter :=
    ⟨_, List.head?_eq_some_head hprimitive⟩
  have hvalues := capturedValues_ty known
  have hresolutions : (p.controlParts condition name known frame).info.resolutions =
      [⟨p.name, parameter, .tupleOf (known.map (·.ty))⟩] := by
    rw [← hvalues]
    change (p.firstTypeParameter?.map _).toList = _
    rw [hparameter]
    rfl
  have hargument : (p.controlParts condition name known frame).argument.ty =
      .tupleOf [.outcome, .tupleOf [.operationOf (.tupleOf (known.map (·.ty))) .unit,
        .tupleOf (known.map (·.ty))]] := by
    change Ty.tupleOf [condition.ty, .tupleOf [_, (capturedValues known).ty]] = _
    rw [hcondition, hvalues]
    rfl
  refine ⟨rfl, ?_, rfl⟩
  rw [hresolutions, p.resolve_controlTy hparameter, hargument]

theorem Primitive.controlParts_passes (body : Scope) (comments : Comments) :
    (p.controlParts condition name body.known frame).Passes
      ((frame.operation name body comments).reroute frame.name name) frame.name body.known where
  params := congrArg Params.tuple (Params.mapParametersList_captured _ body.known)
  argument := by
    refine (Ty.mapParameters_tupleOf _ _).trans ?_
    rw [List.map_map]
    rfl
  specializations := by
    intro s hs
    obtain rfl := List.mem_singleton.mp hs
    exact ⟨rfl, _, rfl⟩
  values := capturedValues_items body.known
  valuesTy := capturedValues_ty body.known
  none_captured := by
    obtain ⟨statements, known⟩ := body
    rintro rfl
    exact ⟨rfl, rfl, rfl⟩

end

/-- **A generated call type-checks.** For a condition of the outcome type and a primitive with a type
parameter, the call that is made for a block fits the primitive and passes what the block captures to the
operation that is made of the block. It fits the operation as well if the captured types have no type
parameter of the callable that it does not declare, and none of the operation. -/
theorem applyBlock_typed (primitives : Primitives) (frame : Frame) (source : Statement)
    (outcome : Outcome) (condition : Expr) (body : Scope) (p : Progress)
    (hcondition : condition.ty = .outcome)
    (hprimitive : (primitives.forOutcome outcome).typeParameters ≠ []) :
    let out := (applyBlock primitives frame source outcome condition body).run p
    ∃ (call : ControlCall) (op : Callable) (paramTy : Ty),
      out.1.kind = .expression call.toExpr ∧ call.condition = condition ∧
      out.2.hoisted = p.hoisted ++ [op] ∧
      call.reference.global? = some op.name ∧ call.reference.ty = .operationOf paramTy .unit ∧
      op.signature.result = .unit ∧
      call.FitsPrimitive (primitives.forOutcome outcome) ∧
      (frame.Declares body.known op.name → call.FitsOperation op paramTy) ∧
      call.Passes op frame.name body.known := by
  let name := (p.names.freshCallable frame.name).1
  refine ⟨(primitives.forOutcome outcome).controlParts condition name body.known frame,
    (frame.operation name body source.info.comments).reroute frame.name name,
    .tupleOf (body.known.map (·.ty)), rfl, rfl, rfl, rfl, rfl, rfl, ?_, fun hdeclares => ?_, ?_⟩
  · exact Primitive.controlParts_fitsPrimitive name frame body.known hcondition hprimitive
  · have hargument := frame.resolve_argument name body.known hdeclares
    exact ⟨hargument, hargument.trans (congrArg Ty.unplaced (capturedValues_ty body.known).symm)⟩
  · exact Primitive.controlParts_passes name frame body source.info.comments

/-- The type parameter of the caller is one of the operation in its signature, and the caller's again with
the type arguments of the call. -/
theorem Sample.generic_typed :
    let frame := Frame.ofCallable Sample.generic
    let out := (applyBlock .standard frame (.expression .unit) .one (.localName "r" .outcome)
      Sample.genericBody).run { names := Sample.genericNames }
    ∃ (call : ControlCall) (op : Callable),
      out.1.kind = .expression call.toExpr ∧ out.2.hoisted = [op] ∧
      call.FitsPrimitive Primitives.standard.one ∧ frame.Declares Sample.genericBody.known op.name ∧
      op.signature.argument = .tupleOf [.qubit, .outcome, .parameterOf ⟨"Sample", "_ctrl1_Main"⟩ "T"] ∧
      (op.signature.argument.resolve call.reference.info.resolutions).unplaced =
        .tupleOf [.qubit, .outcome, Sample.given] := by
  obtain ⟨call, op, paramTy, hcall, -, hop, -, -, -, hprimitive, hoperation, hpasses⟩ :=
    applyBlock_typed .standard (.ofCallable Sample.generic) (.expression .unit) .one
      (.localName "r" .outcome) Sample.genericBody { names := Sample.genericNames } rfl (by decide)
  have hname : op.name = ⟨"Sample", "_ctrl1_Main"⟩ := by
    have hnames := congrArg (List.map Callable.name) hop
    refine (List.singleton_inj.mp (hnames.symm.trans ?_))
    decide +kernel
  have hdeclares : (Frame.ofCallable Sample.generic).Declares Sample.genericBody.known op.name := by
    intro v hv x hx
    rw [hname]
    simp only [Sample.genericBody, List.mem_cons, List.not_mem_nil, or_false] at hv
    obtain rfl | rfl | rfl := hv
    · simp [Sample.q, Ty.visits] at hx
    · simp [Sample.r, Ty.visits] at hx
    · obtain rfl : x = { origin := ⟨"Sample", "Main"⟩, name := "T" } := by
        simpa [Sample.carried, Sample.given, Ty.parameterOf, Ty.visits] using hx
      decide
  refine ⟨call, op, hcall, hop, hprimitive, hdeclares, ?_, ?_⟩
  · rw [hpasses.argument, hname]
    rfl
  · rw [(hoperation hdeclares).arguments, hpasses.valuesTy]
    rfl

end OutcomeControl
