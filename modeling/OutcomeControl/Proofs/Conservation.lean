import OutcomeControl.Proofs.Gathering
import OutcomeControl.Proofs.Yield

/-! No statement is lost, copied or moved where it does not belong.

The statements without blocks of a callable stay in it, in their order, or stand in the operations
made from its blocks; there they are as before, once the type parameters are those of the callable
again. All that is new are calls of the operations and bindings of conditions. `Conserves` is what a
run keeps, and `Namespace.lower_conserves` says it of whole namespaces. -/

namespace OutcomeControl

/-! ### Statements without blocks -/

/-- A sequence of calls has no other statements. -/
theorem Scope.filterMap_leaf? {body : Scope} (h : body.isCallSequence = true) :
    body.visits.filterMap Visit.leaf? = body.statements := by
  rw [Visit.content_leaf?.body, Statement.visitsList_eq, List.filterMap_flatMap, List.flatMap_def,
    List.map_congr_left fun s hs =>
      Statement.filterMap_leaf? (Statement.isLeaf_of_isUnitCall (Scope.of_isCallSequence h hs)),
    ← List.flatMap_def, List.flatMap_singleton']

/-- The statements without blocks in the bodies of an element. -/
def Element.leaves (e : Element) : List Statement := e.gather Visit.leaf?

def Callable.leaves (c : Callable) : List Statement := (Element.callable c).leaves

/-! ### What a run keeps -/

/-- The name that the statement binds once and for all. -/
def Statement.bound? (s : Statement) : Option String := match s.kind with
  | .binding ⟨.immutable, .name n, _⟩ => some n
  | _ => none

/-- A call that runs one of the operations made, or the binding of one of the variables bound. -/
def Statement.isGenerated (primitives : Primitives) (events : List Event) (s : Statement) : Bool :=
  (s.controlTarget? primitives).any (· ∈ events.filterMap Event.target?) ||
    s.bound?.any (· ∈ Event.variableNames events)

/-- The statements that are not generated. -/
def Statement.kept (primitives : Primitives) (events : List Event) (ss : List Statement) :
    List Statement :=
  ss.filter fun s => !s.isGenerated primitives events

/-- The statements of an operation that are not generated, with the type parameters of the callable
that they come from. -/
def Callable.restored (primitives : Primitives) (events : List Event) (source : QualifiedName)
    (op : Callable) : List Statement :=
  (Statement.kept primitives events op.leaves).map
    (Statement.mapParameters (TypeParameter.reroute op.name source))

section
variable (primitives : Primitives) (events : List Event)

@[simp] theorem Statement.kept_append (ss ts : List Statement) :
    kept primitives events (ss ++ ts) = kept primitives events ss ++ kept primitives events ts :=
  List.filter_append ..

theorem Statement.isGenerated_mapParameters (f : TypeParameter → TypeParameter) (s : Statement) :
    (s.mapParameters f).isGenerated primitives events = s.isGenerated primitives events := by
  have hbound : (s.mapParameters f).bound? = s.bound? := by
    obtain ⟨kind, info⟩ := s
    cases kind with
    | binding b =>
      obtain ⟨kind, lhs, rhs⟩ := b
      cases kind <;> cases lhs <;> rfl
    | _ => rfl
  rw [Statement.isGenerated, Statement.controlTarget?_mapParameters, hbound, Statement.isGenerated]

/-- All that was made so far is among the events. -/
structure Progress.Within (p : Progress) : Prop where
  operations : ∀ op ∈ p.hoisted, op.name ∈ events.filterMap Event.target?
  bound : ∀ n ∈ Event.variableNames p.report, n ∈ Event.variableNames events

/-- The owner of the type parameter that is met. -/
@[simp] def Visit.origin? : Visit → Option QualifiedName
  | .type (.parameter x) => some x.origin
  | _ => none

/-- None of the operations made owns a type parameter of the statement. -/
def Statement.Foreign (s : Statement) : Prop :=
  ∀ x, .type (.parameter x) ∈ s.visits → x.origin ∉ events.filterMap Event.target?

/-- `ys` stands in place of the statements `xs` of the callable `source`: what is kept stays in order,
and what is not a call stays; the rest is found in the operations made in between. -/
structure Conserves (source : QualifiedName) (xs : List Statement) (p : Progress)
    (ys : List Statement) (q : Progress) : Prop where
  report : p.report <+: q.report
  moved : ∃ made, q.hoisted = p.hoisted ++ made ∧ (q.Within events →
    (∀ s ∈ Statement.kept primitives events xs, s.Foreign events) →
      (Statement.kept primitives events ys).Sublist (Statement.kept primitives events xs) ∧
      (Statement.kept primitives events ys ++
        made.flatMap (Callable.restored primitives events source)).Perm
          (Statement.kept primitives events xs) ∧
      (Statement.kept primitives events ys).filter (!·.isUnitCall) =
        (Statement.kept primitives events xs).filter (!·.isUnitCall))

end

theorem perm_interchange {α : Type} (as bs cs ds : List α) :
    (as ++ bs ++ (cs ++ ds)).Perm (as ++ cs ++ (bs ++ ds)) := by
  rw [List.append_assoc, List.append_assoc]
  exact (List.perm_append_comm_assoc bs cs ds).append_left as

theorem Progress.Within.of_prefix {events : List Event} {p q : Progress} (h : q.Within events)
    (hhoisted : p.hoisted <+: q.hoisted) (hreport : p.report <+: q.report) : p.Within events := by
  refine ⟨fun op hop => h.operations op (hhoisted.subset hop), fun n hn => h.bound n ?_⟩
  exact (hreport.filterMap Event.variable?).subset hn

namespace Conserves
variable {primitives : Primitives} {events : List Event} {source : QualifiedName}
  {xs ys zs xs' ys' : List Statement} {p q r : Progress}

theorem of_eq (hreport : p.report <+: q.report) (hhoisted : q.hoisted = p.hoisted) :
    Conserves primitives events source xs p xs q :=
  ⟨hreport, [], by simp [hhoisted], fun _ _ => ⟨.refl _, by simp, rfl⟩⟩

theorem append (hxs : Conserves primitives events source xs p xs' q)
    (hys : Conserves primitives events source ys q ys' r) :
    Conserves primitives events source (xs ++ ys) p (xs' ++ ys') r := by
  obtain ⟨hreport, made, hmade, hfirst⟩ := hxs
  obtain ⟨hreport', more, hmore, hsecond⟩ := hys
  refine ⟨hreport.trans hreport', made ++ more, by rw [hmore, hmade, List.append_assoc], ?_⟩
  intro hwithin hforeign
  simp only [Statement.kept_append, List.mem_append] at hforeign ⊢
  obtain ⟨hsub, hperm, hstays⟩ := hfirst
    (hwithin.of_prefix (hmore ▸ List.prefix_append ..) hreport') fun s hs => hforeign s (.inl hs)
  obtain ⟨hsub', hperm', hstays'⟩ := hsecond hwithin fun s hs => hforeign s (.inr hs)
  refine ⟨hsub.append hsub', ?_, by rw [List.filter_append, hstays, hstays', List.filter_append]⟩
  rw [List.flatMap_append]
  exact (perm_interchange ..).trans (hperm.append hperm')

theorem trans (hxy : Conserves primitives events source xs p ys q)
    (hyz : Conserves primitives events source ys q zs r) :
    Conserves primitives events source xs p zs r := by
  obtain ⟨hreport, made, hmade, hfirst⟩ := hxy
  obtain ⟨hreport', more, hmore, hsecond⟩ := hyz
  refine ⟨hreport.trans hreport', made ++ more, by rw [hmore, hmade, List.append_assoc], ?_⟩
  intro hwithin hforeign
  obtain ⟨hsub, hperm, hstays⟩ := hfirst
    (hwithin.of_prefix (hmore ▸ List.prefix_append ..) hreport') hforeign
  obtain ⟨hsub', hperm', hstays'⟩ := hsecond hwithin fun s hs => hforeign s (hsub.subset hs)
  refine ⟨hsub'.trans hsub, ?_, hstays'.trans hstays⟩
  have hswap : (made.flatMap (Callable.restored primitives events source) ++
      more.flatMap (Callable.restored primitives events source)).Perm
        (more.flatMap (Callable.restored primitives events source) ++
          made.flatMap (Callable.restored primitives events source)) := List.perm_append_comm
  rw [List.flatMap_append]
  refine (hswap.append_left _).trans ?_
  rw [← List.append_assoc]
  exact (hperm'.append_right _).trans hperm

end Conserves

/-! ### A block that is moved out -/

theorem Frame.operation_leaves (frame : Frame) (name : QualifiedName) {body : Scope}
    (comments : Comments) (h : body.isCallSequence = true) (f : TypeParameter → TypeParameter) :
    ((frame.operation name body comments).mapParameters f).leaves =
      body.statements.map (Statement.mapParameters f) := by
  change (body.mapParameters f).visits.filterMap Visit.leaf? ++ [] = _
  rw [List.append_nil, Scope.filterMap_leaf? (body.isCallSequence_mapParameters f h)]
  obtain ⟨statements, known⟩ := body
  exact Statement.mapParametersList_eq f statements

section
variable {primitives : Primitives} {events : List Event}

/-- The operation made from a block gives its statements back. -/
theorem Frame.operation_restored (frame : Frame) {name : QualifiedName} {body : Scope}
    (comments : Comments) (h : body.isCallSequence = true)
    (hname : name ∈ events.filterMap Event.target?)
    (hforeign : ∀ s ∈ Statement.kept primitives events body.statements, s.Foreign events) :
    ((frame.operation name body comments).reroute frame.name name).restored primitives events
      frame.name = Statement.kept primitives events body.statements := by
  rw [Callable.restored, Callable.reroute, frame.operation_leaves name comments h, Statement.kept,
    List.filter_map]
  have hgenerated : ((fun s => !Statement.isGenerated primitives events s) ∘
      Statement.mapParameters (TypeParameter.reroute frame.name name)) =
        fun s => !Statement.isGenerated primitives events s :=
    funext fun s => congrArg (!·) (s.isGenerated_mapParameters primitives events _)
  rw [hgenerated, List.map_map]
  refine (List.map_congr_left fun s hs => ?_).trans (List.map_id _)
  refine (s.mapParameters_mapParameters ..).trans (s.mapParameters_eq_self fun x hx => ?_)
  exact TypeParameter.reroute_reroute fun heq => hforeign s hs x hx (heq ▸ hname)

theorem Statement.kept_replacedBy (source : Statement) (outcome : Outcome) (condition : Expr)
    {target : Target} (captured : List Variable) (frame : Frame)
    (h : target.name ∈ events.filterMap Event.target?) :
    Statement.kept primitives events [source.replacedBy
      ((primitives.forOutcome outcome).controlCall condition target captured frame)] = [] := by
  have hgenerated : (source.replacedBy ((primitives.forOutcome outcome).controlCall condition target
      captured frame)).isGenerated primitives events = true := by
    rw [Statement.isGenerated, Statement.controlTarget?_replacedBy, Option.any_some,
      decide_eq_true h, Bool.true_or]
  rw [Statement.kept, List.filter_cons_of_neg (by rw [hgenerated]; decide), List.filter_nil]

theorem Statement.kept_bindingOf (source : Statement) {name : String} (value : Expr)
    (h : name ∈ Event.variableNames events) :
    Statement.kept primitives events [source.bindingOf name value] = [] := by
  simp [Statement.kept, Statement.isGenerated, Statement.bindingOf, Statement.bound?, h]

theorem Conserves.gathers (primitives : Primitives) (events : List Event) (frame : Frame) :
    Gathers primitives frame Visit.leaf? (Conserves primitives events frame.name) fun _ => True where
  content := Visit.content_leaf?
  refl xs p := .of_eq List.prefix_rfl rfl
  note xs p event _ := .of_eq (List.prefix_append ..) rfl
  append := Conserves.append
  trans := Conserves.trans
  localName _ _ _ _ := trivial
  guard e p _ := by
    rw [Visit.filterMap_leaf? fun t => e.statement_notMem_visits t]
    exact .of_eq List.prefix_rfl rfl
  binding s value p _ := by
    rw [bindCondition_run]
    generalize p.names.freshVariable.1 = name
    rw [Statement.filterMap_leaf? (by trivial)]
    refine ⟨List.prefix_append .., [], (List.append_nil _).symm, fun hwithin _ => ?_⟩
    have hname : name ∈ Event.variableNames events := by
      refine hwithin.bound name ?_
      rw [Event.variableNames_append]
      exact List.mem_append_right _ (List.mem_singleton_self _)
    rw [s.kept_bindingOf value hname]
    exact ⟨.refl _, .refl _, rfl⟩
  block s outcome condition body p _ hbody := by
    rw [applyBlock_run]
    generalize (p.names.freshCallable frame.name).1 = name
    rw [Statement.filterMap_leaf? (by trivial), Scope.filterMap_leaf? hbody]
    refine ⟨List.prefix_append .., [_], rfl, fun hwithin hforeign => ?_⟩
    have hname : name ∈ events.filterMap Event.target? :=
      hwithin.operations _ (List.mem_append_right _ (List.mem_singleton_self _))
    have hcalls : ∀ t ∈ Statement.kept primitives events body.statements, t.isUnitCall = true :=
      fun t ht => Scope.of_isCallSequence hbody (List.mem_of_mem_filter ht)
    rw [s.kept_replacedBy outcome condition body.known frame hname, List.flatMap_singleton, List.nil_append,
      frame.operation_restored s.info.comments hbody hname hforeign]
    refine ⟨List.nil_sublist _, .refl _, ?_⟩
    exact (List.filter_eq_nil_iff.mpr fun t ht => by simp [hcalls t ht]).symm

end

/-! ### Namespaces -/

theorem Element.visits_leaf {e : Element} {s : Statement} (h : s ∈ e.leaves) :
    s.visits ⊆ e.visits := by
  obtain ⟨body, hbody, hs⟩ := List.mem_flatMap.mp h
  obtain ⟨v, hv, hleaf⟩ := List.mem_filterMap.mp hs
  obtain ⟨hstatement, -⟩ := Option.filter_eq_some_iff.mp hleaf
  cases v with
  | statement t =>
    obtain rfl := Option.some.inj hstatement
    exact List.Subset.trans (Scope.of_mem_visits body hv).visits_subset (Element.visits_body hbody)
  | _ => cases hstatement

theorem Statement.localName_of_bound? {s : Statement} {n : String} (h : s.bound? = some n) :
    .localName n ∈ s.visits := by
  obtain ⟨kind, info⟩ := s
  cases kind with
  | binding b =>
    obtain ⟨kind, lhs, rhs⟩ := b
    cases kind with
    | immutable =>
      cases lhs with
      | name m =>
        obtain rfl := Option.some.inj h
        simp [Statement.visits, StatementKind.visits, SymbolTuple.visits]
      | _ => cases h
    | mutable => cases h
  | _ => cases h

/-- A program whose names are reserved has no statement that looks generated. -/
theorem Element.kept_leaves {primitives : Primitives} {names : NameSupply} {events : List Event}
    (havoids : ∀ event ∈ events, event.Avoids names) {e : Element} (hnames : e.names ⊆ names.reserved) :
    Statement.kept primitives events e.leaves = e.leaves := by
  refine List.filter_eq_self.mpr fun s hs => ?_
  have hvisits := Element.visits_leaf hs
  rw [Bool.not_eq_true', Statement.isGenerated, Bool.or_eq_false_iff]
  constructor
  · cases htarget : s.controlTarget? primitives with
    | none => rfl
    | some q =>
      obtain ⟨v, hv, hreference⟩ := Statement.visits_of_controlTarget? htarget
      exact decide_eq_false fun hmem => Event.Avoids.target havoids hmem
        (hnames (Element.mem_names (hvisits hv) (Visit.mem_names_of_reference? hreference)))
  · cases hbound : s.bound? with
    | none => rfl
    | some n =>
      exact decide_eq_false fun hmem => Event.Avoids.variable havoids hmem
        (hnames (Element.mem_names (hvisits (Statement.localName_of_bound? hbound))
          (List.mem_singleton_self n)))

theorem Frame.Makes.leaves {frame : Frame} {op : Callable} (h : frame.Makes op) :
    ∀ s ∈ op.leaves, s.isUnitCall = true := by
  obtain ⟨name, body, comments, hbody, rfl⟩ := h
  rw [Callable.reroute, frame.operation_leaves name comments hbody]
  intro s hs
  obtain ⟨t, ht, rfl⟩ := List.mem_map.mp hs
  exact t.isUnitCall_mapParameters _ (Scope.of_isCallSequence hbody ht)

/-- The statements of an element are found again. -/
structure Yield.Conserved (primitives : Primitives) (events : List Event) (y : Yield) : Prop where
  /-- All of them stand in its place or in an operation, once each. -/
  perm : (Statement.kept primitives events y.after.leaves ++
    y.operations.flatMap (Callable.restored primitives events y.before.name)).Perm y.before.leaves
  /-- The operations have nothing but calls. -/
  calls : ∀ op ∈ y.operations, ∀ s ∈ op.leaves, s.isUnitCall = true
  /-- What is not moved keeps its order. -/
  order : (Statement.kept primitives events y.after.leaves).Sublist y.before.leaves
  /-- What is no call is not moved. -/
  stays : (Statement.kept primitives events y.after.leaves).filter (!·.isUnitCall) =
    y.before.leaves.filter (!·.isUnitCall)

/-- One element and the operations made from it. -/
theorem Yield.Arises.conserves {primitives : Primitives} {p q : Progress} {y : Yield}
    (h : y.Arises primitives p q) (events : List Event) :
    Conserves primitives events y.before.name y.before.leaves p y.after.leaves q := by
  have hgathers : ∀ c, y.before = .callable c → Gathers primitives (.ofCallable c) Visit.leaf?
      (Conserves primitives events y.before.name) fun _ => True := by
    intro c hc
    rw [hc]
    exact Conserves.gathers primitives events (.ofCallable c)
  have hbodies := Gathers.bodies hgathers (fun xs p => .of_eq List.prefix_rfl rfl)
    (fun _ _ _ _ => trivial) p
  rw [h.run] at hbodies
  exact hbodies

theorem Yield.perm_flatMap {primitives : Primitives} {events : List Event} {ys : List Yield}
    (h : ∀ y ∈ ys, y.Conserved primitives events) :
    (ys.flatMap (fun y => Statement.kept primitives events y.after.leaves) ++
      ys.flatMap fun y => y.operations.flatMap
        (Callable.restored primitives events y.before.name)).Perm
      ((ys.map Yield.before).flatMap Element.leaves) := by
  induction ys with
  | nil => exact .refl _
  | cons y ys ih =>
    simp only [List.flatMap_cons, List.map_cons]
    exact (perm_interchange ..).trans ((h y (List.mem_cons_self ..)).perm.append
      (ih fun z hz => h z (List.mem_cons_of_mem _ hz)))

/-- **No statement is lost, copied or moved elsewhere.** Let the supply reserve the names of a
namespace, let the search for each name that is drawn come to an end, and let no type parameter in the
namespace belong to an operation that is made. Then, without the generated ones, the statements that stand
in the elements afterwards and those of the operations, with their type parameters back where they
came from, are those of all bodies before; and each callable with the operations made from it conserves
its own. -/
theorem Namespace.lower_conserves (primitives : Primitives) (names : NameSupply) (ns : Namespace)
    (hnames : ∀ e ∈ ns.elements, e.names ⊆ names.reserved)
    (hends : ∀ e ∈ (ns.lower primitives names).report, e.Ends names)
    (horigins : ∀ e ∈ ns.elements, ∀ x, .type (.parameter x) ∈ e.visits →
      x.origin ∉ (ns.lower primitives names).targets) :
    let out := ns.lower primitives names
    let ys := ns.yields primitives names
    (ys.map Yield.before = ns.elements ∧ out.result.elements = Yield.elements ys) ∧
    (ys.flatMap (fun y => Statement.kept primitives out.report y.after.leaves) ++
      ys.flatMap fun y => y.operations.flatMap
        (Callable.restored primitives out.report y.before.name)).Perm
      (ns.elements.flatMap Element.leaves) ∧
    ∀ y ∈ ys, y.Conserved primitives out.report := by
  intro out ys
  obtain ⟨hbefore, hafter, -⟩ := ns.lower_yields primitives names
  have havoids : ∀ e ∈ out.report, e.Avoids names :=
    fun e he => ns.lower_avoids primitives names e he (hends e he)
  have hconserved : ∀ y ∈ ys, y.Conserved primitives out.report := by
    intro y hy
    obtain ⟨hmem, p, q, harises, -, htargets, hbound⟩ := Namespace.of_mem_yields primitives hy
    obtain ⟨-, made, hmade, hmoved⟩ := harises.conserves out.report
    obtain rfl : y.operations = made := List.append_cancel_left (harises.hoisted.symm.trans hmade)
    obtain ⟨hsub, hperm, hstays⟩ := hmoved ⟨htargets, hbound⟩ fun s hs x hx =>
      horigins y.before hmem x (Element.visits_leaf (List.mem_of_mem_filter hs) hx)
    rw [Element.kept_leaves havoids (hnames y.before hmem)] at hsub hperm hstays
    refine ⟨hperm, fun op hop => ?_, hsub, hstays⟩
    obtain ⟨c, -, hmakes⟩ := harises.makes op hop
    exact hmakes.leaves
  refine ⟨⟨hbefore, hafter⟩, ?_, hconserved⟩
  rw [← hbefore]
  exact Yield.perm_flatMap hconserved

namespace Sample

/-- The type parameter of the operation below. -/
def given : Ty := .parameterOf ⟨"Sample", "Main"⟩ "T"

def carried : Variable := { name := "v", ty := given }

/-- The call `Use(v)`. -/
def useGiven : Expr :=
  .call (.globalName ⟨"Sample", "Use"⟩ (some [given]) (.operationOf given .unit)) (.localName "v" given)
    .unit

/-- `let s = r; if M(q) == One { Use(v); } elif r == Zero { Use(v); Y(q); }`. -/
def genericBody : Scope :=
  let known := [q, r, carried]
  ⟨[.plain (.binding ⟨.immutable, .name "s", .localName "r" .outcome⟩),
    .conditional
      [(.equals (callOn "M" .outcome) (.outcome .one), ⟨[.expression useGiven], known⟩),
        (.equals (.localName "r" .outcome) (.outcome .zero),
          ⟨[.expression useGiven, .expression (callOn "Y" .unit)], known⟩)] none],
    known⟩

def generic : Callable :=
  let params : Params := .tuple [q.toParams, r.toParams, carried.toParams]
  let signature : Signature :=
    { typeParameters := [.valid "T"], argument := .tupleOf [.qubit, .outcome, given], result := .unit }
  { kind := .operation
    name := ⟨"Sample", "Main"⟩
    signature
    params
    specializations :=
      [{ kind := .body
         parent := ⟨"Sample", "Main"⟩
         signature
         implementation := .provided params genericBody }] }

def genericSpace : Namespace := ⟨"Sample", [.callable generic]⟩

def genericNames : NameSupply := .forCompilation ⟨[genericSpace], []⟩ {}

end Sample

/-- The second block is called from a third one, and the binding of `s` stays. -/
theorem Sample.generic_conserved :
    (Sample.genericSpace.lower .standard Sample.genericNames).targets =
        [⟨"Sample", "_ctrl1_Main"⟩, ⟨"Sample", "_ctrl3_Main"⟩, ⟨"Sample", "_ctrl4_Main"⟩] ∧
      ∃ y ∈ Sample.genericSpace.yields .standard Sample.genericNames, y.before.leaves.length = 4 ∧
        y.operations.length = 3 ∧
        y.Conserved .standard (Sample.genericSpace.lower .standard Sample.genericNames).report := by
  have htargets : (Sample.genericSpace.lower .standard Sample.genericNames).targets =
      [⟨"Sample", "_ctrl1_Main"⟩, ⟨"Sample", "_ctrl3_Main"⟩, ⟨"Sample", "_ctrl4_Main"⟩] := by
    decide +kernel
  have hnames : ∀ e ∈ Sample.genericSpace.elements, e.names ⊆ Sample.genericNames.reserved := by
    exact fun e he => Compilation.names_reserved (List.mem_singleton_self _) he {}
  have hends : ∀ e ∈ (Sample.genericSpace.lower .standard Sample.genericNames).report,
      e.Ends Sample.genericNames :=
    fun e _ => e.ends_of_length_lt (by decide +kernel)
  have horigins : ∀ e ∈ Sample.genericSpace.elements, ∀ x, .type (.parameter x) ∈ e.visits →
      x.origin ∉ (Sample.genericSpace.lower .standard Sample.genericNames).targets := by
    intro e he x hx
    obtain rfl := List.mem_singleton.mp he
    have hall : ∀ n ∈ (Element.callable Sample.generic).visits.filterMap Visit.origin?,
        n = ⟨"Sample", "Main"⟩ := by decide +kernel
    have horigin : x.origin = ⟨"Sample", "Main"⟩ := hall _ (List.mem_filterMap.mpr ⟨_, hx, rfl⟩)
    rw [horigin, htargets]
    decide
  obtain ⟨-, -, hconserved⟩ := Namespace.lower_conserves .standard Sample.genericNames
    Sample.genericSpace hnames hends horigins
  exact ⟨htargets, _, List.mem_cons_self .., by decide +kernel, by decide +kernel,
    hconserved _ (List.mem_cons_self ..)⟩

end OutcomeControl
