import Mathlib.Data.List.Forall2
import OutcomeControl.Proofs.Freshness

/-! Which variables are visible where, and that lowering keeps every reference to one in its scope.

A binding is visible in the statements after it, the symbols of a loop or of a qubit scope in its
body, and what a `repeat` block binds also in its test and its fixup. `Meets` walks over a body with
the visible names and asks something of every scope, expression and introduced name (`Rules`). Of a
body that comes in we know that each scope records the visible names and that every variable is
visible where it is used; `Compilation.lower_inScope` is the second of these for the program that
comes out. -/

namespace OutcomeControl

/-! ### Identifiers -/

mutual
/-- The identifiers that stand in an expression. -/
def Expr.identifiers : Expr → List Identifier
  | ⟨kind, _⟩ => kind.identifiers
def ExprKind.identifiers : ExprKind → List Identifier
  | .name id _ => [id]
  | .tuple items | .array items => Expr.identifiersList items
  | .binary _ lhs rhs => lhs.identifiers ++ rhs.identifiers
  | .unary _ operand => operand.identifiers
  | .item array index => array.identifiers ++ index.identifiers
  | .choice condition yes no => condition.identifiers ++ (yes.identifiers ++ no.identifiers)
  | .call callee argument => callee.identifiers ++ argument.identifiers
  | .unit | .int _ | .double _ | .bool _ | .string _ | .outcome _ | .missing | .invalid => []
def Expr.identifiersList : List Expr → List Identifier
  | [] => []
  | e :: es => e.identifiers ++ Expr.identifiersList es
end

mutual
theorem Expr.identifiers_mapParameters (f : TypeParameter → TypeParameter) :
    (e : Expr) → (e.mapParameters f).identifiers = e.identifiers
  | ⟨kind, _⟩ => kind.identifiers_mapParameters f
theorem ExprKind.identifiers_mapParameters (f : TypeParameter → TypeParameter) :
    (k : ExprKind) → (k.mapParameters f).identifiers = k.identifiers
  | .tuple items | .array items => Expr.identifiersList_mapParameters f items
  | .unary _ operand => operand.identifiers_mapParameters f
  | .binary _ lhs rhs => by
    simp only [ExprKind.mapParameters, ExprKind.identifiers, lhs.identifiers_mapParameters f,
      rhs.identifiers_mapParameters f]
  | .item array index => by
    simp only [ExprKind.mapParameters, ExprKind.identifiers, array.identifiers_mapParameters f,
      index.identifiers_mapParameters f]
  | .choice condition yes no => by
    simp only [ExprKind.mapParameters, ExprKind.identifiers, condition.identifiers_mapParameters f,
      yes.identifiers_mapParameters f, no.identifiers_mapParameters f]
  | .call callee argument => by
    simp only [ExprKind.mapParameters, ExprKind.identifiers, callee.identifiers_mapParameters f,
      argument.identifiers_mapParameters f]
  | .name _ _ | .unit | .int _ | .double _ | .bool _ | .string _ | .outcome _ => rfl
  | .missing | .invalid => rfl
theorem Expr.identifiersList_mapParameters (f : TypeParameter → TypeParameter) :
    (es : List Expr) → Expr.identifiersList (Expr.mapParametersList f es) = Expr.identifiersList es
  | [] => rfl
  | e :: es => by
    simp only [Expr.mapParametersList, Expr.identifiersList, e.identifiers_mapParameters f,
      Expr.identifiersList_mapParameters f es]
end

/-- The operand of a test stands in its guard. -/
theorem Expr.identifiers_of_outcomeComparison {e operand : Expr} {o : Outcome}
    (h : e.outcomeComparison? = some (o, operand)) : operand.identifiers ⊆ e.identifiers := by
  obtain ⟨kind, info⟩ := e
  cases kind with
  | binary op lhs rhs =>
    have hsides : operand = lhs ∨ operand = rhs := by
      unfold Expr.outcomeComparison? at h
      grind
    obtain rfl | rfl := hsides
    · exact List.subset_append_left ..
    · exact List.subset_append_right ..
  | _ => cases h

/-! ### Visible names -/

/-- The names that a statement makes visible in the statements after it. -/
def Statement.introduces (s : Statement) : List String := match s.kind with
  | .binding b => b.lhs.names
  | _ => []

/-- The names that are visible after some statements. -/
def Statement.visibleAfter : List Statement → List String → List String
  | [], visible => visible
  | s :: ss, visible => visibleAfter ss (s.introduces ++ visible)

/-- What is asked of the scopes and the expressions of a body, given the names that are visible
there, and of the names that are introduced. -/
structure Rules where
  scope : List String → Scope → Prop := fun _ _ => True
  expr : List String → Expr → Prop := fun _ _ => True
  symbols : List String → Prop := fun _ => True

mutual
/-- The rules hold throughout a statement, where these names are visible. -/
def Statement.Meets (R : Rules) : Statement → List String → Prop
  | ⟨.expression e, _⟩, visible | ⟨.returns e, _⟩, visible | ⟨.fails e, _⟩, visible => R.expr visible e
  | ⟨.binding b, _⟩, visible => R.expr visible b.rhs ∧ R.symbols b.lhs.names
  | ⟨.update lhs rhs, _⟩, visible => R.expr visible lhs ∧ R.expr visible rhs
  | ⟨.conditional branches, _⟩, visible => branches.Meets R visible
  | ⟨.forEach symbols _ iterable body, _⟩, visible =>
    R.expr visible iterable ∧ R.symbols symbols.names ∧ body.Meets R (symbols.names ++ visible)
  | ⟨.whileLoop condition body, _⟩, visible => R.expr visible condition ∧ body.Meets R visible
  | ⟨.repeatUntil block success fixup, _⟩, visible =>
    let after := Statement.visibleAfter block.body.statements visible
    block.Meets R visible ∧ R.expr after success ∧ fixup.Meets R after
  | ⟨.qubits _ binding body, _⟩, visible =>
    (∀ size ∈ binding.rhs.sizes, R.expr visible size) ∧ R.symbols binding.lhs.names ∧
      body.Meets R (binding.lhs.names ++ visible)
def Branches.Meets (R : Rules) : Branches → List String → Prop
  | .done, _ => True
  | .otherwise block, visible => block.Meets R visible
  | .arm condition block rest, visible =>
    R.expr visible condition ∧ block.Meets R visible ∧ rest.Meets R visible
def Block.Meets (R : Rules) : Block → List String → Prop
  | ⟨body, _, _⟩, visible => body.Meets R visible
def Scope.Meets (R : Rules) : Scope → List String → Prop
  | ⟨statements, known⟩, visible =>
    R.scope visible ⟨statements, known⟩ ∧ Statement.MeetsList R statements visible
def Statement.MeetsList (R : Rules) : List Statement → List String → Prop
  | [], _ => True
  | s :: ss, visible => s.Meets R visible ∧ Statement.MeetsList R ss (s.introduces ++ visible)
end

/-- A body, of whatever kind, meets the rules where its parameters are visible. -/
def Specialization.Meets (R : Rules) (s : Specialization) : Prop :=
  ∀ params scope, s.implementation = .provided params scope →
    R.symbols params.names ∧ scope.Meets R params.names

def Callable.Meets (R : Rules) (c : Callable) : Prop := ∀ s ∈ c.specializations, s.Meets R

def Element.Meets (R : Rules) : Element → Prop
  | .callable c => c.Meets R
  | .customType _ => True

/-- Every body of a program meets the rules. -/
def Compilation.Meets (R : Rules) (c : Compilation) : Prop :=
  ∀ ns ∈ c.namespaces, ∀ e ∈ ns.elements, e.Meets R

namespace Rules

/-- A scope records exactly the visible names. -/
def records : Rules where
  scope visible s := ∀ n, n ∈ s.known.map (·.name) ↔ n ∈ visible

/-- Every variable that is referred to is visible. -/
def resolves : Rules where
  expr visible e := ∀ n, .ofVariable n ∈ e.identifiers → n ∈ visible

end Rules

/-! ### Weaker rules and more names -/

theorem Scope.meets_iff {R : Rules} {s : Scope} {visible : List String} :
    s.Meets R visible ↔ R.scope visible s ∧ Statement.MeetsList R s.statements visible := by
  obtain ⟨statements, known⟩ := s
  rfl

theorem Block.meets_iff {R : Rules} {b : Block} {visible : List String} :
    b.Meets R visible ↔ R.scope visible b.body ∧ Statement.MeetsList R b.body.statements visible := by
  obtain ⟨⟨statements, known⟩, location, comments⟩ := b
  rfl

/-- More is visible further inside, too. -/
theorem append_subset_of_subset (names : List String) {visible more : List String}
    (h : visible ⊆ more) : names ++ visible ⊆ names ++ more :=
  List.append_subset.mpr
    ⟨List.subset_append_left .., List.Subset.trans h (List.subset_append_right ..)⟩

theorem Statement.visibleAfter_append (ss ts : List Statement) (visible : List String) :
    visibleAfter (ss ++ ts) visible = visibleAfter ts (visibleAfter ss visible) := by
  induction ss generalizing visible with
  | nil => rfl
  | cons s ss ih => exact ih _

theorem Statement.visibleAfter_mono (ss : List Statement) {visible more : List String}
    (h : visible ⊆ more) : visibleAfter ss visible ⊆ visibleAfter ss more := by
  induction ss generalizing visible more with
  | nil => exact h
  | cons s ss ih => exact ih (append_subset_of_subset _ h)

theorem Statement.subset_visibleAfter (ss : List Statement) (visible : List String) :
    visible ⊆ visibleAfter ss visible := by
  induction ss generalizing visible with
  | nil => exact List.Subset.refl _
  | cons s ss ih => exact List.Subset.trans (List.subset_append_right ..) (ih _)

theorem Statement.meetsList_append {R : Rules} (ss ts : List Statement) (visible : List String) :
    MeetsList R (ss ++ ts) visible ↔
      MeetsList R ss visible ∧ MeetsList R ts (visibleAfter ss visible) := by
  induction ss generalizing visible with
  | nil => simp [MeetsList, visibleAfter]
  | cons s ss ih => simp only [List.cons_append, MeetsList, visibleAfter, ih, and_assoc]

/-- Rules that ask less where more is visible. -/
structure Rules.Relaxes (R S : Rules) : Prop where
  scope : ∀ visible more s, visible ⊆ more → R.scope visible s → S.scope more s
  expr : ∀ visible more e, visible ⊆ more → R.expr visible e → S.expr more e
  symbols : ∀ names, R.symbols names → S.symbols names

mutual
theorem Statement.Meets.relax {R S : Rules} (h : R.Relaxes S) :
    (s : Statement) → {visible more : List String} → visible ⊆ more →
    s.Meets R visible → s.Meets S more
  | ⟨.expression e, _⟩, _, _, hsub, he | ⟨.returns e, _⟩, _, _, hsub, he
  | ⟨.fails e, _⟩, _, _, hsub, he => h.expr _ _ e hsub he
  | ⟨.binding b, _⟩, _, _, hsub, hb => ⟨h.expr _ _ b.rhs hsub hb.1, h.symbols _ hb.2⟩
  | ⟨.update lhs rhs, _⟩, _, _, hsub, hu => ⟨h.expr _ _ lhs hsub hu.1, h.expr _ _ rhs hsub hu.2⟩
  | ⟨.conditional branches, _⟩, _, _, hsub, hb => Branches.Meets.relax h branches hsub hb
  | ⟨.forEach _ _ iterable body, _⟩, _, _, hsub, hb =>
    ⟨h.expr _ _ iterable hsub hb.1, h.symbols _ hb.2.1,
      Scope.Meets.relax h body (append_subset_of_subset _ hsub) hb.2.2⟩
  | ⟨.whileLoop condition body, _⟩, _, _, hsub, hb =>
    ⟨h.expr _ _ condition hsub hb.1, Scope.Meets.relax h body hsub hb.2⟩
  | ⟨.repeatUntil block success fixup, _⟩, _, _, hsub, hb =>
    have hafter := Statement.visibleAfter_mono block.body.statements hsub
    ⟨Block.Meets.relax h block hsub hb.1, h.expr _ _ success hafter hb.2.1,
      Block.Meets.relax h fixup hafter hb.2.2⟩
  | ⟨.qubits _ _ body, _⟩, _, _, hsub, hb =>
    ⟨fun size hsize => h.expr _ _ size hsub (hb.1 size hsize), h.symbols _ hb.2.1,
      Scope.Meets.relax h body (append_subset_of_subset _ hsub) hb.2.2⟩
theorem Branches.Meets.relax {R S : Rules} (h : R.Relaxes S) :
    (b : Branches) → {visible more : List String} → visible ⊆ more →
    b.Meets R visible → b.Meets S more
  | .done, _, _, _, _ => trivial
  | .otherwise block, _, _, hsub, hb => Block.Meets.relax h block hsub hb
  | .arm condition block rest, _, _, hsub, hb =>
    ⟨h.expr _ _ condition hsub hb.1, Block.Meets.relax h block hsub hb.2.1,
      Branches.Meets.relax h rest hsub hb.2.2⟩
theorem Block.Meets.relax {R S : Rules} (h : R.Relaxes S) :
    (b : Block) → {visible more : List String} → visible ⊆ more →
    b.Meets R visible → b.Meets S more
  | ⟨body, _, _⟩, _, _, hsub, hb => Scope.Meets.relax h body hsub hb
theorem Scope.Meets.relax {R S : Rules} (h : R.Relaxes S) :
    (s : Scope) → {visible more : List String} → visible ⊆ more →
    s.Meets R visible → s.Meets S more
  | ⟨statements, _⟩, _, _, hsub, hs =>
    ⟨h.scope _ _ _ hsub hs.1, Statement.MeetsList.relax h statements hsub hs.2⟩
theorem Statement.MeetsList.relax {R S : Rules} (h : R.Relaxes S) :
    (ss : List Statement) → {visible more : List String} → visible ⊆ more →
    Statement.MeetsList R ss visible → Statement.MeetsList S ss more
  | [], _, _, _, _ => trivial
  | s :: ss, _, _, hsub, hs => ⟨Statement.Meets.relax h s hsub hs.1,
      Statement.MeetsList.relax h ss (append_subset_of_subset _ hsub) hs.2⟩
end

theorem Rules.resolves_relaxes : Rules.resolves.Relaxes Rules.resolves :=
  ⟨fun _ _ _ _ _ => trivial, fun _ _ _ hsub he n hn => hsub (he n hn), fun _ _ => trivial⟩

/-! ### Calls -/

theorem Statement.meets_of_isUnitCall {R : Rules} {s : Statement} (h : s.isUnitCall = true)
    (visible : List String) :
    s.introduces = [] ∧ (s.Meets R visible ↔ ∀ e ∈ s.kind.expressions, R.expr visible e) := by
  obtain ⟨kind, info⟩ := s
  cases kind with
  | expression e => exact ⟨rfl, (List.forall_mem_singleton (p := R.expr visible)).symm⟩
  | _ => cases h

/-- What is asked of calls in a row is asked of each with the same names visible. -/
theorem Statement.meetsList_of_calls {R : Rules} {ss : List Statement}
    (h : ss.all Statement.isUnitCall = true) (visible : List String) :
    Statement.MeetsList R ss visible ↔ ∀ s ∈ ss, ∀ e ∈ s.kind.expressions, R.expr visible e := by
  induction ss with
  | nil => simp [Statement.MeetsList]
  | cons s ss ih =>
    simp only [List.all_cons, Bool.and_eq_true] at h
    obtain ⟨hintro, hmeets⟩ := Statement.meets_of_isUnitCall (R := R) h.1 visible
    rw [Statement.MeetsList, hintro, List.nil_append, ih h.2, hmeets, List.forall_mem_cons]

theorem capturedValues_identifiers (captured : List Variable) :
    (capturedValues captured).identifiers = captured.map (.ofVariable ·.name) := by
  have hlist : ∀ vs : List Variable, Expr.identifiersList
      (vs.map fun v => .localName v.name v.ty) = vs.map (.ofVariable ·.name) := by
    intro vs
    induction vs with
    | nil => rfl
    | cons v vs ih => exact congrArg (Identifier.ofVariable v.name :: ·) ih
  cases captured with
  | nil => rfl
  | cons v vs => exact hlist (v :: vs)

/-- A generated call names the primitive, the condition, the operation and what it captures. -/
theorem Primitive.controlCall_identifiers (p : Primitive) (condition : Expr) (target : Target)
    (captured : List Variable) (frame : Frame) :
    (p.controlCall condition target captured frame).identifiers =
      .ofCallable p.name :: (condition.identifiers ++
        .ofCallable target.name :: captured.map (.ofVariable ·.name)) := by
  rw [← capturedValues_identifiers]
  change _ :: (condition.identifiers ++ ((_ :: ((capturedValues captured).identifiers ++ [])) ++ []))
    = _
  rw [List.append_nil, List.append_nil]

mutual
theorem Params.names_mapParameters (f : TypeParameter → TypeParameter) :
    (ps : Params) → (ps.mapParameters f).names = ps.names
  | .item _ => rfl
  | .tuple items => Params.namesList_mapParameters f items
theorem Params.namesList_mapParameters (f : TypeParameter → TypeParameter) :
    (ps : List Params) → Params.namesList (Params.mapParametersList f ps) = Params.namesList ps
  | [] => rfl
  | p :: ps => by
    rw [Params.mapParametersList, Params.namesList, Params.namesList, p.names_mapParameters f,
      Params.namesList_mapParameters f ps]
end

theorem Params.names_captured (known : List Variable) :
    (Params.tuple (known.map Variable.toParams)).names = known.map (·.name) := by
  change Params.namesList (known.map Variable.toParams) = _
  induction known with
  | nil => rfl
  | cons v vs ih => exact congrArg (v.name :: ·) ih

theorem Statement.mem_mapParametersList {f : TypeParameter → TypeParameter} {ss : List Statement}
    {t : Statement} : t ∈ Statement.mapParametersList f ss ↔ ∃ s ∈ ss, s.mapParameters f = t := by
  induction ss with
  | nil => simp [Statement.mapParametersList]
  | cons s ss ih => simp [Statement.mapParametersList, ih, eq_comm]

/-- Nothing but calls, in which every variable is a parameter. -/
def Callable.Closed (c : Callable) : Prop :=
  ∀ s ∈ c.specializations, ∀ params scope, s.implementation = .provided params scope →
    params.names = c.params.names ∧ scope.isCallSequence = true ∧
      ∀ t ∈ scope.statements, ∀ e ∈ t.kind.expressions, ∀ n, .ofVariable n ∈ e.identifiers →
        n ∈ c.params.names

theorem Callable.Closed.meets {c : Callable} (h : c.Closed) : c.Meets .resolves := by
  intro s hs params scope himpl
  obtain ⟨hparams, hcalls, hlocals⟩ := h s hs params scope himpl
  refine ⟨trivial, ?_⟩
  obtain ⟨statements, known⟩ := scope
  refine ⟨trivial, (Statement.meetsList_of_calls hcalls _).mpr ?_⟩
  rw [hparams]
  exact hlocals

/-! ### Lowering -/

/-- A block of calls that records the visible names and uses no others. -/
structure Scope.Movable (s : Scope) (visible : List String) : Prop where
  calls : s.isCallSequence = true
  known : ∀ n, n ∈ s.known.map (·.name) ↔ n ∈ visible
  resolves : Statement.MeetsList .resolves s.statements visible

theorem Scope.Movable.closed {s : Scope} {visible : List String} (h : s.Movable visible)
    (frame : Frame) (name : QualifiedName) (comments : Comments) :
    ((frame.operation name s comments).reroute frame.name name).Closed := by
  intro spec hspec params scope himpl
  obtain rfl := List.mem_singleton.mp hspec
  injection himpl with hparams hscope
  subst hparams hscope
  refine ⟨rfl, s.isCallSequence_mapParameters _ h.calls, fun t ht e he n hn => ?_⟩
  change n ∈ ((Params.tuple (s.known.map Variable.toParams)).mapParameters _).names
  rw [Params.names_mapParameters, Params.names_captured, h.known]
  obtain ⟨statements, known⟩ := s
  obtain ⟨u, hu, rfl⟩ := Statement.mem_mapParametersList.mp ht
  obtain ⟨callee, argument, info, hkind⟩ :=
    Statement.of_isUnitCall (Scope.of_isCallSequence h.calls hu)
  obtain ⟨kind, uinfo⟩ := u
  obtain rfl : kind = _ := hkind
  obtain rfl := List.mem_singleton.mp he
  rw [Expr.identifiers_mapParameters] at hn
  exact (Statement.meetsList_of_calls h.calls visible).mp h.resolves _ hu _
    (List.mem_singleton_self _) n hn

section
variable (primitives : Primitives) (frame : Frame)

theorem applyBlock_resolves (s : Statement) (outcome : Outcome) {condition : Expr} {body : Scope}
    {visible more : List String} (hbody : body.Movable visible) (hsub : visible ⊆ more)
    (hcondition : Rules.resolves.expr more condition) (p : Progress) :
    ((applyBlock primitives frame s outcome condition body).run p).1.Meets .resolves more ∧
      p.Adds Callable.Closed ((applyBlock primitives frame s outcome condition body).run p).2 := by
  refine ⟨fun n hn => ?_, .of_hoisted_eq rfl (hbody.closed frame _ _)⟩
  rw [Primitive.controlCall_identifiers] at hn
  simp only [List.mem_cons, List.mem_append, List.mem_map, reduceCtorEq, false_or] at hn
  obtain hn | ⟨v, hv, heq⟩ := hn
  · exact hcondition n hn
  · injection heq with heq
    exact hsub ((hbody.known n).mp (List.mem_map.mpr ⟨v, hv, heq⟩))

theorem applyTest_resolves (s : Statement) {t : OutcomeTest} {visible more : List String}
    (hbodies : ∀ b ∈ t.bodies, b.Movable visible) (hsub : visible ⊆ more)
    (hcondition : Rules.resolves.expr more t.condition) (p : Progress) :
    Statement.MeetsList .resolves ((applyTest primitives frame s t).run p).1 more ∧
      p.Adds Callable.Closed ((applyTest primitives frame s t).run p).2 := by
  obtain ⟨outcome, condition, body, default⟩ := t
  obtain ⟨hyes, hadds⟩ :=
    applyBlock_resolves primitives frame s outcome (hbodies body (List.mem_cons_self ..)) hsub
      hcondition p
  cases default with
  | none => exact ⟨⟨hyes, trivial⟩, hadds⟩
  | some block =>
    obtain ⟨hno, hadds'⟩ := applyBlock_resolves primitives frame s outcome.opposite
      (hbodies block (List.mem_cons_of_mem _ (List.mem_singleton_self _))) hsub hcondition
      ((applyBlock primitives frame s outcome condition body).run p).2
    exact ⟨⟨hyes, hno, trivial⟩, hadds.trans hadds'⟩

theorem Branches.Meets.of_mem {R : Rules} {visible : List String} : {b : Branches} →
    b.Meets R visible → (∀ block ∈ b.blocks, block.Meets R visible) ∧
      ∀ arm ∈ b.arms, R.expr visible arm.1
  | .done, _ => ⟨fun _ h => (by cases h), fun _ h => (by cases h)⟩
  | .otherwise _, h => ⟨List.forall_mem_singleton.mpr h, fun _ h => (by cases h)⟩
  | .arm _ _ _, h => ⟨List.forall_mem_cons.mpr ⟨h.2.1, (of_mem h.2.2).1⟩,
      List.forall_mem_cons.mpr ⟨h.1, (of_mem h.2.2).2⟩⟩

/-- The blocks of a test that can be moved out, and what its condition refers to. -/
theorem Branches.movable_of_outcomeTest {below : Branches} {info : StatementInfo}
    {visible : List String} {t : OutcomeTest} (hbelow : below.Meets .resolves visible)
    (hknown : ∀ b ∈ below.blocks, ∀ n, n ∈ b.body.known.map (·.name) ↔ n ∈ visible)
    (ht : Statement.outcomeTest? ⟨.conditional below, info⟩ = some t) (hsep : t.isSeparable = true) :
    (∀ b ∈ t.bodies, b.Movable visible) ∧ Rules.resolves.expr visible t.condition := by
  obtain ⟨hbodies, arm, harm, hguard⟩ := Statement.of_separable ht hsep
  refine ⟨fun b hb => ?_, fun n hn => ?_⟩
  · obtain ⟨hcalls, block, hblock, rfl⟩ := hbodies b hb
    exact ⟨hcalls, hknown block hblock, (Block.meets_iff.mp (hbelow.of_mem.1 block hblock)).2⟩
  · exact hbelow.of_mem.2 arm harm n (Expr.identifiers_of_outcomeComparison hguard hn)

theorem conclude_resolves {below : Branches} (info : StatementInfo) {visible : List String}
    (hbelow : below.Meets .resolves visible)
    (hknown : ∀ b ∈ below.blocks, ∀ n, n ∈ b.body.known.map (·.name) ↔ n ∈ visible)
    (p : Progress) :
    Statement.MeetsList .resolves
        ((conclude primitives frame ⟨.conditional below, info⟩).run p).1 visible ∧
      p.Adds Callable.Closed
        ((conclude primitives frame ⟨.conditional below, info⟩).run p).2 := by
  obtain ⟨event, -, heq, -⟩ | ⟨t, ht, hsep, -, heq⟩ | ⟨t, ht, hsep, -, heq⟩ :=
    conclude_cases primitives frame ⟨.conditional below, info⟩ p
  · rw [heq]
    exact ⟨⟨hbelow, trivial⟩, .refl p⟩
  · obtain ⟨hbodies, hcondition⟩ := Branches.movable_of_outcomeTest hbelow hknown ht hsep
    rw [heq]
    exact applyTest_resolves primitives frame _ hbodies (List.Subset.refl _) hcondition p
  · obtain ⟨hbodies, hcondition⟩ := Branches.movable_of_outcomeTest hbelow hknown ht hsep
    rw [heq]
    -- The calls see the new variable besides what the conditional saw.
    obtain ⟨hcalls, hadds⟩ := applyTest_resolves primitives frame ⟨.conditional below, info⟩
      (t := { t with condition := ((bindCondition _ t.condition).run p).1.2 }) hbodies
      (List.subset_cons_self p.names.freshVariable.1 visible)
      (fun n hn => by
        obtain heq := List.mem_singleton.mp hn
        injection heq with heq
        exact heq ▸ List.mem_cons_self ..)
      ((bindCondition ⟨.conditional below, info⟩ t.condition).run p).2
    exact ⟨⟨⟨hcondition, trivial⟩, hcalls⟩, hadds⟩

/-- Where scopes record the visible names, what takes the place of a body refers to visible names
only. The induction also follows which names stay visible and what the blocks of a chain record. -/
theorem Scope.lower_resolves (scope : Scope) {visible : List String}
    (hrecords : scope.Meets .records visible) (hresolves : scope.Meets .resolves visible)
    (p : Progress) :
    ((scope.lower primitives frame).run p).1.Meets .resolves visible ∧
      p.Adds Callable.Closed ((scope.lower primitives frame).run p).2 := by
  rw [Scope.lower_run]
  rw [Scope.meets_iff] at hrecords hresolves
  have hlist := ((lower_induction primitives frame
    (P := fun s p out q => ∀ visible, s.Meets .records visible → s.Meets .resolves visible →
      Statement.MeetsList .resolves out visible ∧
        s.introduces ++ visible ⊆ Statement.visibleAfter out visible ∧ p.Adds Callable.Closed q)
    (L := fun ss p out q => ∀ visible, Statement.MeetsList .records ss visible →
      Statement.MeetsList .resolves ss visible → Statement.MeetsList .resolves out visible ∧
        Statement.visibleAfter ss visible ⊆ Statement.visibleAfter out visible ∧
        p.Adds Callable.Closed q)
    (Q := fun _ b p below q => ∀ visible, b.Meets .records visible → b.Meets .resolves visible →
      below.Meets .resolves visible ∧
        (∀ b ∈ below.blocks, ∀ n, n ∈ b.body.known.map (·.name) ↔ n ∈ visible) ∧
        p.Adds Callable.Closed q)
    ?nil ?cons ?leaf ?forEach ?whileLoop ?repeatUntil ?qubits ?conditional ?done ?otherwise ?last
    ?nested).2.1 scope.statements p).2 visible hrecords.2 hresolves.2
  · exact ⟨⟨trivial, hlist.1⟩, hlist.2.2⟩
  case nil => exact fun p visible _ _ => ⟨trivial, List.Subset.refl _, .refl p⟩
  case cons =>
    intro s ss p out q outs r _ _ hs hss visible hrec hres
    obtain ⟨hout, hsub, hadds⟩ := hs visible hrec.1 hres.1
    obtain ⟨houts, hsub', hadds'⟩ := hss _ hrec.2 hres.2
    rw [Statement.meetsList_append, Statement.visibleAfter_append]
    exact ⟨⟨hout, Statement.MeetsList.relax Rules.resolves_relaxes outs hsub houts⟩,
      List.Subset.trans hsub' (Statement.visibleAfter_mono outs hsub), hadds.trans hadds'⟩
  case leaf =>
    exact fun kind info p _ visible _ hres => ⟨⟨hres, trivial⟩, List.Subset.refl _, .refl p⟩
  case forEach =>
    intro symbols itemTy iterable body info p out q _ hbody visible hrec hres
    obtain ⟨hout, -, hadds⟩ :=
      hbody _ (Scope.meets_iff.mp hrec.2.2).2 (Scope.meets_iff.mp hres.2.2).2
    exact ⟨⟨⟨hres.1, trivial, trivial, hout⟩, trivial⟩, List.Subset.refl _, hadds⟩
  case whileLoop =>
    intro condition body info p out q _ hbody visible hrec hres
    obtain ⟨hout, -, hadds⟩ := hbody _ (Scope.meets_iff.mp hrec.2).2 (Scope.meets_iff.mp hres.2).2
    exact ⟨⟨⟨hres.1, trivial, hout⟩, trivial⟩, List.Subset.refl _, hadds⟩
  case repeatUntil =>
    intro block success fixup info p out q outs r _ _ hblock hfixup visible hrec hres
    obtain ⟨hout, hsub, hadds⟩ :=
      hblock _ (Block.meets_iff.mp hrec.1).2 (Block.meets_iff.mp hres.1).2
    obtain ⟨houts, -, hadds'⟩ :=
      hfixup _ (Block.meets_iff.mp hrec.2.2).2 (Block.meets_iff.mp hres.2.2).2
    refine ⟨⟨⟨⟨trivial, hout⟩, fun n hn => hsub (hres.2.1 n hn), trivial, ?_⟩, trivial⟩,
      List.Subset.refl _, hadds.trans hadds'⟩
    exact Statement.MeetsList.relax Rules.resolves_relaxes outs hsub houts
  case qubits =>
    intro kind binding body info p out q _ hbody visible hrec hres
    obtain ⟨hout, -, hadds⟩ :=
      hbody _ (Scope.meets_iff.mp hrec.2.2).2 (Scope.meets_iff.mp hres.2.2).2
    exact ⟨⟨⟨hres.1, trivial, trivial, hout⟩, trivial⟩, List.Subset.refl _, hadds⟩
  case conditional =>
    intro branches info p below q _ hbranches visible hrec hres
    obtain ⟨hbelow, hknown, hadds⟩ := hbranches visible hrec hres
    obtain ⟨hout, hadds'⟩ := conclude_resolves primitives frame info hbelow hknown q
    exact ⟨hout, Statement.subset_visibleAfter _ _, hadds.trans hadds'⟩
  case done => exact fun _ p visible _ _ => ⟨trivial, fun b hb => (by cases hb), .refl p⟩
  case otherwise =>
    intro block info p out q _ hblock visible hrec hres
    obtain ⟨hrec, hrecs⟩ := Block.meets_iff.mp hrec
    obtain ⟨hout, -, hadds⟩ := hblock visible hrecs (Block.meets_iff.mp hres).2
    exact ⟨⟨trivial, hout⟩, List.forall_mem_singleton.mpr hrec, hadds⟩
  case last =>
    intro condition block rest info p out q below r _ _ hblock hrest _ visible hrec hres
    obtain ⟨hrecBlock, hrecs⟩ := Block.meets_iff.mp hrec.2.1
    obtain ⟨hout, -, hadds⟩ := hblock visible hrecs (Block.meets_iff.mp hres.2.1).2
    obtain ⟨hbelow, hknown, hadds'⟩ := hrest visible hrec.2.2 hres.2.2
    exact ⟨⟨hres.1, ⟨trivial, hout⟩, hbelow⟩, List.forall_mem_cons.mpr ⟨hrecBlock, hknown⟩,
      hadds.trans hadds'⟩
  case nested =>
    intro condition block rest info p out q c b below r _ _ hblock hrest visible hrec hres
    obtain ⟨hrecBlock, hrecs⟩ := Block.meets_iff.mp hrec.2.1
    obtain ⟨hout, -, hadds⟩ := hblock visible hrecs (Block.meets_iff.mp hres.2.1).2
    obtain ⟨hbelow, hknown, hadds'⟩ := hrest visible hrec.2.2 hres.2.2
    obtain ⟨hinner, hadds''⟩ := conclude_resolves primitives frame info hbelow hknown r
    -- The new default block is described as the second guarded block, so it records the same names.
    exact ⟨⟨hres.1, ⟨trivial, hout⟩, trivial, hinner⟩,
      List.forall_mem_cons.mpr ⟨hrecBlock,
        List.forall_mem_singleton.mpr (hknown b (List.mem_cons_self ..))⟩,
      (hadds.trans hadds').trans hadds''⟩

end

section
variable (primitives : Primitives)

theorem Specialization.lower_resolves (frame : Frame) (s : Specialization)
    (hrecords : s.Meets .records) (hresolves : s.Meets .resolves) (p : Progress) :
    ((s.lower primitives frame).run p).1.Meets .resolves ∧
      p.Adds Callable.Closed ((s.lower primitives frame).run p).2 := by
  obtain ⟨params, scope, -, himpl, heq⟩ | ⟨-, heq⟩ := s.lower_cases primitives frame p
  · obtain ⟨hscope, hadds⟩ := scope.lower_resolves primitives frame
      (hrecords params scope himpl).2 (hresolves params scope himpl).2 p
    rw [heq]
    refine ⟨fun params' scope' himpl' => ?_, hadds⟩
    injection himpl' with hparams hscope'
    subst hparams hscope'
    exact ⟨trivial, hscope⟩
  · rw [heq]
    exact ⟨hresolves, .refl p⟩

theorem Element.lower_resolves (e : Element) (hrecords : e.Meets .records)
    (hresolves : e.Meets .resolves) (p : Progress) :
    ((e.lower primitives).run p).1.Meets .resolves ∧
      p.Adds Callable.Closed ((e.lower primitives).run p).2 := by
  cases e with
  | customType t => exact ⟨trivial, .refl p⟩
  | callable c =>
    have hchain := (Chain.mapM (Specialization.lower primitives (.ofCallable c)) c.specializations
      p).imp (S := fun _ p b q => b.Meets .resolves ∧ p.Adds Callable.Closed q)
      fun s hs p b q hrun => by
        have hs' := s.lower_resolves primitives (.ofCallable c) (hrecords s hs) (hresolves s hs) p
        rw [hrun] at hs'
        exact hs'
    rw [Element.lower_callable_run]
    refine ⟨fun s hs => ?_, hchain.preorder .refl (fun _ _ _ => .trans) fun _ _ _ _ h => h.2⟩
    obtain ⟨_, -, _, _, h, -⟩ := hchain.of_mem hs
    exact h

theorem Namespace.lower_resolves (names : NameSupply) (ns : Namespace)
    (hrecords : ∀ e ∈ ns.elements, e.Meets .records)
    (hresolves : ∀ e ∈ ns.elements, e.Meets .resolves) :
    (∀ e ∈ (ns.lower primitives names).result.elements, e.Meets .resolves) ∧
      ∃ operations : List Callable, (∀ d ∈ operations, d.Closed) ∧
        (ns.lower primitives names).result.elements.drop ns.elements.length =
          operations.map .callable := by
  obtain ⟨elements, p, hrun, -, heq⟩ := ns.lower_chain primitives names
  have hchain := hrun.imp (S := fun _ p b q => b.Meets .resolves ∧ p.Adds Callable.Closed q)
    fun e he p b q hrun => by
      have he' := e.lower_resolves primitives (hrecords e he) (hresolves e he) p
      rw [hrun] at he'
      exact he'
  have hclosed : ∀ d ∈ p.hoisted, d.Closed :=
    (hchain.preorder (S := Progress.Adds Callable.Closed) .refl (fun _ _ _ => .trans)
      (fun _ _ _ _ h => h.2)).forall_mem rfl
  have hlength : elements.length = ns.elements.length := by
    simpa using congrArg List.length (hchain.map_eq (fun _ => ()) (fun _ => ()) fun _ _ _ _ _ => rfl)
  rw [heq]
  refine ⟨fun e he => ?_, p.hoisted, hclosed, ?_⟩
  · obtain he | he := List.mem_append.mp he
    · obtain ⟨_, -, _, _, h, -⟩ := hchain.of_mem he
      exact h
    · obtain ⟨d, hd, rfl⟩ := List.mem_map.mp he
      exact (hclosed d hd).meets
  · rw [← hlength, List.drop_left]

end

/-- **Lowering keeps scoping.** Where every scope records the visible names and every variable is
visible, every variable is visible in the program that comes out; in the operations that follow the
elements of a namespace every variable is a parameter. -/
theorem Compilation.lower_inScope (c : Compilation) (options : Options)
    (hrecords : c.Meets .records) (hresolves : c.Meets .resolves) :
    (c.lower options).result.Meets .resolves ∧
      List.Forall₂ (fun before after : Namespace => ∃ operations : List Callable,
          (∀ d ∈ operations, d.Closed) ∧
            after.elements.drop before.elements.length = operations.map .callable)
        c.namespaces (c.lower options).result.namespaces := by
  obtain ⟨namespaces, entryPoints⟩ := c
  change ∀ ns ∈ namespaces, _ at hrecords hresolves
  rw [Compilation.lower_eq]
  generalize NameSupply.forCompilation _ options.settings = names
  unfold Compilation.Meets
  dsimp only
  induction namespaces generalizing names with
  | nil => exact ⟨fun ns hns => (by cases hns), .nil⟩
  | cons ns nss ih =>
    obtain ⟨hns, hoperations⟩ := ns.lower_resolves options.primitives names
      (hrecords ns (List.mem_cons_self ..)) (hresolves ns (List.mem_cons_self ..))
    obtain ⟨hnss, hall⟩ := ih (fun m hm => hrecords m (List.mem_cons_of_mem _ hm))
      (fun m hm => hresolves m (List.mem_cons_of_mem _ hm)) (ns.lower options.primitives names).names
    exact ⟨List.forall_mem_cons.mpr ⟨hns, hnss⟩, .cons hoperations hall⟩

theorem Sample.program_meets {R : Rules} (hsymbols : R.symbols ["q", "r"])
    (hbody : Sample.body.Meets R ["q", "r"]) : Sample.program.Meets R := by
  intro ns hns e he
  obtain rfl := List.mem_singleton.mp hns
  simp only [List.mem_cons, List.not_mem_nil, or_false] at he
  rcases he with rfl | rfl <;> intro s hs params scope himpl <;>
    obtain rfl := List.mem_singleton.mp hs <;> cases himpl
  exact ⟨hsymbols, hbody⟩

theorem Sample.program_records : Sample.program.Meets .records := by
  refine Sample.program_meets trivial ⟨fun _ => .rfl, ⟨trivial, ⟨fun _ => .rfl, trivial, trivial⟩,
    trivial, ⟨fun _ => .rfl, trivial, trivial⟩, fun _ => .rfl, trivial, trivial⟩, trivial⟩

theorem Sample.program_inScope :
    Sample.program.Meets .records ∧ Sample.program.Meets .resolves ∧
      (Sample.program.lower {}).result.Meets .resolves := by
  have hresolves : Sample.program.Meets .resolves := by
    refine Sample.program_meets trivial ⟨trivial, ⟨?_, ⟨trivial, ?_, trivial⟩, ?_,
      ⟨trivial, ?_, trivial⟩, trivial, ?_, trivial⟩, trivial⟩ <;> intro n hn
    all_goals
      simp [Expr.equals, Expr.binary, Expr.plain, Expr.identifiers, ExprKind.identifiers,
        Sample.callOn, Expr.call, Expr.globalName, Expr.localName, Expr.outcome] at hn
      simp [hn]
  exact ⟨Sample.program_records, hresolves,
    (Compilation.lower_inScope Sample.program {} Sample.program_records hresolves).1⟩

end OutcomeControl
