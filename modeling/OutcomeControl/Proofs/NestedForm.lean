import OutcomeControl.Proofs.Nesting
import OutcomeControl.Proofs.Reservation

/-! The pass makes the same of a program and of its nested form.

In the nested form every conditional of every body is nested from the start (`Compilation.nestAll`).
The pass nests a conditional when it comes to it and lowers what it then finds inside, so what it
does to a body is the same for both forms, number by number (`Scope.lower_nestAll`). The supplies
differ: the nested form repeats some names and says others earlier. It says no name that the program does
not say (`Compilation.mem_names_nestAll`), and their order does not matter. -/

namespace OutcomeControl

/-! ### The nested form -/

mutual
/-- The statement with every conditional in it nested, at every depth. -/
def Statement.nestAll : Statement → Statement
  | ⟨.conditional branches, info⟩ => Statement.nest ⟨.conditional branches.nestAll, info⟩
  | ⟨.forEach symbols itemTy iterable body, info⟩ =>
    ⟨.forEach symbols itemTy iterable body.nestAll, info⟩
  | ⟨.whileLoop condition body, info⟩ => ⟨.whileLoop condition body.nestAll, info⟩
  | ⟨.repeatUntil block success fixup, info⟩ =>
    ⟨.repeatUntil block.nestAll success fixup.nestAll, info⟩
  | ⟨.qubits kind binding body, info⟩ => ⟨.qubits kind binding body.nestAll, info⟩
  | ⟨.expression e, info⟩ => ⟨.expression e, info⟩
  | ⟨.returns e, info⟩ => ⟨.returns e, info⟩
  | ⟨.fails e, info⟩ => ⟨.fails e, info⟩
  | ⟨.binding b, info⟩ => ⟨.binding b, info⟩
  | ⟨.update lhs rhs, info⟩ => ⟨.update lhs rhs, info⟩
/-- The chain as it is, around blocks in which every conditional is nested. -/
def Branches.nestAll : Branches → Branches
  | .done => .done
  | .otherwise block => .otherwise block.nestAll
  | .arm condition block rest => .arm condition block.nestAll rest.nestAll
def Block.nestAll : Block → Block
  | ⟨body, location, comments⟩ => ⟨body.nestAll, location, comments⟩
def Scope.nestAll : Scope → Scope
  | ⟨statements, known⟩ => ⟨Statement.nestAllList statements, known⟩
def Statement.nestAllList : List Statement → List Statement
  | [] => []
  | s :: ss => s.nestAll :: Statement.nestAllList ss
end

/-- Only a body with statements has conditionals to nest. -/
def Specialization.nestAll (s : Specialization) : Specialization :=
  match s.kind, s.implementation with
  | .body, .provided params scope => { s with implementation := .provided params scope.nestAll }
  | _, _ => s

def Callable.nestAll (c : Callable) : Callable :=
  { c with specializations := c.specializations.map Specialization.nestAll }

def Element.nestAll : Element → Element
  | .callable c => .callable c.nestAll
  | .customType t => .customType t

def Namespace.nestAll (ns : Namespace) : Namespace :=
  { ns with elements := ns.elements.map Element.nestAll }

/-- The program with every conditional nested, at every depth of every body. -/
def Compilation.nestAll (c : Compilation) : Compilation :=
  { c with namespaces := c.namespaces.map Namespace.nestAll }

/-! ### Nothing is left to nest -/

namespace Branches

theorem enclose_enclose (ss ts : List Statement) (b : Branches) :
    (b.enclose ss).enclose ts = b.enclose ss := by
  cases b <;> rfl

theorem nest_enclose (info : StatementInfo) (ss : List Statement) (b : Branches) :
    (b.enclose ss).nest info = b.enclose ss := by
  cases b <;> rfl

theorem nest_nest (info : StatementInfo) (b : Branches) : (b.nest info).nest info = b.nest info := by
  fun_induction nest info b with
  | case1 condition block rest nested ih => simp only [nest, nest_enclose, enclose_enclose]
  | case2 block => rfl
  | case3 => rfl

end Branches

theorem Statement.nest_nestAll (s : Statement) : s.nestAll.nest = s.nestAll := by
  obtain ⟨kind, info⟩ := s
  cases kind with
  | conditional branches =>
    exact congrArg (fun b => (⟨.conditional b, info⟩ : Statement)) (Branches.nest_nest info _)
  | _ => rfl

theorem Statement.nestAllList_eq (ss : List Statement) : nestAllList ss = ss.map nestAll := by
  induction ss with
  | nil => rfl
  | cons s ss ih => exact congrArg (s.nestAll :: ·) ih

theorem Block.body_nestAll (b : Block) : b.nestAll.body = b.body.nestAll := by
  cases b
  rfl

/-- The default block that guards are nested in is one of the nested form as well, that of a block with
these guards as its only conditional. -/
theorem Branches.scopes_nestAll (b : Branches) (info : StatementInfo) {inner : Scope}
    (h : inner ∈ (StatementKind.conditional (b.nestAll.nest info)).scopes) :
    ∃ scope : Scope, inner = scope.nestAll := by
  cases b with
  | done => cases h
  | otherwise block =>
    obtain rfl := List.mem_singleton.mp h
    exact ⟨_, block.body_nestAll⟩
  | arm condition block rest =>
    obtain rfl | h := List.mem_cons.mp h
    · exact ⟨_, block.body_nestAll⟩
    · cases rest with
      | done => cases h
      | otherwise other =>
        obtain rfl := List.mem_singleton.mp h
        exact ⟨_, other.body_nestAll⟩
      | arm c b r =>
        obtain rfl := List.mem_singleton.mp h
        exact ⟨⟨[⟨.conditional (.arm c b r), info⟩], b.nestAll.body.known⟩, rfl⟩

theorem Statement.scopes_nestAll {s : Statement} {inner : Scope} (h : inner ∈ s.nestAll.kind.scopes) :
    ∃ scope : Scope, inner = scope.nestAll := by
  obtain ⟨kind, info⟩ := s
  cases kind with
  | conditional branches => exact branches.scopes_nestAll info h
  | forEach symbols itemTy iterable body => exact ⟨body, List.mem_singleton.mp h⟩
  | whileLoop condition body => exact ⟨body, List.mem_singleton.mp h⟩
  | repeatUntil block success fixup =>
    obtain rfl | h := List.mem_cons.mp h
    · exact ⟨_, block.body_nestAll⟩
    · exact ⟨_, (List.mem_singleton.mp h).trans fixup.body_nestAll⟩
  | qubits kind binding body => exact ⟨body, List.mem_singleton.mp h⟩
  | _ => cases h

/-- Every conditional of the nested form is nested. -/
theorem Scope.nest_of_holds {s : Scope} {t : Statement} (h : s.nestAll.Holds t) : t.nest = t := by
  have hstatement : ∀ (s : Scope) {u : Statement}, u ∈ s.nestAll.statements →
      ∃ v : Statement, v.nestAll = u := by
    rintro ⟨statements, known⟩ u hu
    rw [Scope.nestAll, Statement.nestAllList_eq] at hu
    obtain ⟨v, -, hv⟩ := List.mem_map.mp hu
    exact ⟨v, hv⟩
  generalize hform : s.nestAll = form at h
  induction h generalizing s with
  | here ht =>
    obtain ⟨v, rfl⟩ := hstatement s (hform ▸ ht)
    exact v.nest_nestAll
  | inside hu hinner _ ih =>
    obtain ⟨v, rfl⟩ := hstatement s (hform ▸ hu)
    obtain ⟨scope, rfl⟩ := Statement.scopes_nestAll hinner
    exact ih rfl

/-! ### Bodies -/

section
variable (primitives : Primitives) (frame : Frame)

theorem Block.lower_run (b : Block) (p : Progress) :
    (b.lower primitives frame).run p =
      (b.holding ((Statement.lowerList primitives frame b.body.statements).run p).1,
        ((Statement.lowerList primitives frame b.body.statements).run p).2) := by
  obtain ⟨⟨statements, known⟩, location, comments⟩ := b
  rfl

/-- A lowered chain starts with the guard that it started with, and its block is described as before. -/
theorem Branches.lower_arm_run (info : StatementInfo) (condition : Expr) (block : Block)
    (rest : Branches) (p : Progress) :
    ∃ out below, (((Branches.arm condition block rest).lower primitives frame info).run p).1 =
      .arm condition (block.holding out) below := by
  cases hrun : (rest.lower primitives frame info).run ((block.lower primitives frame).run p).2 with
  | mk below q =>
    obtain _ | other | ⟨c, b, r⟩ := below
    · rw [Branches.lower_last primitives frame hrun rfl, Block.lower_run]
      exact ⟨_, _, rfl⟩
    · rw [Branches.lower_last primitives frame hrun rfl, Block.lower_run]
      exact ⟨_, _, rfl⟩
    · rw [Branches.lower_nested primitives frame hrun, Block.lower_run]
      exact ⟨_, _, rfl⟩

theorem Statement.lowerList_singleton (s : Statement) :
    Statement.lowerList primitives frame [s] = s.lower primitives frame := by
  simp [Statement.lowerList]

/-- A default block that holds nothing but a conditional is lowered to what the conditional is
concluded to. -/
theorem Branches.lower_holding {info : StatementInfo} {b below : Branches} {block : Block}
    {p q : Progress} (h : (b.lower primitives frame info).run p = (below, q)) :
    ((Branches.otherwise (block.holding [⟨.conditional b, info⟩])).lower primitives frame info).run p =
      (.otherwise (block.holding ((conclude primitives frame ⟨.conditional below, info⟩).run q).1),
        ((conclude primitives frame ⟨.conditional below, info⟩).run q).2) := by
  have hstatements : (Statement.lowerList primitives frame [⟨.conditional b, info⟩]).run p =
      (conclude primitives frame ⟨.conditional below, info⟩).run q := by
    rw [Statement.lowerList_singleton, Statement.lower, StateT.run_bind, h]
    rfl
  have hblock : ((block.holding [⟨.conditional b, info⟩]).lower primitives frame).run p =
      (block.holding ((Statement.lowerList primitives frame [⟨.conditional b, info⟩]).run p).1,
        ((Statement.lowerList primitives frame [⟨.conditional b, info⟩]).run p).2) := rfl
  rw [Branches.lower, StateT.run_bind, hblock, hstatements]
  rfl

/-- The guards after the first are lowered alike, nested in the default block ahead of the pass or by
the pass itself. -/
theorem Branches.lower_nest_guard (info : StatementInfo) (condition c : Expr) (b out : Block)
    (r nested : Branches)
    (h : nested.lower primitives frame info = (Branches.arm c b r).lower primitives frame info) :
    (Branches.otherwise (b.holding [⟨.conditional nested, info⟩])).lower primitives frame info >>=
        Branches.guard primitives frame info condition out =
      (Branches.arm c b r).lower primitives frame info >>=
        Branches.guard primitives frame info condition out := by
  funext p
  change StateT.run _ p = StateT.run _ p
  obtain ⟨inner, rest, hshape⟩ := Branches.lower_arm_run primitives frame info c b r p
  cases hrun : ((Branches.arm c b r).lower primitives frame info).run p with
  | mk below q =>
    rw [hrun] at hshape
    obtain rfl : below = .arm c (b.holding inner) rest := hshape
    rw [StateT.run_bind, StateT.run_bind, hrun, Branches.lower_holding primitives frame (h ▸ hrun)]
    rfl

mutual
theorem Statement.lower_nestAll :
    (s : Statement) → s.nestAll.lower primitives frame = s.lower primitives frame
  | ⟨.conditional branches, info⟩ =>
    congrArg (· >>= fun below => conclude primitives frame ⟨.conditional below, info⟩)
      (branches.lower_nestAll info)
  | ⟨.forEach symbols itemTy iterable body, info⟩ => by
    simp only [Statement.nestAll, Statement.lower, body.lower_nestAll]
  | ⟨.whileLoop condition body, info⟩ => by
    simp only [Statement.nestAll, Statement.lower, body.lower_nestAll]
  | ⟨.repeatUntil block success fixup, info⟩ => by
    simp only [Statement.nestAll, Statement.lower, block.lower_nestAll, fixup.lower_nestAll]
  | ⟨.qubits kind binding body, info⟩ => by
    simp only [Statement.nestAll, Statement.lower, body.lower_nestAll]
  | ⟨.expression _, _⟩ | ⟨.returns _, _⟩ | ⟨.fails _, _⟩ | ⟨.binding _, _⟩ | ⟨.update _ _, _⟩ => rfl
theorem Branches.lower_nestAll (info : StatementInfo) :
    (b : Branches) →
      (b.nestAll.nest info).lower primitives frame info = b.lower primitives frame info
  | .done => rfl
  | .otherwise block => by
    simp only [Branches.nestAll, Branches.nest, Branches.lower, block.lower_nestAll]
  | .arm condition block rest => by
    have hblock := block.lower_nestAll
    have hrest := rest.lower_nestAll info
    rw [Branches.lower_arm primitives frame info condition block rest, ← hblock]
    obtain _ | other | ⟨c, b, r⟩ := rest
    · exact Branches.lower_arm primitives frame info condition block.nestAll .done
    · rw [← hrest]
      exact Branches.lower_arm primitives frame info condition block.nestAll (.otherwise other.nestAll)
    · -- The default block with the other guards is there already. Lowering it gives what the pass would
      -- have put there.
      simp only [← Branches.lower_nest_guard primitives frame info condition c b _ r _ hrest]
      obtain ⟨body, location, comments⟩ := b
      obtain ⟨statements, known⟩ := body
      exact Branches.lower_arm primitives frame info condition block.nestAll (.otherwise _)
theorem Block.lower_nestAll :
    (b : Block) → b.nestAll.lower primitives frame = b.lower primitives frame
  | ⟨body, location, comments⟩ => by
    simp only [Block.nestAll, Block.lower, body.lower_nestAll]
theorem Scope.lower_nestAll :
    (s : Scope) → s.nestAll.lower primitives frame = s.lower primitives frame
  | ⟨statements, known⟩ => by
    simp only [Scope.nestAll, Scope.lower, Statement.lowerList_nestAll statements]
theorem Statement.lowerList_nestAll :
    (ss : List Statement) → Statement.lowerList primitives frame (Statement.nestAllList ss) =
      Statement.lowerList primitives frame ss
  | [] => rfl
  | s :: ss => by
    simp only [Statement.nestAllList, Statement.lowerList, s.lower_nestAll,
      Statement.lowerList_nestAll ss]
end

theorem Specialization.lower_nestAll (s : Specialization) :
    s.nestAll.lower primitives frame = s.lower primitives frame := by
  obtain ⟨kind, parent, sourceFile, location, typeArguments, signature, implementation,
    documentation, comments⟩ := s
  cases kind with
  | body =>
    cases implementation with
    | provided params scope =>
      simp only [Specialization.nestAll, Specialization.lower, scope.lower_nestAll]
    | intrinsic | external | generated directive => rfl
  | adjoint | controlled | controlledAdjoint => rfl

theorem Element.lower_nestAll (e : Element) : e.nestAll.lower primitives = e.lower primitives := by
  cases e with
  | customType t => rfl
  | callable c =>
    have hspecializations :
        (c.specializations.map Specialization.nestAll).mapM
            (Specialization.lower primitives (.ofCallable c)) =
          c.specializations.mapM (Specialization.lower primitives (.ofCallable c)) := by
      rw [List.mapM_map]
      exact congrArg (c.specializations.mapM ·) (funext (Specialization.lower_nestAll primitives _))
    have hcallable : c.nestAll.lower primitives = c.lower primitives :=
      congrArg (fun all : Pass (List Specialization) => do
        return { c with specializations := ← all }) hspecializations
    exact congrArg (fun lowered : Pass Callable => do return Element.callable (← lowered)) hcallable

theorem Namespace.lower_nestAll (names : NameSupply) (ns : Namespace) :
    ns.nestAll.lower primitives names = ns.lower primitives names := by
  have helements : (ns.elements.map Element.nestAll).mapM (Element.lower primitives) =
      ns.elements.mapM (Element.lower primitives) := by
    rw [List.mapM_map]
    exact congrArg (ns.elements.mapM ·) (funext (Element.lower_nestAll primitives))
  simp only [Namespace.lower, Namespace.nestAll, helements]

theorem Namespace.lowerAll_nestAll (names : NameSupply) (nss : List Namespace) :
    Namespace.lowerAll primitives names (nss.map Namespace.nestAll) =
      Namespace.lowerAll primitives names nss := by
  induction nss generalizing names with
  | nil => rfl
  | cons ns nss ih =>
    simp only [List.map_cons, Namespace.lowerAll, Namespace.lower_nestAll, ih]

end

/-! ### The names of the nested form -/

section
variable (n : String)

/-- The conditional in the default block repeats what `info` declares and what the first guarded block
knows. -/
theorem Branches.mem_names_enclose (info : StatementInfo) (b : Branches) :
    n ∈ Visit.collect (info.declarations.flatMap Variable.visits) ∨
        n ∈ Visit.collect (b.enclose [⟨.conditional b, info⟩]).visits ↔
      n ∈ Visit.collect (info.declarations.flatMap Variable.visits) ∨ n ∈ Visit.collect b.visits := by
  cases b with
  | done => exact .rfl
  | otherwise block => exact .rfl
  | arm condition block rest =>
    have hknown : n ∈ Visit.collect (block.body.known.flatMap Variable.visits) →
        n ∈ Visit.collect block.visits := by
      refine fun h => Visit.collect_subset (fun v hv => ?_) h
      obtain ⟨w, hw, hv⟩ := List.mem_flatMap.mp hv
      exact block.visits_eq ▸ Scope.visits_known hw hv
    simp only [Branches.enclose, Branches.visits, Block.visits, Scope.visits, Statement.visitsList,
      Statement.visits, StatementKind.visits, Visit.collect_cons, Visit.collect_append, Visit.names_scope,
      Visit.names_statement, List.mem_append, List.nil_append, List.append_nil]
    grind

/-- The names that `info` declares are repeated by every conditional of the chain, so they stand on both
sides. -/
theorem Branches.mem_names_nest (info : StatementInfo) (b : Branches) :
    n ∈ Visit.collect (info.declarations.flatMap Variable.visits) ∨
        n ∈ Visit.collect (b.nest info).visits ↔
      n ∈ Visit.collect (info.declarations.flatMap Variable.visits) ∨ n ∈ Visit.collect b.visits := by
  fun_induction Branches.nest info b with
  | case1 condition block rest nested ih =>
    have henclosed := (Branches.mem_names_enclose n info nested).trans ih
    simp only [Branches.visits, Visit.collect_append, List.mem_append]
    grind
  | case2 block => exact .rfl
  | case3 => exact .rfl

mutual
theorem Statement.mem_names_nestAll :
    (s : Statement) → (n ∈ Visit.collect s.nestAll.visits ↔ n ∈ Visit.collect s.visits)
  | ⟨.conditional branches, info⟩ => by
    have hnest := Branches.mem_names_nest n info branches.nestAll
    rw [branches.mem_names_nestAll] at hnest
    simpa [Statement.nestAll, Statement.nest, Statement.visits, StatementKind.visits] using hnest
  | ⟨.forEach symbols itemTy iterable body, info⟩ => by
    simp [Statement.nestAll, Statement.visits, StatementKind.visits, body.mem_names_nestAll]
  | ⟨.whileLoop condition body, info⟩ => by
    simp [Statement.nestAll, Statement.visits, StatementKind.visits, body.mem_names_nestAll]
  | ⟨.repeatUntil block success fixup, info⟩ => by
    simp [Statement.nestAll, Statement.visits, StatementKind.visits, block.mem_names_nestAll,
      fixup.mem_names_nestAll]
  | ⟨.qubits kind binding body, info⟩ => by
    simp [Statement.nestAll, Statement.visits, StatementKind.visits, body.mem_names_nestAll]
  | ⟨.expression _, _⟩ | ⟨.returns _, _⟩ | ⟨.fails _, _⟩ | ⟨.binding _, _⟩ | ⟨.update _ _, _⟩ => .rfl
theorem Branches.mem_names_nestAll :
    (b : Branches) → (n ∈ Visit.collect b.nestAll.visits ↔ n ∈ Visit.collect b.visits)
  | .done => .rfl
  | .otherwise block => block.mem_names_nestAll
  | .arm condition block rest => by
    simp [Branches.nestAll, Branches.visits, block.mem_names_nestAll, rest.mem_names_nestAll]
theorem Block.mem_names_nestAll :
    (b : Block) → (n ∈ Visit.collect b.nestAll.visits ↔ n ∈ Visit.collect b.visits)
  | ⟨body, _, _⟩ => body.mem_names_nestAll
theorem Scope.mem_names_nestAll :
    (s : Scope) → (n ∈ Visit.collect s.nestAll.visits ↔ n ∈ Visit.collect s.visits)
  | ⟨statements, known⟩ => by
    simp [Scope.nestAll, Scope.visits, Statement.mem_names_nestAllList statements]
theorem Statement.mem_names_nestAllList : (ss : List Statement) →
    (n ∈ Visit.collect (Statement.visitsList (Statement.nestAllList ss)) ↔
      n ∈ Visit.collect (Statement.visitsList ss))
  | [] => .rfl
  | s :: ss => by
    simp [Statement.nestAllList, Statement.visitsList, s.mem_names_nestAll,
      Statement.mem_names_nestAllList ss]
end

theorem Specialization.mem_names_nestAll (s : Specialization) :
    n ∈ Visit.collect s.nestAll.visits ↔ n ∈ Visit.collect s.visits := by
  unfold Specialization.nestAll
  split
  next params scope _ himplementation =>
    simp [Specialization.visits, himplementation, Implementation.visits, scope.mem_names_nestAll]
  · exact .rfl

theorem Element.mem_names_nestAll (e : Element) : n ∈ e.nestAll.names ↔ n ∈ e.names := by
  cases e with
  | customType t => exact .rfl
  | callable c =>
    have hspecializations :
        n ∈ Visit.collect ((c.specializations.map Specialization.nestAll).flatMap
            Specialization.visits) ↔
          n ∈ Visit.collect (c.specializations.flatMap Specialization.visits) := by
      simp only [Visit.collect, List.flatMap_assoc, List.flatMap_map, List.mem_flatMap]
      exact exists_congr fun s => and_congr_right fun _ => by
        simpa [Visit.collect] using s.mem_names_nestAll n
    change n ∈ c.name.name :: Visit.collect c.nestAll.visits ↔ n ∈ c.name.name :: Visit.collect c.visits
    simp [Callable.nestAll, Callable.visits, hspecializations]

theorem Compilation.mem_names_nestAll (c : Compilation) : n ∈ c.nestAll.names ↔ n ∈ c.names := by
  simp [Compilation.nestAll, Namespace.nestAll, Compilation.names, Element.mem_names_nestAll]

end

/-! ### Programs -/

theorem Element.bodies_nestAll (e : Element) : e.nestAll.bodies = e.bodies.map Scope.nestAll := by
  cases e with
  | customType t => rfl
  | callable c =>
    simp only [Element.nestAll, Element.bodies, Callable.bodies, Callable.nestAll, List.filterMap_map,
      List.map_filterMap]
    congr 1
    funext s
    obtain ⟨kind, _, _, _, _, _, implementation, _, _⟩ := s
    cases kind <;> cases implementation <;> rfl

/-- **Nesting ahead of the pass changes nothing.** The nested form of a program is lowered to the same
program as the program itself, with the same generated names, the same report and as many numbers
drawn, and it has no conditional that could be nested once more. -/
theorem Compilation.lower_nestedForm (c : Compilation) (options : Options) :
    (c.nestAll.lower options).result = (c.lower options).result ∧
      (c.nestAll.lower options).report = (c.lower options).report ∧
      (c.nestAll.lower options).names.issued = (c.lower options).names.issued ∧
      ∀ ns ∈ c.nestAll.namespaces, ∀ e ∈ ns.elements, ∀ body ∈ e.bodies,
        ∀ s, body.Holds s → s.nest = s := by
  have hagrees := Namespace.lowerAll_steady options.primitives
    (NameSupply.forCompilation_agrees (fun n => c.mem_names_nestAll n) options.settings) c.namespaces
  rw [← Namespace.lowerAll_nestAll options.primitives (.forCompilation c.nestAll _)] at hagrees
  refine ⟨?_, hagrees.report, hagrees.names.issued, ?_⟩
  · exact congrArg (fun namespaces => ({ c with namespaces } : Compilation)) hagrees.result
  · intro _ hns _ he body hbody s hs
    obtain ⟨ns, -, rfl⟩ := List.mem_map.mp hns
    obtain ⟨e, -, rfl⟩ := List.mem_map.mp he
    obtain ⟨scope, -, rfl⟩ := List.mem_map.mp (e.bodies_nestAll ▸ hbody)
    exact Scope.nest_of_holds hs

/-- The chain of two guards and its nested form, with the same four operations made from their blocks. -/
theorem Sample.program_nested :
    Sample.body.statements.map (·.branches.arms.length) = [2] ∧
      Sample.body.nestAll.statements.map (·.branches.arms.length) = [1] ∧
      (∀ s, Sample.body.nestAll.Holds s → s.nest = s) ∧
      (Sample.program.nestAll.lower {}).result = (Sample.program.lower {}).result ∧
      Event.callableNames (Sample.program.nestAll.lower {}).report =
        ["_ctrl2_Main", "_ctrl3_Main", "_ctrl5_Main", "_ctrl6_Main"] := by
  obtain ⟨hresult, hreport, -, hnested⟩ := Compilation.lower_nestedForm Sample.program {}
  refine ⟨rfl, rfl, ?_, hresult, ?_⟩
  · exact hnested _ (List.mem_cons_self ..) _ (List.mem_cons_self ..) _ (List.mem_cons_self ..)
  · rw [hreport]
    decide +kernel

end OutcomeControl
