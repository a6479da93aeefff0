import OutcomeControl.Proofs.Freshness
import OutcomeControl.Proofs.Gathering
import OutcomeControl.Proofs.Purity

/-! What becomes of comments.

The comment lines of a statement are carried over to whatever replaces it. The lines of a block stay
with the block, also where a guarded block comes to describe a default block that other guards are
nested in. Only the blocks of a conditional that is replaced lose theirs, since the operations made
of them are described by the lines of the conditional alone. `Compilation.lower_remarks` says exactly
which lines a namespace has afterwards. -/

namespace OutcomeControl

/-! ### Blocks that stay -/

/-- The blocks of a statement that have comments of their own. -/
def StatementKind.blocks : StatementKind → List Block
  | .conditional branches => branches.blocks
  | .repeatUntil block _ fixup => [block, fixup]
  | .forEach _ _ _ _ | .whileLoop _ _ | .qubits _ _ _ => []
  | .expression _ | .returns _ | .fails _ | .binding _ | .update _ _ => []

namespace Branches

/-- The blocks of the conditionals that are nested in the default block of the first guard and stay
there. Each of them has two blocks at most. -/
def stayingBelow : Branches → List Block
  | .arm _ _ rest =>
    if rest.arms.isEmpty || rest.isReplaced then [] else rest.blocks.take 2 ++ rest.stayingBelow
  | .otherwise _ | .done => []

/-- The blocks of the conditionals that a chain is nested to and that stay. -/
def staying (b : Branches) : List Block :=
  if b.isReplaced then [] else b.blocks.take 2 ++ b.stayingBelow

/-- The second guard and what follows it is a conditional of its own. -/
theorem stayingBelow_arm {rest : Branches} (h : rest.arms ≠ []) (condition : Expr) (block : Block) :
    (arm condition block rest).stayingBelow = rest.staying := by
  rw [stayingBelow, List.isEmpty_eq_false_iff.mpr h, Bool.false_or]
  rfl

theorem stayingBelow_of_isReplaced {b : Branches} (h : b.isReplaced = true) : b.stayingBelow = [] := by
  cases b with
  | arm condition block rest =>
    simp only [isReplaced, Bool.and_eq_true] at h
    refine if_pos ?_
    cases rest with
    | arm c b r =>
      have hpure : Statement.isPure ⟨.conditional (.arm c b r), {}⟩ = true := h.2.2
      rw [Statement.isReplaced_of_isPure hpure, Bool.or_true]
    | otherwise block => rfl
    | done => rfl
  | otherwise block => rfl
  | done => rfl

end Branches

/-- The blocks of a statement that are there afterwards. -/
def StatementKind.staying : StatementKind → List Block
  | .conditional branches => branches.staying
  | kind => kind.blocks

theorem StatementKind.IsLeaf.blocks {kind : StatementKind} (h : kind.IsLeaf) : kind.blocks = [] := by
  cases kind with
  | conditional branches => cases h
  | repeatUntil block success fixup => cases h
  | _ => rfl

theorem StatementKind.IsLeaf.staying {kind : StatementKind} (h : kind.IsLeaf) :
    kind.staying = [] := by
  cases kind with
  | conditional branches => cases h
  | repeatUntil block success fixup => cases h
  | _ => rfl

/-! ### Comment lines -/

def Comments.all (c : Comments) : List String := c.opening ++ c.closing

section
variable (blocks : StatementKind → List Block)

/-- The comment lines of a statement and of those of its blocks that are given by `blocks`. -/
def Visit.remarks : Visit → List String
  | .statement s => s.info.comments.all ++ (blocks s.kind).flatMap (·.comments.all)
  | _ => []

/-- The comment lines that stand in the statements, at any depth. -/
def Statement.remarks (ss : List Statement) : List String :=
  (Statement.visitsList ss).flatMap (Visit.remarks blocks)

end

section
variable (blocks : Specialization → StatementKind → List Block)

def Specialization.remarks (s : Specialization) : List String :=
  s.comments.all ++ s.visits.flatMap (Visit.remarks (blocks s))

def Callable.remarks (c : Callable) : List String :=
  c.comments.all ++ c.specializations.flatMap (Specialization.remarks blocks)

def Element.remarks : Element → List String
  | .callable c => c.remarks blocks
  | .customType _ => []

/-- The comment lines of the callables of a namespace and of their specializations, with all that stands
in these. -/
def Namespace.remarks (ns : Namespace) : List String := ns.elements.flatMap (Element.remarks blocks)

end

abbrev Specialization.blocks (_ : Specialization) : StatementKind → List Block := StatementKind.blocks

/-- Only in bodies with statements there are blocks that do not stay. -/
def Specialization.staying (s : Specialization) : StatementKind → List Block :=
  if s.bodyScope?.isSome then StatementKind.staying else StatementKind.blocks

section
variable (blocks : StatementKind → List Block)

theorem Visit.remarks_eq_nil {vs : List Visit} (h : ∀ t, .statement t ∉ vs) :
    vs.flatMap (Visit.remarks blocks) = [] := by
  refine List.flatMap_eq_nil_iff.mpr fun v hv => ?_
  cases v with
  | statement s => exact absurd hv (h s)
  | _ => rfl

theorem Expr.remarks_visits (e : Expr) : e.visits.flatMap (Visit.remarks blocks) = [] :=
  Visit.remarks_eq_nil blocks fun t => e.statement_notMem_visits t

theorem Ty.remarks_visits (t : Ty) : t.visits.flatMap (Visit.remarks blocks) = [] :=
  Visit.remarks_eq_nil blocks fun s => t.statement_notMem_visits s

theorem SymbolTuple.remarks_visits (s : SymbolTuple) : s.visits.flatMap (Visit.remarks blocks) = [] :=
  Visit.remarks_eq_nil blocks fun t => s.statement_notMem_visits t

theorem QubitInit.remarks_visits (q : QubitInit) : q.visits.flatMap (Visit.remarks blocks) = [] :=
  Visit.remarks_eq_nil blocks fun t => q.statement_notMem_visits t

theorem Variable.remarks_visits (vs : List Variable) :
    (vs.flatMap Variable.visits).flatMap (Visit.remarks blocks) = [] :=
  Visit.remarks_eq_nil blocks fun t => Variable.statement_notMem_visits t vs

theorem Scope.remarks_visits (s : Scope) :
    s.visits.flatMap (Visit.remarks blocks) = Statement.remarks blocks s.statements := by
  obtain ⟨statements, known⟩ := s
  rw [Scope.visits, List.flatMap_cons, List.flatMap_append, Variable.remarks_visits]
  rfl

theorem Block.remarks_visits (b : Block) :
    b.visits.flatMap (Visit.remarks blocks) = Statement.remarks blocks b.body.statements := by
  rw [b.visits_eq, b.body.remarks_visits]

theorem Branches.remarks_visits (b : Branches) :
    b.visits.flatMap (Visit.remarks blocks) =
      b.blocks.flatMap fun block => Statement.remarks blocks block.body.statements := by
  fun_induction Branches.blocks b with
  | case1 => rfl
  | case2 block =>
    rw [Branches.visits, block.remarks_visits]
    exact (List.append_nil _).symm
  | case3 condition block rest ih =>
    rw [Branches.visits, List.flatMap_append, List.flatMap_append, condition.remarks_visits,
      block.remarks_visits, ih]
    rfl

namespace Statement

theorem remarks_append (ss ts : List Statement) :
    remarks blocks (ss ++ ts) = remarks blocks ss ++ remarks blocks ts := by
  rw [remarks, visitsList_append, List.flatMap_append]
  rfl

theorem remarks_cons (s : Statement) (ss : List Statement) :
    remarks blocks (s :: ss) = remarks blocks [s] ++ remarks blocks ss := remarks_append blocks [s] ss

/-- The lines of a statement, then those of its blocks, then those that stand in them. -/
theorem remarks_singleton (kind : StatementKind) (info : StatementInfo) :
    remarks blocks [⟨kind, info⟩] =
      info.comments.all ++ ((blocks kind).flatMap (·.comments.all) ++
        kind.visits.flatMap (Visit.remarks blocks)) := by
  rw [remarks, visitsList_singleton, visits, List.flatMap_cons, List.flatMap_append,
    Variable.remarks_visits, List.nil_append, ← List.append_assoc]
  rfl

end Statement

namespace StatementKind

theorem remarks_leaf {kind : StatementKind} (h : kind.IsLeaf) :
    kind.visits.flatMap (Visit.remarks blocks) = [] := by
  cases kind with
  | expression e | returns e | fails e => exact e.remarks_visits blocks
  | binding b =>
    rw [visits, List.flatMap_append, b.lhs.remarks_visits, b.rhs.remarks_visits, List.append_nil]
  | update lhs rhs =>
    rw [visits, List.flatMap_append, lhs.remarks_visits, rhs.remarks_visits, List.append_nil]
  | _ => cases h

theorem remarks_forEach (symbols : SymbolTuple) (itemTy : Ty) (iterable : Expr) (body : Scope) :
    (forEach symbols itemTy iterable body).visits.flatMap (Visit.remarks blocks) =
      Statement.remarks blocks body.statements := by
  simp only [visits, List.flatMap_append, symbols.remarks_visits, itemTy.remarks_visits,
    iterable.remarks_visits, body.remarks_visits, List.nil_append]

theorem remarks_whileLoop (condition : Expr) (body : Scope) :
    (whileLoop condition body).visits.flatMap (Visit.remarks blocks) =
      Statement.remarks blocks body.statements := by
  simp only [visits, List.flatMap_append, condition.remarks_visits, body.remarks_visits,
    List.nil_append]

theorem remarks_repeatUntil (block fixup : Block) (success : Expr) :
    (repeatUntil block success fixup).visits.flatMap (Visit.remarks blocks) =
      Statement.remarks blocks block.body.statements ++
        Statement.remarks blocks fixup.body.statements := by
  simp only [visits, List.flatMap_append, success.remarks_visits, Block.remarks_visits,
    List.nil_append]

theorem remarks_qubits (kind : QubitScopeKind) (binding : Binding QubitInit) (body : Scope) :
    (qubits kind binding body).visits.flatMap (Visit.remarks blocks) =
      Statement.remarks blocks body.statements := by
  simp only [visits, List.flatMap_append, binding.lhs.remarks_visits, binding.rhs.remarks_visits,
    body.remarks_visits, List.nil_append]

end StatementKind

theorem Statement.remarks_leaf (s : Statement) (h : s.kind.IsLeaf) (hblocks : blocks s.kind = []) :
    remarks blocks [s] = s.info.comments.all := by
  obtain ⟨kind, info⟩ := s
  change blocks kind = [] at hblocks
  rw [remarks_singleton, hblocks, StatementKind.remarks_leaf blocks h]
  exact List.append_nil _

/-- Of a specialization with statements, these have the lines. -/
theorem Specialization.remarks_visits {s : Specialization} {params : Params} {scope : Scope}
    (h : s.implementation = .provided params scope) :
    s.visits.flatMap (Visit.remarks blocks) = Statement.remarks blocks scope.statements := by
  have htypes : ∀ t, .statement t ∉ Ty.visitsList (s.typeArguments.getD []) ++ s.signature.visits ++
      params.visits := by
    intro t ht
    simp only [List.mem_append, Signature.visits, Ty.statement_notMem_visits, or_false] at ht
    rcases ht with ht | ht
    · obtain ⟨u, hu⟩ := Ty.of_mem_visitsList ht
      cases hu
    · obtain ⟨n, hn⟩ | ⟨u, hu⟩ := Params.of_mem_visits ht
      · cases hn
      · cases hu
  rw [Specialization.visits, h, Implementation.visits, ← List.append_assoc, List.flatMap_append,
    Visit.remarks_eq_nil blocks htypes, scope.remarks_visits, List.nil_append]

end

/-! ### Operations that blocks are moved to -/

section
variable (f : TypeParameter → TypeParameter)

@[simp] theorem Block.comments_mapParameters (b : Block) : (b.mapParameters f).comments = b.comments := by
  cases b
  rfl

theorem Branches.comments_mapParameters (b : Branches) :
    (b.mapParameters f).blocks.map (·.comments) = b.blocks.map (·.comments) := by
  fun_induction Branches.blocks b with
  | case1 => rfl
  | case2 block => simp [mapParameters, blocks]
  | case3 condition block rest ih => simp [mapParameters, blocks, ih]

theorem StatementKind.comments_mapParameters (k : StatementKind) :
    (k.mapParameters f).blocks.map (·.comments) = k.blocks.map (·.comments) := by
  cases k with
  | conditional branches => exact branches.comments_mapParameters f
  | repeatUntil block success fixup => simp [mapParameters, blocks]
  | _ => rfl

theorem Block.flatMap_comments (bs : List Block) :
    bs.flatMap (·.comments.all) = (bs.map (·.comments)).flatMap Comments.all := by
  rw [List.flatMap_map]

theorem Visit.remarks_mapParameters (v : Visit) :
    Visit.remarks StatementKind.blocks (v.mapParameters f) = Visit.remarks StatementKind.blocks v := by
  cases v with
  | statement s =>
    obtain ⟨kind, info⟩ := s
    change info.comments.all ++ (kind.mapParameters f).blocks.flatMap (·.comments.all) =
      info.comments.all ++ kind.blocks.flatMap (·.comments.all)
    rw [Block.flatMap_comments, Block.flatMap_comments, kind.comments_mapParameters]
  | _ => rfl

/-- An operation is described by the lines it was given, and it has those of its block. -/
theorem Frame.remarks_operation (frame : Frame) (name : QualifiedName) (body : Scope)
    (comments : Comments) :
    ((frame.operation name body comments).mapParameters f).remarks Specialization.blocks =
      comments.all ++ (comments.all ++ Statement.remarks StatementKind.blocks body.statements) := by
  have hbody : ∀ s : Specialization, (s.mapParameters f).remarks Specialization.blocks =
      s.remarks Specialization.blocks := by
    intro s
    rw [Specialization.remarks, s.visits_mapParameters, List.flatMap_map]
    simp only [Visit.remarks_mapParameters]
    rfl
  change comments.all ++ (Specialization.remarks _ (Specialization.mapParameters f _) ++ []) = _
  rw [hbody, List.append_nil, Specialization.remarks, Specialization.remarks_visits _ rfl]

end

/-! ### Carrying lines over -/

/-- The lines afterwards, with those of the operations made in between, are the lines before. -/
def Carries (xs : List String) (p : Progress) (ys : List String) (q : Progress) : Prop :=
  ∃ made, q.hoisted = p.hoisted ++ made ∧
    ∀ line, line ∈ xs ↔
      line ∈ ys ∨ line ∈ made.flatMap (Callable.remarks Specialization.blocks)

namespace Carries
variable {xs ys zs xs' ys' : List String} {p q r : Progress}

theorem of_hoisted_eq (h : q.hoisted = p.hoisted) (hlines : ∀ line, line ∈ xs ↔ line ∈ ys) :
    Carries xs p ys q := ⟨[], by rw [h, List.append_nil], by simpa using hlines⟩

theorem refl (xs : List String) (p : Progress) : Carries xs p xs p := of_hoisted_eq rfl fun _ => .rfl

theorem append (hpq : Carries xs p xs' q) (hqr : Carries ys q ys' r) :
    Carries (xs ++ ys) p (xs' ++ ys') r := by
  obtain ⟨made, hmade, hxs⟩ := hpq
  obtain ⟨more, hmore, hys⟩ := hqr
  refine ⟨made ++ more, by rw [hmore, hmade, List.append_assoc], fun line => ?_⟩
  rw [List.mem_append, hxs, hys, List.mem_append, List.flatMap_append, List.mem_append]
  grind

theorem trans (hpq : Carries xs p ys q) (hqr : Carries ys q zs r) : Carries xs p zs r := by
  obtain ⟨made, hmade, hxs⟩ := hpq
  obtain ⟨more, hmore, hys⟩ := hqr
  refine ⟨made ++ more, by rw [hmore, hmade, List.append_assoc], fun line => ?_⟩
  rw [hxs, hys, List.flatMap_append, List.mem_append]
  grind

/-- Only which lines there are counts, not their order and how often they occur. -/
theorem congr (h : Carries xs p ys q) (hxs : ∀ line, line ∈ xs' ↔ line ∈ xs)
    (hys : ∀ line, line ∈ ys ↔ line ∈ ys') : Carries xs' p ys' q :=
  ((of_hoisted_eq rfl hxs).trans h).trans (of_hoisted_eq rfl hys)

/-- Lines that are carried over twice. -/
theorem again (hpq : Carries xs p ys q) (hqr : Carries (xs ++ xs') q zs r) :
    Carries (xs ++ xs') p (ys ++ zs) r :=
  (hpq.append hqr).congr (fun line => by grind) fun _ => .rfl

/-- What is carried over in each of the steps is carried over in all of them. -/
theorem mapM {α : Type} {f : α → Pass α} {before after : α → List String}
    (h : ∀ a p, Carries (before a) p (after ((f a).run p).1) ((f a).run p).2) (as : List α)
    (p : Progress) :
    Carries (as.flatMap before) p (((as.mapM f).run p).1.flatMap after) ((as.mapM f).run p).2 :=
  ((Chain.mapM f as p).run (S := fun a p b q => Carries (before a) p (after b) q) h).flatMap (.refl [])
    Carries.append fun _ _ _ _ _ hstep => hstep

end Carries

section
variable (primitives : Primitives) (frame : Frame)

/-- The call has the lines of the statement it stands for, and the operation has them too. -/
theorem applyBlock_carries (s : Statement) (outcome : Outcome) (condition : Expr) (body : Scope)
    (p : Progress) :
    Carries (s.info.comments.all ++ Statement.remarks StatementKind.blocks body.statements) p
      (Statement.remarks StatementKind.blocks
        [((applyBlock primitives frame s outcome condition body).run p).1])
      ((applyBlock primitives frame s outcome condition body).run p).2 := by
  have hcall : Statement.remarks StatementKind.blocks
      [((applyBlock primitives frame s outcome condition body).run p).1] = s.info.comments.all :=
    Statement.remarks_leaf StatementKind.blocks _ trivial rfl
  refine ⟨[_], rfl, fun line => ?_⟩
  rw [hcall, List.flatMap_singleton, Callable.reroute, Frame.remarks_operation]
  grind

theorem bindCondition_carries (s : Statement) (value : Expr) (p : Progress) :
    Carries s.info.comments.all p
      (Statement.remarks StatementKind.blocks [((bindCondition s value).run p).1.1])
      ((bindCondition s value).run p).2 := by
  have hbinding : Statement.remarks StatementKind.blocks [((bindCondition s value).run p).1.1] =
      s.info.comments.all := Statement.remarks_leaf StatementKind.blocks _ trivial rfl
  rw [hbinding]
  exact .of_hoisted_eq rfl fun _ => .rfl

theorem applyTest_carries (s : Statement) (t : OutcomeTest) (p : Progress) :
    Carries (s.info.comments.all ++
        t.bodies.flatMap fun body => Statement.remarks StatementKind.blocks body.statements) p
      (Statement.remarks StatementKind.blocks ((applyTest primitives frame s t).run p).1)
      ((applyTest primitives frame s t).run p).2 := by
  obtain ⟨outcome, condition, body, default⟩ := t
  have hyes := applyBlock_carries primitives frame s outcome condition body p
  cases default with
  | none => exact hyes.congr (by simp [OutcomeTest.bodies]) fun _ => .rfl
  | some other =>
    have hno := applyBlock_carries primitives frame s outcome.opposite condition other
      ((applyBlock primitives frame s outcome condition body).run p).2
    have hboth := hyes.append hno
    rw [← Statement.remarks_append] at hboth
    exact hboth.congr (by simp [OutcomeTest.bodies]; grind) fun _ => .rfl

/-- What stands in the blocks of a test stands in its bodies. -/
theorem Statement.remarks_bodies {below : Branches} {info : StatementInfo} {t : OutcomeTest}
    (ht : outcomeTest? ⟨.conditional below, info⟩ = some t) :
    (t.bodies.flatMap fun body => remarks StatementKind.blocks body.statements) =
      below.blocks.flatMap fun block => remarks StatementKind.blocks block.body.statements := by
  obtain ⟨guard, block, rest, info', heq, harms, -, hbody, hdefault⟩ := Statement.of_outcomeTest ht
  injection heq with heq
  injection heq with heq
  subst heq
  rw [OutcomeTest.bodies, hbody, hdefault, Branches.blocks, Branches.blocks_of_arms_eq_nil harms]
  cases rest.default? with
  | none => rfl
  | some other => rfl

/-- The lines of the conditional go to what replaces it. Those of its blocks stay with it. -/
theorem conclude_carries {b below : Branches} (h : b.Follows below) (info : StatementInfo)
    (p : Progress) :
    Carries ((info.comments.all ++ below.blocks.flatMap fun block =>
          Statement.remarks StatementKind.blocks block.body.statements) ++
        if b.isReplaced then [] else (b.blocks.take 2).flatMap (·.comments.all)) p
      (Statement.remarks StatementKind.blocks
        ((conclude primitives frame ⟨.conditional below, info⟩).run p).1)
      ((conclude primitives frame ⟨.conditional below, info⟩).run p).2 := by
  obtain ⟨event, -, heq, hstays⟩ | ⟨t, ht, hsep, -, heq⟩ | ⟨t, ht, hsep, -, heq⟩ :=
    conclude_cases primitives frame ⟨.conditional below, info⟩ p
  · rw [heq, h.isReplaced_eq_false hstays, if_neg Bool.false_ne_true]
    refine .of_hoisted_eq rfl fun line => ?_
    rw [Statement.remarks_singleton, StatementKind.visits, below.remarks_visits,
      Block.flatMap_comments, ← h.comments, ← Block.flatMap_comments]
    change _ ↔ line ∈ _ ++ (below.blocks.flatMap _ ++ _)
    grind
  · rw [heq, ← (h.isSeparable_eq ht).1, hsep, if_pos rfl, List.append_nil, ← Statement.remarks_bodies ht]
    exact applyTest_carries primitives frame _ t p
  · rw [heq, ← (h.isSeparable_eq ht).1, hsep, if_pos rfl, List.append_nil, ← Statement.remarks_bodies ht]
    have hbinding := bindCondition_carries ⟨.conditional below, info⟩ t.condition p
    have hcalls := fun bound : (Statement × Expr) × Progress => applyTest_carries primitives frame
      ⟨.conditional below, info⟩ { t with condition := bound.1.2 } bound.2
    have hall := hbinding.again (hcalls _)
    rw [← Statement.remarks_append] at hall
    exact hall

/-- The lines in the blocks of a chain, with those of the conditionals that are nested in it and stay. -/
def Branches.inner (b : Branches) : List String :=
  (b.blocks.flatMap fun block => Statement.remarks StatementKind.staying block.body.statements) ++
    b.stayingBelow.flatMap (·.comments.all)

theorem Branches.mem_inner_last {rest : Branches} (h : rest.arms = []) (condition : Expr)
    (block : Block) (line : String) :
    line ∈ (arm condition block rest).inner ↔
      line ∈ Statement.remarks StatementKind.staying block.body.statements ++ rest.inner := by
  cases rest with
  | arm c b r => cases h
  | otherwise other => simp [inner, blocks, stayingBelow, arms]
  | done => simp [inner, blocks, stayingBelow, arms]

theorem Branches.mem_inner_nested {rest : Branches} (h : rest.arms ≠ []) (condition : Expr)
    (block : Block) (info : StatementInfo) (line : String) :
    line ∈ info.comments.all ++ (arm condition block rest).inner ↔
      line ∈ info.comments.all ++
        (Statement.remarks StatementKind.staying block.body.statements ++
          Statement.remarks StatementKind.staying [⟨.conditional rest, info⟩]) := by
  rw [inner, stayingBelow_arm h, Statement.remarks_singleton, StatementKind.visits,
    rest.remarks_visits, blocks, List.flatMap_cons, StatementKind.staying]
  grind

theorem Branches.mem_remarks_iff (b : Branches) (info : StatementInfo) (line : String) :
    line ∈ Statement.remarks StatementKind.staying [⟨.conditional b, info⟩] ↔
      line ∈ (info.comments.all ++ b.inner) ++
        if b.isReplaced then [] else (b.blocks.take 2).flatMap (·.comments.all) := by
  rw [Statement.remarks_singleton, StatementKind.visits, b.remarks_visits, Branches.inner,
    StatementKind.staying, Branches.staying]
  cases hreplaced : b.isReplaced with
  | true =>
    rw [if_pos rfl, if_pos rfl, Branches.stayingBelow_of_isReplaced hreplaced]
    grind
  | false =>
    rw [if_neg Bool.false_ne_true, if_neg Bool.false_ne_true, List.flatMap_append]
    grind

/-- A conditional whose blocks are lowered is concluded. -/
theorem Branches.Follows.carries {b below : Branches} (h : b.Follows below) {info : StatementInfo}
    {p q : Progress}
    (hinner : Carries (info.comments.all ++ b.inner) p
      (info.comments.all ++ below.blocks.flatMap fun block =>
        Statement.remarks StatementKind.blocks block.body.statements) q) :
    Carries (Statement.remarks StatementKind.staying [⟨.conditional b, info⟩]) p
      (Statement.remarks StatementKind.blocks
        ((conclude primitives frame ⟨.conditional below, info⟩).run q).1)
      ((conclude primitives frame ⟨.conditional below, info⟩).run q).2 :=
  ((hinner.append (.refl _ q)).trans (conclude_carries primitives frame h info q)).congr
    (b.mem_remarks_iff info) fun _ => .rfl

/-- A statement keeps its lines and those of its blocks, whatever becomes of the statements in these. -/
theorem Carries.statement {kind lowered : StatementKind} {p q : Progress}
    (hblocks : kind.staying.map (·.comments) = lowered.blocks.map (·.comments))
    (hinner : Carries (kind.visits.flatMap (Visit.remarks StatementKind.staying)) p
      (lowered.visits.flatMap (Visit.remarks StatementKind.blocks)) q) (info : StatementInfo) :
    Carries (Statement.remarks StatementKind.staying [⟨kind, info⟩]) p
      (Statement.remarks StatementKind.blocks [⟨lowered, info⟩]) q := by
  rw [Statement.remarks_singleton, Statement.remarks_singleton, Block.flatMap_comments, hblocks,
    ← Block.flatMap_comments]
  exact (Carries.refl _ p).append ((Carries.refl _ p).append hinner)

/-- **What holds of the lines of one conditional holds of every body.** -/
theorem Scope.lower_carries (scope : Scope) (p : Progress) :
    Carries (Statement.remarks StatementKind.staying scope.statements) p
      (Statement.remarks StatementKind.blocks ((scope.lower primitives frame).run p).1.statements)
      ((scope.lower primitives frame).run p).2 := by
  -- `Q` leaves out the lines of the first blocks: only when the chain is concluded is it known whether
  -- they stay. The lines of the statement are in it, since a nested conditional has them too.
  have hlist := ((lower_induction primitives frame
    (P := fun s p out q => out.all Statement.isUnitCall = s.isPure ∧
      Carries (Statement.remarks StatementKind.staying [s]) p
        (Statement.remarks StatementKind.blocks out) q)
    (L := fun ss p out q => out.all Statement.isUnitCall = Statement.isPureList ss ∧
      Carries (Statement.remarks StatementKind.staying ss) p
        (Statement.remarks StatementKind.blocks out) q)
    (Q := fun info b p below q => b.Follows below ∧
      Carries (info.comments.all ++ b.inner) p
        (info.comments.all ++ below.blocks.flatMap fun block =>
          Statement.remarks StatementKind.blocks block.body.statements) q)
    ?nil ?cons ?leaf ?forEach ?whileLoop ?repeatUntil ?qubits ?conditional ?done ?otherwise ?last
    ?nested).2.1 scope.statements p).2.2
  · rw [Scope.lower_run]
    exact hlist
  case nil => exact fun p => ⟨rfl, .refl [] p⟩
  case cons =>
    intro s ss p out q outs r _ _ hs hss
    refine ⟨?_, ?_⟩
    · rw [List.all_append, hs.1, hss.1]
      rfl
    · rw [Statement.remarks_append, Statement.remarks_cons]
      exact hs.2.append hss.2
  case leaf =>
    intro kind info p hleaf
    refine ⟨hleaf.isPure info, .statement (by rw [hleaf.staying, hleaf.blocks]) ?_ info⟩
    rw [StatementKind.remarks_leaf _ hleaf, StatementKind.remarks_leaf _ hleaf]
    exact .refl [] p
  case forEach =>
    intro symbols itemTy iterable body info p out q _ hbody
    refine ⟨rfl, .statement rfl ?_ info⟩
    rw [StatementKind.remarks_forEach, StatementKind.remarks_forEach]
    exact hbody.2
  case whileLoop =>
    intro condition body info p out q _ hbody
    refine ⟨rfl, .statement rfl ?_ info⟩
    rw [StatementKind.remarks_whileLoop, StatementKind.remarks_whileLoop]
    exact hbody.2
  case repeatUntil =>
    intro block success fixup info p out q outs r _ _ hblock hfixup
    refine ⟨rfl, .statement rfl ?_ info⟩
    rw [StatementKind.remarks_repeatUntil, StatementKind.remarks_repeatUntil]
    exact hblock.2.append hfixup.2
  case qubits =>
    intro kind binding body info p out q _ hbody
    refine ⟨rfl, .statement rfl ?_ info⟩
    rw [StatementKind.remarks_qubits, StatementKind.remarks_qubits]
    exact hbody.2
  case conditional =>
    intro branches info p below q _ hbranches
    exact ⟨hbranches.1.conclude_isPure primitives frame info q,
      hbranches.1.carries primitives frame hbranches.2⟩
  case done => exact fun info p => ⟨.done, .refl _ p⟩
  case otherwise =>
    intro block info p out q _ hblock
    refine ⟨.otherwise (hblock.1.trans block.isPure_eq.symm), ?_⟩
    refine (Carries.refl _ p).append (hblock.2.congr (fun line => ?_) fun line => ?_)
    · simp [Branches.inner, Branches.blocks, Branches.stayingBelow]
    · simp [Branches.blocks, Block.holding]
  case last =>
    intro condition block rest info p out q below r _ _ hblock hrest harms
    refine ⟨hrest.1.last (hblock.1.trans block.isPure_eq.symm) harms, ?_⟩
    have harms' := hrest.1.arms_eq_nil_iff.mp harms
    refine (hblock.2.append hrest.2).congr (fun line => ?_) fun line => ?_
    · rw [List.mem_append, Branches.mem_inner_last harms']
      simp only [List.mem_append]
      exact or_left_comm
    · rw [Branches.blocks, List.flatMap_cons]
      change _ ↔ line ∈ info.comments.all ++ (Statement.remarks StatementKind.blocks out ++ _)
      simp only [List.mem_append]
      exact or_left_comm
  case nested =>
    intro condition block rest info p out q c b below r _ _ hblock hrest
    refine ⟨hrest.1.nested (hblock.1.trans block.isPure_eq.symm)
      (hrest.1.conclude_isPure primitives frame info r), ?_⟩
    have hconcluded := hrest.1.carries primitives frame hrest.2
    have harms : rest.arms ≠ [] := by
      rw [Ne, ← hrest.1.arms_eq_nil_iff]
      exact List.cons_ne_nil _ _
    refine ((Carries.refl _ p).append (hblock.2.append hconcluded)).congr
      (Branches.mem_inner_nested harms condition block info) fun line => ?_
    simp [Branches.blocks, Block.holding]

/-- A specialization that is not lowered keeps all its lines. -/
theorem Specialization.lower_carries (s : Specialization) (p : Progress) :
    Carries (s.remarks Specialization.staying) p
      (((s.lower primitives frame).run p).1.remarks Specialization.blocks)
      ((s.lower primitives frame).run p).2 := by
  obtain ⟨params, scope, hkind, himpl, heq⟩ | ⟨hother, heq⟩ := s.lower_cases primitives frame p
  · have hbody : s.bodyScope? = some scope :=
      Specialization.bodyScope?_eq_some.mpr ⟨params, hkind, himpl⟩
    rw [heq, Specialization.remarks, Specialization.remarks, Specialization.staying, hbody,
      Specialization.remarks_visits _ himpl, Specialization.remarks_visits _ rfl]
    exact (Carries.refl _ p).append (scope.lower_carries primitives frame p)
  · have hnone : s.bodyScope? = none := by
      refine Option.eq_none_iff_forall_not_mem.mpr fun scope hscope => ?_
      obtain ⟨params, hkind, himpl⟩ := Specialization.bodyScope?_eq_some.mp hscope
      exact hother params scope hkind himpl
    rw [heq, Specialization.remarks, Specialization.remarks, Specialization.staying, hnone]
    exact .refl _ p

end

/-! ### Programs -/

section
variable (primitives : Primitives)

theorem Element.lower_carries (e : Element) (p : Progress) :
    Carries (e.remarks Specialization.staying) p
      (((e.lower primitives).run p).1.remarks Specialization.blocks)
      ((e.lower primitives).run p).2 := by
  cases e with
  | customType t => exact .refl [] p
  | callable c =>
    rw [Element.lower_callable_run]
    exact (Carries.refl _ p).append
      (.mapM (Specialization.lower_carries primitives (.ofCallable c)) c.specializations p)

/-- The lines of a namespace afterwards are those of what stays and those of the operations. -/
theorem Namespace.mem_remarks_lower (names : NameSupply) (ns : Namespace) (line : String) :
    line ∈ (ns.lower primitives names).result.remarks Specialization.blocks ↔
      line ∈ ns.remarks Specialization.staying := by
  obtain ⟨made, hmade, hlines⟩ :=
    Carries.mapM (Element.lower_carries primitives) ns.elements { names }
  have hresult : (ns.lower primitives names).result.elements =
      ((ns.elements.mapM (Element.lower primitives)).run { names }).1 ++ made.map Element.callable := by
    rw [← List.nil_append made, ← hmade]
    rfl
  rw [Namespace.remarks, Namespace.remarks, hresult, List.flatMap_append, List.flatMap_map, hlines,
    List.mem_append]
  rfl

end

/-- The lines of a statement in a body, and those of its blocks that stay. -/
theorem Namespace.mem_remarks_of_holds {ns : Namespace} {e : Element} (he : e ∈ ns.elements)
    {body : Scope} (hbody : body ∈ e.bodies) {t : Statement} (ht : body.Holds t) {line : String}
    (hline : line ∈ Visit.remarks StatementKind.staying (.statement t)) :
    line ∈ ns.remarks Specialization.staying := by
  refine List.mem_flatMap.mpr ⟨e, he, ?_⟩
  cases e with
  | customType _ => cases hbody
  | callable c =>
    obtain ⟨s, hs, hscope⟩ := List.mem_filterMap.mp hbody
    obtain ⟨params, -, himpl⟩ := Specialization.bodyScope?_eq_some.mp hscope
    refine List.mem_append_right _ (List.mem_flatMap.mpr ⟨s, hs, List.mem_append_right _ ?_⟩)
    rw [Specialization.staying, hscope, Specialization.remarks_visits _ himpl, ← Scope.remarks_visits]
    refine List.mem_flatMap.mpr ⟨.statement t, ht.visits_subset ?_, hline⟩
    obtain ⟨kind, info⟩ := t
    exact List.mem_cons_self ..

/-- **Which comments are left.** A namespace has afterwards exactly the lines that it had, except those of
blocks of a body that do not stay. So every line of a statement at any depth of a body is found again,
and so is every line of a block that stays: a block of a loop, or of a conditional that is not
replaced. -/
theorem Compilation.lower_remarks (c : Compilation) (options : Options) :
    List.Forall₂ (fun before after : Namespace =>
        after.name = before.name ∧
        (∀ line, line ∈ after.remarks Specialization.blocks ↔
          line ∈ before.remarks Specialization.staying) ∧
        ∀ e ∈ before.elements, ∀ body ∈ e.bodies, ∀ t, body.Holds t →
          t.info.comments.all ⊆ after.remarks Specialization.blocks ∧
          ∀ b ∈ t.kind.staying, b.comments.all ⊆ after.remarks Specialization.blocks)
      c.namespaces (c.lower options).result.namespaces := by
  change List.Forall₂ _ c.namespaces
    (Namespace.lowerAll options.primitives (.forCompilation c options.settings) c.namespaces).result
  generalize NameSupply.forCompilation c options.settings = names
  induction c.namespaces generalizing names with
  | nil => exact .nil
  | cons ns nss ih =>
    have hlines := ns.mem_remarks_lower options.primitives names
    refine .cons ⟨rfl, hlines, fun e he body hbody t ht => ⟨fun line hline => ?_, ?_⟩⟩ (ih _)
    · refine (hlines line).mpr (Namespace.mem_remarks_of_holds he hbody ht ?_)
      exact List.mem_append_left _ hline
    · intro b hb line hline
      refine (hlines line).mpr (Namespace.mem_remarks_of_holds he hbody ht ?_)
      exact List.mem_append_right _ (List.mem_flatMap.mpr ⟨b, hb, hline⟩)

namespace Sample

/-- A test `if r == One { X(q); }` with a line of its own, whose block has another. -/
def remarked : Compilation :=
  let guard : Expr := .equals (.localName "r" .outcome) (.outcome .one)
  let test : Statement :=
    ⟨.conditional (.arm guard ⟨block "X", none, { opening := ["only then"] }⟩ .done),
      { comments := { opening := ["flip on one"] } }⟩
  { namespaces :=
      [⟨"Sample",
        [.callable (operation "Main" (.provided (.tuple [q.toParams, r.toParams])
          ⟨[test], [q, r]⟩))]⟩] }

end Sample

/-- The line of the test is found again. -/
theorem Sample.remarked_keeps :
    ∃ ns ∈ (Sample.remarked.lower {}).result.namespaces,
      "flip on one" ∈ ns.remarks Specialization.blocks := by
  have hremarks := Compilation.lower_remarks Sample.remarked {}
  cases hremarks with
  | cons hns _ =>
    have hstatement := hns.2.2 _ (List.mem_cons_self ..) _ (List.mem_singleton_self _) _
      (.here (List.mem_singleton_self _))
    exact ⟨_, List.mem_cons_self .., hstatement.1 (List.mem_singleton_self _)⟩

/-- The line of its block is not. -/
theorem Sample.remarked_loses :
    ∃ ns ∈ Sample.remarked.namespaces, ∃ e ∈ ns.elements, ∃ body ∈ e.bodies, ∃ t, body.Holds t ∧
      ∃ b ∈ t.kind.blocks, "only then" ∈ b.comments.all ∧
        ∀ after ∈ (Sample.remarked.lower {}).result.namespaces,
          "only then" ∉ after.remarks Specialization.blocks := by
  refine ⟨_, List.mem_cons_self .., _, List.mem_cons_self .., _, List.mem_singleton_self _, _,
    .here (List.mem_singleton_self _), _, List.mem_singleton_self _, List.mem_singleton_self _, ?_⟩
  decide +kernel

end OutcomeControl
