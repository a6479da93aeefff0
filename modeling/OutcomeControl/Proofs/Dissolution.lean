import Mathlib.Algebra.GroupWithZero.Nat
import OutcomeControl.Proofs.Freshness
import OutcomeControl.Proofs.Purity
import OutcomeControl.Proofs.Visits

/-! A tree of outcome tests dissolves into calls.

If nothing stands in a body but calls of the unit type and conditionals that compare names with outcome
literals, then no conditional stays and no variable is needed: what is left are calls, in the body and in
every operation that was made. Each conditional costs an operation for each of its blocks and one for
each default block in which the guards after the first are nested. -/

namespace OutcomeControl

/-! ### Trees of outcome tests -/

/-- A comparison of an outcome literal with a name, in either order. -/
def Expr.IsOutcomeGuard (e : Expr) : Prop :=
  ∃ lhs rhs, e.kind = .binary .eq lhs rhs ∧
    ((∃ o, lhs.kind = .outcome o) ∧ rhs.isName = true ∨ lhs.isName = true ∧ ∃ o, rhs.kind = .outcome o)

/-- A call of the unit type, or a conditional with guards that all compare names with outcomes. -/
def Statement.IsCallOrTest (s : Statement) : Prop :=
  s.isUnitCall = true ∨
    ∃ b info, s = ⟨.conditional b, info⟩ ∧ b.arms ≠ [] ∧ ∀ a ∈ b.arms, a.1.IsOutcomeGuard

theorem Expr.IsOutcomeGuard.comparesName {e : Expr} (h : e.IsOutcomeGuard) : e.comparesName = true := by
  obtain ⟨lhs, rhs, hkind, ⟨⟨o, ho⟩, hname⟩ | ⟨hname, o, ho⟩⟩ := h
  · rw [Expr.comparesName, Expr.outcomeComparison?, hkind]
    simp only [ho, Option.any_some, hname]
  · obtain ⟨kind, info⟩ := lhs
    cases kind with
    | name id arguments =>
      rw [Expr.comparesName, Expr.outcomeComparison?, hkind]
      simp only [ho, Option.any_some, hname]
    | _ => cases hname

mutual
theorem Statement.isPure_of_visits :
    (s : Statement) → (∀ t, .statement t ∈ s.visits → t.IsCallOrTest) → s.isPure = true
  | ⟨.conditional branches, info⟩, h => by
    obtain hcall | ⟨_, _, heq, harms, hguards⟩ := h _ (List.mem_cons_self ..)
    · cases hcall
    · cases heq
      rw [Statement.isPure, List.isEmpty_eq_false_iff.mpr harms]
      refine branches.isPure_of_visits hguards fun t ht => h t ?_
      exact List.mem_cons_of_mem _ (List.mem_append_right _ ht)
  | ⟨.expression e, info⟩, h => by
    obtain hcall | ⟨_, _, heq, -⟩ := h _ (List.mem_cons_self ..)
    · exact hcall
    · cases heq
  | ⟨.forEach _ _ _ _, _⟩, h | ⟨.whileLoop _ _, _⟩, h | ⟨.repeatUntil _ _ _, _⟩, h
  | ⟨.qubits _ _ _, _⟩, h | ⟨.returns _, _⟩, h | ⟨.fails _, _⟩, h | ⟨.binding _, _⟩, h
  | ⟨.update _ _, _⟩, h => by
    obtain hcall | ⟨_, _, heq, -⟩ := h _ (List.mem_cons_self ..)
    · cases hcall
    · cases heq
theorem Branches.isPure_of_visits :
    (b : Branches) → (∀ a ∈ b.arms, a.1.IsOutcomeGuard) →
      (∀ t, .statement t ∈ b.visits → t.IsCallOrTest) → b.isPure = true
  | .done, _, _ => rfl
  | .otherwise block, _, h => block.isPure_of_visits h
  | .arm condition block rest, hguards, h => by
    obtain ⟨hguard, hguards⟩ := List.forall_mem_cons.mp hguards
    rw [Branches.isPure, hguard.comparesName,
      block.isPure_of_visits fun t ht => h t (List.mem_append_right _ (List.mem_append_left _ ht)),
      rest.isPure_of_visits hguards fun t ht =>
        h t (List.mem_append_right _ (List.mem_append_right _ ht))]
    rfl
theorem Block.isPure_of_visits :
    (b : Block) → (∀ t, .statement t ∈ b.visits → t.IsCallOrTest) → b.isPure = true
  | ⟨body, _, _⟩, h => body.isPure_of_visits h
theorem Scope.isPure_of_visits :
    (s : Scope) → (∀ t, .statement t ∈ s.visits → t.IsCallOrTest) → s.isPure = true
  | ⟨statements, _⟩, h => Statement.isPureList_of_visits statements fun t ht =>
    h t (List.mem_cons_of_mem _ (List.mem_append_right _ ht))
theorem Statement.isPureList_of_visits :
    (ss : List Statement) → (∀ t, .statement t ∈ Statement.visitsList ss → t.IsCallOrTest) →
      Statement.isPureList ss = true
  | [], _ => rfl
  | s :: ss, h => by
    rw [Statement.isPureList, s.isPure_of_visits fun t ht => h t (List.mem_append_left _ ht),
      Statement.isPureList_of_visits ss fun t ht => h t (List.mem_append_right _ ht)]
    rfl
end

theorem Branches.of_isPure_arm {condition : Expr} {block : Block} {rest : Branches}
    (h : (Branches.arm condition block rest).isPure = true) :
    block.isPure = true ∧ rest.isPure = true :=
  Bool.and_eq_true_iff.mp (Bool.and_eq_true_iff.mp h).2

/-! ### Counting operations -/

def Visit.conditional? : Visit → Option Branches
  | .statement ⟨.conditional branches, _⟩ => some branches
  | _ => none

/-- How many operations a conditional costs: one for each guarded block and for the default block, and
one for each guard but the first. -/
def Branches.cost (b : Branches) : Nat := 2 * b.arms.length - 1 + b.default?.isSome.toNat

/-- What all conditionals among these nodes cost. -/
def Visit.cost (vs : List Visit) : Nat := ((vs.filterMap Visit.conditional?).map Branches.cost).sum

theorem Visit.cost_append (vs ws : List Visit) : cost (vs ++ ws) = cost vs + cost ws := by
  simp only [cost, List.filterMap_append, List.map_append, List.sum_append]

theorem Visit.cost_eq_zero {vs : List Visit} (h : ∀ t, .statement t ∉ vs) : cost vs = 0 := by
  have hnone : vs.filterMap Visit.conditional? = [] := by
    refine List.filterMap_eq_nil_iff.mpr fun v hv => ?_
    cases v with
    | statement t => exact absurd hv (h t)
    | _ => rfl
  rw [cost, hnone]
  rfl

theorem Scope.cost_visits (s : Scope) :
    Visit.cost s.visits = Visit.cost (Statement.visitsList s.statements) := by
  obtain ⟨statements, known⟩ := s
  rw [Scope.visits]
  change Visit.cost (_ ++ _) = _
  rw [Visit.cost_append, Visit.cost_eq_zero fun t => Variable.statement_notMem_visits t known,
    Nat.zero_add]

theorem Block.cost_visits (b : Block) :
    Visit.cost b.visits = Visit.cost (Statement.visitsList b.body.statements) := by
  rw [b.visits_eq, b.body.cost_visits]

theorem Branches.cost_visits_arm (condition : Expr) (block : Block) (rest : Branches) :
    Visit.cost (Branches.arm condition block rest).visits =
      Visit.cost (Statement.visitsList block.body.statements) + Visit.cost rest.visits := by
  rw [Branches.visits, Visit.cost_append, Visit.cost_append,
    Visit.cost_eq_zero fun t => condition.statement_notMem_visits t, block.cost_visits, Nat.zero_add]

theorem Statement.cost_conditional (b : Branches) (info : StatementInfo) :
    Visit.cost (Statement.visits ⟨.conditional b, info⟩) = b.cost + Visit.cost b.visits := by
  have hdeclared := Visit.cost_eq_zero fun t => Variable.statement_notMem_visits t info.declarations
  change b.cost + Visit.cost (info.declarations.flatMap Variable.visits ++ b.visits) = _
  rw [Visit.cost_append, hdeclared, Nat.zero_add]

theorem Statement.cost_of_isUnitCall {s : Statement} (h : s.isUnitCall = true) :
    Visit.cost s.visits = 0 := by
  obtain ⟨callee, argument, info, hkind⟩ := Statement.of_isUnitCall h
  obtain ⟨kind, sinfo⟩ := s
  obtain rfl : kind = .expression ⟨.call callee argument, info⟩ := hkind
  change Visit.cost (sinfo.declarations.flatMap Variable.visits ++ Expr.visits _) = 0
  rw [Visit.cost_append, Visit.cost_eq_zero fun t => Variable.statement_notMem_visits t _,
    Visit.cost_eq_zero fun t => Expr.statement_notMem_visits t _]

/-- One guard more costs an operation for its block, and one for the default block that the other guards
are nested in. -/
theorem Branches.cost_arm (condition : Expr) (block : Block) (rest : Branches) :
    (Branches.arm condition block rest).cost = rest.cost + if rest.arms = [] then 1 else 2 := by
  simp only [Branches.cost, Branches.arms, Branches.default?, List.length_cons]
  cases rest.arms with
  | nil =>
    simp only [List.length_nil, if_pos]
    omega
  | cons a as =>
    simp only [List.length_cons, reduceCtorEq, if_false]
    omega

/-! ### What is made of a conditional -/

section
variable (primitives : Primitives) (frame : Frame)

theorem applyTest_length (s : Statement) (t : OutcomeTest) (p : Progress) :
    ((applyTest primitives frame s t).run p).2.hoisted.length = p.hoisted.length + t.bodies.length := by
  obtain ⟨outcome, condition, body, default⟩ := t
  cases default with
  | none => exact List.length_append
  | some other =>
    change ((p.hoisted ++ [_]) ++ [_]).length = _
    rw [List.length_append, List.length_append]
    rfl

theorem Statement.length_bodies {below : Branches} {info : StatementInfo} {t : OutcomeTest}
    (ht : outcomeTest? ⟨.conditional below, info⟩ = some t) : t.bodies.length = below.blocks.length := by
  obtain ⟨guard, block, rest, info', heq, harms, -, -, hdefault⟩ := Statement.of_outcomeTest ht
  cases heq
  rw [OutcomeTest.bodies, hdefault, Branches.blocks, Branches.blocks_of_arms_eq_nil harms]
  cases rest.default? with
  | none => rfl
  | some other => rfl

/-- A pure conditional is replaced, and each block of the chain becomes an operation. -/
theorem Branches.Follows.conclude_length {b below : Branches} (h : b.Follows below)
    {info : StatementInfo} (hpure : Statement.isPure ⟨.conditional b, info⟩ = true) (p : Progress) :
    ((conclude primitives frame ⟨.conditional below, info⟩).run p).2.hoisted.length =
      p.hoisted.length + below.blocks.length := by
  obtain ⟨event, -, -, hstays⟩ | ⟨t, ht, -, -, heq⟩ | ⟨t, ht, -, hname, -⟩ :=
    conclude_cases primitives frame ⟨.conditional below, info⟩ p
  · have hreplaced := Statement.isReplaced_of_isPure hpure
    rw [h.isReplaced_eq_false hstays] at hreplaced
    cases hreplaced
  · rw [heq, applyTest_length, Statement.length_bodies ht]
  · rw [(h.isSeparable_eq ht).2, hname] at hpure
    cases hpure

/-! ### What is made of a body -/

/-- **A pure body makes as many operations as its conditionals cost.** -/
theorem Scope.lower_cost {scope : Scope} (hpure : scope.isPure = true) (p : Progress) :
    ((scope.lower primitives frame).run p).1.isCallSequence = true ∧
      ((scope.lower primitives frame).run p).2.hoisted.length =
        p.hoisted.length + Visit.cost scope.visits := by
  -- `Q` counts the blocks of the chain as operations that are still to be made: they are when the chain
  -- is concluded.
  have hlist := ((lower_induction primitives frame
    (P := fun s p out q => out.all Statement.isUnitCall = s.isPure ∧
      (s.isPure = true → q.hoisted.length = p.hoisted.length + Visit.cost s.visits))
    (L := fun ss p out q => out.all Statement.isUnitCall = Statement.isPureList ss ∧
      (Statement.isPureList ss = true →
        q.hoisted.length = p.hoisted.length + Visit.cost (Statement.visitsList ss)))
    (Q := fun _ b p below q => b.Follows below ∧
      (b.isPure = true → q.hoisted.length + below.blocks.length =
        p.hoisted.length + (b.cost + Visit.cost b.visits)))
    ?nil ?cons ?leaf ?forEach ?whileLoop ?repeatUntil ?qubits ?conditional ?done ?otherwise ?last
    ?nested).2.1 scope.statements p).2
  · rw [Scope.lower_run, scope.cost_visits]
    obtain ⟨statements, known⟩ := scope
    exact ⟨hlist.1.trans hpure, hlist.2 hpure⟩
  case nil => exact fun p => ⟨rfl, fun _ => rfl⟩
  case cons =>
    intro s ss p out q outs r _ _ hs hss
    refine ⟨?_, fun h => ?_⟩
    · rw [List.all_append, hs.1, hss.1]
      rfl
    · obtain ⟨h, hrest⟩ := Bool.and_eq_true_iff.mp h
      rw [hss.2 hrest, hs.2 h, Statement.visitsList, Visit.cost_append, Nat.add_assoc]
  case leaf =>
    intro kind info p hleaf
    refine ⟨hleaf.isPure info, fun h => ?_⟩
    rw [← hleaf.isPure info] at h
    rw [Statement.cost_of_isUnitCall (List.all_eq_true.mp h _ (List.mem_singleton_self _))]
    rfl
  case forEach => exact fun _ _ _ _ _ _ _ _ _ _ => ⟨rfl, fun h => absurd h Bool.false_ne_true⟩
  case whileLoop => exact fun _ _ _ _ _ _ _ _ => ⟨rfl, fun h => absurd h Bool.false_ne_true⟩
  case repeatUntil =>
    exact fun _ _ _ _ _ _ _ _ _ _ _ _ _ => ⟨rfl, fun h => absurd h Bool.false_ne_true⟩
  case qubits => exact fun _ _ _ _ _ _ _ _ _ => ⟨rfl, fun h => absurd h Bool.false_ne_true⟩
  case conditional =>
    intro branches info p below q _ hbranches
    refine ⟨hbranches.1.conclude_isPure primitives frame info q, fun h => ?_⟩
    have hinner := hbranches.2 (Bool.and_eq_true_iff.mp h).2
    rw [hbranches.1.conclude_length primitives frame h, hinner, Statement.cost_conditional]
  case done => exact fun info p => ⟨.done, fun _ => rfl⟩
  case otherwise =>
    intro block info p out q _ hblock
    refine ⟨.otherwise (hblock.1.trans block.isPure_eq.symm), fun h => ?_⟩
    rw [hblock.2 (block.isPure_eq ▸ h), Branches.visits, block.cost_visits, Nat.add_assoc,
      Nat.add_comm (Visit.cost _)]
    rfl
  case last =>
    intro condition block rest info p out q below r _ _ hblock hrest harms
    refine ⟨hrest.1.last (hblock.1.trans block.isPure_eq.symm) harms, fun h => ?_⟩
    obtain ⟨hpureBlock, hpureRest⟩ := Branches.of_isPure_arm h
    have hmade := hblock.2 (block.isPure_eq ▸ hpureBlock)
    have hinner := hrest.2 hpureRest
    rw [Branches.cost_arm, if_pos (hrest.1.arms_eq_nil_iff.mp harms), Branches.cost_visits_arm]
    change r.hoisted.length + (below.blocks.length + 1) = _
    omega
  case nested =>
    intro condition block rest info p out q c b below r _ _ hblock hrest
    refine ⟨hrest.1.nested (hblock.1.trans block.isPure_eq.symm)
      (hrest.1.conclude_isPure primitives frame info r), fun h => ?_⟩
    obtain ⟨hpureBlock, hpureRest⟩ := Branches.of_isPure_arm h
    have harms : rest.arms ≠ [] := by
      rw [Ne, ← hrest.1.arms_eq_nil_iff]
      exact List.cons_ne_nil _ _
    have hpureNested : Statement.isPure ⟨.conditional rest, info⟩ = true := by
      rw [Statement.isPure, List.isEmpty_eq_false_iff.mpr harms, hpureRest]
      rfl
    have hmade := hblock.2 (block.isPure_eq ▸ hpureBlock)
    have hinner := hrest.2 hpureRest
    have hconcluded := hrest.1.conclude_length primitives frame hpureNested r
    rw [Branches.cost_arm, if_neg harms, Branches.cost_visits_arm]
    change _ + 2 = _
    omega

/-- An operation that a block of calls was moved to has that block for its only body. -/
theorem Frame.Makes.bodies {frame : Frame} {op : Callable} (h : frame.Makes op) :
    ∃ body, op.bodies = [body] ∧ body.isCallSequence = true := by
  obtain ⟨name, body, comments, hbody, rfl⟩ := h
  exact ⟨_, rfl, body.isCallSequence_mapParameters _ hbody⟩

end

/-- **A tree of outcome tests dissolves.** Where nothing stands in a body, at any depth, but calls of the
unit type and conditionals that compare names with outcome literals, only calls of the unit type are left
and no variable is bound. Each operation that is made has one body, of such calls alone, and their number
is, summed over all conditionals of the body, twice the number of guards less one, and one more if there is
a default block. -/
theorem Scope.lower_dissolves (primitives : Primitives) (frame : Frame) (scope : Scope) (p : Progress)
    (hscope : ∀ s, .statement s ∈ scope.visits → s.IsCallOrTest) :
    let out := (scope.lower primitives frame).run p
    out.1.isCallSequence = true ∧ out.1.known = scope.known ∧
    (∃ events, out.2.report = p.report ++ events ∧ Event.variableNames events = []) ∧
    ∃ made, out.2.hoisted = p.hoisted ++ made ∧
      (∀ op ∈ made, ∃ body, op.bodies = [body] ∧ body.isCallSequence = true) ∧
      made.length = ((scope.visits.filterMap Visit.conditional?).map fun b =>
        2 * b.arms.length - 1 + b.default?.isSome.toNat).sum := by
  obtain ⟨hcalls, hlength⟩ := Scope.lower_cost primitives frame (scope.isPure_of_visits hscope) p
  obtain ⟨events, hreport, hbound⟩ := scope.lower_binds primitives frame p
  obtain ⟨made, hmade, hops⟩ := scope.lower_preorder primitives frame .refl (fun _ _ _ => .trans)
    (conclude_makes primitives frame) p
  refine ⟨hcalls, ?_, ⟨events, hreport, ?_⟩, made, hmade, fun op hop => (hops op hop).bodies, ?_⟩
  · rw [Scope.lower_run]
  · rw [Scope.bindings_of_isCallSequence hcalls] at hbound
    exact (List.append_eq_nil_iff.mp hbound.nil_eq.symm).2
  · rw [hmade, List.length_append] at hlength
    exact Nat.add_left_cancel hlength

namespace Sample

def isOne : Expr := .equals (.localName "r" .outcome) (.outcome .one)

def isZero : Expr := .equals (.outcome .zero) (.localName "r" .outcome)

/-- `if Zero == r { Y(q); }`. -/
def innerTest : Statement := .conditional [(isZero, block "Y")] none

/-- `if r == One { X(q); if Zero == r { Y(q); } } elif Zero == r { Y(q); } else { Z(q); }`. -/
def outerTest : Statement :=
  .conditional [(isOne, ⟨[.expression (callOn "X" .unit), innerTest], [q, r]⟩), (isZero, block "Y")]
    (some (block "Z"))

def tree : Scope := ⟨[outerTest], [q, r]⟩

end Sample

/-- The conditional with two guards and a default block costs four operations, the one inside it one. -/
theorem Sample.tree_dissolves :
    let out := (Sample.tree.lower .standard { name := ⟨"Sample", "Main"⟩ }).run { names := .ofSettings {} }
    (∀ s, .statement s ∈ Sample.tree.visits → s.IsCallOrTest) ∧
      out.1.isCallSequence = true ∧ out.2.hoisted.length = 5 ∧
      ∀ op ∈ out.2.hoisted, ∃ body, op.bodies = [body] ∧ body.isCallSequence = true := by
  have hone : Sample.isOne.IsOutcomeGuard := ⟨_, _, rfl, .inr ⟨rfl, _, rfl⟩⟩
  have hzero : Sample.isZero.IsOutcomeGuard := ⟨_, _, rfl, .inl ⟨⟨_, rfl⟩, rfl⟩⟩
  have hstatements : Sample.tree.visits.filterMap Visit.statement? =
      [Sample.outerTest, .expression (Sample.callOn "X" .unit), Sample.innerTest,
        .expression (Sample.callOn "Y" .unit), .expression (Sample.callOn "Y" .unit),
        .expression (Sample.callOn "Z" .unit)] := rfl
  have htree : ∀ s, .statement s ∈ Sample.tree.visits → s.IsCallOrTest := by
    intro s hs
    have hmem : s ∈ Sample.tree.visits.filterMap Visit.statement? :=
      List.mem_filterMap.mpr ⟨.statement s, hs, rfl⟩
    rw [hstatements] at hmem
    simp only [List.mem_cons, List.not_mem_nil, or_false] at hmem
    obtain rfl | rfl | rfl | rfl | rfl | rfl := hmem
    · exact .inr ⟨_, _, rfl, List.cons_ne_nil _ _, List.forall_mem_cons.mpr
        ⟨hone, List.forall_mem_singleton.mpr hzero⟩⟩
    · exact .inl rfl
    · exact .inr ⟨_, _, rfl, List.cons_ne_nil _ _, List.forall_mem_singleton.mpr hzero⟩
    · exact .inl rfl
    · exact .inl rfl
    · exact .inl rfl
  obtain ⟨hcalls, -, -, made, hmade, hops, hlength⟩ := Scope.lower_dissolves .standard
    { name := ⟨"Sample", "Main"⟩ } Sample.tree { names := .ofSettings {} } htree
  refine ⟨htree, hcalls, ?_, ?_⟩
  · rw [hmade]
    exact hlength
  · rw [hmade]
    exact hops

end OutcomeControl
