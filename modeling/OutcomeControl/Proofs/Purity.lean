import OutcomeControl.Proofs.Induction

/-! Which conditionals are replaced, read off the program.

A statement is pure if it is a call of the unit type or a conditional that tests outcomes of names, with
nothing but pure statements in its blocks. Whether a conditional is replaced hangs on what its blocks
have become, and that is calls exactly if they were pure (`Branches.Follows.conclude_isPure`). -/

namespace OutcomeControl

/-- A comparison of a name with an outcome literal. -/
def Expr.comparesName (e : Expr) : Bool := e.outcomeComparison?.any (·.2.isName)

mutual
/-- A call of the unit type, or a conditional that tests names for outcomes and has pure blocks. -/
def Statement.isPure : Statement → Bool
  | ⟨.conditional branches, _⟩ => !branches.arms.isEmpty && branches.isPure
  | ⟨.expression e, info⟩ => Statement.isUnitCall ⟨.expression e, info⟩
  | _ => false
def Branches.isPure : Branches → Bool
  | .done => true
  | .otherwise block => block.isPure
  | .arm condition block rest => condition.comparesName && (block.isPure && rest.isPure)
def Block.isPure : Block → Bool
  | ⟨body, _, _⟩ => body.isPure
def Scope.isPure : Scope → Bool
  | ⟨statements, _⟩ => Statement.isPureList statements
def Statement.isPureList : List Statement → Bool
  | [] => true
  | s :: ss => s.isPure && Statement.isPureList ss
end

theorem Block.isPure_eq (b : Block) : b.isPure = Statement.isPureList b.body.statements := by
  obtain ⟨⟨statements, known⟩, location, comments⟩ := b
  rfl

theorem StatementKind.IsLeaf.isPure {kind : StatementKind} (h : kind.IsLeaf) (info : StatementInfo) :
    [⟨kind, info⟩].all Statement.isUnitCall = Statement.isPure ⟨kind, info⟩ := by
  cases kind with
  | expression e => exact Bool.and_true _
  | conditional branches => cases h
  | _ => rfl

/-- A conditional is replaced if its first guard compares with an outcome literal and all its blocks
become calls: those that follow the first one as the conditional that is nested in its default block. -/
def Branches.isReplaced : Branches → Bool
  | .arm condition block rest => condition.outcomeComparison?.isSome && (block.isPure && rest.isPure)
  | .otherwise _ | .done => false

theorem Statement.isReplaced_of_isPure {b : Branches} {info : StatementInfo}
    (h : isPure ⟨.conditional b, info⟩ = true) : b.isReplaced = true := by
  rw [isPure, Bool.and_eq_true] at h
  obtain ⟨harms, h⟩ := h
  cases b with
  | arm condition block rest =>
    rw [Branches.isPure, Bool.and_eq_true] at h
    rw [Branches.isReplaced, h.2, Bool.and_true]
    cases hcomparison : condition.outcomeComparison? with
    | none => simp [Expr.comparesName, hcomparison] at h
    | some t => rfl
  | otherwise block => cases harms
  | done => cases harms

/-- `below` is a chain with one guard at most that stands in the place of `b`: its blocks are calls where
those of `b` are pure, and they are described as the first ones of `b` are. -/
inductive Branches.Follows : Branches → Branches → Prop where
  | done : Follows .done .done
  | otherwise {block : Block} {out : List Statement} :
    out.all Statement.isUnitCall = block.isPure →
    Follows (.otherwise block) (.otherwise (block.holding out))
  | arm {condition : Expr} {block : Block} {out : List Statement} {rest below : Branches} :
    out.all Statement.isUnitCall = block.isPure → below.arms = [] →
    below.blocks.all (·.body.isCallSequence) = rest.isPure →
    below.blocks.map (·.comments) = (rest.blocks.take 1).map (·.comments) →
    Follows (.arm condition block rest) (.arm condition (block.holding out) below)

/-- The test of a conditional with one guard. -/
theorem Statement.outcomeTest?_arm {rest : Branches} (h : rest.arms = []) (condition : Expr)
    (block : Block) (info : StatementInfo) :
    outcomeTest? ⟨.conditional (.arm condition block rest), info⟩ =
      condition.outcomeComparison?.map fun compared =>
        ⟨compared.1, compared.2, block.body, rest.default?.map (·.body)⟩ := by
  simp [outcomeTest?, Branches.arms, Branches.default?, h]

theorem Branches.blocks_of_arms_eq_nil {b : Branches} (h : b.arms = []) :
    b.blocks = b.default?.toList := by
  cases b with
  | done => rfl
  | otherwise block => rfl
  | arm condition block rest => cases h

namespace Branches.Follows
variable {b below : Branches} (h : b.Follows below)
include h

/-- The test of the chain can be taken apart exactly if the conditional is replaced. -/
theorem isSeparable_eq {info : StatementInfo} {t : OutcomeTest}
    (ht : Statement.outcomeTest? ⟨.conditional below, info⟩ = some t) :
    t.isSeparable = b.isReplaced ∧
      Statement.isPure ⟨.conditional b, info⟩ = (t.condition.isName && b.isReplaced) := by
  cases h with
  | done => cases ht
  | otherwise _ => cases ht
  | @arm condition block out rest below hout harms hblocks _ =>
    rw [Statement.outcomeTest?_arm harms] at ht
    obtain ⟨compared, hcompared, rfl⟩ := Option.map_eq_some_iff.mp ht
    have hdefault : (below.default?.map (·.body)).all Scope.isCallSequence = rest.isPure := by
      rw [← hblocks, Branches.blocks_of_arms_eq_nil harms]
      cases below.default? with
      | none => rfl
      | some other => exact (Bool.and_true _).symm
    have hsep : (block.isPure && rest.isPure) =
        ((block.holding out).body.isCallSequence &&
          (below.default?.map (·.body)).all Scope.isCallSequence) := by
      rw [hdefault, ← hout]
      rfl
    refine ⟨?_, ?_⟩
    · rw [Branches.isReplaced, hcompared, hsep]
      rfl
    · rw [Branches.isReplaced, Statement.isPure, Branches.isPure, Expr.comparesName, hcompared]
      rfl

/-- The chain has a guard if `b` has one. -/
theorem arms_eq_nil_iff : below.arms = [] ↔ b.arms = [] := by
  cases h with
  | done => exact .rfl
  | otherwise _ => exact .rfl
  | arm => exact iff_of_false nofun nofun

/-- The blocks of the chain are described as the first two are. -/
theorem comments : below.blocks.map (·.comments) = (b.blocks.take 2).map (·.comments) := by
  cases h with
  | done => rfl
  | otherwise _ => rfl
  | arm _ _ _ hcomments => exact congrArg (List.cons _) hcomments

/-- A conditional that stays is not one to be replaced. -/
theorem isReplaced_eq_false {info : StatementInfo}
    (hstays : ∀ t, Statement.outcomeTest? ⟨.conditional below, info⟩ = some t → t.isSeparable = false) :
    b.isReplaced = false := by
  cases htest : Statement.outcomeTest? ⟨.conditional below, info⟩ with
  | some t => rw [← (h.isSeparable_eq htest).1, hstays t htest]
  | none =>
    cases h with
    | done => rfl
    | otherwise _ => rfl
    | arm hout harms hblocks _ =>
      rw [Statement.outcomeTest?_arm harms, Option.map_eq_none_iff] at htest
      rw [Branches.isReplaced, htest]
      rfl

end Branches.Follows

section
variable (primitives : Primitives) (frame : Frame)

theorem applyTest_isUnitCall (s : Statement) (t : OutcomeTest) (p : Progress) :
    ((applyTest primitives frame s t).run p).1.all Statement.isUnitCall = true := by
  obtain ⟨outcome, condition, body, default⟩ := t
  cases default with
  | none => rfl
  | some other => rfl

/-- The conditional is replaced by calls alone exactly if it was pure. -/
theorem Branches.Follows.conclude_isPure {b below : Branches} (h : b.Follows below)
    (info : StatementInfo) (p : Progress) :
    ((conclude primitives frame ⟨.conditional below, info⟩).run p).1.all Statement.isUnitCall =
      Statement.isPure ⟨.conditional b, info⟩ := by
  obtain ⟨event, -, heq, hstays⟩ | ⟨t, ht, hsep, hname, heq⟩ | ⟨t, ht, hsep, hname, heq⟩ :=
    conclude_cases primitives frame ⟨.conditional below, info⟩ p
  · rw [heq]
    have hreplaced := h.isReplaced_eq_false hstays
    refine (Bool.eq_false_iff.mpr fun hpure => ?_).symm
    rw [Statement.isReplaced_of_isPure hpure] at hreplaced
    cases hreplaced
  · obtain ⟨hreplaced, hpure⟩ := h.isSeparable_eq ht
    rw [heq, hpure, hname, ← hreplaced, hsep]
    exact applyTest_isUnitCall primitives frame _ t p
  · obtain ⟨-, hpure⟩ := h.isSeparable_eq ht
    rw [heq, hpure, hname]
    rfl

end

/-! ### The chains that arise -/

namespace Branches.Follows
variable {condition c : Expr} {block b : Block} {out outs : List Statement} {rest below : Branches}
  {info : StatementInfo} (hout : out.all Statement.isUnitCall = block.isPure)
include hout

theorem last (h : rest.Follows below) (harms : below.arms = []) :
    (Branches.arm condition block rest).Follows (.arm condition (block.holding out) below) := by
  cases h with
  | done => exact .arm hout rfl rfl rfl
  | otherwise hother => exact .arm hout rfl ((Bool.and_true _).trans hother) rfl
  | arm => cases harms

theorem nested (h : rest.Follows (.arm c b below))
    (houts : outs.all Statement.isUnitCall = Statement.isPure ⟨.conditional rest, info⟩) :
    (Branches.arm condition block rest).Follows
      (.arm condition (block.holding out) (.otherwise (b.holding outs))) := by
  cases h with
  | arm => exact .arm hout rfl ((Bool.and_true _).trans houts) rfl

end Branches.Follows

end OutcomeControl
