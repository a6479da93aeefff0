import OutcomeControl.Proofs.Induction

/-! What nesting does to a chain of guarded blocks.

A nested chain is read from the outside in: each conditional has one guard, and its default block holds
the conditional for the next one (`Statement.inner?`). `Statement.nest_faithful` says that the guarded
blocks are met in their order on the way in, with the default block at the end, and that whoever
evaluates guards on the way selects the block that trying the guards of the chain in order selects. -/

namespace OutcomeControl

/-! ### Reading a nested chain -/

/-- The conditional that is all of a block. -/
def Block.conditional? (b : Block) : Option Statement := match b.body.statements with
  | [⟨.conditional branches, info⟩] => some ⟨.conditional branches, info⟩
  | _ => none

/-- The chain of a conditional. Any other statement has an empty one. -/
def Statement.branches (s : Statement) : Branches := match s.kind with
  | .conditional branches => branches
  | _ => .done

/-- The conditional that the default block of a conditional consists of. -/
def Statement.inner? (s : Statement) : Option Statement := s.branches.default?.bind Block.conditional?

/-- What is met after going into the default block so many times. -/
def Statement.descend : Nat → Statement → Option Statement
  | 0, s => some s
  | k + 1, s => s.inner?.bind (descend k)

/-! ### Evaluating guards

How a guard is evaluated is left open: it may have effects, and what it gives may depend on those of
the guards before it. Two selections that are equal for every evaluation have evaluated the same
guards in the same order. -/

section
variable {m : Type → Type} [Monad m] (guard : Expr → m Bool)

/-- The block of the first guard that holds. If none does, `otherwise` decides. -/
def firstMatch (otherwise : m (Option Block)) : List (Expr × Block) → m (Option Block)
  | [] => otherwise
  | (condition, block) :: rest => do
    if ← guard condition then return some block else firstMatch otherwise rest

/-- The block that a conditional runs, if any. A conditional that is all of a default block is not run
as a block but looked into, up to `depth` times. -/
def Statement.select : Nat → Statement → m (Option Block)
  | 0, s => firstMatch guard (pure s.branches.default?) s.branches.arms
  | depth + 1, s =>
    firstMatch guard (match s.inner? with
      | some inner => inner.select depth
      | none => pure s.branches.default?) s.branches.arms

end

/-! ### Whole chains -/

/-- The conditional that is met after `k` steps has the guarded block number `k` alone, and behind it the
next conditional or, at the end, the default block of the chain. -/
theorem Statement.descend_nest (info : StatementInfo) (k : Nat) (b : Branches) (a : Expr × Block)
    (h : b.arms[k]? = some a) :
    let s : Statement := Statement.nest ⟨.conditional b, info⟩
    ∃ branches, s.descend k = some ⟨.conditional branches, info⟩ ∧ branches.arms = [a] ∧
      branches.default? = match b.arms[k + 1]? with
        | some next => (s.descend (k + 1)).map fun inner => next.2.holding [inner]
        | none => b.default? := by
  induction k generalizing b with
  | zero =>
    obtain _ | _ | ⟨condition, block, rest⟩ := b
    · cases h
    · cases h
    · obtain rfl := Option.some.inj h
      refine ⟨_, rfl, ?_⟩
      obtain _ | _ | ⟨c, b, r⟩ := rest
      · exact ⟨rfl, rfl⟩
      · exact ⟨rfl, rfl⟩
      · exact ⟨rfl, rfl⟩
  | succ k ih =>
    obtain _ | _ | ⟨condition, block, rest⟩ := b
    · cases h
    · cases h
    · obtain _ | _ | ⟨c, b, r⟩ := rest
      · cases h
      · cases h
      · exact ih (.arm c b r) h

section
variable {m : Type → Type} [Monad m] (guard : Expr → m Bool)

/-- After the first guard of a chain the others are tried like a chain of their own. -/
theorem Statement.select_arm (info : StatementInfo) (depth : Nat) (condition : Expr) (block : Block)
    (rest : Branches) :
    Statement.select guard depth ⟨.conditional (.arm condition block rest), info⟩ =
      guard condition >>= fun holds => if holds then pure (some block)
        else Statement.select guard depth ⟨.conditional rest, info⟩ := by
  cases depth with
  | zero => rfl
  | succ depth => rfl

/-- Going into as many default blocks as nesting has made is trying the guards in order. -/
theorem Statement.select_nest (info : StatementInfo) (depth : Nat) (b : Branches) :
    (Statement.nest ⟨.conditional b, info⟩).select guard (b.arms.length - 1 + depth) =
      Statement.select guard depth ⟨.conditional b, info⟩ := by
  fun_induction Branches.nest info b with
  | case1 condition block rest below ih =>
    obtain _ | other | ⟨c, b, r⟩ := rest
    · exact congrArg (Statement.select guard · _) (Nat.zero_add depth)
    · exact congrArg (Statement.select guard · _) (Nat.zero_add depth)
    · have hdepth : (Branches.arm condition block (.arm c b r)).arms.length - 1 + depth =
          (Branches.arm c b r).arms.length - 1 + depth + 1 := by
        simp only [Branches.arms, List.length_cons]
        omega
      rw [hdepth, Statement.select_arm, ← ih]
      rfl
  | case2 block => exact congrArg (Statement.select guard · _) (Nat.zero_add depth)
  | case3 => exact congrArg (Statement.select guard · _) (Nat.zero_add depth)

end

/-- **Nesting changes how guarded blocks are arranged, and nothing else.** A chain without a guard stays.
Otherwise each guarded block is met in its place, unchanged, on the way into the default blocks: alone in
a conditional that is described as the whole one, and before a default block that holds only the next
conditional and is described as the next guarded block, or, behind the last one, before the default
block of the chain. However guards are evaluated, going all the way in evaluates the guards of the
chain in order up to the first that holds, and selects its block. -/
theorem Statement.nest_faithful (b : Branches) (info : StatementInfo) :
    let s : Statement := ⟨.conditional b, info⟩
    (b.arms = [] → s.nest = s) ∧
    (∀ k a, b.arms[k]? = some a → ∃ branches,
      s.nest.descend k = some ⟨.conditional branches, info⟩ ∧ branches.arms = [a] ∧
        branches.default? = match b.arms[k + 1]? with
          | some next => (s.nest.descend (k + 1)).map fun inner => next.2.holding [inner]
          | none => b.default?) ∧
    ∀ (m : Type → Type) [Monad m] (guard : Expr → m Bool),
      s.nest.select guard (b.arms.length - 1) = firstMatch guard (pure b.default?) b.arms := by
  refine ⟨fun h => ?_, fun k a h => Statement.descend_nest info k b a h, fun m _ guard => ?_⟩
  · cases b with
    | done => rfl
    | otherwise block => rfl
    | arm condition block rest => cases h
  · exact Statement.select_nest guard info 0 b

namespace Sample

def guarded (name : String) : Block := { body := ⟨[], [{ name, ty := .bool }]⟩ }

/-- `if a {} elif b {} elif c {} else {}`, where each block knows its own name. -/
def threeWay : Branches :=
  .arm (.localName "a" .bool) (guarded "a") (.arm (.localName "b" .bool) (guarded "b")
    (.arm (.localName "c" .bool) (guarded "c") (.otherwise (guarded "else"))))

/-- Holds the third time that a guard is evaluated, whichever it is. -/
def thirdTime (_ : Expr) : StateM Nat Bool := modifyGet fun n => (n == 2, n + 1)

end Sample

/-- The second guard is met after one step, and the third block is selected by the third evaluation. -/
theorem Sample.threeWay_nested :
    let s : Statement := .nest ⟨.conditional Sample.threeWay, {}⟩
    (∃ branches, s.descend 1 = some ⟨.conditional branches, {}⟩ ∧
      branches.arms = [(.localName "b" .bool, Sample.guarded "b")] ∧
      branches.default? = (s.descend 2).map fun inner => (Sample.guarded "c").holding [inner]) ∧
    (s.select Sample.thirdTime 2).run 0 = (some (Sample.guarded "c"), 3) := by
  obtain ⟨-, hdescend, hselect⟩ := Statement.nest_faithful Sample.threeWay {}
  refine ⟨hdescend 1 _ rfl, ?_⟩
  exact (congrArg (StateT.run · 0) (hselect _ Sample.thirdTime)).trans rfl

end OutcomeControl
