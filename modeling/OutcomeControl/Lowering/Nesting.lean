import OutcomeControl.Program.Statement

/-! A chain of guarded blocks as conditionals with one guard each.

The second guard and all that follows it become a conditional in the default block of the first,
and so on down the chain. -/

namespace OutcomeControl

namespace Branches

/-- The default block that stands for a chain with a guard: it holds `statements` and is described
as the first guarded block is. A chain without a guard stands for itself. -/
def enclose (statements : List Statement) : Branches → Branches
  | .arm _ block _ => .otherwise ⟨⟨statements, block.body.known⟩, block.location, block.comments⟩
  | .otherwise block => .otherwise block
  | .done => .done

/-- One guard at most, and every inner conditional described by `info`. -/
def nest (info : StatementInfo) : Branches → Branches
  | .arm condition block rest =>
    let rest := rest.nest info
    .arm condition block (rest.enclose [⟨.conditional rest, info⟩])
  | .otherwise block => .otherwise block
  | .done => .done

end Branches

/-- A conditional is nested, any other statement is left alone. -/
def Statement.nest (s : Statement) : Statement := match s.kind with
  | .conditional branches => ⟨.conditional (branches.nest s.info), s.info⟩
  | _ => s

end OutcomeControl
