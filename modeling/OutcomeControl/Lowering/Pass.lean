import OutcomeControl.Lowering.ControlCall
import OutcomeControl.Lowering.Nesting
import OutcomeControl.Lowering.OutcomeTest

/-! Lowering of outcome tests to calls of control primitives.

`if r == One { A(); } else { B(); }` becomes a call that runs the first block as an operation when
`r` is `One`, and one that runs the second when it is `Zero`. Inner conditionals are lowered first,
so a block that holds only outcome tests ends as a sequence of calls. -/

namespace OutcomeControl

section
variable (primitives : Primitives) (frame : Frame)

/-- The call that runs `body` when the condition of `source` has this outcome. -/
def applyBlock (source : Statement) (outcome : Outcome) (condition : Expr) (body : Scope) :
    Pass Statement := do
  let target ← hoist frame body source.info.comments
  return source.replacedBy
    ((primitives.forOutcome outcome).controlCall condition target body.known frame)

/-- The statements for an outcome test on a plain name. -/
def applyTest (source : Statement) (t : OutcomeTest) : Pass (List Statement) := do
  let yes ← applyBlock primitives frame source t.outcome t.condition t.body
  match t.default with
  | none => return [yes]
  | some body =>
    let no ← applyBlock primitives frame source t.outcome.opposite t.condition body
    return [yes, no]

/-- What takes the place of a conditional whose blocks are lowered already. -/
def conclude (s : Statement) : Pass (List Statement) := do
  match s.outcomeTest? with
  | none =>
    Pass.note (.untested frame.name)
    return [s]
  | some t =>
    if !t.isSeparable then
      Pass.note (.kept frame.name t.condition)
      return [s]
    else if t.condition.isName then
      applyTest primitives frame s t
    else
      let (binding, condition) ← bindCondition s t.condition
      return binding :: (← applyTest primitives frame s { t with condition })

mutual
/-- The statements that take the place of this one. -/
def Statement.lower : Statement → Pass (List Statement)
  | ⟨.conditional branches, info⟩ => do
    conclude primitives frame ⟨.conditional (← branches.lower info), info⟩
  | ⟨.forEach symbols itemTy iterable body, info⟩ =>
    return [⟨.forEach symbols itemTy iterable (← body.lower), info⟩]
  | ⟨.whileLoop condition body, info⟩ => return [⟨.whileLoop condition (← body.lower), info⟩]
  | ⟨.repeatUntil block success fixup, info⟩ => do
    let block ← block.lower
    return [⟨.repeatUntil block success (← fixup.lower), info⟩]
  | ⟨.qubits kind binding body, info⟩ => return [⟨.qubits kind binding (← body.lower), info⟩]
  | ⟨.expression e, info⟩ => return [⟨.expression e, info⟩]
  | ⟨.returns e, info⟩ => return [⟨.returns e, info⟩]
  | ⟨.fails e, info⟩ => return [⟨.fails e, info⟩]
  | ⟨.binding b, info⟩ => return [⟨.binding b, info⟩]
  | ⟨.update lhs rhs, info⟩ => return [⟨.update lhs rhs, info⟩]

/-- The chain nested, with all blocks lowered and all inner conditionals concluded. -/
def Branches.lower (info : StatementInfo) : Branches → Pass Branches
  | .arm condition block rest => do
    let block ← block.lower
    match ← rest.lower info with
    | .arm c b r =>
      let inner := Branches.arm c b r
      return .arm condition block
        (inner.enclose (← conclude primitives frame ⟨.conditional inner, info⟩))
    | rest => return .arm condition block rest
  | .otherwise block => return .otherwise (← block.lower)
  | .done => return .done

def Block.lower : Block → Pass Block
  | ⟨body, location, comments⟩ => return ⟨← body.lower, location, comments⟩

def Scope.lower : Scope → Pass Scope
  | ⟨statements, known⟩ => return ⟨← Statement.lowerList statements, known⟩

def Statement.lowerList : List Statement → Pass (List Statement)
  | [] => return []
  | s :: ss => do
    let first ← s.lower
    return first ++ (← Statement.lowerList ss)
end

/-- Only a body with statements is lowered. -/
def Specialization.lower (s : Specialization) : Pass Specialization :=
  match s.kind, s.implementation with
  | .body, .provided params scope =>
    return { s with implementation := .provided params (← scope.lower primitives frame) }
  | _, _ => return s

end

def Callable.lower (primitives : Primitives) (c : Callable) : Pass Callable :=
  return { c with
    specializations := ← c.specializations.mapM (Specialization.lower primitives (.ofCallable c)) }

def Element.lower (primitives : Primitives) : Element → Pass Element
  | .callable c => return .callable (← c.lower primitives)
  | .customType t => return .customType t

/-- A lowered part of a program, the supply left over and the report. -/
structure Lowered (α : Type) where
  result : α
  names : NameSupply
  report : List Event

/-- Lowers every callable and appends the operations made from their blocks. -/
def Namespace.lower (primitives : Primitives) (names : NameSupply) (ns : Namespace) :
    Lowered Namespace :=
  let (elements, p) := StateT.run (ns.elements.mapM (Element.lower primitives)) { names }
  { result := { ns with elements := elements ++ p.hoisted.map Element.callable }
    names := p.names
    report :=
      if p.hoisted.isEmpty then p.report
      else p.report ++ [.extended ns.name p.hoisted.length] }

/-- Lowers the namespaces in order from one supply. -/
def Namespace.lowerAll (primitives : Primitives) (names : NameSupply) :
    List Namespace → Lowered (List Namespace)
  | [] => ⟨[], names, []⟩
  | ns :: rest =>
    let first := ns.lower primitives names
    let others := Namespace.lowerAll primitives first.names rest
    ⟨first.result :: others.result, others.names, first.report ++ others.report⟩

/-- Lowers a whole program. No generated name is one that the program mentions. -/
def Compilation.lower (options : Options) (c : Compilation) : Lowered Compilation :=
  let out := Namespace.lowerAll options.primitives (.forCompilation c options.settings) c.namespaces
  { out with result := { c with namespaces := out.result } }

end OutcomeControl
