import OutcomeControl.Program.Text

/-! What the pass reports while it works. -/

namespace OutcomeControl

inductive Level where
  | error | warn | info | debug | trace
deriving DecidableEq

def Level.text : Level → String
  | .error => "ERROR"
  | .warn => "WARN"
  | .info => "INFO"
  | .debug => "DEBUG"
  | .trace => "TRACE"

inductive Event where
  /-- A conditional that compares with no outcome stays. -/
  | untested (callable : QualifiedName)
  /-- An outcome test stays because a block holds more than calls. -/
  | kept (callable : QualifiedName) (condition : Expr)
  /-- A condition got a variable of its own. -/
  | bound (ty : Ty) (name : String)
  /-- A block of so many statements became an operation with so many parameters. -/
  | hoisted (statements : Nat) (source target : QualifiedName) (captured : Nat)
  /-- A namespace got so many new operations. -/
  | extended (space : String) (count : Nat)

namespace Event

def level : Event → Level
  | .untested _ | .kept _ _ => .trace
  | .bound _ _ | .hoisted _ _ _ _ | .extended _ _ => .debug

/-- The part of the program that reports. -/
def topic : Event → String
  | .untested _ | .kept _ _ | .extended _ _ => "qlift_lower::lift"
  | .bound _ _ => "qlift_lower::condition"
  | .hoisted _ _ _ _ => "qlift_lower::hoist"

def message : Event → String
  | .untested callable => callable.text ++ ": conditional does not test an outcome"
  | .kept callable condition =>
    callable.text ++ ": outcome branch on " ++ condition.text
      ++ " keeps its conditional, a block is not a call sequence"
  | .bound ty name => "bound condition of type " ++ ty.text ++ " to " ++ name
  | .hoisted statements source target captured =>
    "hoisted " ++ toString statements ++ " statement(s) from " ++ source.text ++ " into "
      ++ target.text ++ " capturing " ++ toString captured ++ " variable(s)"
  | .extended space count =>
    "namespace " ++ space ++ ": hoisted " ++ toString count ++ " operation(s)"

end Event

end OutcomeControl
