import OutcomeControl.Lowering.Report
import OutcomeControl.Text.Terminal

/-! What a command logs. -/

namespace OutcomeControl

namespace Level

/-- The higher, the more is shown. -/
def rank : Level → Nat
  | .error => 1
  | .warn => 2
  | .info => 3
  | .debug => 4
  | .trace => 5

end Level

namespace Command

structure LogEntry where
  level : Level
  topic : String
  message : String
deriving DecidableEq

namespace LogEntry

def ofEvent (e : Event) : LogEntry := ⟨e.level, e.topic, e.message⟩

/-- All levels take the same room, and further lines of a message are indented. What would control
a terminal is left out. -/
def line (e : LogEntry) : String :=
  let level := e.level.text
  Text.withoutControls ("[" ++ level ++ String.ofList (List.replicate (5 - level.length) ' ') ++ " "
    ++ e.topic ++ "] " ++ e.message.replace "\n" "\n    " ++ "\n")

end LogEntry

end Command

end OutcomeControl
