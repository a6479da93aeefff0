import OutcomeControl.Program.Expr
import OutcomeControl.Program.Primitive

/-! How generated names start and which primitives the generated calls use. -/

namespace OutcomeControl

/-- The primitives for the two outcomes. -/
structure Primitives where
  zero : Primitive
  one : Primitive
deriving DecidableEq

/-- The primitive that runs its operation on this outcome. -/
def Primitives.forOutcome (p : Primitives) : Outcome → Primitive
  | .zero => p.zero
  | .one => p.one

structure Settings where
  callablePrefix : String := "_ctrl"
  variablePrefix : String := "__classic_ctrl"
  primitiveSpace : String := "Microsoft.Quantum.Simulation.QuantumProcessor.Extensions"
  zeroName : String := "ApplyIfZero"
  oneName : String := "ApplyIfOne"
deriving DecidableEq

/-- Why settings cannot be used. -/
inductive SettingsError where
  | emptyCallablePrefix
  | emptyVariablePrefix
deriving DecidableEq

def SettingsError.message : SettingsError → String
  | .emptyCallablePrefix => "callable_prefix must not be empty"
  | .emptyVariablePrefix => "variable_prefix must not be empty"

namespace Settings

/-- Settings are used only when neither prefix is empty. -/
def validate (s : Settings) : Except SettingsError Settings :=
  if s.callablePrefix.isEmpty then .error .emptyCallablePrefix
  else if s.variablePrefix.isEmpty then .error .emptyVariablePrefix
  else .ok s

def primitives (s : Settings) : Primitives :=
  ⟨.control s.primitiveSpace s.zeroName, .control s.primitiveSpace s.oneName⟩

end Settings

/-- The primitives of the default settings. -/
def Primitives.standard : Primitives := Settings.primitives {}

/-- All that the pass needs besides the program. The primitives may differ from those that the
settings name. -/
structure Options where
  settings : Settings := {}
  primitives : Primitives := settings.primitives

end OutcomeControl
