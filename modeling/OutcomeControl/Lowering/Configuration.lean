import OutcomeControl.Lowering.Settings
import OutcomeControl.Toml.Reader

/-! Settings from the `lift` table of a TOML document. -/

namespace OutcomeControl

inductive ConfigurationError where
  | notToml
  /-- A setting that is not a text, or settings that are no table. -/
  | wrongType
  | unusable (e : SettingsError)
deriving DecidableEq

namespace ConfigurationError

/-- What is wrong, and the details where there are any. -/
def message : ConfigurationError → String × Option String
  | .notToml => ("Failed to parse config", some "not a TOML document")
  | .wrongType => ("Failed to parse config", some "a setting is not a string")
  | .unusable e => (e.message, none)

end ConfigurationError

namespace Settings

/-- A setting, or its default where it is left out. -/
def setting (default : String) : Option Toml.Value → Except ConfigurationError String
  | none => .ok default
  | some (.text s) => .ok s
  | some _ => .error .wrongType

/-- Settings from a source that gives each by name and place. -/
def ofSource (source : String → Nat → Option Toml.Value) : Except ConfigurationError Settings := do
  let d : Settings := {}
  return {
    callablePrefix := ← setting d.callablePrefix (source "callable_prefix" 0)
    variablePrefix := ← setting d.variablePrefix (source "variable_prefix" 1)
    primitiveSpace := ← setting d.primitiveSpace (source "builtin_namespace" 2)
    zeroName := ← setting d.zeroName (source "apply_if_zero" 3)
    oneName := ← setting d.oneName (source "apply_if_one" 4) }

/-- Settings are a table, or an array with the settings in order. A date or a time counts as a table
without any of them. -/
def ofToml : Option Toml.Value → Except ConfigurationError Settings
  | none => .ok {}
  | some (.table _ entries) => ofSource fun name _ => entries.lookup name
  | some (.array items) => ofSource fun _ place => items[place]?
  | some (.moment _) => .ok {}
  | some _ => .error .wrongType

/-- The settings of a document. All that is not a setting is ignored. -/
def ofText (s : String) : Except ConfigurationError Settings := do
  let some entries := Toml.read? s | throw .notToml
  let settings ← ofToml (entries.lookup "lift")
  settings.validate.mapError .unusable

end Settings

end OutcomeControl
