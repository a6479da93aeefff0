import OutcomeControl.Lowering.Settings
import OutcomeControl.Program.Visit

/-! Names that no program text mentions.

A `NameSupply` numbers the names it gives out. A number whose name is reserved is skipped, so the
next free number is found after at most as many tries as there are reserved names. -/

namespace OutcomeControl

structure NameSupply where
  /-- How many numbers were drawn. The last of them is this one, counted in 32 bits. -/
  issued : Nat := 0
  reserved : List String := []
  callablePrefix : String
  variablePrefix : String

/-! ### The names of a program -/

/-- The names that a node mentions by itself, each without its namespace. -/
def Visit.names : Visit → List String
  | .expression e =>
    (match e.kind with
      | .name (.ofVariable name) _ => [name]
      | .name (.ofCallable name) _ => [name.name]
      | _ => [])
      ++ e.info.resolutions.map (·.callable.name)
  | .type (.custom name) => [name.name]
  | .localName name => [name]
  | _ => []

def Element.names : Element → List String
  | .callable c => c.name.name :: c.visits.flatMap Visit.names
  | .customType t => t.name.name :: t.underlying.visits.flatMap Visit.names

/-- Every name that a compilation declares or refers to. -/
def Compilation.names (c : Compilation) : List String :=
  c.namespaces.flatMap (·.elements.flatMap Element.names) ++ c.entryPoints.map (·.name)

/-! ### Drawing -/

namespace NameSupply

/-- The first number after `k` whose name is free, given that at most `n` more names are taken. -/
def search (wanted : UInt32 → String) (reserved : List String) : Nat → Nat → Nat
  | 0, k => k + 1
  | n + 1, k =>
    if wanted (.ofNat (k + 1)) ∈ reserved then search wanted reserved n (k + 1) else k + 1

/-- The name with the next free number. -/
def draw (s : NameSupply) (wanted : UInt32 → String) : String × NameSupply :=
  let token := search wanted s.reserved s.reserved.length s.issued
  (wanted (.ofNat token), { s with issued := token })

/-- A supply with nothing reserved. -/
def ofSettings (settings : Settings) : NameSupply :=
  { callablePrefix := settings.callablePrefix, variablePrefix := settings.variablePrefix }

/-- Every reserved name is kept once. -/
def reserve (s : NameSupply) (name : String) : NameSupply :=
  { s with reserved := s.reserved.insert name }

/-- A supply that reserves every name of the compilation. -/
def forCompilation (c : Compilation) (settings : Settings) : NameSupply :=
  c.names.foldl reserve (ofSettings settings)

def callableName (s : NameSupply) (enclosing : String) (token : UInt32) : String :=
  s.callablePrefix ++ toString token.toNat ++ "_" ++ enclosing

def variableName (s : NameSupply) (token : UInt32) : String :=
  s.variablePrefix ++ toString token.toNat ++ "__"

/-- A fresh callable beside `enclosing`, named after it. -/
def freshCallable (s : NameSupply) (enclosing : QualifiedName) : QualifiedName × NameSupply :=
  let (name, s) := s.draw (s.callableName enclosing.name)
  (enclosing.sibling name, s)

def freshVariable (s : NameSupply) : String × NameSupply := s.draw s.variableName

end NameSupply

end OutcomeControl
