import OutcomeControl.Format.Codec
import OutcomeControl.Lowering.Hoisting

/-! The JSON form of settings, primitives and what describes a hoisted operation. -/

namespace OutcomeControl

namespace Primitive

def toValue (p : Primitive) : Value :=
  .ofList [p.name.toValue, .ofList (p.typeParameters.map .text)]

def ofValue : Value → Option Primitive
  | .cons name (.cons typeParameters .nil) => do
    return ⟨← QualifiedName.ofValue name, ← typeParameters.list? Value.text?⟩
  | _ => none

end Primitive

namespace Primitives

def toValue (p : Primitives) : Value := .ofList [p.zero.toValue, p.one.toValue]

def ofValue : Value → Option Primitives
  | .cons zero (.cons one .nil) => do return ⟨← Primitive.ofValue zero, ← Primitive.ofValue one⟩
  | _ => none

end Primitives

namespace Settings

def toValue (s : Settings) : Value :=
  .ofList [.text s.callablePrefix, .text s.variablePrefix, .text s.primitiveSpace,
    .text s.zeroName, .text s.oneName]

def ofValue : Value → Option Settings
  | .cons callableStart (.cons variableStart (.cons space (.cons zero (.cons one .nil)))) => do
    return ⟨← callableStart.text?, ← variableStart.text?, ← space.text?, ← zero.text?, ← one.text?⟩
  | _ => none

end Settings

namespace Frame

def toValue (f : Frame) : Value :=
  .ofList [f.name.toValue, .ofList (f.typeParameters.map Symbol.toValue), .text f.sourceFile]

def ofValue : Value → Option Frame
  | .cons name (.cons typeParameters (.cons sourceFile .nil)) => do
    return ⟨← QualifiedName.ofValue name, ← typeParameters.list? Symbol.ofValue, ← sourceFile.text?⟩
  | _ => none

end Frame

namespace Target

def toValue (t : Target) : Value := .ofList [t.name.toValue, t.paramTy.toValue]

def ofValue : Value → Option Target
  | .cons name (.cons paramTy .nil) => do return ⟨← QualifiedName.ofValue name, ← Ty.ofValue paramTy⟩
  | _ => none

end Target

/-- Declared variables where the format wraps them in a record of their own. -/
structure Declarations where
  declared : List Variable := []

instance : Formatted Declarations :=
  ⟨.named .declarations, (Variable.listToValue ·.declared),
    fun v => (Variable.listOfValue v).map Declarations.mk⟩

instance : Formatted Primitive := ⟨.named .primitive, (·.toValue), Primitive.ofValue⟩
instance : Formatted Primitives := ⟨.named .primitives, (·.toValue), Primitives.ofValue⟩
instance : Formatted Settings := ⟨.named .settings, (·.toValue), Settings.ofValue⟩
instance : Formatted Frame := ⟨.named .frame, (·.toValue), Frame.ofValue⟩
instance : Formatted Target := ⟨.named .target, (·.toValue), Target.ofValue⟩

end OutcomeControl
