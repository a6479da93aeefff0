import OutcomeControl.Format.Shape
import OutcomeControl.Json.Basic

/-! Reading a JSON value as a value of a shape.

A record may be spelled as an object, with members in any order and unknown ones skipped, or as
the array of its fields. Members are read in the order of the text, so of several faults the
first one in the text is reported; fields left out are noticed at the end of the object. -/

namespace OutcomeControl

/-- Why a JSON text is not a tree. -/
inductive Fault where
  | missingField (name : String)
  | duplicateField (name : String)
  | unknownVariant (name : String)
  | tooDeep
  /-- A well-formed value of another form, or a number that does not fit. -/
  | mismatch
  /-- The text is not JSON. -/
  | malformed
deriving DecidableEq

namespace Fault

/-- The message for the faults that are about a name. -/
def message? : Fault → Option String
  | .missingField f => some ("missing field `" ++ f ++ "`")
  | .duplicateField f => some ("duplicate field `" ++ f ++ "`")
  | .unknownVariant v => some ("unknown variant `" ++ v ++ "`")
  | .tooDeep | .mismatch | .malformed => none

end Fault

/-- How many arrays and objects may be open at once while a tree is read. -/
def nestingLimit : Nat := 127

namespace Json

/-- A value of an optional shape is present. -/
def present (nullable : Bool) (v : Value) : Value := if nullable then .cons v .nil else v

/-- A number as what the shape asks for. -/
def readNumber (n : Numeral) : Head → Except Fault Value
  | .word => match n.toInt? with
    | some i => if 0 ≤ i ∧ i < Value.wordBound then .ok (.int i) else .error .mismatch
    | none => .error .mismatch
  | .integer => match n.toInt? with
    | some i => if -Value.integerBound ≤ i ∧ i < Value.integerBound then .ok (.int i) else .error .mismatch
    | none => .error .mismatch
  | .double => match n.toDouble? with
    | some d => .ok (.double d)
    | none => .error .mismatch
  | _ => .error .mismatch

/-- A string as what the shape asks for: a text, or the name of a variant that carries nothing. -/
def readString (s : String) : Head → Except Fault Value
  | .text => .ok (.text s)
  | .choice variants => match variants.lookup s with
    | none => .error (.unknownVariant s)
    | some .null => .ok (.bare s)
    | some _ => .error .mismatch
  | _ => .error .mismatch

/-- The record whose fields take the values found for them, or the values of absent fields. -/
def fillFields (found : List (String × Value)) : List Field → Except Fault Value
  | [] => .ok .nil
  | f :: fs => match found.lookup f.name, f.absent with
    | some v, _ | none, some v => do return .cons v (← fillFields found fs)
    | none, none => .error (.missingField f.name)

/-- The values of fields that an array leaves out at its end. -/
def omittedFields : List Field → Except Fault Value
  | [] => .ok .nil
  | f :: fs => match f.absent with
    | some v => do return .cons v (← omittedFields fs)
    | none => .error .mismatch

mutual
/-- Reads a value, with room for that many more open arrays and objects. -/
def readHead (h : Head) (nullable : Bool) (room : Nat) : Json → Except Fault Value
  | .null => match nullable, h with
    | true, _ | _, .null => .ok .nil
    | _, _ => .error .mismatch
  | .bool b => match h with
    | .flag => .ok (present nullable (.flag b))
    | _ => .error .mismatch
  | .number n => (readNumber n h).map (present nullable)
  | .string none => .error .malformed
  | .string (some s) => (readString s h).map (present nullable)
  | .array items => match h, room with
    | .list _, 0 | .tuple _, 0 | .record _, 0 => .error .tooDeep
    | .list item, room + 1 => (readItems item room items).map (present nullable)
    | .tuple shapes, room + 1 => (readTuple shapes room items).map (present nullable)
    | .record fields, room + 1 => (readFields fields room items).map (present nullable)
    | _, _ => .error .mismatch
  | .object members => match h, room with
    | .record _, 0 | .choice _, 0 => .error .tooDeep
    | .record fields, room + 1 => do
      let found ← readMembers fields room [] members
      return present nullable (← fillFields found fields)
    | .choice variants, room + 1 => (readVariant variants room members).map (present nullable)
    | _, _ => .error .mismatch
  | .broken => .error .malformed

def readItems (item : Shape) (room : Nat) : List Json → Except Fault Value
  | [] => .ok .nil
  | j :: js => do
    let v ← readHead item.head item.nullable room j
    return .cons v (← readItems item room js)

/-- A tuple has exactly as many items as shapes. -/
def readTuple (shapes : List Shape) (room : Nat) : List Json → Except Fault Value
  | [] => match shapes with
    | [] => .ok .nil
    | _ => .error .mismatch
  | j :: js => match shapes with
    | [] => .error .mismatch
    | s :: ss => do
      let v ← readHead s.head s.nullable room j
      return .cons v (← readTuple ss room js)

/-- A record as the array of its fields; fields that may be absent can be left off at the end. -/
def readFields (fields : List Field) (room : Nat) : List Json → Except Fault Value
  | [] => omittedFields fields
  | j :: js => match fields with
    | [] => .error .mismatch
    | f :: fs => do
      let v ← readHead f.shape.head f.shape.nullable room j
      return .cons v (← readFields fs room js)

/-- The fields that an object's members give, `found` before them. -/
def readMembers (fields : List Field) (room : Nat) (found : List (String × Value)) :
    List (Spelling × Json) → Except Fault (List (String × Value))
  | [] => .ok found
  | (none, _) :: _ => .error .malformed
  | (some key, j) :: rest => match fields.find? (·.name = key) with
    | none => if j.intact then readMembers fields room found rest else .error .malformed
    | some f =>
      if (found.lookup key).isSome then .error (.duplicateField key)
      else do
        let v ← readHead f.shape.head f.shape.nullable room j
        readMembers fields room ((key, v) :: found) rest

/-- A choice as the object with one member, the variant's name and what it carries. -/
def readVariant (variants : List (String × Shape)) (room : Nat) :
    List (Spelling × Json) → Except Fault Value
  | [] => .error .mismatch
  | (none, _) :: _ => .error .malformed
  | (some name, j) :: rest => match variants.lookup name with
    | none => .error (.unknownVariant name)
    | some s => do
      let v ← readHead s.head s.nullable room j
      if rest.isEmpty then return .tag name v else throw .mismatch
end

/-- Reads a value of a shape. -/
def readAs (s : Shape) (j : Json) : Except Fault Value := readHead s.head s.nullable nestingLimit j

end Json

end OutcomeControl
