import OutcomeControl.Format.Shape
import OutcomeControl.Json.Basic

/-! Writing a value of a shape as JSON: records as objects with every field, in the order of the
fields, and variants that carry nothing as their names. -/

namespace OutcomeControl

namespace Double

/-- A double as a JSON number; an infinite one has no number. -/
def json (d : Double) : Json :=
  if d.isFinite then .number (.ofDouble Numeral.jsonText d) else .null

end Double

namespace Value

mutual
/-- Writes a value; `double` says how doubles are written. -/
def writeHead (double : Double → Json) (h : Head) (nullable : Bool) : Value → Json
  | .text s => .text s
  | .int i => .int i
  | .double d => double d
  | .flag b => .bool b
  | .nil => match nullable, h with
    | true, _ | _, .null => .null
    | _, .record _ => .object []
    | _, _ => .array []
  | .cons v vs => match nullable, h with
    | true, _ => writeHead double h false v
    | false, .list item => .array (writeHead double item.head item.nullable v :: writeItems double item vs)
    | false, .tuple (s :: ss) =>
      .array (writeHead double s.head s.nullable v :: writeTuple double ss vs)
    | false, .record (f :: fs) =>
      .object ((some f.name, writeHead double f.shape.head f.shape.nullable v)
        :: writeFields double fs vs)
    | false, _ => .null
  | .tag name payload => match h with
    | .choice variants => match variants.lookup name with
      | some .null | none => .text name
      | some s => .record [(name, writeHead double s.head s.nullable payload)]
    | _ => .null

def writeItems (double : Double → Json) (item : Shape) : Value → List Json
  | .cons v vs => writeHead double item.head item.nullable v :: writeItems double item vs
  | _ => []

def writeTuple (double : Double → Json) (shapes : List Shape) : Value → List Json
  | .cons v vs => match shapes with
    | s :: ss => writeHead double s.head s.nullable v :: writeTuple double ss vs
    | [] => []
  | _ => []

def writeFields (double : Double → Json) (fields : List Field) : Value → List (Spelling × Json)
  | .cons v vs => match fields with
    | f :: fs => (some f.name, writeHead double f.shape.head f.shape.nullable v)
        :: writeFields double fs vs
    | [] => []
  | _ => []
end

/-- Writes a value of a shape. -/
def writeAs (double : Double → Json) (s : Shape) (v : Value) : Json :=
  writeHead double s.head s.nullable v

end Value

end OutcomeControl
