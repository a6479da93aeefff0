/-! Values of a TOML document, and tables that grow line by line.

How a table came into being decides what may still be added to it. -/

namespace OutcomeControl.Toml

/-- How a table came into being. -/
inductive Origin where
  /-- As a value between braces. -/
  | inline
  /-- On the way to a table that a header names. -/
  | implied
  /-- On the way to the last part of a dotted key. -/
  | dotted
  /-- By a header, or as the table of the whole document. -/
  | header
deriving DecidableEq

inductive Value where
  | text (s : String)
  /-- A truth value or a number. -/
  | scalar (literal : String)
  /-- A date, a time or both. -/
  | moment (literal : String)
  | array (items : List Value)
  | table (origin : Origin) (entries : List (String × Value))
  /-- The tables under repeated headers of one name. -/
  | tables (items : List (List (String × Value)))

abbrev Entries := List (String × Value)

/-- A dotted key: the way to a table, and the name inside it. -/
structure Key where
  path : List String
  name : String

/-- What may be passed on the way to a table, and how tables that are missing come into being. -/
structure Route where
  passes : Origin → Bool
  missing : Origin

/-- The way of a header leads through everything but values. -/
def Route.header : Route := ⟨(· ≠ .inline), .implied⟩

/-- The way of a dotted key leads through tables that no header or value has closed. -/
def Route.dotted : Route := ⟨fun o => o = .implied || o = .dotted, .dotted⟩

namespace Entries

def replace (es : Entries) (name : String) (v : Value) : Entries :=
  es.map fun e => if e.1 = name then (name, v) else e

/-- Changes the table at the end of a path, of which `leaf` is told the origin. Under repeated
headers the last table counts. -/
def modifyAt (route : Route) (leaf : Origin → Entries → Option Entries) (origin : Origin) :
    List String → Entries → Option Entries
  | [], es => leaf origin es
  | name :: path, es => match es.lookup name with
    | none => do
      let inner ← modifyAt route leaf route.missing path []
      return es ++ [(name, .table route.missing inner)]
    | some (.table o inner) =>
      if route.passes o then do
        return es.replace name (.table o (← modifyAt route leaf o path inner))
      else none
    | some (.tables items) => do
      let last ← items.getLast?
      let inner ← modifyAt route leaf .header path last
      return es.replace name (.tables (items.dropLast ++ [inner]))
    | some _ => none

/-- Adds a value under a key that must be new. The last table on a dotted way must be one that
dotted keys made. -/
def insert (origin : Origin) (es : Entries) (key : Key) (v : Value) : Option Entries :=
  modifyAt .dotted
    (fun o inner =>
      if (o == .dotted) == key.path.isEmpty || (inner.lookup key.name).isSome then none
      else some (inner ++ [(key.name, v)]))
    origin key.path es

/-- Opens the table that a header names: a new one, or one that was only implied so far. -/
def openTable (es : Entries) (key : Key) : Option Entries :=
  modifyAt .header
    (fun _ inner => match inner.lookup key.name with
      | none => some (inner ++ [(key.name, .table .header [])])
      | some (.table .implied sub) => some (inner.replace key.name (.table .header sub))
      | some _ => none)
    .header key.path es

/-- Opens one more table under a repeated header. -/
def openTables (es : Entries) (key : Key) : Option Entries :=
  modifyAt .header
    (fun _ inner => match inner.lookup key.name with
      | none => some (inner ++ [(key.name, .tables [[]])])
      | some (.tables items) => some (inner.replace key.name (.tables (items ++ [[]])))
      | some _ => none)
    .header key.path es

end Entries

/-- A table between braces. -/
def Value.ofPairs? (pairs : List (Key × Value)) : Option Value := do
  return .table .inline (← pairs.foldlM (fun es (k, v) => Entries.insert .inline es k v) [])

/-! ### Lines -/

/-- A line that says something. -/
inductive Line where
  | entry (key : Key) (v : Value)
  | table (key : Key)
  | tables (key : Key)

/-- What the lines so far say, and the path of the table that entries go to. -/
structure Document where
  entries : Entries := []
  current : List String := []

def Document.add? (d : Document) : Line → Option Document
  | .entry key v => do
    let entries ← Entries.modifyAt .header (fun _ inner => Entries.insert .header inner key v)
      .header d.current d.entries
    return { d with entries }
  | .table key => return ⟨← d.entries.openTable key, key.path ++ [key.name]⟩
  | .tables key => return ⟨← d.entries.openTables key, key.path ++ [key.name]⟩

end OutcomeControl.Toml
