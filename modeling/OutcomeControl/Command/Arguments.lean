/-! The arguments of the command line.

`lift <input> [-o|--output path] [--config path] [--emit json|text]` and `show <input>`. An option
takes its value from the next argument, after `=`, or, for the short one, right after its letter;
what follows `--` is never an option. -/

namespace OutcomeControl.Command

/-- In which form a lowered program is written. -/
inductive Emit where
  | json | text
deriving DecidableEq

def Emit.ofText? : String → Option Emit
  | "json" => some .json
  | "text" => some .text
  | _ => none

/-- What is to be done. -/
inductive Invocation where
  | lift (input : String) (output config : Option String) (emit : Emit)
  | display (input : String)
deriving DecidableEq

/-- Why there is nothing to be done. -/
inductive Stop where
  | usage | help | version
deriving DecidableEq

/-! ### Options and words -/

inductive OptionName where
  | output | config | emit
deriving DecidableEq

def OptionName.ofText? : String → Option OptionName
  | "output" => some .output
  | "config" => some .config
  | "emit" => some .emit
  | _ => none

inductive Item where
  | word (s : String)
  | option (name : OptionName) (value : Option String)
  | help
  | unknown
  /-- Only words follow. -/
  | divider

/-- What stands before the first `=`, and what stands after it. -/
def splitValue (cs : List Char) : String × Option String :=
  match cs.span (· != '=') with
  | (name, []) => (String.ofList name, none)
  | (name, _ :: value) => (String.ofList name, some (String.ofList value))

/-- The value that is attached to a short option. -/
def attached : List Char → Option String
  | [] => none
  | '=' :: rest => some (String.ofList rest)
  | cs => some (String.ofList cs)

def Item.ofArgument (arg : String) : Item := match arg.toList with
  | ['-', '-'] => .divider
  | '-' :: '-' :: rest => match splitValue rest with
    | ("help", none) => .help
    | (name, value) => match OptionName.ofText? name with
      | some name => .option name value
      | none => .unknown
  | '-' :: 'o' :: rest => .option .output (attached rest)
  | '-' :: 'h' :: _ => .help
  | '-' :: _ :: _ => .unknown
  | _ => .word arg

def items : List String → List Item
  | [] => []
  | arg :: rest => match Item.ofArgument arg with
    | .divider => .divider :: rest.map .word
    | item => item :: items rest

/-! ### Collecting -/

/-- What the arguments so far say. -/
structure Draft where
  input : Option String := none
  output : Option String := none
  config : Option String := none
  emit : Option Emit := none

namespace Draft

/-- No path is empty, and nothing is given twice. -/
def path (old : Option String) (value : String) : Except Stop (Option String) :=
  if old.isSome || value.isEmpty then .error .usage else .ok (some value)

def set (d : Draft) (name : OptionName) (value : String) : Except Stop Draft :=
  match name with
  | .output => return { d with output := ← path d.output value }
  | .config => return { d with config := ← path d.config value }
  | .emit => match d.emit, Emit.ofText? value with
    | none, some e => return { d with emit := some e }
    | _, _ => throw .usage

/-- Reads items in order; the first that does not fit decides. -/
def collect (options : Bool) (d : Draft) : List Item → Except Stop Draft
  | [] => return d
  | .word s :: rest => do collect options { d with input := ← path d.input s } rest
  | .option name (some value) :: rest =>
    if options then do collect options (← d.set name value) rest else throw .usage
  | .option name none :: .word value :: rest =>
    if options then do collect options (← d.set name value) rest else throw .usage
  | .option _ none :: _ => throw .usage
  | .help :: _ => throw .help
  | .unknown :: _ => throw .usage
  | .divider :: rest => collect options d rest

/-- The input must be given. -/
def required (d : Draft) : Except Stop String := match d.input with
  | some input => return input
  | none => throw .usage

end Draft

namespace Invocation

def ofItems (options : Bool) (args : List String) : Except Stop Draft :=
  Draft.collect options {} (items args)

/-- What the arguments ask for. -/
def ofArguments : List String → Except Stop Invocation
  | [] => throw .usage
  | "lift" :: args => do
    let d ← ofItems true args
    return .lift (← d.required) d.output d.config (d.emit.getD .json)
  | "show" :: args => do
    let d ← ofItems false args
    return .display (← d.required)
  | ["help"] | ["help", "lift"] | ["help", "show"] | ["help", "help"] | "--help" :: _ => throw .help
  | "--version" :: _ => throw .version
  | arg :: _ => match arg.toList with
    | '-' :: 'V' :: _ => throw .version
    | '-' :: 'h' :: _ => throw .help
    | _ => throw .usage

end Invocation

end OutcomeControl.Command
