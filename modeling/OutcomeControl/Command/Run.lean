import OutcomeControl.Command.Arguments
import OutcomeControl.Command.Host
import OutcomeControl.Command.LogFilter
import OutcomeControl.Format.Codec
import OutcomeControl.Json.Printer
import OutcomeControl.Lowering.Configuration
import OutcomeControl.Lowering.Pass

/-! The commands: lowering a program, and showing it as text. -/

namespace OutcomeControl.Command

/-- Why a command fails. -/
inductive Failure where
  | unreadable (path : String) (fault : StorageFault)
  | invalid (path : String) (fault : Fault)
  | unreadableConfiguration (path : String) (fault : StorageFault)
  | configuration (e : ConfigurationError)
  | unwritable (path : String) (fault : StorageFault)

namespace Failure

/-- What failed, and the details of what was found in a file. -/
def parts : Failure → String × Option String
  | .unreadable path fault => ("Failed to read '" ++ path ++ "': " ++ fault.text, none)
  | .invalid path fault =>
    ("Invalid compilation in '" ++ path ++ "'", some (fault.message?.getD "invalid value"))
  | .unreadableConfiguration path fault => ("Failed to read " ++ path ++ ": " ++ fault.text, none)
  | .configuration e => e.message
  | .unwritable path fault => ("Failed to write '" ++ path ++ "': " ++ fault.text, none)

def message (f : Failure) : String := match f.parts with
  | (headline, none) => headline
  | (headline, some detail) => headline ++ ": " ++ detail

end Failure

/-- What a command prints and logs, and why it failed if it did. -/
structure Transcript where
  output : String := ""
  log : List LogEntry := []
  failure : Option Failure := none

/-- Failed commands say so. -/
def Transcript.exitCode (t : Transcript) : UInt32 := if t.failure.isSome then 1 else 0

def versionText : String := "qliftc 0.1.0\n"

/-! ### Paths -/

/-- The parts of a path without empty parts and dots at its end. -/
def trimParts (parts : List String) : List String :=
  match parts with
  | [] => []
  | first :: rest => first :: (rest.reverse.dropWhile fun p => p == "" || p == ".").reverse

/-- The directory that a path names something in. -/
def directoryOf (path : String) : Option String :=
  match trimParts (path.splitOn "/") with
  | [] | [""] => none
  | [_] => some ""
  | parts => match trimParts parts.dropLast with
    | [""] => some "/"
    | up => some (String.intercalate "/" up)

/-- The path of a file in a directory. -/
def inDirectory (directory name : String) : String :=
  if directory.isEmpty || directory.endsWith "/" then directory ++ name
  else directory ++ "/" ++ name

/-- The configuration file that goes with an input. -/
def configurationBeside (input : String) : Option String :=
  (directoryOf input).map (inDirectory · "qlift.toml")

/-! ### Steps -/

section
variable {m : Type → Type} [Monad m] (host : Host m)

def readCompilation (path : String) : ExceptT Failure m Compilation := do
  match ← host.read path with
  | .error fault => throw (.unreadable path fault)
  | .ok text => match Formatted.decodeText text with
    | .ok c => return c
    | .error fault => throw (.invalid path fault)

def readSettings (path : String) : ExceptT Failure m Settings := do
  match ← host.read path with
  | .error fault => throw (.unreadableConfiguration path fault)
  | .ok text => match Settings.ofText text with
    | .ok s => return s
    | .error e => throw (.configuration e)

/-- A configuration that is asked for must exist, one beside the input may. -/
def loadSettings (input : String) (config : Option String) : ExceptT Failure m Settings := do
  match config with
  | some path => readSettings host path
  | none => match configurationBeside input with
    | some path => if ← host.isFile path then readSettings host path else return {}
    | none => return {}

def Emit.render (c : Compilation) : Emit → String
  | .json => (Formatted.encode c).pretty 0 ++ "\n"
  | .text => c.text

/-- The log of a run. -/
def lowerLog (input : String) (before : Compilation) (done : Lowered Compilation) : List LogEntry :=
  done.report.map LogEntry.ofEvent
    ++ [⟨.info, "qliftc", input ++ ": " ++ toString (done.result.callableCount - before.callableCount)
      ++ " callable(s) hoisted"⟩]

/-- The program is read before the configuration. -/
def lift (input : String) (output config : Option String) (emit : Emit) : m Transcript := do
  let prepare : ExceptT Failure m (Compilation × Settings) := do
    let c ← readCompilation host input
    return (c, ← loadSettings host input config)
  match ← prepare.run with
  | .error e => return { failure := some e }
  | .ok (c, settings) =>
    let done := c.lower { settings }
    let log := lowerLog input c done
    let text := emit.render done.result
    match output with
    | none => return { output := text, log }
    | some path => match ← host.write path text with
      | .ok () => return { log }
      | .error fault => return { log, failure := some (.unwritable path fault) }

def display (input : String) : m Transcript := do
  match ← (readCompilation host input).run with
  | .ok c => return { output := c.text }
  | .error e => return { failure := some e }

def Invocation.run : Invocation → m Transcript
  | .lift input output config emit => Command.lift host input output config emit
  | .display input => Command.display host input

end

end OutcomeControl.Command
