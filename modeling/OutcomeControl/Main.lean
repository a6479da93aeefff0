import OutcomeControl.Command.Run

/-! The command line on the files of a machine. -/

namespace OutcomeControl.Command

/-- The code of a path that passes a file as if it were a directory comes with either sign. -/
def storageFault : IO.Error → StorageFault
  | .noFileOrDirectory _ _ _ | .noSuchThing _ _ _ => .notFound
  | .inappropriateType _ code _ => if code = 20 || code = -20 then .notDirectory else .isDirectory
  | .invalidArgument _ 36 _ => .nameTooLong
  | e => .other (toString e)

def machine : Host IO where
  read path := do
    try
      match String.fromUTF8? (← IO.FS.readBinFile path) with
      | some s => return .ok s
      | none => return .error .notText
    catch e => return .error (storageFault e)
  isFile path := do
    try
      discard (IO.FS.readBinFile path)
      return true
    catch e => match storageFault e with
      | .other _ => return true
      | _ => return false
  write path text := do
    try
      IO.FS.writeBinFile path text.toUTF8
      return .ok ()
    catch e => return .error (storageFault e)

def usage : String :=
  "Usage: qliftc lift <INPUT> [-o <PATH>] [--config <PATH>] [--emit <json|text>]\n"
    ++ "       qliftc show <INPUT>\n"

end OutcomeControl.Command

open OutcomeControl.Command in
def main (args : List String) : IO UInt32 := do
  let (filter, faults) := LogFilter.ofText ((← IO.getEnv "RUST_LOG").getD "")
  IO.eprint (String.join (faults.map SpecificationFault.warning))
  match Invocation.ofArguments args with
  | .error .usage =>
    IO.eprint usage
    return 2
  | .error .help =>
    IO.print usage
    return 0
  | .error .version =>
    IO.print versionText
    return 0
  | .ok invocation =>
    let done ← invocation.run machine
    IO.eprint (filter.text done.log)
    IO.print done.output
    match done.failure with
    | some f => IO.eprint ("error: " ++ f.message ++ "\n")
    | none => pure ()
    return done.exitCode
