/-! What a command asks of the machine it runs on. -/

namespace OutcomeControl.Command

/-- Why a file cannot be read or written. -/
inductive StorageFault where
  | notFound
  | notDirectory
  | isDirectory
  | nameTooLong
  /-- No path holds the character zero. -/
  | zeroInPath
  /-- The bytes of the file are no text. -/
  | notText
  | other (description : String)
deriving DecidableEq

def StorageFault.text : StorageFault → String
  | .notFound => "No such file or directory (os error 2)"
  | .notDirectory => "Not a directory (os error 20)"
  | .isDirectory => "Is a directory (os error 21)"
  | .nameTooLong => "File name too long (os error 36)"
  | .zeroInPath => "file name contained an unexpected NUL byte"
  | .notText => "stream did not contain valid UTF-8"
  | .other description => description

/-- Files by their paths. -/
structure Host (m : Type → Type) where
  read : String → m (Except StorageFault String)
  /-- Whether the path names a file and no directory. -/
  isFile : String → m Bool
  write : String → String → m (Except StorageFault Unit)

end OutcomeControl.Command
