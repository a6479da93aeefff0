import OutcomeControl.Command.Host

/-! Files in memory.

Paths start at the working directory. A directory exists when it was made or when a file is below
it, and so do the directories above the working directory, of which nothing else is known. -/

namespace OutcomeControl.Command

/-- The way from the working directory: up first, if at all, and then down. -/
abbrev Place := List String

inductive Content where
  | file (bytes : ByteArray)
  | directory

structure Disk where
  entries : List (Place × Content) := []

/-- One directory up. -/
def Place.up (p : Place) : Place := match p.getLast? with
  | none | some ".." => p ++ [".."]
  | some _ => p.dropLast

namespace Disk

def isAbove (p : Place) : Bool := p.all (· == "..")

/-- What stands at a place. -/
def get? (d : Disk) (p : Place) : Option Content :=
  if isAbove p then some .directory
  else match d.entries.lookup p with
    | some c => some c
    | none => if d.entries.any fun (q, _) => p.isPrefixOf q then some .directory else none

/-- The later content counts. -/
def put (d : Disk) (p : Place) (c : Content) : Disk := ⟨(p, c) :: d.entries⟩

/-- The directory at a place that is passed. -/
def enter (d : Disk) (p : Place) : Except StorageFault Unit := match d.get? p with
  | some .directory => return ()
  | some (.file _) => throw .notDirectory
  | none => throw .notFound

/-- The bytes of the longest name. -/
def longestName : Nat := 255

/-- The bytes of the longest path. -/
def longestPath : Nat := 4095

/-- A name as it is looked up in a directory. -/
def checkName (name : String) : Except StorageFault Unit :=
  if longestName < name.utf8ByteSize then throw .nameTooLong else return ()

/-- A path before any of its parts is looked up. -/
def checkPath (path : String) : Except StorageFault Unit :=
  if path.toList.contains '\x00' then throw .zeroInPath
  else if path.isEmpty then throw .notFound
  else if longestPath < path.utf8ByteSize then throw .nameTooLong
  else return ()

/-- The place where the parts of a path lead, each from a directory. -/
def walk (d : Disk) (p : Place) : List String → Except StorageFault Place
  | [] => return p
  | part :: rest => do
    d.enter p
    match part with
    | "" | "." => d.walk p rest
    | ".." => d.walk p.up rest
    | name =>
      checkName name
      d.walk (p ++ [name]) rest

/-- The parts of a path. An absolute one leads out of what is known. -/
def parts (path : String) : Place × List String := match path.splitOn "/" with
  | "" :: rest => (["..", "..", ".."], rest)
  | ps => ([], ps)

/-- The place that a path names. -/
def resolve (d : Disk) (path : String) : Except StorageFault Place := do
  checkPath path
  let (start, ps) := parts path
  d.walk start ps

def readBytes (d : Disk) (path : String) : Except StorageFault ByteArray := do
  match d.get? (← d.resolve path) with
  | some (.file bytes) => return bytes
  | some .directory => throw .isDirectory
  | none => throw .notFound

def read (d : Disk) (path : String) : Except StorageFault String := do
  match String.fromUTF8? (← d.readBytes path) with
  | some s => return s
  | none => throw .notText

def isFile (d : Disk) (path : String) : Bool := (d.readBytes path).isOk

/-- Makes or replaces a file in a directory that exists. A path that ends in a slash names a
directory. -/
def write (d : Disk) (path text : String) : Except StorageFault Disk := do
  checkPath path
  let (start, ps) := parts path
  let named := (ps.reverse.dropWhile (· == "")).reverse
  let place ← d.walk start named.dropLast
  d.enter place
  match named.getLast? with
  | none | some "." | some ".." => throw .isDirectory
  | some name =>
    if named != ps then throw .isDirectory
    checkName name
    match d.get? (place ++ [name]) with
    | some .directory => throw .isDirectory
    | _ => return d.put (place ++ [name]) (.file text.toUTF8)

/-- Commands run on files in memory. -/
def host : Host (StateM Disk) where
  read path := return (← get).read path
  isFile path := return (← get).isFile path
  write path text := do
    match (← get).write path text with
    | .ok d =>
      set d
      return .ok ()
    | .error e => return .error e

end Disk

end OutcomeControl.Command
