import ScriptHost.Path

/-!
# File trees

Directories and files under absolute names, and a working directory. Reading a file follows a
path one component after another.
-/

set_option autoImplicit false

namespace ScriptHost

/-- The names on the way from the root to a file or directory. -/
abbrev Location := List (List UInt8)

inductive FileEntry where
  | file (content : ByteArray)
  | directory
deriving Inhabited

inductive ReadFault where
  | notFound
  | notDirectory
  | isDirectory
  | nameTooLong
  | nulInName
  | notText
deriving DecidableEq, Repr

def ReadFault.message : ReadFault → String
  | notFound => "No such file or directory (os error 2)"
  | notDirectory => "Not a directory (os error 20)"
  | isDirectory => "Is a directory (os error 21)"
  | nameTooLong => "File name too long (os error 36)"
  | nulInName => "file name contained an unexpected NUL byte"
  | notText => "stream did not contain valid UTF-8"

structure FileTree where
  entries : List (Location × FileEntry) := []
  workingDirectory : Path
deriving Inhabited

namespace FileTree

def locationOf (path : Path) : Location :=
  path.components.filterMap fun
    | .name bytes => some bytes
    | _ => none

def find? (tree : FileTree) (location : Location) : Option FileEntry :=
  if location.isEmpty then some .directory
  else (tree.entries.find? fun (l, _) => l == location).map Prod.snd

/-- Adds an entry, and every directory above it that is missing. -/
def add (tree : FileTree) (location : Location) (entry : FileEntry) : FileTree :=
  let missing := ((List.range location.length).map location.take).filter fun above =>
    (tree.find? above).isNone
  { tree with entries := tree.entries ++ missing.map (·, .directory) ++ [(location, entry)] }

/-- Goes on from `location`, which is a directory unless the walk fails. -/
def walk (tree : FileTree) (location : Location) : List (List UInt8) → Except ReadFault Location
  | [] => .ok location
  | piece :: rest =>
    match tree.find? location with
    | none => .error .notFound
    | some (.file _) => .error .notDirectory
    | some .directory =>
      if Path.isBlankPiece piece then tree.walk location rest
      else if piece == [Path.dot, Path.dot] then tree.walk location.dropLast rest
      else if 255 < piece.length then .error .nameTooLong
      else tree.walk (location ++ [piece]) rest

def resolve (tree : FileTree) (path : Path) : Except ReadFault FileEntry := do
  if path.bytes.contains 0 then throw .nulInName
  if path.bytes.isEmpty then throw .notFound
  if 4096 ≤ path.bytes.length then throw .nameTooLong
  let start := if path.isAbsolute then [] else locationOf tree.workingDirectory
  let location ← tree.walk start (Path.splitAt Path.slash path.bytes)
  match tree.find? location with
  | some entry => return entry
  | none => throw .notFound

def exists? (tree : FileTree) (path : Path) : Bool := (tree.resolve path).toOption.isSome

def read (tree : FileTree) (path : Path) : Except ReadFault ByteArray := do
  match ← tree.resolve path with
  | .file content => return content
  | .directory => throw .isDirectory

def readText (tree : FileTree) (path : Path) : Except ReadFault String := do
  match String.fromUTF8? (← tree.read path) with
  | some text => return text
  | none => throw .notText

end FileTree

end ScriptHost
