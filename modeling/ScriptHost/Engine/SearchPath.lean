import ScriptHost.Path

/-!
# Module search paths

Directories in which scripts find their modules, and the list of file patterns that stands for
them. A module is a file of its own, or the file `init.lua` in a directory of its name.
-/

set_option autoImplicit false

namespace ScriptHost

/-- Why a path cannot be written into a list of patterns. -/
inductive SearchPathFault where
  | notText
  | empty
  | metacharacter
deriving DecidableEq, Repr

def SearchPathFault.message : SearchPathFault → String
  | notText => "path is not valid UTF-8"
  | empty => "path is empty"
  | metacharacter => "path contains a package.path metacharacter (';' or '?')"

namespace SearchPath

/-- Whether a byte separates patterns or stands for the name of the module. -/
def isMetacharacter (b : UInt8) : Bool := b = 59 || b = 63

/-- Slashes and backslashes at the end do not count. -/
def isFinal (b : UInt8) : Bool := b = Path.slash || b = 92

def base (path : Path) : List UInt8 := (path.bytes.reverse.dropWhile isFinal).reverse

def moduleFile : List UInt8 := Utf8.bytes "/?.lua"

def moduleDirectory : List UInt8 := Utf8.bytes "/?/init.lua"

def patterns (path : Path) : List (List UInt8) :=
  [base path ++ moduleFile, base path ++ moduleDirectory]

def fault? (path : Path) : Option SearchPathFault :=
  if path.text?.isNone then some .notText
  else if path.bytes.isEmpty then some .empty
  else if path.bytes.any isMetacharacter then some .metacharacter
  else none

/-- The first path that cannot be used, and why. -/
def firstFault? : List Path → Option (Path × SearchPathFault)
  | [] => none
  | path :: paths =>
    match fault? path with
    | some fault => some (path, fault)
    | none => firstFault? paths

def render (paths : List Path) : List UInt8 := Path.joinWith 59 (paths.flatMap patterns)

/-- The paths, and after them those of `further` that are not the same as one before them. -/
def extend (paths further : List Path) : List Path :=
  further.foldl (fun acc path => if acc.any path.same then acc else acc ++ [path]) paths

end SearchPath

end ScriptHost
