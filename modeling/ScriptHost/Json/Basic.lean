import ScriptHost.Ordered

/-!
# JSON values

Whole numbers are kept apart from other numbers, and objects are ordered by key.
-/

set_option autoImplicit false

namespace ScriptHost

inductive Json where
  | null
  | bool (value : Bool)
  /-- A whole number from -2 ^ 63 to 2 ^ 64 - 1. -/
  | int (value : Int)
  | float (value : Float)
  | str (value : String)
  | arr (items : List Json)
  /-- Entries in ascending order of their keys. -/
  | obj (entries : List (String × Json))
deriving Inhabited

namespace Json

/-- An object of the given entries; the last entry under a key wins. -/
def object (entries : List (String × Json)) : Json := .obj (Ordered.ofList entries)

/-- The value under a key of an object. -/
def field? (key : String) : Json → Option Json
  | .obj entries => Ordered.find? key entries
  | _ => none

end Json

end ScriptHost
