/-!
# TOML documents

Values, and tables in the order of their keys. How a table came to be decides how it may be
extended, so tables remember it while a document is read.
-/

set_option autoImplicit false

namespace ScriptHost

/-- How a table was introduced. -/
inductive Toml.Origin where
  /-- By its own header. -/
  | header
  /-- As an ancestor of a header. -/
  | implied
  /-- By a dotted key. -/
  | dotted
  /-- As an inline value. -/
  | inline
deriving DecidableEq, Repr

inductive Toml where
  | boolean (value : Bool)
  | integer (value : Int)
  | float
  | string (value : String)
  | datetime
  | array (items : List Toml)
  | table (origin : Toml.Origin) (entries : List (String × Toml))
  /-- The tables under one array header, in order. -/
  | tables (items : List (List (String × Toml)))
deriving Inhabited

namespace Toml

abbrev Entries := List (String × Toml)

def Entries.get? (key : String) : Entries → Option Toml
  | [] => none
  | (k, v) :: rest => if k = key then some v else Entries.get? key rest

/-- Puts a value in place of the one under its key, or after all others. -/
def Entries.put (key : String) (value : Toml) : Entries → Entries
  | [] => [(key, value)]
  | (k, v) :: rest =>
    if k = key then (key, value) :: rest else (k, v) :: Entries.put key value rest

end Toml

end ScriptHost
