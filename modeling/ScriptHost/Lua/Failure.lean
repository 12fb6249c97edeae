/-!
# Failures of scripts

What ends a script early: an error of its own, a text that is no program, the heap limit, or a
host function that refuses its arguments.
-/

set_option autoImplicit false

namespace ScriptHost.Lua

inductive Failure where
  /-- A script error, or a plain text error of the host. -/
  | runtime (text : String)
  | badSyntax (text : String)
  | memory
  /-- A host function was called with a wrong argument. -/
  | argument (text : String)
  /-- A value cannot be converted to the type that the host needs. -/
  | conversion (text : String)
  /-- A value cannot be stored as JSON. -/
  | unstorable (text : String)
  /-- An error of the host itself. -/
  | host (text : String)
deriving DecidableEq, Repr, Inhabited

namespace Failure

/-- The innermost cause, without its kind. -/
def cause : Failure → String
  | runtime text | badSyntax text | argument text | conversion text | unstorable text
  | host text => text
  | memory => "not enough memory"

/-- The cause with its kind in front. -/
def message : Failure → String
  | runtime text => "runtime error: " ++ text
  | badSyntax text => "syntax error: " ++ text
  | memory => "memory error: not enough memory"
  | unstorable text => "deserialize error: " ++ text
  | argument text | conversion text | host text => text

end Failure

/-- The failure of a conversion. -/
def Failure.ofConversion (found wanted : String) (detail? : Option String) : Failure :=
  .conversion <| s!"error converting Lua {found} to {wanted}" ++
    (match detail? with
      | some detail => s!" ({detail})"
      | none => "")

end ScriptHost.Lua
