/-!
# Identities

Numbers that name the objects of a host. An object keeps its number for good.
-/

set_option autoImplicit false

namespace ScriptHost

structure EngineId where
  index : Nat
deriving DecidableEq, Repr, Hashable, Inhabited

structure WriterId where
  index : Nat
deriving DecidableEq, Repr, Hashable, Inhabited

structure ResultsId where
  index : Nat
deriving DecidableEq, Repr, Hashable, Inhabited

structure ContextId where
  index : Nat
deriving DecidableEq, Repr, Hashable, Inhabited

structure CacheId where
  index : Nat
deriving DecidableEq, Repr, Hashable, Inhabited

structure ManagerId where
  index : Nat
deriving DecidableEq, Repr, Hashable, Inhabited

/-- The text of a number with leading zeros up to a width. -/
def paddedText (width n : Nat) : String :=
  let digits := toString n
  String.ofList (List.replicate (width - digits.length) '0') ++ digits

/-- The text that stands for an engine: five groups of digits, different for every engine. -/
def EngineId.text (id : EngineId) : String :=
  s!"00000000-0000-4000-8000-{paddedText 12 id.index}"

end ScriptHost
