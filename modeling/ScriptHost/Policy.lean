import ScriptHost.Text.Blank

/-!
# Engine policies

How an invocation obtains its engine, and the names under which a policy may be asked for.
-/

set_option autoImplicit false

namespace ScriptHost

inductive Policy where
  /-- A new engine that keeps no frames between invocations. -/
  | fullIsolation
  /-- A new default engine, used once. -/
  | clean
  /-- A new default engine that replaces the cached one. -/
  | refresh
  /-- The cached engine for the key, created on first use. -/
  | reuse
deriving DecidableEq, Repr, Inhabited

structure UnknownPolicy where
  input : String
deriving DecidableEq, Repr

def UnknownPolicy.message (unknown : UnknownPolicy) : String :=
  s!"unknown engine policy '{unknown.input}' (expected one of: reuse, refresh, clean, full-isolation)"

namespace Policy

def standard : Policy := .reuse

/-- The first of the three flags that is set decides. -/
def ofFlags (fullIsolation clean refresh : Bool) : Policy :=
  if fullIsolation then .fullIsolation
  else if clean then .clean
  else if refresh then .refresh
  else .reuse

/-- Whether the engine ends up in the cache. -/
def usesCache : Policy → Bool
  | refresh | reuse => true
  | fullIsolation | clean => false

/-- Whether a new engine is made in every case. -/
def alwaysCreates (policy : Policy) : Bool := policy != reuse

def name : Policy → String
  | fullIsolation => "full-isolation"
  | clean => "clean"
  | refresh => "refresh"
  | reuse => "reuse"

def ofName? (s : String) : Option Policy :=
  [fullIsolation, clean, refresh, reuse].find? fun policy => policy.name == s

/-- The accepted spellings, in lower case with hyphens. -/
def ofSpelling? (s : String) : Option Policy :=
  if s = "full-isolation" || s = "fullframe" || s = "full-frame" then some fullIsolation
  else if s = "clean" then some clean
  else if s = "refresh" then some refresh
  else if s = "reuse" || s = "cached" then some reuse
  else none

/-- Lower case for ASCII letters, and a hyphen for an underscore. -/
def foldChar (c : Char) : Char := if c = '_' then '-' else c.toLower

/-- The spelling a text stands for: surrounding white space, ASCII case and the choice between
underscore and hyphen do not matter. -/
def spelling (s : String) : String := String.ofList ((Text.trimChars s.toList).map foldChar)

def parse (s : String) : Except UnknownPolicy Policy :=
  match ofSpelling? (spelling s) with
  | some policy => .ok policy
  | none => .error ⟨s⟩

end Policy

end ScriptHost
