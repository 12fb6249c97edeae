import ScriptHost.Json.Forms

/-!
# Engine options

What is fixed when an engine is made.
-/

set_option autoImplicit false

namespace ScriptHost

inductive FrameMode where
  /-- Frames are reclaimed whenever the collector gets to them. -/
  | lightweight
  /-- No frame outlives its invocation. -/
  | full
deriving DecidableEq, Repr, Inhabited

namespace FrameMode

def name : FrameMode → String
  | lightweight => "lightweight"
  | full => "full"

def ofName? (s : String) : Option FrameMode :=
  [lightweight, full].find? fun mode => mode.name == s

def ofJson? : Json.Form FrameMode := .named ofName?

def toJson (mode : FrameMode) : Json := .str mode.name

end FrameMode

structure EngineOptions where
  frameMode : FrameMode := .lightweight
  /-- The most bytes the heap may take; zero means no limit. -/
  memoryLimit? : Option Nat := none
  collectOnRelease : Bool := false
deriving DecidableEq, Repr, Inhabited

namespace EngineOptions

def fullIsolation : EngineOptions := { frameMode := .full }

def ofPolicy : Policy → EngineOptions
  | .fullIsolation => fullIsolation
  | .clean | .refresh | .reuse => {}

/-- Whether garbage is collected after every invocation. -/
def collectsOnRelease (options : EngineOptions) : Bool :=
  options.frameMode == .full || options.collectOnRelease

def heapLimit? (options : EngineOptions) : Option Nat :=
  options.memoryLimit?.filter fun bytes => bytes != 0

end EngineOptions

end ScriptHost
