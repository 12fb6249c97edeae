import ScriptHost.Host.Invocation
import ScriptHost.Json.Printer

/-!
# Descriptions

One-line texts about the objects of a host, for logs and error reports.
-/

set_option autoImplicit false

namespace ScriptHost.Describe

/-- Whether a character shows as itself. Control characters and characters that only change how
their neighbours look do not. -/
def isShown (c : Char) : Bool :=
  let n := c.toNat
  !(n < 0x20 || (0x7F ≤ n && n < 0xA0) || n = 0xAD || (0x300 ≤ n && n < 0x370) ||
    (0x200B ≤ n && n < 0x2010) || (0x2028 ≤ n && n < 0x2030) || (0x2060 ≤ n && n < 0x2070) ||
    (0xE000 ≤ n && n < 0xF900) || (0xFE00 ≤ n && n < 0xFE10) || n = 0xFEFF || 0xE0000 ≤ n)

def quotedChar (c : Char) : List Char :=
  if c = '"' then ['\\', '"']
  else if c = '\\' then ['\\', '\\']
  else if c = '\n' then ['\\', 'n']
  else if c = '\r' then ['\\', 'r']
  else if c = '\t' then ['\\', 't']
  else if c = '\x00' then ['\\', '0']
  else if isShown c then [c]
  else '\\' :: 'u' :: '\x7b' :: Nat.toDigits 16 c.toNat ++ ['\x7d']

def quoted (s : String) : String := String.ofList ('"' :: s.toList.flatMap quotedChar ++ ['"'])

/-- A path in quotes; an ill formed byte is shown by its digits. -/
def quotedPath (path : Path) : String :=
  match path.text? with
  | some text => quoted text
  | none => "\"" ++ String.join (path.bytes.map byteText) ++ "\""
where
  byteText (b : UInt8) : String :=
    if b < 128 then String.ofList (quotedChar (Char.ofNat b.toNat))
    else s!"\\x{hexText (b.toNat / 16)}{hexText (b.toNat % 16)}"
  hexText (n : Nat) : String := String.singleton (Json.hexDigit n).toUpper

def optional {α : Type} (text : α → String) : Option α → String
  | some a => s!"Some({text a})"
  | none => "None"

/-- A record with its fields; `open` ones have fields that are not shown. -/
def record (name : String) (fields : List (String × String)) (isOpen : Bool) : String :=
  let shown := fields.map (fun (field, text) => s!"{field}: {text}") ++
    (if isOpen then [".."] else [])
  name ++ " \x7b " ++ ", ".intercalate shown ++ " \x7d"

def frameMode : FrameMode → String
  | .lightweight => "Lightweight"
  | .full => "Full"

def options (options : EngineOptions) : String :=
  record "EngineOptions"
    [("frame_mode", frameMode options.frameMode),
      ("memory_limit", optional toString options.memoryLimit?),
      ("collect_on_release", toString options.collectOnRelease)] false

def engineId (id : EngineId) : String := s!"EngineId({id.text})"

def engine (h : Host) (id : EngineId) : String :=
  record "ScriptEngine"
    [("id", engineId id), ("options", options (h.engine id).options),
      ("output", quoted (h.output id).label)] true

def stream (stream : Stream) : String :=
  record "OutputStream" [("label", quoted stream.label)] true

def factory (factory : Factory) : String :=
  record "LuaEngineFactory"
    [("memory_limit", optional toString factory.memoryLimit?),
      ("collect_on_release", toString factory.collectOnRelease),
      ("initializers", toString factory.initializers.length)] false

def manager (h : Host) (id : ManagerId) : String :=
  let paths := (h.manager id).defaultPaths.map quotedPath
  record "EngineManager"
    [("cached", toString (h.cacheOf id).size),
      ("default_search_paths", "[" ++ ", ".intercalate paths ++ "]")] true

def invocation (invocation : Invocation) : String :=
  record "Invocation"
    [("engine", engineId invocation.engine),
      ("command", quoted invocation.context.command.name),
      ("cached", toString invocation.cached), ("released", "false")] false

def handle (h : Host) (id? : Option ManagerId) : String :=
  record "ManagerHandle" [("alive", toString (h.alive? id?).isSome)] false

end ScriptHost.Describe
