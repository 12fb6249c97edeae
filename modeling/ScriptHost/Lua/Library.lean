import ScriptHost.Lua.Library.Coroutine
import ScriptHost.Lua.Library.Host
import ScriptHost.Lua.Library.Math
import ScriptHost.Lua.Library.Package
import ScriptHost.Lua.Library.System
import ScriptHost.Lua.Library.Table
import ScriptHost.Lua.Library.Utf8

/-!
# The standard library

The names under which scripts find the library functions, and what the functions do.
-/

set_option autoImplicit false

namespace ScriptHost.Lua.Library

def baseFunctions : List (String × BaseFunction) :=
  [("assert", .assert), ("collectgarbage", .collectgarbage), ("dofile", .dofile),
    ("error", .error), ("getmetatable", .getmetatable), ("ipairs", .ipairs), ("load", .load),
    ("loadfile", .loadfile), ("next", .next), ("pairs", .pairs), ("pcall", .pcall),
    ("rawequal", .rawequal), ("rawget", .rawget), ("rawlen", .rawlen), ("rawset", .rawset),
    ("select", .select), ("setmetatable", .setmetatable), ("tonumber", .tonumber),
    ("tostring", .tostring), ("type", .type), ("warn", .warn), ("xpcall", .xpcall)]

def stringFunctions : List (String × StringFunction) :=
  [("byte", .byte), ("char", .char), ("dump", .dump), ("find", .find), ("format", .format),
    ("gmatch", .gmatch), ("gsub", .gsub), ("len", .len), ("lower", .lower), ("match", .match),
    ("pack", .pack), ("packsize", .packsize), ("rep", .rep), ("reverse", .reverse), ("sub", .sub),
    ("unpack", .unpack), ("upper", .upper)]

/-- The metamethods of strings, by which strings that denote numbers take part in arithmetic. -/
def stringMetamethods : List (String × StringFunction) :=
  [("__add", .add), ("__sub", .subtract), ("__mul", .multiply), ("__mod", .modulo),
    ("__pow", .power), ("__div", .divide), ("__idiv", .floorDivide), ("__unm", .negate)]

def tableFunctions : List (String × TableFunction) :=
  [("concat", .concat), ("insert", .insert), ("move", .move), ("pack", .pack),
    ("remove", .remove), ("sort", .sort), ("unpack", .unpack)]

def mathFunctions : List (String × MathFunction) :=
  [("abs", .abs), ("acos", .acos), ("asin", .asin), ("atan", .atan), ("ceil", .ceil),
    ("cos", .cos), ("deg", .deg), ("exp", .exp), ("floor", .floor), ("fmod", .fmod),
    ("log", .log), ("max", .max), ("min", .min), ("modf", .modf), ("rad", .rad),
    ("random", .random), ("randomseed", .randomseed), ("sin", .sin), ("sqrt", .sqrt),
    ("tan", .tan), ("tointeger", .tointeger), ("type", .type), ("ult", .ult)]

def utf8Functions : List (String × Utf8Function) :=
  [("char", .char), ("codepoint", .codepoint), ("codes", .codes), ("len", .len),
    ("offset", .offset)]

def coroutineFunctions : List (String × CoroutineFunction) :=
  [("close", .close), ("create", .create), ("isyieldable", .isyieldable), ("resume", .resume),
    ("running", .running), ("status", .status), ("wrap", .wrap), ("yield", .yield)]

def osFunctions : List (String × SystemFunction) :=
  [("clock", .clock), ("date", .date), ("difftime", .difftime), ("getenv", .getenv),
    ("time", .time)] ++
  (["execute", "exit", "remove", "rename", "setlocale", "tmpname"].map fun name =>
    (name, .absent "os" name))

def ioFunctions : List (String × SystemFunction) :=
  ["close", "flush", "input", "lines", "open", "output", "popen", "read", "tmpfile", "type"].map
    fun name => (name, .absent "io" name)

/-- The functions of one library as the fields of a table. -/
def fieldsOf {α : Type} (wrap : α → Builtin) (functions : List (String × α)) :
    List (String × Value) :=
  functions.map fun (name, f) => (name, .builtin (wrap f))

/-- The name under which a list of functions knows one. -/
def nameIn {α : Type} [DecidableEq α] (library : String) (functions : List (String × α)) (f : α) :
    Option String :=
  (functions.find? fun (_, g) => g = f).map fun (name, _) => library ++ name

def nameOf (f : Builtin) : String :=
  (match f with
    | .base f => nameIn "" baseFunctions f
    | .string f => nameIn "string." stringFunctions f
    | .table f => nameIn "table." tableFunctions f
    | .math f => nameIn "math." mathFunctions f
    | .utf8 f => nameIn "utf8." utf8Functions f
    | .coroutine f => nameIn "coroutine." coroutineFunctions f
    | .system f => (nameIn "os." osFunctions f).or (nameIn "io." ioFunctions f)
    | .package _ | .host _ => none).getD "?"

/-- What a library is given by its host: what the garbage collector does, and the names of
globals that scripts cannot assign. -/
structure Setting where
  collect : Heap → Heap
  readOnly : List String

/-- Calls a function of the library. `callee` is the function as a value, and `captured` are the
values it was made with. -/
def run (setting : Setting) (callee : Value) (f : Builtin) (captured args : List Value) :
    Action :=
  let args : Arguments := ⟨nameOf f, args⟩
  Eval.run <|
    match f with
    | .base f => base setting.collect f args
    | .string f => string callee captured f args
    | .table f => table f args
    | .math f => math f args
    | .utf8 f => utf8 f args
    | .coroutine f => coroutine captured f args
    | .package f => package captured f args
    | .system f => system f args
    | .host f => host setting.readOnly f args

/-! ## The first globals -/

/-- The bytes that a fresh heap takes. -/
def freshSize : Nat := 24000

/-- Adds a table of functions under a name, and marks it as a loaded module. -/
def addLibrary (name : String) (entries : List (String × Value)) (h : Heap) : Heap :=
  let (id, h) := h.newTable (.ofEntries entries)
  (h.rawSetText h.globals name (.table id)).rawSetText h.loaded name (.table id)

/-- Adds the table of the package library. -/
def addPackage (h : Heap) : Heap :=
  let (preload, h) := h.newTable {}
  let (searchers, h) := h.newTable {}
  let (package, h) := h.newTable <| .ofEntries
    [("path", .ofText <|
        "/usr/local/share/lua/5.4/?.lua;/usr/local/share/lua/5.4/?/init.lua;" ++
        "/usr/local/lib/lua/5.4/?.lua;/usr/local/lib/lua/5.4/?/init.lua;./?.lua;./?/init.lua"),
      ("cpath", .ofText "/usr/local/lib/lua/5.4/?.so;/usr/local/lib/lua/5.4/loadall.so;./?.so"),
      ("config", .ofText "/\n;\n?\n!\n-\n"), ("preload", .table preload),
      ("loaded", .table h.loaded), ("searchers", .table searchers),
      ("loadlib", .builtin (.package .loadlib)), ("searchpath", .builtin (.package .searchpath))]
  let native (f : PackageFunction) (t : TableId) (h : Heap) : Value × Heap :=
    let (id, h) := h.newClosure (.native (.package f) [.table t])
    (.closure id, h)
  let (first, h) := native .searchPreload preload h
  let (second, h) := native .searchFiles package h
  let (require, h) := native .require package h
  let h := h.setTable searchers
    (.ofItems [first, second, .builtin (.package .searchNative)])
  let h := h.rawSetText h.globals "require" require
  (h.rawSetText h.globals "package" (.table package)).rawSetText h.loaded "package"
    (.table package)

/-- A heap with the whole library, and without a limit. -/
def wholeHeap : Heap :=
  let h : Heap := { coroutines := #[{ body := .nil, status := .running }] }
  let (globals, h) := h.newTable (.ofEntries (fieldsOf .base baseFunctions))
  let (loaded, h) := h.newTable {}
  let (arrays, h) := h.newTable (.ofEntries [("__metatable", .boolean false)])
  let h := { h with globals, loaded, arrayMetatable := arrays }
  let h := (h.rawSetText globals "_G" (.table globals)).rawSetText globals "_VERSION"
    (.ofText "Lua 5.4")
  let h := h.rawSetText loaded "_G" (.table globals)
  let h := addPackage h
  let h := addLibrary "coroutine" (fieldsOf .coroutine coroutineFunctions) h
  let h := addLibrary "table" (fieldsOf .table tableFunctions) h
  let h := addLibrary "io" (fieldsOf .system ioFunctions) h
  let h := addLibrary "os" (fieldsOf .system osFunctions) h
  let h := addLibrary "string" (fieldsOf .string stringFunctions) h
  let h := addLibrary "utf8" (fieldsOf .utf8 utf8Functions ++
    [("charpattern", .string ("[\x00-\x7F".toUTF8 ++
      [0xC2, 0x2D, 0xFD, 0x5D, 0x5B, 0x80, 0x2D, 0xBF, 0x5D, 0x2A].toByteArray))]) h
  let h := addLibrary "math" (fieldsOf .math mathFunctions ++
    [("pi", .float 3.141592653589793), ("huge", .float (1.0 / 0.0)),
      ("maxinteger", .integer Int64.maxValue), ("mininteger", .integer Int64.minValue)]) h
  let string := h.rawGetText h.globals "string"
  let (strings, h) := h.newTable
    (.ofEntries (("__index", string) :: fieldsOf .string stringMetamethods))
  { h with stringMetatable? := some strings, used := freshSize }

def freshHeap (limit? : Option Nat) : Heap := { wholeHeap with limit? }

end ScriptHost.Lua.Library
