import ScriptHost.Json.Reader
import ScriptHost.Path
import ScriptHost.Policy

/-!
# Arguments of the command

Options may stand before, between and after the scripts, with their value attached or in the
next argument. Every argument is judged in turn, so the first fault decides.
-/

set_option autoImplicit false

namespace ScriptHost.CommandLine

structure Arguments where
  debug : Bool := false
  verbose : Bool := false
  project? : Option Path := none
  package? : Option String := none
  bundle? : Option String := none
  policy? : Option Policy := none
  fullIsolation : Bool := false
  clean : Bool := false
  refresh : Bool := false
  searchPaths : List Path := []
  host? : Option Json := none
  document? : Option Json := none
  selection? : Option Json := none
  data? : Option Json := none
  debugMode : Bool := false
  alternate : Bool := false
  printResults : Bool := false
  scripts : List Path := []
deriving Inhabited

inductive Refusal where
  | usage
  | help
  | version
deriving DecidableEq, Repr, Inhabited

/-- Options without a value. Each may be given once. -/
inductive Switch where
  | debug | verbose | fullIsolation | clean | refresh | debugMode | alternate | printResults
deriving DecidableEq, Repr

/-- Options with a value. All but the search path may be given once. -/
inductive Setting where
  | project | package | bundle | policy | searchPath | host | document | selection | data
deriving DecidableEq, Repr

inductive Flag where
  | switch (switch : Switch)
  | setting (setting : Setting)
  | refusal (refusal : Refusal)
deriving DecidableEq, Repr

def longFlags : List (String × Flag) :=
  [("debug", .switch .debug), ("verbose", .switch .verbose), ("project", .setting .project),
    ("extension", .setting .package), ("bundle", .setting .bundle),
    ("policy", .setting .policy), ("full-frame", .switch .fullIsolation),
    ("clean", .switch .clean), ("refresh", .switch .refresh),
    ("search-path", .setting .searchPath), ("host", .setting .host),
    ("document", .setting .document), ("selection", .setting .selection),
    ("data", .setting .data), ("debug-mode", .switch .debugMode),
    ("alternate", .switch .alternate), ("print-results", .switch .printResults),
    ("help", .refusal .help), ("version", .refusal .version)]

def shortFlags : List (Char × Flag) :=
  [('d', .switch .debug), ('v', .switch .verbose), ('C', .setting .project),
    ('I', .setting .searchPath), ('h', .refusal .help), ('V', .refusal .version)]

/-- A part of an optional setting that may be given once. -/
def once {α : Type} (old : Option α) (new? : Option α) : Except Refusal (Option α) :=
  match old, new? with
  | none, some a => .ok (some a)
  | _, _ => .error .usage

/-- A path as the value of an option; the empty path is none. -/
def path? (text : String) : Option Path := if text.isEmpty then none else some (.ofString text)

namespace Arguments

def turnOn (arguments : Arguments) (switch : Switch) : Except Refusal Arguments :=
  let turn (old : Bool) (new : Arguments) : Except Refusal Arguments :=
    if old then .error .usage else .ok new
  match switch with
  | .debug => turn arguments.debug { arguments with debug := true }
  | .verbose => turn arguments.verbose { arguments with verbose := true }
  | .fullIsolation => turn arguments.fullIsolation { arguments with fullIsolation := true }
  | .clean => turn arguments.clean { arguments with clean := true }
  | .refresh => turn arguments.refresh { arguments with refresh := true }
  | .debugMode => turn arguments.debugMode { arguments with debugMode := true }
  | .alternate => turn arguments.alternate { arguments with alternate := true }
  | .printResults => turn arguments.printResults { arguments with printResults := true }

def set (arguments : Arguments) (setting : Setting) (text : String) : Except Refusal Arguments :=
  match setting with
  | .project => do return { arguments with project? := ← once arguments.project? (path? text) }
  | .package => do return { arguments with package? := ← once arguments.package? (some text) }
  | .bundle => do return { arguments with bundle? := ← once arguments.bundle? (some text) }
  | .policy => do
    return { arguments with policy? := ← once arguments.policy? (Policy.parse text).toOption }
  | .searchPath =>
    match path? text with
    | some path => .ok { arguments with searchPaths := arguments.searchPaths ++ [path] }
    | none => .error .usage
  | .host => do return { arguments with host? := ← once arguments.host? (Json.parse? text) }
  | .document => do
    return { arguments with document? := ← once arguments.document? (Json.parse? text) }
  | .selection => do
    return { arguments with selection? := ← once arguments.selection? (Json.parse? text) }
  | .data => do return { arguments with data? := ← once arguments.data? (Json.parse? text) }

def addScript (arguments : Arguments) (text : String) : Except Refusal Arguments :=
  match path? text with
  | some path => .ok { arguments with scripts := arguments.scripts ++ [path] }
  | none => .error .usage

def addScripts (arguments : Arguments) (texts : List String) : Except Refusal Arguments :=
  texts.foldlM addScript arguments

end Arguments

/-- Whether an argument is an option, so that it is no value of the option before. -/
def isFlag (text : String) : Bool :=
  match text.toList with
  | '-' :: _ :: _ => true
  | _ => false

/-- One option of one letter after another. The last one may need a value that is not there yet. -/
def readShort (arguments : Arguments) :
    List Char → Except Refusal (Arguments × Option Setting)
  | [] => .ok (arguments, none)
  | c :: rest =>
    match shortFlags.lookup c with
    | none => .error .usage
    | some (.refusal refusal) => .error refusal
    | some (.switch switch) => do
      readShort (← arguments.turnOn switch) rest
    | some (.setting setting) =>
      match rest with
      | [] => .ok (arguments, some setting)
      | '=' :: value | value => do
        return (← arguments.set setting (String.ofList value), none)

/-- An option in words. It may need a value that is not there yet. -/
def readLong (arguments : Arguments) (text : List Char) :
    Except Refusal (Arguments × Option Setting) :=
  let name := text.takeWhile (· ≠ '=')
  let value? := match text.dropWhile (· ≠ '=') with
    | [] => none
    | _ :: value => some (String.ofList value)
  match longFlags.lookup (String.ofList name), value? with
  | some (.setting setting), some value => do return (← arguments.set setting value, none)
  | some (.setting setting), none => .ok (arguments, some setting)
  | some (.switch switch), none => do return (← arguments.turnOn switch, none)
  | some (.refusal refusal), none => .error refusal
  | _, _ => .error .usage

/-- Reads one argument after another; `waiting?` is the option that still needs its value. -/
def readFrom (arguments : Arguments) (waiting? : Option Setting) :
    List String → Except Refusal Arguments
  | [] => if waiting?.isSome then .error .usage else .ok arguments
  | text :: rest =>
    match waiting?, isFlag text with
    | some setting, false => do
      readFrom (← arguments.set setting text) none rest
    | some _, true => .error .usage
    | none, false => do
      readFrom (← arguments.addScript text) none rest
    | none, true =>
      match text.toList with
      | ['-', '-'] => arguments.addScripts rest
      | '-' :: '-' :: long =>
        match readLong arguments long with
        | .error refusal => .error refusal
        | .ok (arguments, waiting?) => readFrom arguments waiting? rest
      | short =>
        match readShort arguments (short.drop 1) with
        | .error refusal => .error refusal
        | .ok (arguments, waiting?) => readFrom arguments waiting? rest

/-- Reads the arguments of a call; it needs at least one script. -/
def Arguments.read (texts : List String) : Except Refusal Arguments := do
  let arguments ← readFrom {} none texts
  if arguments.scripts.isEmpty then throw .usage
  return arguments

end ScriptHost.CommandLine
