import ScriptHost.CommandLine.Arguments
import ScriptHost.Config.Loader
import ScriptHost.ScriptRun

/-!
# The command

Runs the scripts of a call one after another through one manager, until one fails.
-/

set_option autoImplicit false

namespace ScriptHost.CommandLine

def name : String := "cinder"

def version : String := "0.1.0"

structure Outcome where
  exit : Nat
  output : String := ""
  /-- What was written to the standard error about a failure. -/
  message? : Option String := none
deriving DecidableEq, Repr

/-- The policy of a call: by name, else by flags, else from the configuration. -/
def policyOf (arguments : Arguments) (config : Config) : Policy :=
  arguments.policy?.getD <|
    if arguments.fullIsolation || arguments.clean || arguments.refresh then
      Policy.ofFlags arguments.fullIsolation arguments.clean arguments.refresh
    else config.engine.defaultPolicy

/-- What scripts see as their host if the call does not say. -/
def standardHost : Json := .object [("name", .str name), ("version", .str version)]

/-- The selected elements: the items of an array, or a single one. -/
def selectionOf : Option Json → List Json
  | some (.arr items) => items
  | some .null | none => []
  | some item => [item]

/-- What a call asks of all its runs. The manager adds the search paths of the configuration. -/
def optionsOf (arguments : Arguments) (config : Config) : RunOptions where
  package := arguments.package?.getD "default"
  bundle? := arguments.bundle?
  policy := policyOf arguments config
  searchPaths := arguments.searchPaths
  host := arguments.host?.getD standardHost
  document? := arguments.document?
  selection := selectionOf arguments.selection?
  data := arguments.data?.getD .null
  debugMode := arguments.debugMode || config.debug
  alternate := arguments.alternate
  printResults := arguments.printResults

def configOf (arguments : Arguments) (files : FileTree) (environment : Config.Environment) :
    Except Config.LoadError Config := do
  let loader : Config.Loader :=
    { projectRoot? := some (arguments.project?.getD files.workingDirectory) }
  let config ← loader.load files environment
  return { config with debug := config.debug || arguments.debug }

/-- Runs scripts until one fails. What they print and their results go to the standard output. -/
def runScripts (h : Host) (manager : ManagerId) (options : RunOptions) :
    List Path → Except RunError Unit × Host
  | [] => (.ok (), h)
  | script :: scripts =>
    let (output, h) := h.newStandardStream
    match h.runScript manager script options output with
    | (.error e, h) => (.error e, h)
    | (.ok line, h) => runScripts { h with console := h.console ++ line } manager options scripts

def runWith (arguments : Arguments) (config : Config) (files : FileTree) : Outcome :=
  let (manager, h) := Host.newManagerOfConfig { files } config
  match runScripts h manager (optionsOf arguments config) arguments.scripts with
  | (.ok _, h) => { exit := 0, output := h.console }
  | (.error e, h) => { exit := 1, output := h.console, message? := some s!"Error: {e.message}" }

def helpText : String :=
  "cinder - run Lua command scripts through managed engines\n\n" ++
  "Usage: cinder [OPTIONS] <SCRIPT>...\n"

def run (texts : List String) (files : FileTree) (environment : Config.Environment) : Outcome :=
  match Arguments.read texts with
  | .error .usage => { exit := 2 }
  | .error .help => { exit := 0, output := helpText }
  | .error .version => { exit := 0, output := s!"{name} {version}\n" }
  | .ok arguments =>
    match configOf arguments files environment with
    | .error e => { exit := 1, message? := some s!"Error: Config error: {e.message}" }
    | .ok config => runWith arguments config files

end ScriptHost.CommandLine
