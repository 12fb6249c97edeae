import ScriptHost.Host.Invocation
import ScriptHost.Json.Printer
import ScriptHost.Text.LowerCase

/-!
# Running script files

A script file as a command of its own, and the run of one script as one invocation.
-/

set_option autoImplicit false

namespace ScriptHost

structure RunOptions where
  package : String := "default"
  /-- The bundle; without one, the directory of the script gives its name. -/
  bundle? : Option String := none
  policy : Policy := Policy.standard
  searchPaths : List Path := []
  host : Json := .null
  document? : Option Json := none
  selection : List Json := []
  data : Json := .null
  debugMode : Bool := false
  alternate : Bool := false
  printResults : Bool := false
deriving Inhabited

/-- The command that a script file is, named after the file. -/
def Command.ofScript (script : Path) (options : RunOptions) : Command :=
  let name := (script.fileStem?.map Utf8.text).getD script.display
  { name
    bundle := options.bundle?.getD
      (((script.parent?.bind Path.fileName?).map Utf8.text).getD "")
    package := options.package
    uniqueId := Text.toLower (options.package ++ "-" ++ name)
    script }

/-- The context of a script. Its own directory is searched first for modules. -/
def Context.ofScript (script : Path) (options : RunOptions) (output : Stream)
    (results : ResultsId) : Context :=
  let command := Command.ofScript script options
  { policy := options.policy
    output
    searchPaths := command.scriptDirectory?.getD (.ofString ".") :: options.searchPaths
    host := options.host
    documents? := options.document?.map fun document => ⟨document, document⟩
    commandData := options.data
    selectedElements := options.selection
    command
    debugMode := options.debugMode
    alternateMode := options.alternate
    results }

inductive RunError where
  | preparation (script : Path) (error : EngineError)
  | script (script : Path) (error : EngineError)
  | release (error : EngineError)
deriving DecidableEq, Repr

namespace RunError

def chain : RunError → List String
  | preparation path e => s!"failed to prepare engine for {path.display}" :: e.chain
  | script path e => s!"script {path.display} failed" :: e.chain
  | release e => "failed to release engine" :: e.chain

def message (e : RunError) : String := ": ".intercalate e.chain

end RunError

namespace Host

def runInvocation (h : Host) (invocation : Invocation) : Except EngineError Unit × Host :=
  let (result, h) := h.execFile invocation.engine invocation.context.scriptPath
  (result.map fun _ => (), h)

/-- The line that tells the results of a script. -/
def resultsLine (h : Host) (results : ResultsId) : String :=
  (Json.obj (h.resultsOf results)).compress ++ "\n"

/-- Runs a script file as one invocation, and yields what there is to print about its results. A
failure of the script counts for more than one of its release. -/
def runScript (h : Host) (manager : ManagerId) (script : Path) (options : RunOptions)
    (output : Stream) : Except RunError String × Host :=
  let (results, h) := h.newResults
  match h.acquire manager (Context.ofScript script options output results) with
  | (.error e, h) => (.error (.preparation script e), h)
  | (.ok invocation, h) =>
    let (ran, h) := h.runInvocation invocation
    let (released, h) := h.release invocation
    match ran, released with
    | .error e, _ => (.error (.script script e), h)
    | .ok _, .error e => (.error (.release e), h)
    | .ok _, .ok _ => (.ok (if options.printResults then h.resultsLine results else ""), h)

/-- A new manager with a cache of its own. -/
def newManagerOf (h : Host) (factory : Factory) (defaultPaths : List Path) : ManagerId × Host :=
  let (cache, h) := h.newCache
  h.newManager { cache, factory, defaultPaths }

end Host

/-- The factory that a configuration asks for. -/
def Factory.ofConfig (config : Config) : Factory where
  memoryLimit? := config.engine.memoryLimitBytes
  collectOnRelease := config.engine.collectOnRelease

def Host.newManagerOfConfig (h : Host) (config : Config) : ManagerId × Host :=
  h.newManagerOf (.ofConfig config) config.engine.searchPaths

end ScriptHost
