import ScriptHost.Host

/-!
# Answers to scripts

What a host answers when a script asks it for something, and what changes by that.
-/

set_option autoImplicit false

namespace ScriptHost

/-- A field of a context, as scripts see it. -/
def Context.detail (context : Context) (name : String) : Lua.Detail :=
  let command := context.command
  if name = "policy" then .text context.policy.name
  else if name = "cache_key" then .text context.cacheKey.text
  else if name = "output" then .text context.output.label
  else if name = "search_paths" then .texts (context.searchPaths.map Path.display)
  else if name = "command_name" then .text command.name
  else if name = "bundle" then .text command.bundle
  else if name = "extension" then .text command.package
  else if name = "unique_id" then .text command.uniqueId
  else if name = "script_source" then .text command.script.display
  else if name = "alternate_script_source" then
    match command.alternate? with
    | some path => .text path.display
    | none => .absent
  else if name = "has_document" then .flag context.hasDocument
  else if name = "debug_mode" then .flag context.debugMode
  else if name = "alternate_mode" then .flag context.alternateMode
  else .absent

namespace Host

/-- Answers a script on an engine. Functions that the host gave for one run answer false here. -/
def reply (h : Host) (engine : EngineId) : (request : Lua.Request) → request.Reply × Host
  | .write bytes =>
    let (written, h) := h.write (h.engine engine).routing.output (Utf8.text bytes.data.toList)
    (written.mapError WriteFault.message, h)
  | .result id key => (h.result? id key, h)
  | .setResult id key value => ((), h.setResult id key value)
  | .removeResult id key => ((), h.removeResult id key)
  | .results id => (h.resultsOf id, h)
  | .cachedKeys id? => ((h.alive? id?).map fun manager => (h.cache manager.cache).keys, h)
  | .isCached id? key =>
    ((h.alive? id?).map fun manager => (h.cache manager.cache).contains ⟨key⟩, h)
  | .clearEngines id? =>
    match h.alive? id? with
    | some manager =>
      let (discarded, h) := h.alterCache manager.cache EngineCache.reset
      (some discarded.length, h)
    | none => (none, h)
  | .contextField id name =>
    (((h.context? id).map fun context => context.detail name).getD .absent, h)
  | .readFile path => (h.files.read path, h)
  | .callback _ => (false, h)

end Host

end ScriptHost
