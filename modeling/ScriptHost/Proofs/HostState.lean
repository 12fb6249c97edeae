import ScriptHost.Host.Output

/-!
# Parts of the state of a host

Reading one engine after another one, or the same one, has changed, and what attaching and
detaching do to the routing of the engine concerned.
-/

set_option autoImplicit false

namespace ScriptHost.Host

theorem engine_modifyEngine_self {h : Host} {id : EngineId} (present : id.index < h.engines.size)
    (f : Engine → Engine) : (h.modifyEngine id f).engine id = f (h.engine id) := by
  simp [modifyEngine, engine, Array.getElem?_modify, Array.getElem?_eq_getElem present]

theorem engine_modifyEngine_of_ne {h : Host} {id other : EngineId} (different : other ≠ id)
    (f : Engine → Engine) : (h.modifyEngine id f).engine other = h.engine other := by
  have positions : id.index ≠ other.index := by
    intro same
    cases id
    cases other
    exact different (congrArg EngineId.mk same.symm)
  simp [modifyEngine, engine, Array.getElem?_modify, positions]

@[simp] theorem size_engines_modifyEngine (h : Host) (id : EngineId) (f : Engine → Engine) :
    (h.modifyEngine id f).engines.size = h.engines.size := by
  simp [modifyEngine]

theorem modifyEngine_of_le {h : Host} {id : EngineId} (missing : h.engines.size ≤ id.index)
    (f : Engine → Engine) : h.modifyEngine id f = h := by
  have unchanged : h.engines.modify id.index f = h.engines := by
    apply Array.ext_getElem?
    intro i
    rw [Array.getElem?_modify]
    split
    · next same => simp [← same, Array.getElem?_eq_none missing]
    · rfl
  simp [modifyEngine, unchanged]

theorem heap_of_le {h : Host} {id : EngineId} (missing : h.engines.size ≤ id.index) :
    h.heap id = (default : Engine).store.heap := by
  rw [heap, engine, Array.getElem?_eq_none missing]
  rfl

theorem heap_withSearchPaths (h : Host) (id : EngineId) (paths : List Path) :
    (h.modifyEngine id fun e => { e with searchPaths := paths }).heap id = h.heap id := by
  by_cases present : id.index < h.engines.size
  · rw [heap, engine_modifyEngine_self present, heap]
  · rw [modifyEngine_of_le (Nat.not_lt.mp present)]

/-! ## Routings -/

section Routing

variable {h : Host} {engine other : EngineId}

theorem routing_alterRouting_self {α : Type} (present : engine.index < h.engines.size)
    (f : Routing → α × Routing) :
    (h.alterRouting engine f).2.routing engine = (f (h.routing engine)).2 := by
  simp [alterRouting, routing, engine_modifyEngine_self present]

theorem routing_alterRouting_of_ne {α : Type} (different : other ≠ engine)
    (f : Routing → α × Routing) :
    (h.alterRouting engine f).2.routing other = h.routing other := by
  simp [alterRouting, routing, engine_modifyEngine_of_ne different]

theorem routing_attach_self (present : engine.index < h.engines.size) (sink : Stream) :
    (h.attach engine sink).2.routing engine = ((h.routing engine).attach sink).2 :=
  routing_alterRouting_self present fun routing => routing.attach sink

theorem routing_attach_of_ne (different : other ≠ engine) (sink : Stream) :
    (h.attach engine sink).2.routing other = h.routing other :=
  routing_alterRouting_of_ne different fun routing => routing.attach sink

theorem routing_replaceOutput_self (present : engine.index < h.engines.size) (stream : Stream) :
    (h.replaceOutput engine stream).2.routing engine =
      ((h.routing engine).replaceOutput stream).2 :=
  routing_alterRouting_self present _

theorem routing_replaceOutput_of_ne (different : other ≠ engine) (stream : Stream) :
    (h.replaceOutput engine stream).2.routing other = h.routing other :=
  routing_alterRouting_of_ne different _

theorem detach_of_ne {guard : StreamGuard} (foreign : guard.engine ≠ engine) :
    h.detach engine guard = (.error (.streamGuardMismatch guard.engine engine), h) := by
  simp [detach, foreign]

theorem detach_self (guard : StreamGuard) (own : guard.engine = engine) :
    h.detach engine guard =
      (if ((h.routing engine).detach guard.redirection).1 then .ok ()
        else .error (.streamOutOfOrder engine),
        h.modifyEngine engine fun e =>
          { e with routing := ((h.routing engine).detach guard.redirection).2 }) := by
  simp only [detach, own, if_true, alterRouting]
  cases (h.routing engine).detach guard.redirection with
  | mk innermost routing => cases innermost <;> rfl

theorem routing_detach_self (present : engine.index < h.engines.size) (guard : StreamGuard)
    (own : guard.engine = engine) :
    (h.detach engine guard).2.routing engine =
      ((h.routing engine).detach guard.redirection).2 := by
  rw [detach_self guard own]
  simp [routing, engine_modifyEngine_self present]

theorem engine_detach_of_ne (different : other ≠ engine) (guard : StreamGuard) :
    (h.detach engine guard).2.engine other = h.engine other := by
  by_cases own : guard.engine = engine
  · rw [detach_self guard own]
    exact engine_modifyEngine_of_ne different _
  · rw [detach_of_ne own]

theorem routing_detach_of_ne (different : other ≠ engine) (guard : StreamGuard) :
    (h.detach engine guard).2.routing other = h.routing other :=
  congrArg Engine.routing (engine_detach_of_ne different guard)

@[simp] theorem size_engines_detach (guard : StreamGuard) :
    (h.detach engine guard).2.engines.size = h.engines.size := by
  by_cases own : guard.engine = engine
  · simp [detach_self guard own]
  · simp [detach_of_ne own]

@[simp] theorem size_engines_attach (sink : Stream) :
    (h.attach engine sink).2.engines.size = h.engines.size := by
  simp [attach, alterRouting]

/-- Changing where output goes changes nothing else of any engine. -/
theorem engine_alterRouting {α : Type} (h : Host) (engine other : EngineId)
    (f : Routing → α × Routing) :
    ∃ routing, (h.alterRouting engine f).2.engine other = { h.engine other with routing } := by
  by_cases same : other = engine
  · subst same
    by_cases present : other.index < h.engines.size
    · exact ⟨_, engine_modifyEngine_self present _⟩
    · have missing := Nat.not_lt.mp present
      exact ⟨(h.engine other).routing,
        congrArg (fun host => host.engine other) (modifyEngine_of_le missing _)⟩
  · exact ⟨(h.engine other).routing, engine_modifyEngine_of_ne same _⟩

theorem engine_attach (h : Host) (engine other : EngineId) (sink : Stream) :
    ∃ routing, (h.attach engine sink).2.engine other = { h.engine other with routing } :=
  engine_alterRouting h engine other fun routing => routing.attach sink

theorem engine_detach (h : Host) (engine other : EngineId) (guard : StreamGuard) :
    ∃ routing, (h.detach engine guard).2.engine other = { h.engine other with routing } := by
  by_cases own : guard.engine = engine
  · obtain ⟨routing, changed⟩ :=
      engine_alterRouting h engine other fun routing => routing.detach guard.redirection
    refine ⟨routing, ?_⟩
    rw [detach_self guard own]
    exact changed
  · exact ⟨(h.engine other).routing, by rw [detach_of_ne own]⟩

@[simp] theorem heap_attach (h : Host) (engine other : EngineId) (sink : Stream) :
    (h.attach engine sink).2.heap other = h.heap other := by
  obtain ⟨routing, changed⟩ := engine_attach h engine other sink
  rw [heap, changed, heap]

@[simp] theorem heap_detach (h : Host) (engine other : EngineId) (guard : StreamGuard) :
    (h.detach engine guard).2.heap other = h.heap other := by
  obtain ⟨routing, changed⟩ := engine_detach h engine other guard
  rw [heap, changed, heap]

theorem engine_attach_of_ne (different : other ≠ engine) (sink : Stream) :
    (h.attach engine sink).2.engine other = h.engine other :=
  engine_modifyEngine_of_ne different _

end Routing

end ScriptHost.Host
