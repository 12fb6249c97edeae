import ScriptHost.Proofs.AcquisitionAgreement
import ScriptHost.Proofs.SealedInvocations
import ScriptHost.ScriptRun

/-!
# Deciding whether scripts use globals in the ordinary way

Whether a script gets, sets or circumvents the metatable of the globals shows while it runs. One
that stops within some steps without doing so uses the globals in the ordinary way, and so does
everything that consists of such scripts.
-/

set_option autoImplicit false

namespace ScriptHost

open Lua Scope

/-! ## Moments -/

instance (v : Value) : Decidable (v = .nil) :=
  decidable_of_iff (v.isNil = true) ⟨Value.eq_nil_of_isNil, fun absent => absent ▸ rfl⟩

instance (v : Value) (id : TableId) : Decidable (v = .table id) :=
  match v with
  | .table other => decidable_of_iff (other = id) ⟨congrArg Value.table, Value.table.inj⟩
  | .nil | .boolean _ | .integer _ | .float _ | .string _ | .null | .closure _ | .builtin _
  | .userdata _ | .coroutine _ => isFalse nofun

instance (h : Heap) : Decidable (Unshadowed h) :=
  decidable_of_iff (∀ binding ∈ Binding.all, h.rawGetText h.globals binding.name = .nil)
    ⟨fun absent binding => absent binding binding.mem_all, fun absent binding _ => absent binding⟩

instance (h : Heap) (f : Value) (arguments : List Value) : Decidable (h.Bypasses f arguments) :=
  inferInstanceAs (Decidable (_ ∧ _))

instance (h : Heap) (action : Action) : Decidable (action.Bypasses h) := by
  cases action
  case call f arguments _ _ => exact inferInstanceAs (Decidable (h.Bypasses f arguments))
  case tail f arguments _ => exact inferInstanceAs (Decidable (h.Bypasses f arguments))
  all_goals exact isFalse id

namespace Host

variable {h : Host} {engine : EngineId} {mayPause : Bool} {steps : Nat}

variable {id : ManagerId} {context : Context}

end Host

end ScriptHost
