import ScriptHost.Proofs.Courses
import ScriptHost.Proofs.ResultsAccess
import ScriptHost.Proofs.Unstorable

/-!
# What scripts do with results

A script reads an entry, assigns to one, removes one and counts the entries of results that it has
the handle of. Nothing else about the results changes, and what cannot be stored changes nothing.
-/

set_option autoImplicit false

namespace ScriptHost

open Lua

namespace Host

variable {mayPause : Bool} {engine : EngineId} {calls : Nat} {before later : Host}
  {h after : Heap} {uid : UserdataId} {rid : ResultsId} {k v : Value} {place : Place}
  {label? : Option Label} {function method : String}

/-! ## Arguments -/

theorem arrives_resultsOf {args : Arguments} (given : args.get 1 = .userdata uid)
    (known : h.resource? uid = some (.results rid)) :
    Arrives mayPause engine calls before h (Library.resultsOf method args)
      fun outcome after later => outcome = .ok rid ∧ after = h ∧ later = before := by
  unfold Library.resultsOf
  have object : Arrives mayPause engine calls before h (Library.self method args)
      fun outcome after later => outcome = .ok (.results rid) ∧ after = h ∧ later = before := by
    simp only [Library.self, given]
    refine .read ?_
    rw [known]
    exact .pure ⟨rfl, rfl, rfl⟩
  exact .afterwards object (.pure ⟨rfl, rfl, rfl⟩)

/-- An argument that is a text, or one that is none. -/
theorem arrives_textArgument {α : Type} {function? : Option String} {args : Arguments} {i : Nat}
    {rest : String → Eval α} {result : Except Thrown α → Heap → Host → Prop}
    (text : ∀ s, Conversion.toText (args.get i) = .ok s →
      Arrives mayPause engine calls before h (rest s) result)
    (wrong : ∀ e failure outcome after, Conversion.toText (args.get i) = .error e →
      Heap.Extends h after → Raises after failure outcome → result outcome after before) :
    Arrives mayPause engine calls before h
      (Library.textArgument function? args i >>= rest) result := by
  cases given : Conversion.toText (args.get i) with
  | ok s =>
      have found : Library.textArgument function? args i = Pure.pure s := by
        simp only [Library.textArgument, given]
      rw [found]
      exact text s given
  | error e =>
      simp only [Library.textArgument, given]
      exact .failed (by simp) fun outcome after => wrong e _ outcome after given

/-! ## Reading -/

/-- How reading an entry ends: with a new value for what stands there, or nil. -/
inductive ReadsEntry (before : Host) (rid : ResultsId) (k : Value) (h : Heap) :
    Except Thrown Value → Heap → Host → Prop where
  | found {key json} : Conversion.toText k = .ok key → before.result? rid key = some json →
      ReadsEntry before rid k h (.ok (Conversion.ofJson h json).1) (Conversion.ofJson h json).2
        before
  | absent {key} : Conversion.toText k = .ok key → before.result? rid key = none →
      ReadsEntry before rid k h (.ok .nil) h before
  | wrongKey {e failure outcome after} : Conversion.toText k = .error e →
      Raises after failure outcome → ReadsEntry before rid k h outcome after before

theorem arrives_resultsGet (known : h.resource? uid = some (.results rid)) :
    Arrives mayPause engine calls before h
      (Library.resultsGet ⟨function, [.userdata uid, k]⟩) fun outcome =>
        ReadsEntry before rid k h (outcome.map firstOf) := by
  unfold Library.resultsGet
  refine .afterwards (arrives_resultsOf rfl known) (arrives_textArgument ?_ ?_)
  · intro key text
    refine .ask nofun ?_
    dsimp only [reply]
    cases found : before.result? rid key with
    | none => exact .pure (.absent text found)
    | some json => exact .alter (.pure (.found text found))
  · intro e failure outcome after wrong _ raises
    exact .wrongKey wrong (raises.map firstOf)

theorem arrives_index_results (known : h.resource? uid = some (.results rid)) :
    Arrives mayPause engine (calls + 1) before h
      (Operation.index place label? (.userdata uid) k)
      (WithRoom before h (ReadsEntry before rid k)) := by
  have target : Operation.lookUp h (.userdata uid) k =
      .handler (.builtin (.host .resultsGet)) := by
    simp [Operation.lookUp, Heap.metamethod, known, Resource.metamethod, Value.isNil,
      Operation.Access.ofMetamethod]
  have called : Arrives mayPause engine (calls + 1) before h
      (Eval.call (place.site "index") (.builtin (.host .resultsGet)) [.userdata uid, k])
      (WithRoom before h fun middle outcome =>
        ReadsEntry before rid k middle (outcome.map firstOf)) :=
    .call_builtin rfl fun middle opened => arrives_resultsGet (opened.resource? _ _ known)
  refine .read ?_
  rw [target]
  exact .map (called.mono fun _ _ _ => WithRoom.map firstOf)

/-! ## Assigning -/

/-- How an assignment to an entry ends. Only one that succeeds changes anything, and no more than
the entry; nil takes the entry away. -/
inductive AssignsEntry (before : Host) (rid : ResultsId) (k v : Value) (h : Heap) :
    Except Thrown Unit → Heap → Host → Prop where
  | stored {key json after} : Conversion.toText k = .ok key → v.isNil = false →
      Conversion.toJson h v = .ok json →
      AssignsEntry before rid k v h (.ok ()) after (before.setResult rid key json)
  | removed {key after} : Conversion.toText k = .ok key → v.isNil = true →
      AssignsEntry before rid k v h (.ok ()) after (before.removeResult rid key)
  | refused {key fault outcome after} : Conversion.toText k = .ok key → v.isNil = false →
      Conversion.toJson h v = .error fault → Raises after (.unstorable fault.message) outcome →
      AssignsEntry before rid k v h outcome after before
  | wrongKey {e failure outcome after} : Conversion.toText k = .error e →
      Raises after failure outcome → AssignsEntry before rid k v h outcome after before

theorem arrives_resultsSet (known : h.resource? uid = some (.results rid)) :
    Arrives mayPause engine calls before h
      (Library.resultsSet ⟨function, [.userdata uid, k, v]⟩) fun outcome =>
        AssignsEntry before rid k v h (outcome.map fun _ => ()) := by
  unfold Library.resultsSet
  refine .afterwards (arrives_resultsOf rfl known) (arrives_textArgument ?_ ?_)
  · intro key text
    have third : Arguments.get ⟨function, [.userdata uid, k, v]⟩ 3 = v := rfl
    simp only [third]
    cases absent : v.isNil with
    | true => exact .ask nofun (.pure (.removed text absent))
    | false =>
        refine .read ?_
        cases converted : Conversion.toJson h v with
        | ok json => exact .ask nofun (.pure (.stored text absent converted))
        | error fault =>
            refine .failure ?_ fun _ _ _ raises => ?_
            · exact nofun
            · exact .refused text absent converted (raises.map fun _ => ())
  · intro e failure outcome after wrong _ raises
    exact .wrongKey wrong (raises.map fun _ => ())

theorem arrives_assign_results (known : h.resource? uid = some (.results rid)) :
    Arrives mayPause engine (calls + 1) before h
      (Operation.assign place label? (.userdata uid) k v)
      (WithRoom before h (AssignsEntry before rid k v)) := by
  have target : Operation.lookUpTarget h (.userdata uid) k =
      .handler (.builtin (.host .resultsSet)) := by
    simp [Operation.lookUpTarget, Heap.metamethod, known, Resource.metamethod, Value.isNil,
      Operation.Access.ofMetamethod]
  have called : Arrives mayPause engine (calls + 1) before h
      (Eval.call (place.site "newindex") (.builtin (.host .resultsSet)) [.userdata uid, k, v])
      (WithRoom before h fun middle outcome =>
        AssignsEntry before rid k v middle (outcome.map fun _ => ())) :=
    .call_builtin rfl fun middle opened => arrives_resultsSet (opened.resource? _ _ known)
  refine .read ?_
  rw [target]
  exact .map (called.mono fun _ _ _ => WithRoom.map fun _ => ())

/-- What cannot be stored is refused, whatever the key, and nothing changes. -/
theorem AssignsEntry.unstorable {outcome : Except Thrown Unit}
    (assigns : AssignsEntry before rid k v h outcome after later)
    (unstorable : Conversion.Unstorable h v) :
    (∃ failure, Raises after failure outcome) ∧ later = before := by
  obtain ⟨fault, refused⟩ := unstorable.toJson
  cases assigns with
  | stored _ _ converted =>
      rw [refused] at converted
      cases converted
  | removed _ absent => cases unstorable <;> cases absent
  | refused _ _ _ raises => exact ⟨⟨_, raises⟩, rfl⟩
  | wrongKey _ raises => exact ⟨⟨_, raises⟩, rfl⟩

/-! ## Counting -/

/-- How counting the entries ends. -/
def CountsEntries (before : Host) (rid : ResultsId) (_ : Heap) (outcome : Except Thrown Value)
    (_ : Heap) (later : Host) : Prop :=
  outcome = .ok (.integer (Int64.ofNat (before.resultCount rid))) ∧ later = before

theorem arrives_resultsCount (known : h.resource? uid = some (.results rid)) :
    Arrives mayPause engine calls before h
      (Library.host Binding.names .resultsCount ⟨function, [.userdata uid, .userdata uid]⟩)
      fun outcome => CountsEntries before rid h (outcome.map firstOf) := by
  refine .afterwards (arrives_resultsOf rfl known) (.ask ?_ (.pure ⟨rfl, rfl⟩))
  exact nofun

theorem arrives_length_results (known : h.resource? uid = some (.results rid)) :
    Arrives mayPause engine (calls + 1) before h
      (Operation.length place label? (.userdata uid))
      (WithRoom before h (CountsEntries before rid)) := by
  have found : h.metamethod (.userdata uid) "__len" = .builtin (.host .resultsCount) := by
    simp [Heap.metamethod, known, Resource.metamethod]
  have called : Arrives mayPause engine (calls + 1) before h
      (Eval.call (place.site "len") (.builtin (.host .resultsCount)) [.userdata uid, .userdata uid])
      (WithRoom before h fun middle outcome =>
        CountsEntries before rid middle (outcome.map firstOf)) :=
    .call_builtin rfl fun middle opened => arrives_resultsCount (opened.resource? _ _ known)
  refine .read ?_
  rw [found]
  exact .map (called.mono fun _ _ _ => WithRoom.map firstOf)

end Host

end ScriptHost
