import Mathlib
import ScriptHost.Json.Printer
import ScriptHost.Proofs.LoopPrograms
import ScriptHost.Proofs.ResultsHistory

/-!
# Results that hosts and scripts share

What stands under a key is what was last put there by anybody who has the results, whatever goes on
in the engines. What a script does with an entry is all or nothing, and a loop over the entries goes
through those that were there when it started.
-/

set_option autoImplicit false

namespace ScriptHost

open Lua

namespace Host

/-- How scripts use the entries of results that they have a handle of: by calls of functions of the
library, for which there must be room on the stack and in the memory. -/
structure UsesEntries (before : Host) (rid : ResultsId) : Prop where
  reads : ∀ {mayPause : Bool} {engine : EngineId} {calls : Nat} {h : Heap} {uid : UserdataId}
    (place : Place) (label? : Option Label) (k : Value), h.resource? uid = some (.results rid) →
    Arrives mayPause engine (calls + 1) before h (Operation.index place label? (.userdata uid) k)
      (WithRoom before h (ReadsEntry before rid k))
  assigns : ∀ {mayPause : Bool} {engine : EngineId} {calls : Nat} {h : Heap} {uid : UserdataId}
    (place : Place) (label? : Option Label) (k v : Value), h.resource? uid = some (.results rid) →
    Arrives mayPause engine (calls + 1) before h
      (Operation.assign place label? (.userdata uid) k v)
      (WithRoom before h (AssignsEntry before rid k v))
  /-- Without memory for a call nothing is assigned either. -/
  refuses : ∀ {mayPause : Bool} {engine : EngineId} {calls : Nat} {h : Heap} {uid : UserdataId}
    (place : Place) (label? : Option Label) (k v : Value), h.resource? uid = some (.results rid) →
    Conversion.Unstorable (Machine.fits h 0).2 v →
    Arrives mayPause engine (calls + 1) before h
      (Operation.assign place label? (.userdata uid) k v) fun outcome after later =>
        later = before ∧ ((∃ failure, Raises after failure outcome) ∨
          h.limit? ≠ none ∧ outcome = .error .outOfMemory)
  counts : ∀ {mayPause : Bool} {engine : EngineId} {calls : Nat} {h : Heap} {uid : UserdataId}
    (place : Place) (label? : Option Label), h.resource? uid = some (.results rid) →
    Arrives mayPause engine (calls + 1) before h
      (Operation.length place label? (.userdata uid))
      (WithRoom before h (CountsEntries before rid))

theorem usesEntries (before : Host) (rid : ResultsId) : UsesEntries before rid where
  reads _ _ _ := arrives_index_results
  assigns _ _ _ _ := arrives_assign_results
  refuses place label? k v known unstorable := by
    refine (arrives_assign_results known).mono fun outcome after later ends => ?_
    rcases ends.cases with ⟨middle, room, assigns⟩ | ⟨limited, failed, same⟩
    · rw [room] at unstorable
      obtain ⟨raises, same⟩ := assigns.unstorable unstorable
      exact ⟨same, .inl raises⟩
    · exact ⟨same, .inr ⟨limited, failed⟩⟩
  counts _ _ := arrives_length_results

/-- A loop over results that has room on the stack comes to all entries of the moment at which it
starts, once each and to no others, or there is no memory for its start. -/
def LoopsOver (before : Host) (rid : ResultsId) : Prop :=
  ∀ {mayPause : Bool} {engine : EngineId} {begin : Moment} {s : Surroundings} {l : TableLoop}
    {site : Site} {uid : UserdataId} (place : Place),
    begin.Sound →
    Comes mayPause engine begin (s.moment l.frames
      (Eval.call site (.builtin (.base .pairs)) [.userdata uid] (l.begin place))) →
    s.host = before → s.heap.resource? uid = some (.results rid) →
    s.heap.rawGetText s.heap.globals "next" = .builtin (.base .next) →
    (Machine.depths l.frames).1 + 2 < Machine.depthLimit →
    (Machine.depths l.frames).2 + 2 < Machine.nestingLimit →
    (s.heap.limit? ≠ none ∧ ∃ full, Comes mayPause engine
      (s.moment l.frames
        (Eval.call site (.builtin (.base .pairs)) [.userdata uid] (l.begin place)))
      ((s.withHeap full).moment l.frames (.raise .outOfMemory))) ∨
    ∃ last, Heap.Extends s.heap last ∧
      let made := last.entryTable (before.resultsOf rid)
      let loop := l.through made.1
      let fields := (Conversion.ofEntries last (before.resultsOf rid)).1
      Comes mayPause engine
        (s.moment l.frames
          (Eval.call site (.builtin (.base .pairs)) [.userdata uid] (l.begin place)))
        ((s.withHeap made.2).moment loop.inside (loop.turn [.nil])) ∧
      VisitsAll mayPause engine loop fields (s.withHeap made.2) ∧
      fields.map Prod.fst = before.resultKeys rid ∧ ∀ field ∈ fields, field.2.isNil = false

theorem loopsOver {before : Host} {rid : ResultsId}
    (ordered : Ordered.Ascending (before.resultsOf rid)) : LoopsOver before rid := by
  intro mayPause engine begin s l site uid place sound run here known library depth nesting
  obtain ⟨V, untended, safe⟩ := sound.comes run
  subst here
  rcases visits_results untended safe known library ordered depth nesting with
    full | ⟨last, extends_, starts, visits⟩
  · exact .inl full
  · exact .inr ⟨last, extends_, starts, visits, Conversion.fields_ofEntries _ _⟩

/-- What becomes of results by changes of single entries. -/
structure FollowsChanges (id : ResultsId) (log : List ResultsChange) (h : Host) : Prop where
  /-- Under a key stands what was last put there. -/
  entries : ∀ key, h.result? id key = ResultsChange.standing? id key log none
  json : h.resultsJson id = .obj (h.resultsOf id)
  count : (h.resultKeys id).length = h.resultCount id
  distinct : (h.resultKeys id).Nodup
  names : ∀ key, key ∈ h.resultKeys id ↔ (h.result? id key).isSome = true
  uses : UsesEntries h id
  loops : LoopsOver h id
  /-- Whatever program a host starts on an intact engine, nothing that it holds is missing. -/
  begins : ∀ {engine name text f loaded}, Intact engine h → h.load engine name text = (.ok f, loaded) →
    (Moment.ofCall loaded engine f []).Sound
  /-- Whatever a script does, and however far it comes, it changes what it asks for. -/
  scripts : ∀ mayPause engine stack action, ResultsHistory h
    ((h.advanceRequests mayPause engine stack action).filterMap Request.change?)
    (h.advance mayPause engine stack action).2

end Host

namespace ResultsHistory

variable {start h : Host} {log : List ResultsChange}

/-- New results follow what is done with them from then on. -/
theorem results_follow_changes (history : ResultsHistory start.newResults.2 log h) :
    Host.FollowsChanges start.newResults.1 log h := by
  have new : start.newResults.2.resultsOf start.newResults.1 = [] := by
    simp [Host.newResults, Host.resultsOf]
  have there : start.newResults.1.index < start.newResults.2.results.size := by
    simp [Host.newResults]
  have ordered : Ordered.Ascending (start.newResults.2.resultsOf start.newResults.1) := by
    rw [new]
    exact .nil
  have ascending := history.ascending there ordered
  obtain ⟨json, count, distinct, names⟩ := Host.results_agree ascending
  refine ⟨fun key => ?_, json, count, distinct, names, Host.usesEntries .., Host.loopsOver ascending,
    fun intact => intact.sound_of_load, fun mayPause engine => h.history_advance engine mayPause⟩
  rw [history.result? there ordered key, Host.result?, new]
  rfl

theorem eq_builtin_of_key? {v : Value} {f : Builtin} (isKey : v.key? = some (.builtin f)) :
    v = .builtin f := by
  cases v with
  | builtin g => rw [Key.builtin.inj (Option.some.inj isKey)]
  | float x =>
      rw [Value.key?] at isKey
      split at isKey
      · cases isKey
      · split at isKey <;> cases isKey
  | _ => cases isKey

/-- A host whose scripts find the results that will be made next. -/
def sharingHost : Except EngineError BindingGuard × Host :=
  Host.unusedEngine.2.inject ⟨0⟩ { Host.nestedContext with results := ⟨1⟩ } false none

/-- A program that changes the results while it goes through them. -/
def changingProgram : String := "for k, v in pairs(__result__) do __result__.c = k end"

theorem parse_changingProgram (name : String) :
    Chunk.parse name (Utf8.bytes changingProgram) = .ok ⟨name, #[Host.loopMain
      [.assign [.index (Carrier.global Binding.results.name) (.string "c".toUTF8) 1]
        [.local 1 "k"] 1]]⟩ := by
  unfold changingProgram Host.loopMain
  cbv

theorem sharingHost_ready : Host.Intact ⟨0⟩ sharingHost.2 ∧
    ∃ subject, Displays (sharingHost.2.heap ⟨0⟩) subject ∧ subject.context.results = ⟨1⟩ := by
  obtain ⟨made, succeeds⟩ : Host.unusedEngine.1.toOption = some ⟨0⟩ ∧
      sharingHost.1.toOption.isSome = true := by decide +kernel
  have created : Host.unusedEngine = (.ok ⟨0⟩, Host.unusedEngine.2) :=
    Prod.ext (eq_ok_of_toOption made) rfl
  have intact := Host.intact_newEngine created
  have ready := (Host.unused_newEngine created).ready
  refine ⟨(intact.inject _ _ _).1.intact, ?_⟩
  rcases Host.inject_of_orderly intact.present ready.orderly
    { Host.nestedContext with results := ⟨1⟩ } false none with
    ⟨e, failed, _⟩ | ⟨guard, contextId, _, _, _, injected⟩
  · rw [sharingHost, failed] at succeeds
    cases succeeds
  · exact ⟨_, injected.displays ready, rfl⟩

/-- Two entries are put, one of them twice, and the other one is taken away. A program that loops
over two entries comes to both of them, and no function can be assigned. -/
theorem results_follow_changes_replaced :
    (let h := (default : Host).newResults.2
      let last := (((h.setResult ⟨0⟩ "a" .null).setResult ⟨0⟩ "b" (.bool true)).setResult ⟨0⟩ "a"
        (.bool false)).removeResult ⟨0⟩ "b"
      last.result? ⟨0⟩ "a" = some (.bool false) ∧ last.result? ⟨0⟩ "b" = none) ∧
    let h := (sharingHost.2.newResults.2.setResult ⟨1⟩ "a" .null).setResult ⟨1⟩ "b" (.bool true)
    ∃ f loaded uid, h.load ⟨0⟩ [] (Utf8.bytes changingProgram) = (.ok f, loaded) ∧
      (∃ (l : TableLoop) (fields : List (String × Value)) (s : Host.Surroundings),
        Host.Comes false ⟨0⟩ (.ofCall loaded ⟨0⟩ f []) (s.moment l.inside (l.turn [.nil])) ∧
        Host.VisitsAll false ⟨0⟩ l fields s ∧ fields.map Prod.fst = ["a", "b"]) ∧
      (h.heap ⟨0⟩).resource? uid = some (.results ⟨1⟩) ∧
      Host.Arrives false ⟨0⟩ 1 h (h.heap ⟨0⟩)
        (Operation.assign {} none (.userdata uid) (.ofText "a") (.builtin (.host .print)))
        fun outcome after later => later = h ∧ ∃ failure, Host.Raises after failure outcome := by
  constructor
  · have history : ResultsHistory (default : Host).newResults.2 _ _ :=
      (((ResultsHistory.start.next (.insert ⟨0⟩ "a" .null)).next
        (.insert ⟨0⟩ "b" (.bool true))).next (.insert ⟨0⟩ "a" (.bool false))).next
          (.remove ⟨0⟩ "b")
    have follows := results_follow_changes history
    exact ⟨follows.entries "a", follows.entries "b"⟩
  obtain ⟨own, unlimited, keys, pairs, next⟩ :
      sharingHost.2.newResults.1 = ⟨1⟩ ∧ (sharingHost.2.heap ⟨0⟩).limit? = none ∧
        ((sharingHost.2.newResults.2.setResult ⟨1⟩ "a" .null).setResult ⟨1⟩ "b"
          (.bool true)).resultKeys ⟨1⟩ = ["a", "b"] ∧
        ((sharingHost.2.heap ⟨0⟩).rawGetText (sharingHost.2.heap ⟨0⟩).globals "pairs").key? =
          some (.builtin (.base .pairs)) ∧
        ((sharingHost.2.heap ⟨0⟩).rawGetText (sharingHost.2.heap ⟨0⟩).globals "next").key? =
          some (.builtin (.base .next)) := by
    decide +kernel
  obtain ⟨intact, subject, displays, shared⟩ := sharingHost_ready
  generalize sharingHost.2 = shown at own unlimited keys pairs next intact displays ⊢
  intro h
  have history : ResultsHistory shown.newResults.2 _ h :=
    (ResultsHistory.start.next (.insert ⟨1⟩ "a" .null)).next (.insert ⟨1⟩ "b" (.bool true))
  have follows := results_follow_changes history
  have whole : Host.Intact ⟨0⟩ h := ⟨intact.present, intact.whole, intact.marker⟩
  obtain ⟨f, heap, loads, extends_, s, l, site, uid, place, here, opened, _, depths, known, comes⟩ :=
    @Host.exists_loop_of_load false ⟨0⟩ h [] _ _ subject displays List.not_mem_nil
      (parse_changingProgram _) (eq_builtin_of_key? pairs) unlimited
  have later := results_follow_changes (history.next (.alter ⟨0⟩ fun e => e.withHeap heap))
  rw [own] at follows later
  rw [shared] at known
  have library := extends_.builtin (eq_builtin_of_key? next)
  rw [← opened] at library known
  obtain ⟨limited, _⟩ | ⟨last, _, starts, visits, names, _⟩ :=
    later.loops place (follows.begins whole loads) comes here known library
      (by rw [depths]; decide) (by rw [depths]; decide)
  · rw [opened, extends_.limit?] at limited
    exact absurd unlimited limited
  · obtain ⟨handle, _, refers⟩ := displays.results
    rw [shared] at refers
    refine ⟨f, _, handle, loads, ⟨_, _, _, comes.trans starts, visits, names.trans keys⟩, refers, ?_⟩
    refine (follows.uses.refuses {} none (.ofText "a") (.builtin (.host .print)) refers
      (.builtin _)).mono ?_
    rintro outcome after last ⟨same, raises | ⟨limited, _⟩⟩
    · exact ⟨same, raises⟩
    · exact absurd unlimited limited

/-- A function in a part of a table that is not stored does not keep the table from being stored,
and a script that replaces the function `next` decides itself what its loops come to. -/
theorem stored_and_skipped :
    let h := (Host.unusedEngine.2.inject ⟨0⟩ Host.nestedContext false none).2
    let stores := h.exec ⟨0⟩ [] (Utf8.bytes "__result__.k = {1, f = print}")
    let skips := h.exec ⟨0⟩ [] (Utf8.bytes "__result__.k = 1 next = function() end
      for k in pairs(__result__) do __result__.n = k end")
    stores.1.toOption.isSome = true ∧ (stores.2.result? ⟨0⟩ "k").map Json.compress = some "[1]" ∧
      skips.1.toOption.isSome = true ∧ skips.2.resultKeys ⟨0⟩ = ["k"] := by
  decide +kernel

end ResultsHistory

end ScriptHost
