import ScriptHost.Proofs.ResultsOperations
import ScriptHost.Proofs.TableLoops
import ScriptHost.Proofs.TendedGlobals

/-!
# Loops over results

A loop over the pairs of results goes through a table of all the entries that are there when it
starts. Nobody else holds that table, so the body may change the results as it likes.
-/

set_option autoImplicit false

namespace ScriptHost

open Lua

/-! ## The table of all entries -/

namespace Lua

theorem Conversion.isNil_ofJson (h : Heap) (json : Json) : (ofJson h json).1.isNil = false := by
  cases json with
  | int n =>
      change (ofInt n).isNil = false
      unfold ofInt
      split <;> rfl
  | _ => rfl

/-- The fields of a table of entries have the names of the entries, and values even for nulls. -/
theorem Conversion.fields_ofEntries (h : Heap) (entries : List (String × Json)) :
    (ofEntries h entries).1.map Prod.fst = Ordered.keys entries ∧
      ∀ field ∈ (ofEntries h entries).1, field.2.isNil = false := by
  induction entries generalizing h with
  | nil => exact ⟨rfl, fun _ member => nomatch member⟩
  | cons entry entries ih =>
      obtain ⟨names, present⟩ := ih (ofJson h entry.2).2
      refine ⟨congrArg (entry.1 :: ·) names, fun field member => ?_⟩
      rcases List.mem_cons.mp member with rfl | later
      · exact isNil_ofJson h entry.2
      · exact present field later

/-- A new table of entries. -/
def Heap.entryTable (h : Heap) (entries : List (String × Json)) : TableId × Heap :=
  (Conversion.ofEntries h entries).2.newTable (.ofEntries (Conversion.ofEntries h entries).1)

theorem Heap.lists_entryTable (h : Heap) {entries : List (String × Json)}
    (ordered : Ordered.Ascending entries) :
    ((h.entryTable entries).2.table (h.entryTable entries).1).Lists
      (Conversion.ofEntries h entries).1 := by
  obtain ⟨names, present⟩ := Conversion.fields_ofEntries h entries
  rw [entryTable, Heap.table_newTable_self]
  refine .ofEntries ?_ present
  rw [names]
  exact ordered.nodup_keys

theorem Heap.extends_entryTable (h : Heap) (entries : List (String × Json)) :
    Extends h (h.entryTable entries).2 := by
  obtain ⟨limit, cells⟩ := Conversion.rest_ofJson h (.obj entries)
  exact .ofCells (Scope.steady_ofJson h (.obj entries)) limit cells

/-- A function of the library stays where it is. -/
theorem Heap.Extends.builtin {h after : Heap} {name : String} {f : Builtin}
    (extends_ : Extends h after) (library : h.rawGetText h.globals name = .builtin f) :
    after.rawGetText after.globals name = .builtin f := by
  have present : h.globals.index < h.tables.size := by
    refine Nat.lt_of_not_le fun outside => ?_
    rw [Heap.rawGetText, Heap.rawGet, Heap.table, Array.getElem?_eq_none outside] at library
    cases library
  rw [extends_.globals, extends_.inert _ _ present id, library]
  rw [library]
  exact fun _ => rfl

/-- The table can be kept to oneself. -/
theorem Vault.Guards.entryTable {V : Vault} {h : Heap} (guards : V.Guards h)
    (entries : List (String × Json)) :
    ∃ W, V.Later W ∧ W.Guards (h.entryTable entries).2 ∧ W.scope (h.entryTable entries).1 := by
  obtain ⟨passes, shared⟩ := guards.ofEntries entries
  obtain ⟨later, guarded⟩ := passes.guards.hideTable (shows_ofEntries shared)
    (Table.metatable?_ofEntries _)
  exact ⟨_, (guards.later passes).trans later, guarded, .inr rfl⟩

end Lua

namespace Host

variable {mayPause : Bool} {engine : EngineId} {calls : Nat} {before : Host} {h : Heap}
  {uid : UserdataId} {rid : ResultsId} {function : String} {site : Site} {V : Vault}

/-- How `pairs` ends for results: with the function that gives the next entry, and a table of all
entries. -/
def OpensEntries (before : Host) (rid : ResultsId) (h : Heap) (outcome : Except Thrown (List Value))
    (after : Heap) (later : Host) : Prop :=
  outcome = .ok [.builtin (.base .next), .table (h.entryTable (before.resultsOf rid)).1, .nil] ∧
    after = (h.entryTable (before.resultsOf rid)).2 ∧ later = before

theorem arrives_resultsPairs (known : h.resource? uid = some (.results rid))
    (library : h.rawGetText h.globals "next" = .builtin (.base .next)) :
    Arrives mayPause engine calls before h (Library.resultsPairs ⟨function, [.userdata uid]⟩)
      (OpensEntries before rid h) := by
  let after := (h.entryTable (before.resultsOf rid)).2
  have extends_ : Heap.Extends h after := Heap.extends_entryTable h (before.resultsOf rid)
  have target : Operation.lookUp after (.table after.globals) (.ofText "next") =
      .found (.builtin (.base .next)) := by
    have same := extends_.builtin library
    rw [← same]
    exact lookUp_table_of_value (by rw [same]; rfl)
  have found : Arrives mayPause engine calls before after
      (Operation.index {} none (.table after.globals) (.ofText "next"))
      fun outcome last later =>
        outcome = .ok (.builtin (.base .next)) ∧ last = after ∧ later = before := by
    refine .read ?_
    rw [target]
    exact .pure ⟨rfl, rfl, rfl⟩
  unfold Library.resultsPairs
  refine .afterwards (arrives_resultsOf rfl known) (.ask ?_ (.alter (.read (.afterwards found ?_))))
  · exact nofun
  · exact .pure ⟨rfl, rfl, rfl⟩

/-- The values that `pairs` passes on. -/
def pairsValues (values : List Value) : List Value :=
  [firstOf values, firstOf (values.drop 1), firstOf (values.drop 2)]

theorem arrives_pairs_results (known : h.resource? uid = some (.results rid))
    (library : h.rawGetText h.globals "next" = .builtin (.base .next)) :
    Arrives mayPause engine (calls + 1 + 1) before h
      (Eval.call site (.builtin (.base .pairs)) [.userdata uid])
      (WithRoom before h fun middle => WithRoom before middle (OpensEntries before rid)) := by
  have runs : Library.run setting (.builtin (.base .pairs)) (.base .pairs) [] [.userdata uid] =
      Eval.run (Library.pairs ⟨Library.nameOf (.base .pairs), [.userdata uid]⟩) := rfl
  refine .call_builtin runs fun middle opened => ?_
  have known := opened.resource? _ _ known
  have handler : middle.metamethod (.userdata uid) "__pairs" = .builtin (.host .resultsPairs) := by
    simp [Heap.metamethod, known, Resource.metamethod]
  have called : Arrives mayPause engine (calls + 1) before middle
      (Eval.callBack (.builtin (.host .resultsPairs)) [.userdata uid])
      (WithRoom before middle fun last outcome =>
        OpensEntries before rid last (outcome.map pairsValues)) := by
    have runs : Library.run setting (.builtin (.host .resultsPairs)) (.host .resultsPairs) []
        [.userdata uid] = Eval.run
          (Library.resultsPairs ⟨Library.nameOf (.host .resultsPairs), [.userdata uid]⟩) := rfl
    refine .call_builtin runs fun last opened' => ?_
    refine (arrives_resultsPairs (opened'.resource? _ _ known)
      (opened'.builtin (opened.builtin library))).mono ?_
    rintro _ _ _ ⟨rfl, same⟩
    exact ⟨rfl, same⟩
  have body : Library.pairs ⟨Library.nameOf (.base .pairs), [.userdata uid]⟩ =
      Eval.read (fun h => h.metamethod (.userdata uid) "__pairs") >>= fun m =>
        if m.isNil then Pure.pure [.builtin (.base .next), .userdata uid, .nil]
        else Eval.callBack m [.userdata uid] >>= fun values => Pure.pure (pairsValues values) := by
    rfl
  rw [body]
  refine .read ?_
  rw [handler]
  exact .map (called.mono fun _ _ _ => WithRoom.map pairsValues)

/-! ## The loop -/

variable {s : Surroundings} {l : TableLoop} {place : Place}

/-- A table of entries that has just been made can be known to nobody but a loop. -/
theorem conceals_entryTable {last : Heap} {entries : List (String × Json)} (untended : ¬ V.tended)
    (safe : s.Safe V) (visits : SafeVisits V l) (passes : V.Passes s.heap last)
    (ordered : Ordered.Ascending entries) :
    ∃ W, Conceals W (l.through (last.entryTable entries).1) (Conversion.ofEntries last entries).1
      (s.withHeap (last.entryTable entries).2) := by
  obtain ⟨W, later, guarded, hidden⟩ := passes.guards.entryTable entries
  replace later := (safe.store.guards.later passes).trans later
  exact ⟨W, {
    untended := fun tended => untended (later.tended.mp tended)
    safe := ⟨⟨guarded, safe.store.paused.mono later⟩,
      fun w member => (safe.waiting w member).mono later⟩
    hidden := hidden
    lists := Heap.lists_entryTable last ordered
    visits := fun X h field further => visits X h field (later.trans further) }⟩

/-- A loop over the pairs of results comes to all entries that are there when it starts. -/
theorem visits_results (untended : ¬ V.tended)
    (safe : SafeMoment V (s.moment l.frames
      (Eval.call site (.builtin (.base .pairs)) [.userdata uid] (l.begin place))))
    (known : s.heap.resource? uid = some (.results rid))
    (library : s.heap.rawGetText s.heap.globals "next" = .builtin (.base .next))
    (ordered : Ordered.Ascending (s.host.resultsOf rid))
    (depth : (Machine.depths l.frames).1 + 2 < Machine.depthLimit)
    (nesting : (Machine.depths l.frames).2 + 2 < Machine.nestingLimit) :
    (s.heap.limit? ≠ none ∧ ∃ full, Comes mayPause engine
      (s.moment l.frames
        (Eval.call site (.builtin (.base .pairs)) [.userdata uid] (l.begin place)))
      ((s.withHeap full).moment l.frames (.raise .outOfMemory))) ∨
    ∃ last, Heap.Extends s.heap last ∧
      let made := last.entryTable (s.host.resultsOf rid)
      let loop := l.through made.1
      Comes mayPause engine
        (s.moment l.frames
          (Eval.call site (.builtin (.base .pairs)) [.userdata uid] (l.begin place)))
        ((s.withHeap made.2).moment loop.inside (loop.turn [.nil])) ∧
      VisitsAll mayPause engine loop (Conversion.ofEntries last (s.host.resultsOf rid)).1
        (s.withHeap made.2) := by
  obtain ⟨outcome, after, later, ends, comes⟩ :=
    @arrives_pairs_results mayPause engine 0 s.host s.heap uid rid site known library
  have reached := comes s.store.paused l.frames s.waiting (l.begin place) depth nesting
  rcases ends.cases with ⟨middle, room, ends⟩ | ⟨limited, rfl, rfl⟩
  · have opened := Heap.Extends.fits s.heap 0
    have first : V.Passes s.heap (Machine.fits s.heap 0).2 := safe.store.guards.fits 0
    rw [room] at opened first
    rcases ends.cases with ⟨last, more, rfl, rfl, rfl⟩ | ⟨limited, rfl, rfl⟩
    · have opened' := Heap.Extends.fits middle 0
      have second := first.guards.fits 0
      rw [more] at opened' second
      have visits : SafeVisits V l := by
        cases safe.action with
        | call _ _ begins => exact safeVisits_begin begins
      obtain ⟨W, conceals⟩ := conceals_entryTable untended ⟨safe.store, safe.stack.waiting⟩ visits
        (first.trans second) ordered
      let made := last.entryTable (s.host.resultsOf rid)
      have begins : Comes mayPause engine ((s.withHeap made.2).moment l.frames
          (l.begin place [.builtin (.base .next), .table made.1, .nil])) _ :=
        @comes_start mayPause engine (l.through made.1) (s.withHeap made.2) place
      have shallow : (l.through made.1).Shallow :=
        ⟨Nat.lt_of_succ_lt depth, Nat.lt_of_succ_lt nesting⟩
      exact .inr ⟨last, opened.trans opened', reached.trans begins, conceals.visitsAll shallow⟩
    · rw [opened.limit?] at limited
      exact .inl ⟨limited, after, reached⟩
  · exact .inl ⟨limited, after, reached⟩

end Host

end ScriptHost
