import ScriptHost.Proofs.OrderedEntries
import ScriptHost.Proofs.EngineUses

/-!
# The history of results

Hosts and scripts share results, and change them by one entry at a time. What stands under a key is
what was last put there, whatever has happened to the engines and to their tables since.
-/

set_option autoImplicit false

namespace ScriptHost

open Lua

namespace Ordered

variable {α : Type} {entries : List (String × α)}

theorem mem_keys_erase {key other : String} (member : other ∈ keys (erase key entries)) :
    other ∈ keys entries := by
  induction entries with
  | nil => cases member
  | cons entry rest ih =>
      unfold erase at member
      split at member
      · exact List.mem_cons_of_mem _ member
      · exact (List.mem_cons.mp member).elim (fun same => same ▸ List.mem_cons_self)
          fun later => List.mem_cons_of_mem _ (ih later)

theorem Ascending.erase (ascending : Ascending entries) (key : String) :
    Ascending (erase key entries) := by
  induction entries with
  | nil => exact ascending
  | cons entry rest ih =>
      obtain ⟨below, later⟩ := List.pairwise_cons.mp ascending
      unfold Ordered.erase
      split
      · exact later
      · exact List.pairwise_cons.mpr ⟨fun other member => below other (mem_keys_erase member),
          ih later⟩

theorem Ascending.find?_erase (ascending : Ascending entries) (key other : String) :
    find? other (Ordered.erase key entries) =
      if key = other then none else find? other entries := by
  induction entries with
  | nil => simp [Ordered.erase, find?]
  | cons entry rest ih =>
      obtain ⟨k, v⟩ := entry
      obtain ⟨below, later⟩ := List.pairwise_cons.mp ascending
      unfold Ordered.erase
      split
      · rename_i same
        subst same
        rw [find?]
        split
        · rename_i here
          subst here
          cases found : find? k rest with
          | none => rfl
          | some value =>
              have member := (Ascending.find?_eq_some_iff later k value).mp found
              exact absurd (below k (List.mem_map_of_mem member)) Std.lt_irrefl
        · rfl
      · rename_i different
        rw [find?, find?, ih later]
        by_cases here : k = other
        · subst here
          rw [if_pos rfl, if_pos rfl, if_neg (Ne.symm different)]
        · rw [if_neg here, if_neg here]

end Ordered

/-- A change of the entry under a key of some results: from then on a value stands there, or
nothing. -/
structure ResultsChange where
  results : ResultsId
  key : String
  value? : Option Json

/-- What a request of a script changes. -/
def Lua.Request.change? : Lua.Request → Option ResultsChange
  | .setResult id key value => some ⟨id, key, some value⟩
  | .removeResult id key => some ⟨id, key, none⟩
  | _ => none

namespace ResultsChange

variable {id : ResultsId} {key : String} {first second : List ResultsChange}

/-- The last of some changes that is one of an entry. -/
def last? (id : ResultsId) (key : String) (log : List ResultsChange) : Option ResultsChange :=
  (log.filter fun change => decide (change.results = id ∧ change.key = key)).getLast?

/-- What stands under a key after some changes, if something else stood there before. -/
def standing? (id : ResultsId) (key : String) (log : List ResultsChange) (before? : Option Json) :
    Option Json :=
  match last? id key log with
  | some change => change.value?
  | none => before?

theorem standing?_append (before? : Option Json) :
    standing? id key (first ++ second) before? =
      standing? id key second (standing? id key first before?) := by
  unfold standing? last?
  rw [List.filter_append, List.getLast?_append]
  cases (second.filter fun change => decide (change.results = id ∧ change.key = key)).getLast? with
  | none => rfl
  | some change => rfl

theorem standing?_singleton (change : ResultsChange) (before? : Option Json) :
    standing? id key [change] before? =
      if change.results = id ∧ change.key = key then change.value? else before? := by
  unfold standing? last?
  by_cases concerns : change.results = id ∧ change.key = key
  · rw [List.filter_cons_of_pos (by simpa using concerns), if_pos concerns]
    rfl
  · rw [List.filter_cons_of_neg (by simpa using concerns), if_neg concerns]
    rfl

end ResultsChange

/-! ## Steps -/

/-- Something happens to a host, and some entries of results change by it. -/
inductive ResultsStep (h : Host) : List ResultsChange → Host → Prop where
  | insert (id : ResultsId) (key : String) (value : Json) :
      ResultsStep h [⟨id, key, some value⟩] (h.setResult id key value)
  | remove (id : ResultsId) (key : String) : ResultsStep h [⟨id, key, none⟩] (h.removeResult id key)
  /-- A script has asked for something. -/
  | answer (engine : EngineId) (request : Request) :
      ResultsStep h ([request].filterMap Request.change?) (h.reply engine request).2
  /-- An engine changes in any way, with all of its tables. -/
  | alter (engine : EngineId) (f : Engine → Engine) : ResultsStep h [] (h.modifyEngine engine f)
  | create : ResultsStep h [] h.newResults.2
  | elsewhere {after : Host} : after.results = h.results → ResultsStep h [] after

namespace ResultsStep

variable {h after : Host} {changes : List ResultsChange} {id other : ResultsId} {key : String}

theorem resultsOf_modifyResults (there : id.index < h.results.size) (other : ResultsId)
    (f : List (String × Json) → List (String × Json)) :
    (h.modifyResults other f).resultsOf id =
      if other = id then f (h.resultsOf id) else h.resultsOf id := by
  obtain ⟨index⟩ := id
  obtain ⟨place⟩ := other
  by_cases same : place = index
  · subst same
    have found : h.results[place]? = some h.results[place] := Array.getElem?_eq_getElem there
    simp [Host.resultsOf, Host.modifyResults, Array.getElem?_modify, found]
  · rw [if_neg fun equal => same (congrArg ResultsId.index equal)]
    simp [Host.resultsOf, Host.modifyResults, Array.getElem?_modify, same]

theorem resultsOf_newResults (there : id.index < h.results.size) :
    h.newResults.2.resultsOf id = h.resultsOf id := by
  simp [Host.newResults, Host.resultsOf, Array.getElem?_push, Nat.ne_of_lt there]

/-- One entry changes, or nothing that is there does. -/
theorem cases (step : ResultsStep h changes after) :
    (∃ of name value, changes = [⟨of, name, some value⟩] ∧
        after.results = (h.setResult of name value).results) ∨
      (∃ of name, changes = [⟨of, name, none⟩] ∧
        after.results = (h.removeResult of name).results) ∨
      changes = [] ∧ (after.results = h.results ∨ after.results = h.newResults.2.results) := by
  cases step with
  | insert of name value => exact .inl ⟨of, name, value, rfl, rfl⟩
  | remove of name => exact .inr (.inl ⟨of, name, rfl, rfl⟩)
  | alter engine f => exact .inr (.inr ⟨rfl, .inl rfl⟩)
  | create => exact .inr (.inr ⟨rfl, .inr rfl⟩)
  | elsewhere same => exact .inr (.inr ⟨rfl, .inl same⟩)
  | answer engine request =>
      cases request with
      | setResult of name value => exact .inl ⟨of, name, value, rfl, rfl⟩
      | removeResult of name => exact .inr (.inl ⟨of, name, rfl, rfl⟩)
      | write bytes =>
          refine .inr (.inr ⟨rfl, .inl ?_⟩)
          simp only [Host.reply, Host.write]
          split <;> rfl
      | clearEngines id? =>
          refine .inr (.inr ⟨rfl, .inl ?_⟩)
          simp only [Host.reply]
          split <;> rfl
      | _ => exact .inr (.inr ⟨rfl, .inl rfl⟩)

theorem resultsOf_congr (same : after.results = h.results) :
    after.resultsOf id = h.resultsOf id := by
  rw [Host.resultsOf, same, Host.resultsOf]

theorem grown (step : ResultsStep h changes after) : h.results.size ≤ after.results.size := by
  rcases step.cases with ⟨_, _, _, _, same⟩ | ⟨_, _, _, same⟩ | ⟨_, same | same⟩ <;> rw [same] <;>
    simp [Host.setResult, Host.removeResult, Host.modifyResults, Host.newResults]

theorem ascending (step : ResultsStep h changes after) (there : id.index < h.results.size)
    (ascending : Ordered.Ascending (h.resultsOf id)) :
    Ordered.Ascending (after.resultsOf id) := by
  rcases step.cases with ⟨of, name, value, _, same⟩ | ⟨of, name, _, same⟩ | ⟨_, same | same⟩
  · rw [resultsOf_congr same, Host.setResult, resultsOf_modifyResults there]
    split
    · exact ascending.insert name value
    · exact ascending
  · rw [resultsOf_congr same, Host.removeResult, resultsOf_modifyResults there]
    split
    · exact ascending.erase name
    · exact ascending
  · rwa [resultsOf_congr same]
  · rwa [resultsOf_congr same, resultsOf_newResults there]

theorem result? (step : ResultsStep h changes after) (there : id.index < h.results.size)
    (ascending : Ordered.Ascending (h.resultsOf id)) (key : String) :
    after.result? id key = ResultsChange.standing? id key changes (h.result? id key) := by
  rcases step.cases with ⟨of, name, value, rfl, same⟩ | ⟨of, name, rfl, same⟩ |
    ⟨rfl, same | same⟩
  · rw [Host.result?, resultsOf_congr same, Host.setResult, resultsOf_modifyResults there,
      ResultsChange.standing?_singleton, Host.result?]
    by_cases here : of = id
    · rw [if_pos here, Ordered.find?_insert]
      simp [here]
    · rw [if_neg here, if_neg fun both => here both.1]
  · rw [Host.result?, resultsOf_congr same, Host.removeResult, resultsOf_modifyResults there,
      ResultsChange.standing?_singleton, Host.result?]
    by_cases here : of = id
    · rw [if_pos here, ascending.find?_erase]
      simp [here]
    · rw [if_neg here, if_neg fun both => here both.1]
  · rw [Host.result?, resultsOf_congr same]
    rfl
  · rw [Host.result?, resultsOf_congr same, resultsOf_newResults there]
    rfl

end ResultsStep

/-! ## Runs -/

/-- Steps that follow each other, and what they change. -/
inductive ResultsHistory (start : Host) : List ResultsChange → Host → Prop where
  | start : ResultsHistory start [] start
  | next {log changes h after} : ResultsHistory start log h → ResultsStep h changes after →
      ResultsHistory start (log ++ changes) after

namespace ResultsHistory

variable {start middle h : Host} {log more : List ResultsChange} {id : ResultsId}

theorem ofStep (step : ResultsStep start log h) : ResultsHistory start log h :=
  .next .start step

theorem trans (first : ResultsHistory start log middle) (second : ResultsHistory middle more h) :
    ResultsHistory start (log ++ more) h := by
  induction second with
  | start =>
      rw [List.append_nil]
      exact first
  | next _ step ih =>
      rw [← List.append_assoc]
      exact ih.next step

theorem grown (history : ResultsHistory start log h) : start.results.size ≤ h.results.size := by
  induction history with
  | start => exact Nat.le_refl _
  | next _ step ih => exact Nat.le_trans ih step.grown

variable (history : ResultsHistory start log h) (there : id.index < start.results.size)
  (ordered : Ordered.Ascending (start.resultsOf id))

include history there ordered

theorem ascending : Ordered.Ascending (h.resultsOf id) := by
  induction history with
  | start => exact ordered
  | next before step ih => exact step.ascending (Nat.lt_of_lt_of_le there before.grown) ih

/-- Under a key stands what was last put there. -/
theorem result? (key : String) :
    h.result? id key = ResultsChange.standing? id key log (start.result? id key) := by
  induction history with
  | start => rfl
  | next before step ih =>
      have known := before.ascending there ordered
      rw [ResultsChange.standing?_append, ← ih,
        step.result? (Nat.lt_of_lt_of_le there before.grown) known]

end ResultsHistory

/-! ## Scripts -/

namespace Host

variable {h : Host} {engine : EngineId}

/-- What scripts report is all that changes results. -/
theorem Uses.history {start : Host} {log : List Request} (uses : Uses engine start log h) :
    ResultsHistory start (log.filterMap Request.change?) h := by
  induction uses with
  | start => exact .start
  | answer request _ ih =>
      rw [List.filterMap_append]
      exact ih.next (.answer engine request)
  | @alter log h store _ ih =>
      rw [← List.append_nil (log.filterMap _)]
      exact ih.next (.alter engine _)
  | @addContext log h context _ ih =>
      rw [← List.append_nil (log.filterMap _)]
      exact ih.next (.elsewhere rfl)

/-- Whatever a script does, and however far it comes, what it asks its host for is all that it
changes. -/
theorem history_advance (h : Host) (engine : EngineId) (mayPause : Bool) (stack : Stack)
    (action : Action) :
    ResultsHistory h ((h.advanceRequests mayPause engine stack action).filterMap Request.change?)
      (h.advance mayPause engine stack action).2 :=
  (h.uses_advance engine mayPause stack action).history

variable {id : ResultsId} (ordered : Ordered.Ascending (h.resultsOf id))

include ordered

/-- All ways to look at results as a whole show the same names. -/
theorem results_agree :
    h.resultsJson id = .obj (h.resultsOf id) ∧
      (h.resultKeys id).length = h.resultCount id ∧ (h.resultKeys id).Nodup ∧
      ∀ key, key ∈ h.resultKeys id ↔ (h.result? id key).isSome = true := by
  refine ⟨?_, List.length_map _, ordered.nodup_keys, fun key => ordered.mem_keys_iff⟩
  rw [resultsJson, Json.object, Ordered.ofList_eq ordered fun _ => Iff.rfl]

end Host

end ScriptHost
