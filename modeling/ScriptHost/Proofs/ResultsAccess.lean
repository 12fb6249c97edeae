import ScriptHost.Proofs.JsonReadback
import ScriptHost.Proofs.Outcomes

/-!
# Results as scripts see them

Reading a result gives a script a value that stands for it, and storing a value that stands for a
JSON value reports that JSON value.
-/

set_option autoImplicit false

namespace ScriptHost

open Lua Scope

/-! ## Arguments -/

theorem Utf8.faultFrom?_encode (cs : List Char) (index : Nat) :
    faultFrom? index (encode cs) = none := by
  induction cs generalizing index with
  | nil => simp [encode, faultFrom?]
  | cons c cs ih =>
      obtain ⟨a, more, encoded, sequence⟩ := sequence_encodeChar c
      rw [encode, List.flatMap_cons, encoded, ← encode, List.cons_append, faultFrom?,
        chunk_of_sequence sequence]
      simp [ih]

theorem Lua.Conversion.toText_ofText (s : String) : toText (.ofText s) = .ok s := by
  have bytes : s.toUTF8.toList = Utf8.bytes s := rfl
  have sound : Utf8.fault? (Utf8.bytes s) = none := by
    rw [Utf8.bytes_eq_encode]
    exact Utf8.faultFrom?_encode s.toList 0
  simp only [toText, Value.ofText, bytes, sound, Utf8.text_bytes]

namespace Lua.Evaluates

variable {setting : Library.Setting} {calls : Nat} {h : Heap} {args : Arguments} {method : String}

theorem self {uid : UserdataId} {r : Resource} (given : args.get 1 = .userdata uid)
    (known : h.resource? uid = some r) :
    Evaluates setting calls 1 h (Library.self method args) (.ok r) h := by
  change Evaluates setting calls (1 + 0) h _ _ _
  simp only [Library.self, given]
  refine (read fun h => h.resource? uid).bind ?_
  rw [known]
  exact pure _

theorem resultsOf {uid : UserdataId} {rid : ResultsId} (given : args.get 1 = .userdata uid)
    (known : h.resource? uid = some (.results rid)) :
    Evaluates setting calls 1 h (Library.resultsOf method args) (.ok rid) h := by
  change Evaluates setting calls (1 + 0) h _ _ _
  exact (self given known).bind (pure rid)

theorem textArgument {function? : Option String} {i : Nat} {s : String}
    (given : Conversion.toText (args.get i) = .ok s) :
    Evaluates setting calls 0 h (Library.textArgument function? args i) (.ok s) h := by
  simp only [Library.textArgument, given]
  exact pure s

end Lua.Evaluates

/-! ## New values -/

namespace Lua.Conversion

mutual

theorem rest_ofJson (h : Heap) : ∀ json : Json,
    (ofJson h json).2.limit? = h.limit? ∧ (ofJson h json).2.cells = h.cells
  | .null | .bool _ | .int _ | .float _ | .str _ => ⟨rfl, rfl⟩
  | .arr items => rest_ofItems h items
  | .obj entries => rest_ofEntries h entries

theorem rest_ofItems (h : Heap) : ∀ items : List Json,
    (ofItems h items).2.limit? = h.limit? ∧ (ofItems h items).2.cells = h.cells
  | [] => ⟨rfl, rfl⟩
  | item :: items => by
      obtain ⟨limit, cells⟩ := rest_ofJson h item
      obtain ⟨limit', cells'⟩ := rest_ofItems (ofJson h item).2 items
      exact ⟨limit'.trans limit, cells'.trans cells⟩

theorem rest_ofEntries (h : Heap) : ∀ entries : List (String × Json),
    (ofEntries h entries).2.limit? = h.limit? ∧ (ofEntries h entries).2.cells = h.cells
  | [] => ⟨rfl, rfl⟩
  | (_, json) :: entries => by
      obtain ⟨limit, cells⟩ := rest_ofJson h json
      obtain ⟨limit', cells'⟩ := rest_ofEntries (ofJson h json).2 entries
      exact ⟨limit'.trans limit, cells'.trans cells⟩

end

end Lua.Conversion

namespace Host

/-- A value of a heap stands for a JSON value. -/
def Stands (h : Heap) (json : Json) (v : Value) : Prop :=
  ∃ own : TableId → Prop, Untouched own (fun _ _ => False) h ∧ Denotes h own json v

theorem Stands.keep {h after : Heap} {json : Json} {v : Value} (orderly : Orderly h)
    (steady : Heap.Steady (fun _ _ => False) h after) (stands : Stands h json v) :
    Stands after json v := by
  obtain ⟨own, untouched, denotes⟩ := stands
  exact ⟨own, untouched.keep steady,
    denotes.keep orderly steady.toKeeps untouched (fun _ mine => mine) _ _⟩

theorem Stands.toJson {h : Heap} {json : Json} {v : Value} (whole : json.Exact)
    (stands : Stands h json v) : v.isNil = false ∧ Conversion.toJson h v = .ok json := by
  obtain ⟨own, untouched, denotes⟩ := stands
  exact ⟨denotes.isNil, denotes.toJson untouched.present whole⟩

theorem stands_ofJson {h : Heap} (orderly : Orderly h) (json : Json) :
    Heap.Extends h (Conversion.ofJson h json).2 ∧
      Stands (Conversion.ofJson h json).2 json (Conversion.ofJson h json).1 := by
  obtain ⟨steady, denotes⟩ := ofJson_denotes orderly json
  obtain ⟨limit, cells⟩ := Conversion.rest_ofJson h json
  exact ⟨.ofCells steady limit cells, _, orderly.untouched_new steady, denotes⟩

variable {engine : EngineId} {calls : Nat} {before : Host} {h : Heap} {uid : UserdataId}
  {rid : ResultsId} {function key : String} {json : Json} {v : Value}

theorem attains_resultsGet (orderly : Orderly h) (known : h.resource? uid = some (.results rid))
    (found : before.result? rid key = some json) :
    Attains engine calls 3 1 before h
      (Library.resultsGet ⟨function, [.userdata uid, .ofText key]⟩) fun values after later =>
        (∃ v, values = [v] ∧ Stands after json v) ∧ later = before := by
  obtain ⟨extends_, stands⟩ := stands_ofJson orderly json
  have made : Evaluates setting calls 1 h (Library.jsonValue json)
      (.ok (Conversion.ofJson h json).1) (Conversion.ofJson h json).2 := .alter _
  change Attains engine calls (1 + (0 + (1 + (1 + 0)))) (1 + 0) before h
    (Library.resultsOf _ _ >>= _) _
  refine .afterwards (.resultsOf rfl known) (.refl h) ?_
  refine .afterwards (.textArgument (Conversion.toText_ofText key)) (.refl h) ?_
  refine .answered rfl rfl rfl ?_
  rw [found]
  exact .afterwards made extends_ (.pure ⟨⟨_, rfl, stands⟩, rfl⟩)

theorem attains_resultsSet (known : h.resource? uid = some (.results rid)) (whole : json.Exact)
    (stands : Stands h json v) :
    Attains engine calls 3 1 before h
      (Library.resultsSet ⟨function, [.userdata uid, .ofText key, v]⟩) fun values _ later =>
        values = [] ∧ later = before.setResult rid key json := by
  obtain ⟨present, converts⟩ := stands.toJson whole
  change Attains engine calls (1 + (0 + (1 + (1 + 0)))) (1 + 0) before h
    (Library.resultsOf _ _ >>= _) _
  refine .afterwards (.resultsOf rfl known) (.refl h) ?_
  refine .afterwards (.textArgument (Conversion.toText_ofText key)) (.refl h) ?_
  rw [if_neg (by simp [Arguments.get, present])]
  refine .afterwards (.read fun h => Conversion.toJson h v) (.refl h) ?_
  rw [converts]
  exact .answered rfl rfl rfl (.pure ⟨rfl, rfl⟩)

end Host

end ScriptHost
