import ScriptHost.Lua.Conversion
import ScriptHost.Proofs.ScopeState

/-!
# Script values that stand for JSON values

The conversion of a JSON value makes new tables for its arrays and objects. What a value stands
for does not change while its tables keep their fields.
-/

set_option autoImplicit false

namespace ScriptHost.Scope

open Lua Heap

mutual

/-- A value stands for a JSON value, and its tables are among the `own` ones. -/
def Denotes (h : Heap) (own : TableId → Prop) : Json → Value → Prop
  | .null, v => v = .null
  | .bool b, v => v = .boolean b
  | .int n, v => v = Conversion.ofInt n
  | .float x, v => v = .float x
  | .str s, v => v = .ofText s
  | .arr items, v => ∃ id values, v = .table id ∧ own id ∧
      (h.table id).metatable? = some h.arrayMetatable ∧
      (∀ k, h.rawGet id k = (Table.ofItems values).get k) ∧ DenotesItems h own items values
  | .obj entries, v => ∃ id fields, v = .table id ∧ own id ∧ (h.table id).metatable? = none ∧
      (∀ k, h.rawGet id k = (Table.ofEntries fields).get k) ∧ DenotesEntries h own entries fields

def DenotesItems (h : Heap) (own : TableId → Prop) : List Json → List Value → Prop
  | [], values => values = []
  | item :: items, values =>
      ∃ v rest, values = v :: rest ∧ Denotes h own item v ∧ DenotesItems h own items rest

def DenotesEntries (h : Heap) (own : TableId → Prop) :
    List (String × Json) → List (String × Value) → Prop
  | [], fields => fields = []
  | (key, json) :: entries, fields =>
      ∃ v rest, fields = (key, v) :: rest ∧ Denotes h own json v ∧
        DenotesEntries h own entries rest

end

/-- The tables made from one heap size to another one. -/
def Within (low high : Nat) (id : TableId) : Prop := low ≤ id.index ∧ id.index < high

theorem Within.mono {low high lower higher : Nat} {id : TableId} (within : Within low high id)
    (below : lower ≤ low) (above : high ≤ higher) : Within lower higher id :=
  ⟨Nat.le_trans below within.1, Nat.lt_of_lt_of_le within.2 above⟩

section

variable {h after : Heap} {own larger : TableId → Prop} {changed : TableId → Key → Prop}

/-- Tables that can be told apart from the globals and of which no field changes. -/
structure Untouched (own : TableId → Prop) (changed : TableId → Key → Prop) (h : Heap) : Prop where
  free : ∀ id k, own id → ¬ changed id k
  present : ∀ id, own id → id.index < h.tables.size
  other : ∀ id, own id → id ≠ h.globals

mutual

theorem Denotes.keep (orderly : Orderly h) (keeps : Keeps changed h after)
    (untouched : Untouched own changed h) (subset : ∀ id, own id → larger id) :
    ∀ (json : Json) (v : Value), Denotes h own json v → Denotes after larger json v
  | .null, _, denotes => denotes
  | .bool _, _, denotes => denotes
  | .int _, _, denotes => denotes
  | .float _, _, denotes => denotes
  | .str _, _, denotes => denotes
  | .arr items, _, ⟨id, values, same, mine, link, fields, rest⟩ => by
      -- The metatable of arrays asks for no weak entries.
      have strong : Collect.Strong h id := by
        intro m linked
        obtain rfl := Option.some.inj (link.symm.trans linked)
        exact ⟨orderly.arrays, orderly.mode⟩
      refine ⟨id, values, same, subset id mine, ?_, ?_,
        DenotesItems.keep orderly keeps untouched subset items values rest⟩
      · rw [keeps.metatable? id (untouched.present id mine) (untouched.other id mine), link,
          keeps.arrayMetatable]
      · intro k
        rw [keeps.rawGet id k (untouched.present id mine) (untouched.free id k mine) strong,
          fields k]
  | .obj entries, _, ⟨id, fields, same, mine, plain, values, rest⟩ => by
      refine ⟨id, fields, same, subset id mine, ?_, ?_,
        DenotesEntries.keep orderly keeps untouched subset entries fields rest⟩
      · rw [keeps.metatable? id (untouched.present id mine) (untouched.other id mine), plain]
      · intro k
        rw [keeps.rawGet id k (untouched.present id mine) (untouched.free id k mine)
          (Collect.strong_of_metatable?_eq_none plain), values k]

theorem DenotesItems.keep (orderly : Orderly h) (keeps : Keeps changed h after)
    (untouched : Untouched own changed h) (subset : ∀ id, own id → larger id) :
    ∀ (items : List Json) (values : List Value), DenotesItems h own items values →
      DenotesItems after larger items values
  | [], _, denotes => denotes
  | item :: items, _, ⟨v, rest, same, first, later⟩ =>
      ⟨v, rest, same, Denotes.keep orderly keeps untouched subset item v first,
        DenotesItems.keep orderly keeps untouched subset items rest later⟩

theorem DenotesEntries.keep (orderly : Orderly h) (keeps : Keeps changed h after)
    (untouched : Untouched own changed h) (subset : ∀ id, own id → larger id) :
    ∀ (entries : List (String × Json)) (fields : List (String × Value)),
      DenotesEntries h own entries fields → DenotesEntries after larger entries fields
  | [], _, denotes => denotes
  | (_, json) :: entries, _, ⟨v, rest, same, first, later⟩ =>
      ⟨v, rest, same, Denotes.keep orderly keeps untouched subset json v first,
        DenotesEntries.keep orderly keeps untouched subset entries rest later⟩

end

theorem untouched_within {low high : Nat} (globals : h.globals.index < low)
    (inside : high ≤ h.tables.size) (free : ∀ id k, changed id k → id.index < low) :
    Untouched (Within low high) changed h where
  free id k within altered := Nat.not_le_of_gt (free id k altered) within.1
  present _ within := Nat.lt_of_lt_of_le within.2 inside
  other id within := by
    rintro rfl
    exact Nat.not_le_of_gt globals within.1

theorem Untouched.keep (untouched : Untouched own (fun _ _ => False) h)
    (steady : Steady (fun _ _ => False) h after) : Untouched own (fun _ _ => False) after where
  free _ _ _ := id
  present id mine := Nat.lt_of_lt_of_le (untouched.present id mine) steady.grown
  other id mine := by
    rw [steady.globals]
    exact untouched.other id mine

theorem Orderly.untouched_new (orderly : Orderly h) (steady : Steady (fun _ _ => False) h after) :
    Untouched (Within h.tables.size after.tables.size) (fun _ _ => False) after :=
  untouched_within (by rw [steady.globals]; exact orderly.globals) (Nat.le_refl _)
    fun _ _ => False.elim

end

/-! ## The conversion -/

section

mutual

theorem ofJson_denotes {h : Heap} (orderly : Orderly h) : ∀ json : Json,
    Steady (fun _ _ => False) h (Conversion.ofJson h json).2 ∧
      Denotes (Conversion.ofJson h json).2
        (Within h.tables.size (Conversion.ofJson h json).2.tables.size) json
        (Conversion.ofJson h json).1
  | .null => ⟨Steady.refl .., rfl⟩
  | .bool _ => ⟨Steady.refl .., rfl⟩
  | .int _ => ⟨Steady.refl .., rfl⟩
  | .float _ => ⟨Steady.refl .., rfl⟩
  | .str _ => ⟨Steady.refl .., rfl⟩
  | .arr items => by
      obtain ⟨steady, denotes⟩ := ofItems_denotes orderly items
      generalize made : Conversion.ofItems h items = converted at steady denotes
      obtain ⟨values, middle⟩ := converted
      have added := Steady.newTable (fun _ _ => False) middle
        { Table.ofItems values with metatable? := some middle.arrayMetatable }
      refine ⟨?_, ?_⟩
      · simp only [Conversion.ofJson, made]
        exact steady.andThen added
      · simp only [Conversion.ofJson, made]
        refine ⟨_, values, rfl, ⟨steady.grown, by simp [Heap.newTable]⟩, ?_, ?_, ?_⟩
        · rw [table_newTable_self]
          rfl
        · intro k
          rw [Heap.rawGet, table_newTable_self]
          rfl
        · exact DenotesItems.keep (orderly.keep_all steady) added.toKeeps
            (orderly.untouched_new steady) (fun id within => within.mono (Nat.le_refl _) (by simp))
            items values denotes
  | .obj entries => by
      obtain ⟨steady, denotes⟩ := ofEntries_denotes orderly entries
      generalize made : Conversion.ofEntries h entries = converted at steady denotes
      obtain ⟨fields, middle⟩ := converted
      have added := Steady.newTable (fun _ _ => False) middle (.ofEntries fields)
      refine ⟨?_, ?_⟩
      · simp only [Conversion.ofJson, made]
        exact steady.andThen added
      · simp only [Conversion.ofJson, made]
        refine ⟨_, fields, rfl, ⟨steady.grown, by simp [Heap.newTable]⟩, ?_, ?_, ?_⟩
        · rw [table_newTable_self, Table.metatable?_ofEntries]
        · intro k
          rw [Heap.rawGet, table_newTable_self]
        · exact DenotesEntries.keep (orderly.keep_all steady) added.toKeeps
            (orderly.untouched_new steady) (fun id within => within.mono (Nat.le_refl _) (by simp))
            entries fields denotes

theorem ofItems_denotes {h : Heap} (orderly : Orderly h) : ∀ items : List Json,
    Steady (fun _ _ => False) h (Conversion.ofItems h items).2 ∧
      DenotesItems (Conversion.ofItems h items).2
        (Within h.tables.size (Conversion.ofItems h items).2.tables.size) items
        (Conversion.ofItems h items).1
  | [] => ⟨Steady.refl .., rfl⟩
  | item :: items => by
      obtain ⟨steady, denotes⟩ := ofJson_denotes orderly item
      generalize made : Conversion.ofJson h item = converted at steady denotes
      obtain ⟨v, middle⟩ := converted
      have kept := orderly.keep_all steady
      obtain ⟨later, rest⟩ := ofItems_denotes kept items
      simp only [Conversion.ofItems, made]
      refine ⟨steady.andThen later, v, _, rfl, ?_, ?_⟩
      · exact Denotes.keep kept later.toKeeps (orderly.untouched_new steady)
          (fun id within => within.mono (Nat.le_refl _) later.grown) item v denotes
      · exact DenotesItems.keep (kept.keep_all later) (Keeps.refl _ _)
          (kept.untouched_new later)
          (fun id within => within.mono steady.grown (Nat.le_refl _)) items _ rest

theorem ofEntries_denotes {h : Heap} (orderly : Orderly h) : ∀ entries : List (String × Json),
    Steady (fun _ _ => False) h (Conversion.ofEntries h entries).2 ∧
      DenotesEntries (Conversion.ofEntries h entries).2
        (Within h.tables.size (Conversion.ofEntries h entries).2.tables.size) entries
        (Conversion.ofEntries h entries).1
  | [] => ⟨Steady.refl .., rfl⟩
  | (key, json) :: entries => by
      obtain ⟨steady, denotes⟩ := ofJson_denotes orderly json
      generalize made : Conversion.ofJson h json = converted at steady denotes
      obtain ⟨v, middle⟩ := converted
      have kept := orderly.keep_all steady
      obtain ⟨later, rest⟩ := ofEntries_denotes kept entries
      simp only [Conversion.ofEntries, made]
      refine ⟨steady.andThen later, v, _, rfl, ?_, ?_⟩
      · exact Denotes.keep kept later.toKeeps (orderly.untouched_new steady)
          (fun id within => within.mono (Nat.le_refl _) later.grown) json v denotes
      · exact DenotesEntries.keep (kept.keep_all later) (Keeps.refl _ _)
          (kept.untouched_new later)
          (fun id within => within.mono steady.grown (Nat.le_refl _)) entries _ rest

end

end

end ScriptHost.Scope
