import ScriptHost.Proofs.JsonValues
import ScriptHost.Proofs.OrderedEntries
import ScriptHost.Proofs.TableContents
import ScriptHost.Proofs.Utf8Text

/-!
# Reading JSON values back

A value that stands for a JSON value is converted back to that value. No table of it has itself
inside, because a value stands for one JSON value at most and what is inside stands for a part.
-/

set_option autoImplicit false

namespace ScriptHost

namespace Json

mutual

/-- Scripts can hold the value as it is: its whole numbers are integers of scripts, its other
numbers are finite, its objects are in order, and its arrays have no more items than indices. -/
def Exact : Json → Prop
  | .int n => -(2 ^ 63 : Int) ≤ n ∧ n < 2 ^ 63
  | .float x => x.isFinite = true
  | .arr items => items.length + 1 < 2 ^ 63 ∧ ExactItems items
  | .obj entries => Ordered.Ascending entries ∧ ExactEntries entries
  | _ => True

def ExactItems : List Json → Prop
  | [] => True
  | item :: items => item.Exact ∧ ExactItems items

def ExactEntries : List (String × Json) → Prop
  | [] => True
  | (_, json) :: entries => json.Exact ∧ ExactEntries entries

end

end Json

namespace Scope

open Lua Conversion

variable {h : Heap} {own other : TableId → Prop}

/-! ## Tables of items and entries -/

theorem Denotes.isNil {json : Json} {v : Value} (denotes : Denotes h own json v) :
    v.isNil = false := by
  cases json with
  | int n =>
      rw [Denotes] at denotes
      subst denotes
      unfold ofInt
      split <;> rfl
  | arr items =>
      obtain ⟨id, _, rfl, _⟩ := denotes
      rfl
  | obj entries =>
      obtain ⟨id, _, rfl, _⟩ := denotes
      rfl
  | _ =>
      rw [Denotes] at denotes
      subst denotes
      rfl

theorem DenotesItems.shape {items : List Json} {values : List Value}
    (denotes : DenotesItems h own items values) :
    values.length = items.length ∧ ∀ v ∈ values, v.isNil = false := by
  induction items generalizing values with
  | nil =>
      rw [DenotesItems] at denotes
      subst denotes
      exact ⟨rfl, fun v member => by cases member⟩
  | cons item items ih =>
      obtain ⟨v, rest, rfl, first, later⟩ := denotes
      obtain ⟨length, live⟩ := ih later
      refine ⟨congrArg (· + 1) length, fun w member => ?_⟩
      rcases List.mem_cons.mp member with rfl | member
      · exact first.isNil
      · exact live w member

theorem DenotesEntries.shape {entries : List (String × Json)} {fields : List (String × Value)}
    (denotes : DenotesEntries h own entries fields) :
    Ordered.keys fields = Ordered.keys entries ∧ ∀ field ∈ fields, field.2.isNil = false := by
  induction entries generalizing fields with
  | nil =>
      rw [DenotesEntries] at denotes
      subst denotes
      exact ⟨rfl, fun field member => by cases member⟩
  | cons entry entries ih =>
      obtain ⟨v, rest, rfl, first, later⟩ := denotes
      obtain ⟨keys, live⟩ := ih later
      refine ⟨congrArg (entry.1 :: ·) keys, fun field member => ?_⟩
      rcases List.mem_cons.mp member with rfl | member
      · exact first.isNil
      · exact live field member

theorem DenotesItems.items_eq {items : List Json} {values : List Value} {id : TableId}
    (denotes : DenotesItems h own items values) (small : items.length + 1 < 2 ^ 63)
    (held : ∀ k, h.rawGet id k = (Table.ofItems values).get k) :
    Conversion.items (h.table id) = values := by
  obtain ⟨length, live⟩ := denotes.shape
  rw [← length] at small
  refine Conversion.items_eq (by omega) (fun i below => ?_) live
  rw [Table.getIndex, ← Heap.rawGet, held]
  exact Table.getIndex_ofItems (by omega) (by omega)

/-- The fields of a table of entries are those that it was made of. -/
theorem DenotesEntries.mem_fields_iff {entries : List (String × Json)}
    {fields : List (String × Value)} {id : TableId}
    (denotes : DenotesEntries h own entries fields) (ascending : Ordered.Ascending entries)
    (held : ∀ k, h.rawGet id k = (Table.ofEntries fields).get k) (k : Key) (v : Value) :
    (∃ name, k = .ofText name ∧ (name, v) ∈ fields) ↔
      h.rawGet id k = v ∧ v.isNil = false := by
  obtain ⟨keys, live⟩ := denotes.shape
  have distinct : (fields.map Prod.fst).Nodup := by
    have ordered : (Ordered.keys fields).Pairwise (· < ·) := keys ▸ ascending
    refine ordered.imp fun {a b} less same => ?_
    rw [same] at less
    exact Std.lt_irrefl less
  rw [held]
  constructor
  · rintro ⟨name, rfl, member⟩
    exact ⟨Table.get_ofEntries_of_mem distinct member, live _ member⟩
  · rintro ⟨value, present⟩
    by_cases named : ∃ field ∈ fields, Key.ofText field.1 = k
    · obtain ⟨⟨name, w⟩, member, rfl⟩ := named
      rw [Table.get_ofEntries_of_mem distinct member] at value
      exact ⟨name, rfl, value ▸ member⟩
    · have nil : (Table.ofEntries fields).get k = .nil :=
        Table.get_ofEntries_of_ne fun field member same => named ⟨field, member, same⟩
      rw [← value, nil] at present
      cases present

theorem DenotesEntries.fields_eq {entries entries' : List (String × Json)}
    {fields fields' : List (String × Value)} {id : TableId}
    (denotes : DenotesEntries h own entries fields)
    (denotes' : DenotesEntries h other entries' fields') (ascending : Ordered.Ascending entries)
    (ascending' : Ordered.Ascending entries')
    (held : ∀ k, h.rawGet id k = (Table.ofEntries fields).get k)
    (held' : ∀ k, h.rawGet id k = (Table.ofEntries fields').get k) : fields = fields' := by
  have ordered : Ordered.Ascending fields := by
    rw [Ordered.Ascending, denotes.shape.1]
    exact ascending
  have ordered' : Ordered.Ascending fields' := by
    rw [Ordered.Ascending, denotes'.shape.1]
    exact ascending'
  refine ordered.ext ordered' ?_
  rintro ⟨name, v⟩
  have same := (denotes.mem_fields_iff ascending held (.ofText name) v).trans
    (denotes'.mem_fields_iff ascending' held' (.ofText name) v).symm
  have named : ∀ {list : List (String × Value)},
      (∃ n, Key.ofText name = .ofText n ∧ (n, v) ∈ list) ↔ (name, v) ∈ list := by
    intro list
    constructor
    · rintro ⟨n, equal, member⟩
      by_cases differ : name = n
      · exact differ ▸ member
      · exact absurd equal (Key.ofText_ne differ)
    · exact fun member => ⟨name, rfl, member⟩
  rwa [named, named] at same

/-! ## Values without tables -/

/-- A JSON value that has no others inside. -/
def Flat : Json → Prop
  | .arr _ | .obj _ => False
  | _ => True

theorem ofInt_of_exact {n : Int} (low : -(2 ^ 63 : Int) ≤ n) (high : n < 2 ^ 63) :
    ofInt n = .integer (Int64.ofInt n) := by
  rw [ofInt, if_pos]
  simp only [Bool.and_eq_true, decide_eq_true_eq]
  exact ⟨low, high⟩

theorem Denotes.flat {json : Json} {v : Value} (flat : Flat json) (whole : json.Exact)
    (denotes : Denotes h own json v) :
    (∀ id, v ≠ .table id) ∧ ∀ path fuel, toJsonWithin h path v (fuel + 1) = .ok json := by
  cases json with
  | arr items => exact flat.elim
  | obj entries => exact flat.elim
  | int n =>
      rw [Denotes, ofInt_of_exact whole.1 whole.2] at denotes
      subst denotes
      refine ⟨fun _ => nofun, fun path fuel => ?_⟩
      rw [toJsonWithin, Int64.toInt_ofInt_of_le whole.1 whole.2]
  | float x =>
      rw [Denotes] at denotes
      subst denotes
      refine ⟨fun _ => nofun, fun path fuel => ?_⟩
      rw [toJsonWithin, if_pos (show x.isFinite = true from whole)]
  | str s =>
      rw [Denotes] at denotes
      subst denotes
      refine ⟨fun _ => nofun, fun path fuel => ?_⟩
      simp only [toJsonWithin, Value.ofText, String.toUTF8_eq_toByteArray, fromUTF8?_toByteArray]
  | _ =>
      rw [Denotes] at denotes
      subst denotes
      exact ⟨fun _ => nofun, fun _ _ => rfl⟩

theorem Denotes.exists_table {json : Json} {v : Value} (nested : ¬ Flat json)
    (denotes : Denotes h own json v) : ∃ id, v = .table id := by
  cases json with
  | arr items =>
      obtain ⟨id, _, same, _⟩ := denotes
      exact ⟨id, same⟩
  | obj entries =>
      obtain ⟨id, _, same, _⟩ := denotes
      exact ⟨id, same⟩
  | _ => exact absurd trivial nested

theorem Denotes.own_table {json : Json} {id : TableId} (whole : json.Exact)
    (denotes : Denotes h own json (.table id)) : own id := by
  by_cases flat : Flat json
  · exact absurd rfl ((denotes.flat flat whole).1 id)
  · cases json with
    | arr items =>
        obtain ⟨_, _, same, mine, _⟩ := denotes
        cases same
        exact mine
    | obj entries =>
        obtain ⟨_, _, same, mine, _⟩ := denotes
        cases same
        exact mine
    | _ => exact absurd trivial flat

/-! ## One JSON value for a value -/

theorem Denotes.unique_of_flat {json json' : Json} {v : Value} (flat : Flat json)
    (whole : json.Exact) (whole' : json'.Exact) (denotes : Denotes h own json v)
    (denotes' : Denotes h other json' v) : json = json' := by
  obtain ⟨single, converts⟩ := denotes.flat flat whole
  by_cases flat' : Flat json'
  · have same := (converts [] 0).symm.trans ((denotes'.flat flat' whole').2 [] 0)
    exact Except.ok.inj same
  · obtain ⟨id, same⟩ := denotes'.exists_table flat'
    exact absurd same (single id)

mutual

theorem Denotes.unique : ∀ (json json' : Json) (v : Value), json.Exact → json'.Exact →
    Denotes h own json v → Denotes h other json' v → json = json'
  | json, json', v, whole, whole', denotes, denotes' => by
      by_cases flat : Flat json
      · exact denotes.unique_of_flat flat whole whole' denotes'
      by_cases flat' : Flat json'
      · exact (denotes'.unique_of_flat flat' whole' whole denotes).symm
      cases json with
      | arr items =>
          obtain ⟨id, values, rfl, _, marked, held, rest⟩ := denotes
          cases json' with
          | arr items' =>
              obtain ⟨_, values', same, _, _, held', rest'⟩ := denotes'
              cases same
              have equal : values = values' :=
                (rest.items_eq whole.1 held).symm.trans (rest'.items_eq whole'.1 held')
              subst equal
              exact congrArg Json.arr
                (DenotesItems.unique items items' values whole.2 whole'.2 rest rest')
          | obj entries' =>
              obtain ⟨_, _, same, _, plain, _⟩ := denotes'
              cases same
              rw [marked] at plain
              cases plain
          | _ => exact absurd trivial flat'
      | obj entries =>
          obtain ⟨id, fields, rfl, _, plain, held, rest⟩ := denotes
          cases json' with
          | arr items' =>
              obtain ⟨_, _, same, _, marked, _⟩ := denotes'
              cases same
              rw [plain] at marked
              cases marked
          | obj entries' =>
              obtain ⟨_, fields', same, _, _, held', rest'⟩ := denotes'
              cases same
              have equal := rest.fields_eq rest' whole.1 whole'.1 held held'
              subst equal
              exact congrArg Json.obj
                (DenotesEntries.unique entries entries' fields whole.2 whole'.2 rest rest')
          | _ => exact absurd trivial flat'
      | _ => exact absurd trivial flat

theorem DenotesItems.unique : ∀ (items items' : List Json) (values : List Value),
    Json.ExactItems items → Json.ExactItems items' → DenotesItems h own items values →
      DenotesItems h other items' values → items = items'
  | [], [], _, _, _, _, _ => rfl
  | [], _ :: _, _, _, _, rfl, ⟨_, _, same, _⟩ => by cases same
  | _ :: _, [], _, _, _, ⟨_, _, rfl, _⟩, same => by cases same
  | item :: items, item' :: items', _, whole, whole', ⟨v, rest, rfl, first, later⟩,
      ⟨_, _, same, first', later'⟩ => by
      cases same
      rw [Denotes.unique item item' v whole.1 whole'.1 first first',
        DenotesItems.unique items items' rest whole.2 whole'.2 later later']

theorem DenotesEntries.unique : ∀ (entries entries' : List (String × Json))
    (fields : List (String × Value)), Json.ExactEntries entries → Json.ExactEntries entries' →
      DenotesEntries h own entries fields → DenotesEntries h other entries' fields →
        entries = entries'
  | [], [], _, _, _, _, _ => rfl
  | [], _ :: _, _, _, _, rfl, ⟨_, _, same, _⟩ => by cases same
  | _ :: _, [], _, _, _, ⟨_, _, rfl, _⟩, same => by cases same
  | (key, json) :: entries, (key', json') :: entries', _, whole, whole',
      ⟨v, rest, rfl, first, later⟩, ⟨_, _, same, first', later'⟩ => by
      cases same
      rw [Denotes.unique json json' v whole.1 whole'.1 first first',
        DenotesEntries.unique entries entries' rest whole.2 whole'.2 later later']

end

/-! ## Reading back -/

/-- The tables around a value: each of them stands for something larger. -/
structure Around (h : Heap) (own : TableId → Prop) (json : Json) (path : List TableId) : Prop where
  distinct : path.Nodup
  larger : ∀ id ∈ path, ∃ outer : Json, outer.Exact ∧ Denotes h own outer (.table id) ∧
    sizeOf json < sizeOf outer

namespace Around

variable {json inner : Json} {path : List TableId} {id : TableId} {v : Value}

theorem not_mem (around : Around h own json path) (whole : json.Exact)
    (denotes : Denotes h own json (.table id)) : id ∉ path := by
  intro member
  obtain ⟨outer, wholeOuter, denotesOuter, less⟩ := around.larger id member
  rw [Denotes.unique json outer _ whole wholeOuter denotes denotesOuter] at less
  exact Nat.lt_irrefl _ less

theorem checkPath (around : Around h own json path) (whole : json.Exact)
    (denotes : Denotes h own json v) : checkPath path v = .ok () := by
  cases v with
  | table id =>
      rw [Conversion.checkPath, if_neg]
      simpa using around.not_mem whole denotes
  | _ => rfl

theorem into (around : Around h own json path) (whole : json.Exact)
    (denotes : Denotes h own json (.table id)) (less : sizeOf inner < sizeOf json) :
    Around h own inner (id :: path) where
  distinct := List.nodup_cons.mpr ⟨around.not_mem whole denotes, around.distinct⟩
  larger other member := by
    rcases List.mem_cons.mp member with rfl | member
    · exact ⟨json, whole, denotes, less⟩
    · obtain ⟨outer, wholeOuter, denotesOuter, below⟩ := around.larger other member
      exact ⟨outer, wholeOuter, denotesOuter, Nat.lt_trans less below⟩

/-- There are no more tables around a value than there are tables. -/
theorem length_le (around : Around h own json path)
    (present : ∀ id, own id → id.index < h.tables.size) : path.length ≤ h.tables.size := by
  have distinct : (path.map TableId.index).Nodup :=
    List.pairwise_map.mpr (around.distinct.imp fun different same =>
      different (congrArg TableId.mk same))
  have inside : path.map TableId.index ⊆ List.range h.tables.size := by
    intro i member
    obtain ⟨id, listed, rfl⟩ := List.mem_map.mp member
    obtain ⟨outer, whole, denotes, _⟩ := around.larger id listed
    exact List.mem_range.mpr (present id (denotes.own_table whole))
  simpa using distinct.length_le_of_subset inside

end Around

/-- A value inside some tables is converted to a JSON value. -/
structure Converts (h : Heap) (path : List TableId) (fuel : Nat) (v : Value) (json : Json) :
    Prop where
  outside : checkPath path v = .ok ()
  within : toJsonWithin h path v fuel = .ok json

theorem toJsonWithin_array {path : List TableId} {id : TableId} {fuel : Nat} {items : List Json}
    (marked : (h.table id).metatable? = some h.arrayMetatable)
    (converts : ((Conversion.items (h.table id)).mapM fun item => do
      checkPath (id :: path) item
      toJsonWithin h (id :: path) item fuel) = .ok items) :
    toJsonWithin h path (.table id) (fuel + 1) = .ok (.arr items) := by
  have array : isArray h (h.table id) = true := by simp [isArray, marked]
  simp only [toJsonWithin, array, if_true, converts]
  rfl

/-- The entry of an object that stands for a key of a table and its value. -/
def convertEntry (h : Heap) (path : List TableId) (t : Table) (fuel : Nat) (key : Key) :
    Except Fault (String × Json) := do
  checkPath path key.value
  checkPath path (t.get key)
  let text ← keyText h key
  return (text, ← toJsonWithin h path (t.get key) fuel)

theorem toJsonWithin_object {path : List TableId} {id : TableId} {fuel : Nat}
    {entries : List (String × Json)} (plain : (h.table id).metatable? = none)
    (empty : (h.table id).length = 0)
    (converts : (h.table id).liveOrder.mapM (convertEntry h (id :: path) (h.table id) fuel) =
      .ok entries) :
    toJsonWithin h path (.table id) (fuel + 1) = .ok (.object entries) := by
  have object : isArray h (h.table id) = false := by simp [isArray, plain, empty]
  unfold convertEntry at converts
  simp only [toJsonWithin, object, Bool.false_eq_true, if_false, converts]
  rfl

theorem mapM_of_converts {path : List TableId} {fuel : Nat} {values : List Value}
    {items : List Json} (length : values.length = items.length)
    (converts : ∀ pair ∈ values.zip items, Converts h path fuel pair.1 pair.2) :
    (values.mapM fun item => do
      checkPath path item
      toJsonWithin h path item fuel) = .ok items := by
  induction values generalizing items with
  | nil =>
      cases items with
      | nil => rfl
      | cons item items => cases length
  | cons v values ih =>
      cases items with
      | nil => cases length
      | cons item items =>
          have first := converts (v, item) List.mem_cons_self
          have rest := ih (Nat.succ.inj length) fun pair member =>
            converts pair (List.mem_cons_of_mem _ member)
          rw [List.mapM_cons, rest, first.outside, first.within]
          rfl

theorem exists_mapM_eq_ok {α β ε : Type} {f : α → Except ε β} {list : List α}
    (succeeds : ∀ a ∈ list, ∃ b, f a = .ok b) :
    ∃ results, list.mapM f = .ok results ∧
      ∀ b, b ∈ results ↔ ∃ a ∈ list, f a = .ok b := by
  induction list with
  | nil => exact ⟨[], rfl, by simp⟩
  | cons a rest ih =>
      obtain ⟨b, first⟩ := succeeds a List.mem_cons_self
      obtain ⟨results, later, members⟩ := ih fun a member =>
        succeeds a (List.mem_cons_of_mem _ member)
      refine ⟨b :: results, ?_, fun c => ?_⟩
      · rw [List.mapM_cons, first, later]
        rfl
      · rw [List.mem_cons, members c]
        constructor
        · rintro (rfl | ⟨x, member, same⟩)
          · exact ⟨a, List.mem_cons_self, first⟩
          · exact ⟨x, List.mem_cons_of_mem _ member, same⟩
        · rintro ⟨x, member, same⟩
          rcases List.mem_cons.mp member with rfl | member
          · exact .inl (Except.ok.inj (same.symm.trans first))
          · exact .inr ⟨x, member, same⟩

theorem toJsonWithin_entries {path : List TableId} {id : TableId} {fuel : Nat}
    {entries : List (String × Json)} {fields : List (String × Value)}
    (denotes : DenotesEntries h own entries fields) (ascending : Ordered.Ascending entries)
    (held : ∀ k, h.rawGet id k = (Table.ofEntries fields).get k)
    (plain : (h.table id).metatable? = none)
    (forward : ∀ field ∈ fields, ∃ json, (field.1, json) ∈ entries ∧
      Converts h (id :: path) fuel field.2 json)
    (backward : ∀ entry ∈ entries, ∃ v, (entry.1, v) ∈ fields ∧
      Converts h (id :: path) fuel v entry.2) :
    toJsonWithin h path (.table id) (fuel + 1) = .ok (.obj entries) := by
  have known := denotes.mem_fields_iff ascending held
  have none : ∀ i, (h.table id).getIndex i = .nil := by
    intro i
    by_cases absent : ((h.table id).getIndex i).isNil
    · exact Value.eq_nil_of_isNil absent
    · obtain ⟨name, same, _⟩ := (known (.integer (Int64.ofNat i)) ((h.table id).getIndex i)).mpr
        ⟨rfl, by simpa using absent⟩
      cases same
  -- Every key in use is the text of one entry, and every entry has its key in use.
  have step : ∀ name v json, (name, v) ∈ fields → Converts h (id :: path) fuel v json →
      convertEntry h (id :: path) (h.table id) fuel (.ofText name) = .ok (name, json) := by
    intro name v json member converts
    have value : (h.table id).get (.ofText name) = v :=
      ((known (.ofText name) v).mp ⟨name, rfl, member⟩).1
    have text : keyText h (.ofText name) = .ok name := by
      simp only [keyText, Key.ofText, String.toUTF8_eq_toByteArray, fromUTF8?_toByteArray]
    rw [convertEntry, value, text, converts.outside, converts.within]
    rfl
  have named : ∀ k ∈ (h.table id).liveOrder, ∃ name v, k = .ofText name ∧ (name, v) ∈ fields := by
    intro k member
    obtain ⟨name, same, found⟩ := (known k _).mpr ⟨rfl, (Table.mem_liveOrder none).mp member⟩
    exact ⟨name, _, same, found⟩
  have succeeds : ∀ k ∈ (h.table id).liveOrder, ∃ entry,
      convertEntry h (id :: path) (h.table id) fuel k = .ok entry := by
    intro k member
    obtain ⟨name, v, rfl, found⟩ := named k member
    obtain ⟨json, _, converts⟩ := forward _ found
    exact ⟨_, step name v json found converts⟩
  obtain ⟨pairs, converted, members⟩ := exists_mapM_eq_ok succeeds
  rw [toJsonWithin_object plain (Table.length_eq_zero none) converted, Json.object,
    Ordered.ofList_eq ascending]
  rintro ⟨name, json⟩
  rw [members]
  constructor
  · rintro ⟨k, member, same⟩
    obtain ⟨other, v, rfl, found⟩ := named k member
    obtain ⟨inner, listed, converts⟩ := forward _ found
    have equal := Except.ok.inj ((step other v inner found converts).symm.trans same)
    exact equal ▸ listed
  · intro member
    obtain ⟨v, found, converts⟩ := backward _ member
    have live := (known (.ofText name) v).mp ⟨name, rfl, found⟩
    refine ⟨.ofText name, (Table.mem_liveOrder none).mpr ?_, step name v json found converts⟩
    rw [← Heap.rawGet, live.1]
    exact live.2

mutual

theorem Denotes.converts (present : ∀ id, own id → id.index < h.tables.size) :
    ∀ (json : Json) (v : Value) (path : List TableId) (fuel : Nat), json.Exact →
      Denotes h own json v → Around h own json path → h.tables.size < fuel + path.length →
        Converts h path fuel v json
  | json, v, path, fuel, whole, denotes, around, deep => by
      have bounded := around.length_le present
      obtain ⟨fuel, rfl⟩ := Nat.exists_eq_add_of_le' (show 1 ≤ fuel by omega)
      refine ⟨around.checkPath whole denotes, ?_⟩
      by_cases flat : Flat json
      · exact (denotes.flat flat whole).2 path fuel
      cases json with
      | arr items =>
          have stands := denotes
          obtain ⟨id, values, rfl, _, marked, held, rest⟩ := denotes
          have inside : ∀ item ∈ items, Around h own item (id :: path) := by
            intro item member
            have part := List.sizeOf_lt_of_mem member
            refine around.into whole stands ?_
            simp only [Json.arr.sizeOf_spec]
            omega
          refine toJsonWithin_array marked ?_
          rw [rest.items_eq whole.1 held]
          exact mapM_of_converts rest.shape.1
            (DenotesItems.converts present items values (id :: path) fuel whole.2 rest inside
              (by rw [List.length_cons]; omega))
      | obj entries =>
          have stands := denotes
          obtain ⟨id, fields, rfl, _, plain, held, rest⟩ := denotes
          have inside : ∀ entry ∈ entries, Around h own entry.2 (id :: path) := by
            rintro ⟨key, json⟩ member
            have part := List.sizeOf_lt_of_mem member
            simp only [Prod.mk.sizeOf_spec] at part
            refine around.into whole stands ?_
            simp only [Json.obj.sizeOf_spec]
            omega
          obtain ⟨forward, backward⟩ := DenotesEntries.converts present entries fields (id :: path)
            fuel whole.2 rest inside (by rw [List.length_cons]; omega)
          exact toJsonWithin_entries rest whole.1 held plain forward backward
      | _ => exact absurd trivial flat

theorem DenotesItems.converts (present : ∀ id, own id → id.index < h.tables.size) :
    ∀ (items : List Json) (values : List Value) (path : List TableId) (fuel : Nat),
      Json.ExactItems items → DenotesItems h own items values →
      (∀ item ∈ items, Around h own item path) → h.tables.size < fuel + path.length →
        ∀ pair ∈ values.zip items, Converts h path fuel pair.1 pair.2
  | [], _, _, _, _, rfl, _, _ => fun pair member => by cases member
  | item :: items, _, path, fuel, whole, ⟨v, rest, rfl, first, later⟩, around, deep => by
      intro pair member
      rcases List.mem_cons.mp member with rfl | member
      · exact Denotes.converts present item v path fuel whole.1 first
          (around item List.mem_cons_self) deep
      · exact DenotesItems.converts present items rest path fuel whole.2 later
          (fun item member => around item (List.mem_cons_of_mem _ member)) deep pair member

theorem DenotesEntries.converts (present : ∀ id, own id → id.index < h.tables.size) :
    ∀ (entries : List (String × Json)) (fields : List (String × Value)) (path : List TableId)
      (fuel : Nat), Json.ExactEntries entries → DenotesEntries h own entries fields →
      (∀ entry ∈ entries, Around h own entry.2 path) → h.tables.size < fuel + path.length →
        (∀ field ∈ fields, ∃ json, (field.1, json) ∈ entries ∧
          Converts h path fuel field.2 json) ∧
        ∀ entry ∈ entries, ∃ v, (entry.1, v) ∈ fields ∧ Converts h path fuel v entry.2
  | [], _, _, _, _, rfl, _, _ => ⟨nofun, nofun⟩
  | (key, json) :: entries, _, path, fuel, whole, ⟨v, rest, rfl, first, later⟩, around, deep => by
      have converted := Denotes.converts present json v path fuel whole.1 first
        (around (key, json) List.mem_cons_self) deep
      obtain ⟨forward, backward⟩ := DenotesEntries.converts present entries rest path fuel whole.2
        later (fun entry member => around entry (List.mem_cons_of_mem _ member)) deep
      refine ⟨fun field member => ?_, fun entry member => ?_⟩
      · rcases List.mem_cons.mp member with rfl | member
        · exact ⟨json, List.mem_cons_self, converted⟩
        · obtain ⟨inner, found, converts⟩ := forward field member
          exact ⟨inner, List.mem_cons_of_mem _ found, converts⟩
      · rcases List.mem_cons.mp member with rfl | member
        · exact ⟨v, List.mem_cons_self, converted⟩
        · obtain ⟨w, found, converts⟩ := backward entry member
          exact ⟨w, List.mem_cons_of_mem _ found, converts⟩

end

theorem Denotes.toJson (present : ∀ id, own id → id.index < h.tables.size) {json : Json}
    {v : Value} (whole : json.Exact) (denotes : Denotes h own json v) :
    toJson h v = .ok json :=
  (Denotes.converts present json v [] (h.tables.size + 2) whole denotes
    ⟨List.nodup_nil, nofun⟩ (by simp)).within

end Scope

end ScriptHost
