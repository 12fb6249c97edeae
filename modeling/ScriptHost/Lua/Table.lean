import ScriptHost.Lua.KeyMap

/-!
# Tables

A table gives every key a value, nil for all but finitely many. `get` after `set` is all that
most of the library needs; beside the values a table keeps how they are laid out (a part for the
integers `1, 2, ..., arraySize` and a part of power of two capacity for other keys), because the
layout decides which border the length operator finds in a table with holes.
-/

set_option autoImplicit false

namespace ScriptHost.Lua

structure Slot where
  value : Value
  /-- Where the key stands among the keys outside the array part. -/
  place : Nat
deriving Inhabited

/-- The number of an integer key that can stand in an array part. -/
def Table.arrayIndex? : Key → Option Nat
  | .integer n =>
    let i := n.toInt
    if 0 < i && i ≤ 2 ^ 31 then some i.toNat else none
  | _ => none

theorem Table.placed_nil (k : Key) (found : (({} : KeyMap Slot).get? k).isSome) :
    k ∈ (#[] : Array Key).toList ∨ (Table.arrayIndex? k).any (· ≤ 0) := by
  simp [KeyMap.get?_empty] at found

structure Table where
  slots : KeyMap Slot := {}
  metatable? : Option TableId := none
  arraySize : Nat := 0
  keys : Array Key := #[]
  /-- How many keys fit outside the array part. -/
  capacity : Nat := 0
  /-- Every key with a slot stands in one of the two parts. -/
  placed : ∀ k, (slots.get? k).isSome →
      k ∈ keys.toList ∨ (Table.arrayIndex? k).any (· ≤ arraySize) := by
    exact Table.placed_nil

namespace Table

instance : Inhabited Table := ⟨{}⟩

def get (t : Table) (k : Key) : Value :=
  match t.slots.get? k with
  | some slot => slot.value
  | none => .nil

def getIndex (t : Table) (i : Nat) : Value := t.get (.integer (Int64.ofNat i))

/-- The least power of two that is not below `n`, none for zero. -/
def powerFor (n : Nat) : Nat := if n = 0 then 0 else 2 ^ (Nat.log2 (2 * n - 1))

/-- An empty table with room for array items and for other keys. -/
def withRoom (items others : Nat) : Table where
  arraySize := items
  capacity := powerFor others
  placed := by simp [KeyMap.get?_empty]

theorem eq_integer_of_arrayIndex? {k : Key} {i : Nat} (found : arrayIndex? k = some i) :
    k = .integer (Int64.ofNat i) ∧ 0 < i ∧ i < 2 ^ 64 := by
  cases k with
  | integer n =>
      simp only [arrayIndex?, Bool.and_eq_true, decide_eq_true_eq, Option.ite_none_right_eq_some,
        Option.some.injEq] at found
      obtain ⟨⟨positive, bounded⟩, rfl⟩ := found
      refine ⟨?_, by omega, by omega⟩
      rw [← Int64.ofInt_eq_ofNat, Int.toNat_of_nonneg (by omega), Int64.ofInt_toInt]
  | _ => simp [arrayIndex?] at found

def inArray (t : Table) (k : Key) : Bool := (arrayIndex? k).any (· ≤ t.arraySize)

/-- For each exponent, how many of the indices lie above the half and not above the power. -/
def countByPower (indices : List Nat) : Array Nat :=
  indices.foldl (fun counts i => counts.modify (Nat.log2 (2 * i - 1)) (· + 1))
    (Array.replicate 33 0)

/-- The largest power of two more than half of which is in use, from `2 ^ exponent` on, given how
many indices lie below. -/
def bestSize (counts : Array Nat) (total : Nat) (below best exponent : Nat) : Nat → Nat
  | 0 => best
  | fuel + 1 =>
    if total ≤ 2 ^ exponent / 2 then best
    else
      let below := below + counts[exponent]?.getD 0
      bestSize counts total below (if 2 ^ exponent / 2 < below then 2 ^ exponent else best)
        (exponent + 1) fuel

def liveKeys (t : Table) : List Key := t.keys.toList.filter fun k => !(t.get k).isNil

def liveIndices (t : Table) : List Nat :=
  ((List.range t.arraySize).map (· + 1)).filter fun i => !(t.getIndex i).isNil

/-- The keys that stand outside an array part of `size` when a table is laid out anew. -/
def outsideKeys (t : Table) (size : Nat) : List Key :=
  let leaving := ((List.range (t.arraySize - size)).map (· + size + 1)).filter fun i =>
    !(t.getIndex i).isNil
  (t.liveKeys.filter fun k => !(arrayIndex? k).any (· ≤ size)) ++
    leaving.map fun i => .integer (Int64.ofNat i)

/-- The keys that stand in an array part of `size` when a table is laid out anew. -/
def insideKeys (t : Table) (size : Nat) : List Key :=
  (t.liveIndices.filter (· ≤ size)).map (fun i => Key.integer (Int64.ofNat i)) ++
    t.liveKeys.filter fun k => (arrayIndex? k).any (· ≤ size)

theorem placed_of_get {t : Table} {k : Key} (live : (t.get k).isNil = false) :
    k ∈ t.keys.toList ∨ t.inArray k := by
  apply t.placed
  unfold get at live
  cases found : t.slots.get? k with
  | none => simp [found, Value.isNil] at live
  | some slot => rfl

/-- No key with a value is forgotten when a table is laid out anew. -/
theorem mem_outsideKeys_or_insideKeys {t : Table} {k : Key} (size : Nat)
    (live : (t.get k).isNil = false) : k ∈ t.outsideKeys size ∨ k ∈ t.insideKeys size := by
  rcases placed_of_get live with listed | indexed
  · have liveKey : k ∈ t.liveKeys := List.mem_filter.mpr ⟨listed, by simp [live]⟩
    by_cases inside : (arrayIndex? k).any (· ≤ size)
    · exact .inr (List.mem_append_right _ (List.mem_filter.mpr ⟨liveKey, inside⟩))
    · exact .inl (List.mem_append_left _ (List.mem_filter.mpr ⟨liveKey, by simpa using inside⟩))
  · obtain ⟨i, found, bounded⟩ := Option.any_eq_true _ _ |>.mp indexed
    obtain ⟨same, positive, _⟩ := eq_integer_of_arrayIndex? found
    have liveIndex : (t.getIndex i).isNil = false := by rwa [getIndex, ← same]
    have small : i ≤ t.arraySize := by simpa using bounded
    by_cases inside : i ≤ size
    · refine .inr (List.mem_append_left _ (List.mem_map.mpr ⟨i, ?_, same.symm⟩))
      refine List.mem_filter.mpr ⟨List.mem_filter.mpr ⟨?_, by simp [liveIndex]⟩, by simp [inside]⟩
      exact List.mem_map.mpr ⟨i - 1, List.mem_range.mpr (by omega), by omega⟩
    · refine .inl (List.mem_append_right _ (List.mem_map.mpr ⟨i, ?_, same.symm⟩))
      refine List.mem_filter.mpr ⟨?_, by simp [liveIndex]⟩
      exact List.mem_map.mpr ⟨i - size - 1, List.mem_range.mpr (by omega), by omega⟩

theorem placed_of_mem_insideKeys {t : Table} {k : Key} {size : Nat}
    (inside : k ∈ t.insideKeys size) :
    k ∈ t.outsideKeys size ∨ (arrayIndex? k).any (· ≤ size) := by
  rcases List.mem_append.mp inside with indexed | listed
  · obtain ⟨i, member, same⟩ := List.mem_map.mp indexed
    obtain ⟨member, bounded⟩ := List.mem_filter.mp member
    have live : (t.get k).isNil = false := by
      have := (List.mem_filter.mp member).2
      simpa [getIndex, same] using this
    by_cases fits : (arrayIndex? k).any (· ≤ size)
    · exact .inr fits
    · rcases placed_of_get live with listed | placed
      · refine .inl (List.mem_append_left _ (List.mem_filter.mpr ⟨?_, by simpa using fits⟩))
        exact List.mem_filter.mpr ⟨listed, by simp [live]⟩
      · -- the number of the key is the least index that denotes it
        obtain ⟨j, found, _⟩ := Option.any_eq_true _ _ |>.mp placed
        obtain ⟨sameKey, _, small⟩ := eq_integer_of_arrayIndex? found
        have equal : Int64.ofNat i = Int64.ofNat j := by
          rw [sameKey] at same
          exact Key.integer.inj same
        have residue : i % 2 ^ 64 = j := by
          have bits : i % 2 ^ 64 = j % 2 ^ 64 := by
            simpa using congrArg (fun n : Int64 => n.toUInt64.toNat) equal
          rw [bits, Nat.mod_eq_of_lt small]
        have least : j ≤ i := residue ▸ Nat.mod_le _ _
        refine .inr (Option.any_eq_true _ _ |>.mpr ⟨j, found, ?_⟩)
        simp only [decide_eq_true_eq] at bounded ⊢
        omega
  · exact .inr (List.mem_filter.mp listed).2

/-- The slots of the keys when a table is laid out anew with an array part of `size`. -/
def relaidSlots (t : Table) (size : Nat) : KeyMap Slot :=
  let slots : KeyMap Slot := (t.outsideKeys size).zipIdx.foldl
    (fun slots entry => slots.insert entry.1 ⟨t.get entry.1, entry.2⟩) {}
  (t.insideKeys size).foldl (fun slots k => slots.insert k ⟨t.get k, 0⟩) slots

/-- A table that is laid out anew has slots for the keys of its two parts, with their values. -/
theorem relaidSlots_get? (t : Table) (size : Nat) (k : Key) :
    ((k ∈ t.outsideKeys size ∨ k ∈ t.insideKeys size) ∧
      ∃ place, (t.relaidSlots size).get? k = some ⟨t.get k, place⟩) ∨
    (k ∉ t.outsideKeys size ∧ k ∉ t.insideKeys size) ∧ (t.relaidSlots size).get? k = none := by
  rcases KeyMap.get?_foldl_insert id (fun k => Slot.mk (t.get k) 0) (t.insideKeys size)
      ((t.outsideKeys size).zipIdx.foldl
        (fun slots entry => slots.insert entry.1 ⟨t.get entry.1, entry.2⟩) {}) k with
    ⟨inside, member, rfl, result⟩ | ⟨notInside, outer⟩
  · exact .inl ⟨.inr member, 0, result⟩
  · rcases KeyMap.get?_foldl_insert Prod.fst (fun entry => Slot.mk (t.get entry.1) entry.2)
        (t.outsideKeys size).zipIdx {} k with ⟨entry, member, rfl, result⟩ | ⟨notOutside, inner⟩
    · exact .inl ⟨.inl (List.fst_mem_of_mem_zipIdx member), entry.2, outer.trans result⟩
    · refine .inr ⟨⟨?_, fun member => notInside k member rfl⟩,
        outer.trans (inner.trans (KeyMap.get?_empty k))⟩
      intro member
      obtain ⟨place, entered⟩ := List.mem_iff_getElem?.mp member
      exact notOutside (k, place) (List.mk_mem_zipIdx_iff_getElem?.mpr entered) rfl

theorem relaidSlots_placed (t : Table) (size : Nat) (k : Key)
    (found : ((t.relaidSlots size).get? k).isSome) :
    k ∈ (t.outsideKeys size).toArray.toList ∨ (arrayIndex? k).any (· ≤ size) := by
  rcases relaidSlots_get? t size k with ⟨outside | inside, _⟩ | ⟨_, absent⟩
  · exact .inl (by simpa using outside)
  · simpa using placed_of_mem_insideKeys inside
  · simp [absent] at found

/-- Lays the table out anew, with an array part of `size` and room for `others` other keys. Keys
without a value are forgotten. -/
def relayout (t : Table) (size others : Nat) : Table :=
  { t with
    slots := t.relaidSlots size
    arraySize := size
    keys := (t.outsideKeys size).toArray
    capacity := powerFor others
    placed := t.relaidSlots_placed size }

def grow (t : Table) (k : Key) : Table :=
  let liveKeys := t.liveKeys
  let inside := t.liveIndices
  let indices := inside ++ (k :: liveKeys).filterMap arrayIndex?
  let total := inside.length + liveKeys.length + 1
  let counts := countByPower indices
  let size := bestSize counts indices.length 0 0 0 33
  let kept := (indices.filter (· ≤ size)).length
  t.relayout size (total - kept)

theorem placed_insert {slots : KeyMap Slot} {keys : List Key} {size : Nat}
    (placed : ∀ k, (slots.get? k).isSome → k ∈ keys ∨ (arrayIndex? k).any (· ≤ size))
    {k : Key} (here : k ∈ keys ∨ (arrayIndex? k).any (· ≤ size)) (slot : Slot) (other : Key)
    (found : ((slots.insert k slot).get? other).isSome) :
    other ∈ keys ∨ (arrayIndex? other).any (· ≤ size) := by
  rw [KeyMap.get?_insert] at found
  by_cases same : k = other
  · exact same ▸ here
  · exact placed other (by simpa [same] using found)

def addKey (t : Table) (k : Key) (v : Value) : Table :=
  if inside : t.inArray k then
    { t with
      slots := t.slots.insert k ⟨v, 0⟩
      placed := placed_insert t.placed (.inr inside) _ }
  else
    { t with
      slots := t.slots.insert k ⟨v, t.keys.size⟩
      keys := t.keys.push k
      placed := placed_insert (fun other found => by grind [t.placed other found]) (by simp) _ }

/-- Gives a key a value; nil takes the value away. -/
def set (t : Table) (k : Key) (v : Value) : Table :=
  match found : t.slots.get? k with
  | some slot =>
    { t with
      slots := t.slots.insert k ⟨v, slot.place⟩
      placed := placed_insert t.placed (t.placed k (by simp [found])) _ }
  | none =>
    if v.isNil then t
    else if t.inArray k || t.keys.size < t.capacity then t.addKey k v
    else (t.grow k).addKey k v

def setIndex (t : Table) (i : Nat) (v : Value) : Table := t.set (.integer (Int64.ofNat i)) v

def setText (t : Table) (name : String) (v : Value) : Table := t.set (.ofText name) v

/-- A table of items `1, 2, ...`. -/
def ofItems (items : List Value) : Table :=
  items.zipIdx.foldl (fun t (v, i) => t.setIndex (i + 1) v) (withRoom items.length 0)

def ofEntries (entries : List (String × Value)) : Table :=
  entries.foldl (fun t (name, v) => t.setText name v) (withRoom 0 entries.length)

def hasIndex (t : Table) (i : Nat) : Bool := !(t.getIndex i).isNil

/-- A border between an index in use and one that is not, by bisection. -/
def bisect (t : Table) (low high : Nat) : Nat → Nat
  | 0 => low
  | fuel + 1 =>
    if high ≤ low + 1 then low
    else
      let middle := (low + high) / 2
      if t.hasIndex middle then bisect t middle high fuel else bisect t low middle fuel

/-- Doubles an index in use until it is in use no longer, then bisects. -/
def searchBeyond (t : Table) (i : Nat) : Nat → Nat
  | 0 => i
  | fuel + 1 =>
    let next := 2 * i
    if t.hasIndex next then searchBeyond t next fuel else t.bisect i next 64

/-- The length: an index in use after which none is, or zero if the first is not in use. -/
def length (t : Table) : Nat :=
  let size := t.arraySize
  if 0 < size && !t.hasIndex size then
    if 2 ≤ size && t.hasIndex (size - 1) then size - 1 else t.bisect 0 size 64
  else if !t.hasIndex (size + 1) then size
  else t.searchBeyond (size + 1) 62

/-- The first index in use from `i` up to the end of the array part. -/
def nextIndex? (t : Table) (i : Nat) : Nat → Option Nat
  | 0 => none
  | fuel + 1 =>
    if t.arraySize < i then none
    else if t.hasIndex i then some i
    else nextIndex? t (i + 1) fuel

/-- The first key in use among the `fuel` keys from a place on. -/
def nextKeyWithin? (t : Table) (place : Nat) : Nat → Option Key
  | 0 => none
  | fuel + 1 =>
    match t.keys[place]? with
    | none => none
    | some k => if (t.get k).isNil then nextKeyWithin? t (place + 1) fuel else some k

def nextKey? (t : Table) (place : Nat) : Option Key :=
  t.nextKeyWithin? place (t.keys.size - place)

/-- The first key in use, from an index of the array part on. -/
def keyFrom? (t : Table) (i : Nat) : Option Key :=
  match t.nextIndex? i (t.arraySize + 1 - i) with
  | some i => some (.integer (Int64.ofNat i))
  | none => t.nextKey? 0

/-- The key after `k` in the order of traversal; an error if the table does not know `k`. -/
def keyAfter (t : Table) (k : Key) : Except Unit (Option Key) :=
  if t.inArray k then .ok (t.keyFrom? (((arrayIndex? k).getD 0) + 1))
  else
    match t.slots.get? k with
    | some slot => .ok (t.nextKey? (slot.place + 1))
    | none => .error ()

/-- The keys in use, in the order of traversal. -/
def liveOrder (t : Table) : List Key :=
  t.liveIndices.map (fun i => .integer (Int64.ofNat i)) ++ t.liveKeys

end Table

end ScriptHost.Lua
