import Std.Data.TreeMap
import ScriptHost.Lua.Value

/-!
# Maps from keys

A finite map whose keys are those of script tables. Keys are sorted into buckets by a number;
what a key is mapped to does not depend on the number, as `get?_insert` states.
-/

set_option autoImplicit false

namespace ScriptHost.Lua

/-- The number of the bucket of a key. -/
def Key.code : Key → Nat
  | boolean b => b.toNat
  | integer n => 16 * n.toInt.natAbs + 2
  | float bits => 16 * bits.toNat + 3
  | string s => 16 * (s.foldl (fun code b => 31 * code + b.toUInt32) (7 : UInt32)).toNat + 4
  | null => 5
  | table id => 16 * id.index + 6
  | closure id => 16 * id.index + 7
  | builtin _ => 8
  | userdata id => 16 * id.index + 9
  | coroutine id => 16 * id.index + 10

structure KeyMap (α : Type) where
  buckets : Std.TreeMap Nat (List (Key × α)) := {}
  size : Nat := 0
deriving Inhabited

namespace KeyMap

variable {α : Type}

/-- The keys of a bucket, with what they are mapped to. -/
def bucket (m : KeyMap α) (code : Nat) : List (Key × α) := m.buckets[code]?.getD []

def get? (m : KeyMap α) (k : Key) : Option α := (m.bucket k.code).lookup k

/-- Puts a key into a bucket, in the place of the same key if there is one. -/
def place (k : Key) (v : α) : List (Key × α) → List (Key × α)
  | [] => [(k, v)]
  | (other, w) :: rest => if k == other then (k, v) :: rest else (other, w) :: place k v rest

def insert (m : KeyMap α) (k : Key) (v : α) : KeyMap α :=
  let entries := m.bucket k.code
  let added := if (entries.lookup k).isSome then 0 else 1
  { buckets := m.buckets.insert k.code (place k v entries), size := m.size + added }

def toList (m : KeyMap α) : List (Key × α) := m.buckets.toList.flatMap Prod.snd

theorem get?_empty (k : Key) : ({} : KeyMap α).get? k = none := by
  simp [get?, bucket]

theorem lookup_place (k other : Key) (v : α) (entries : List (Key × α)) :
    (place k v entries).lookup other = if k = other then some v else entries.lookup other := by
  induction entries with
  | nil =>
    by_cases h : k = other
    · simp [place, h]
    · simp [place, h, List.lookup_cons, beq_false_of_ne (Ne.symm h)]
  | cons entry rest ih =>
    obtain ⟨name, w⟩ := entry
    by_cases hname : k = name
    · subst hname
      by_cases h : k = other
      · simp [place, h]
      · simp [place, h, List.lookup_cons, beq_false_of_ne (Ne.symm h)]
    · by_cases h : other = name
      · subst h
        simp [place, hname]
      · simp [place, hname, List.lookup_cons, beq_false_of_ne h, ih]

/-- A key is mapped to what was inserted for it last. -/
theorem get?_insert (m : KeyMap α) (k other : Key) (v : α) :
    (m.insert k v).get? other = if k = other then some v else m.get? other := by
  simp only [get?, insert, bucket, Std.TreeMap.getElem?_insert, Nat.compare_eq_eq]
  by_cases hcode : k.code = other.code
  · simp [hcode, lookup_place]
  · have hne : k ≠ other := fun h => hcode (congrArg Key.code h)
    simp [hcode, hne]

/-- After several insertions a key is mapped to what was inserted for it, if anything was. -/
theorem get?_foldl_insert {β : Type} (key : β → Key) (value : β → α) (items : List β)
    (m : KeyMap α) (k : Key) :
    (∃ item ∈ items, key item = k ∧
      (items.foldl (fun m item => m.insert (key item) (value item)) m).get? k =
        some (value item)) ∨
    (∀ item ∈ items, key item ≠ k) ∧
      (items.foldl (fun m item => m.insert (key item) (value item)) m).get? k = m.get? k := by
  induction items generalizing m with
  | nil => exact .inr ⟨by simp, rfl⟩
  | cons item rest ih =>
      rcases ih (m.insert (key item) (value item)) with ⟨found, member, same, result⟩ | ⟨absent, result⟩
      · exact .inl ⟨found, List.mem_cons_of_mem _ member, same, result⟩
      · rw [get?_insert] at result
        by_cases here : key item = k
        · exact .inl ⟨item, List.mem_cons_self, here, by simpa [here] using result⟩
        · exact .inr ⟨by simpa [here] using absent, by simpa [here] using result⟩

end KeyMap

end ScriptHost.Lua
