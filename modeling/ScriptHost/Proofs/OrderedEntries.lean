import ScriptHost.Ordered

/-!
# Entries in order

Maps are lists of entries in ascending order of their texts, so they are known by what they give
for every text, and do not depend on the order in which the entries were put in.
-/

set_option autoImplicit false

namespace ScriptHost.Ordered

variable {α : Type}

/-- Texts ascend from entry to entry. -/
def Ascending (entries : List (String × α)) : Prop := (keys entries).Pairwise (· < ·)

theorem find?_insert (key other : String) (value : α) (entries : List (String × α)) :
    find? other (insert key value entries) =
      if key = other then some value else find? other entries := by
  induction entries with
  | nil => rfl
  | cons entry rest ih =>
      obtain ⟨k, v⟩ := entry
      by_cases same : k = key
      · subst same
        rw [insert, if_pos rfl, find?, find?]
        split <;> rfl
      · rw [insert, if_neg same]
        split
        · rfl
        · rw [find?, find?, ih]
          by_cases found : k = other
          · subst found
            rw [if_pos rfl, if_pos rfl, if_neg (Ne.symm same)]
          · rw [if_neg found, if_neg found]

theorem keys_insert {key other : String} {value : α} {entries : List (String × α)}
    (member : other ∈ keys (insert key value entries)) : other = key ∨ other ∈ keys entries := by
  induction entries with
  | nil => simpa [insert, keys] using member
  | cons entry rest ih =>
      obtain ⟨k, v⟩ := entry
      unfold insert at member
      split at member
      · exact (List.mem_cons.mp member).imp_right (List.mem_cons_of_mem _)
      · split at member
        · exact List.mem_cons.mp member
        · rcases List.mem_cons.mp member with rfl | later
          · exact .inr List.mem_cons_self
          · exact (ih later).imp_right (List.mem_cons_of_mem _)

theorem Ascending.insert {entries : List (String × α)} (ascending : Ascending entries)
    (key : String) (value : α) : Ascending (insert key value entries) := by
  induction entries with
  | nil => exact List.pairwise_singleton ..
  | cons entry rest ih =>
      obtain ⟨k, v⟩ := entry
      obtain ⟨below, later⟩ := List.pairwise_cons.mp ascending
      unfold Ordered.insert
      split
      · rename_i same
        exact List.pairwise_cons.mpr ⟨by rw [← same]; exact below, later⟩
      · rename_i different
        split
        · rename_i less
          refine List.pairwise_cons.mpr ⟨fun other member => ?_, ascending⟩
          rcases List.mem_cons.mp member with rfl | member
          · exact less
          · exact Std.lt_trans less (below other member)
        · rename_i notLess
          refine List.pairwise_cons.mpr ⟨fun other member => ?_, ih later⟩
          rcases keys_insert member with rfl | member
          · exact Std.lt_of_le_of_ne (Std.not_lt.mp notLess) different
          · exact below other member

theorem ascending_ofList (entries : List (String × α)) : Ascending (ofList entries) := by
  have kept : ∀ acc : List (String × α), Ascending acc →
      Ascending (entries.foldl (fun acc entry => insert entry.1 entry.2 acc) acc) := by
    induction entries with
    | nil => exact fun acc ascending => ascending
    | cons entry rest ih => exact fun acc ascending => ih _ (ascending.insert entry.1 entry.2)
  exact kept [] List.Pairwise.nil

theorem Ascending.find?_eq_some_iff {entries : List (String × α)} (ascending : Ascending entries)
    (key : String) (value : α) : find? key entries = some value ↔ (key, value) ∈ entries := by
  induction entries with
  | nil => simp [find?]
  | cons entry rest ih =>
      obtain ⟨k, v⟩ := entry
      obtain ⟨below, later⟩ := List.pairwise_cons.mp ascending
      rw [find?]
      split
      · rename_i same
        subst same
        constructor
        · intro found
          exact Option.some.inj found ▸ List.mem_cons_self
        · intro member
          rcases List.mem_cons.mp member with same | member
          · exact congrArg some (Prod.mk.inj same).2.symm
          · exact absurd (below k (List.mem_map_of_mem member)) (Std.lt_irrefl)
      · rename_i different
        rw [ih later, List.mem_cons]
        exact ⟨.inr, fun member => member.resolve_left fun same =>
          different (Prod.mk.inj same).1.symm⟩

theorem Ascending.nodup {entries : List (String × α)} (ascending : Ascending entries) :
    entries.Nodup := by
  refine (List.pairwise_map.mp ascending).imp fun {a b} less same => ?_
  rw [same] at less
  exact Std.lt_irrefl less

theorem Ascending.nodup_keys {entries : List (String × α)} (ascending : Ascending entries) :
    (keys entries).Nodup := by
  refine List.Pairwise.imp (fun {a b} less same => ?_) ascending
  rw [same] at less
  exact Std.lt_irrefl less

theorem Ascending.ext {entries others : List (String × α)} (ascending : Ascending entries)
    (ascending' : Ascending others) (same : ∀ entry, entry ∈ entries ↔ entry ∈ others) :
    entries = others := by
  have permuted := (List.perm_ext_iff_of_nodup ascending.nodup ascending'.nodup).mpr same
  refine permuted.eq_of_pairwise ?_ (List.pairwise_map.mp ascending)
    (List.pairwise_map.mp ascending')
  intro a b _ _ less greater
  exact absurd greater (String.lt_asymm less)

theorem Ascending.find?_eq_none {key k : String} {v : α} {entries : List (String × α)}
    (ascending : Ascending ((k, v) :: entries))
    (less : key < k) : find? key ((k, v) :: entries) = none := by
  cases found : find? key ((k, v) :: entries) with
  | none => rfl
  | some value =>
      have member := (ascending.find?_eq_some_iff key value).mp found
      rcases List.mem_cons.mp member with same | later
      · rw [(Prod.mk.inj same).1] at less
        exact absurd less Std.lt_irrefl
      · have below := (List.pairwise_cons.mp ascending).1 key (List.mem_map_of_mem later)
        exact absurd (Std.lt_trans less below) Std.lt_irrefl

/-- Putting an entry in replaces the one that was there for its key, and no other. -/
theorem Ascending.perm_insert {entries : List (String × α)} (ascending : Ascending entries)
    (key : String) (value : α) :
    ((key, value) :: entries).Perm
      (Ordered.insert key value entries ++ (find? key entries).toList.map (key, ·)) := by
  induction entries with
  | nil => exact .refl _
  | cons entry rest ih =>
      obtain ⟨k, v⟩ := entry
      have rests := ih (List.pairwise_cons.mp ascending).2
      by_cases same : k = key
      · subst same
        rw [Ordered.insert, if_pos rfl, find?, if_pos rfl, List.cons_append]
        exact (List.perm_append_singleton (k, v) rest).symm.cons _
      · by_cases less : key < k
        · rw [ascending.find?_eq_none less, Ordered.insert, if_neg same, if_pos less]
          simp
        · rw [Ordered.insert, if_neg same, if_neg less, find?, if_neg same]
          exact (List.Perm.swap ..).trans (rests.cons (k, v))

theorem Ascending.perm_find? {entries : List (String × α)} (ascending : Ascending entries)
    (key : String) :
    ∃ others, entries.Perm ((find? key entries).toList.map (key, ·) ++ others) := by
  cases found : find? key entries with
  | none => exact ⟨entries, .refl _⟩
  | some value =>
      obtain ⟨front, back, split⟩ :=
        List.append_of_mem ((ascending.find?_eq_some_iff key value).mp found)
      exact ⟨front ++ back, split ▸ List.perm_middle⟩

theorem Ascending.mem_keys_iff {key : String} {entries : List (String × α)}
    (ascending : Ascending entries) :
    key ∈ keys entries ↔ (find? key entries).isSome = true := by
  rw [Option.isSome_iff_exists]
  constructor
  · intro member
    obtain ⟨⟨k, value⟩, there, rfl⟩ := List.mem_map.mp member
    exact ⟨value, (ascending.find?_eq_some_iff k value).mpr there⟩
  · rintro ⟨value, found⟩
    exact List.mem_map_of_mem ((ascending.find?_eq_some_iff key value).mp found)

/-- Entries of a map that are put in one after another take their places. -/
theorem Ascending.find?_foldl_insert {entries : List (String × α)} (ascending : Ascending entries)
    (key : String) (added : List (String × α)) (members : ∀ entry ∈ added, entry ∈ entries)
    (acc : List (String × α)) :
    find? key (added.foldl (fun acc entry => Ordered.insert entry.1 entry.2 acc) acc) =
      if key ∈ keys added then find? key entries else find? key acc := by
  induction added generalizing acc with
  | nil => rfl
  | cons entry rest ih =>
      have value := (ascending.find?_eq_some_iff entry.1 entry.2).mpr (members _ List.mem_cons_self)
      rw [List.foldl_cons, ih (fun entry member => members entry (List.mem_cons_of_mem _ member)),
        find?_insert, show keys (entry :: rest) = entry.1 :: keys rest from rfl]
      by_cases later : key ∈ keys rest
      · rw [if_pos later, if_pos (List.mem_cons_of_mem _ later)]
      · rw [if_neg later]
        by_cases here : entry.1 = key
        · subst here
          rw [if_pos rfl, if_pos List.mem_cons_self, value]
        · have absent : key ∉ entry.1 :: keys rest := fun member =>
            (List.mem_cons.mp member).elim (fun same => here same.symm) later
          rw [if_neg here, if_neg absent]

/-- A map is what is put into it, in any order and however often. -/
theorem ofList_eq {pairs entries : List (String × α)} (ascending : Ascending entries)
    (same : ∀ entry, entry ∈ pairs ↔ entry ∈ entries) : ofList pairs = entries := by
  refine (ascending_ofList pairs).ext ascending ?_
  rintro ⟨key, value⟩
  rw [← (ascending_ofList pairs).find?_eq_some_iff, ← ascending.find?_eq_some_iff, ofList,
    ascending.find?_foldl_insert key pairs (fun entry => (same entry).mp)]
  split
  · rfl
  · rename_i absent
    constructor
    · intro none
      cases none
    · intro present
      have member := (same (key, value)).mpr ((ascending.find?_eq_some_iff key value).mp present)
      exact absurd (List.mem_map_of_mem member) absent

end ScriptHost.Ordered
