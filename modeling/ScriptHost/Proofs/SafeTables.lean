import ScriptHost.Lua.Library
import ScriptHost.Proofs.SafeOperations

/-!
# Tables and lists keep secrets

A table that is made shows what it is made of, and the functions of the library for lists read
and assign items as scripts do.
-/

set_option autoImplicit false

namespace ScriptHost.Lua

namespace Table

theorem metatable?_ofItems (values : List Value) : (ofItems values).metatable? = none := by
  have kept : ∀ (entries : List (Value × Nat)) (t : Table),
      (entries.foldl (fun t entry => t.setIndex (entry.2 + 1) entry.1) t).metatable? =
        t.metatable? := by
    intro entries
    induction entries with
    | nil => exact fun _ => rfl
    | cons entry entries ih => exact fun t => (ih _).trans (metatable?_set t _ _)
  exact kept _ _

variable {t : Table} {k : Key}

theorem hasIndex_of_nextIndex? {i fuel j : Nat} (found : t.nextIndex? i fuel = some j) :
    t.hasIndex j = true := by
  induction fuel generalizing i with
  | zero => cases found
  | succ fuel ih =>
      unfold nextIndex? at found
      split at found
      · cases found
      · split at found
        · obtain rfl := Option.some.inj found
          assumption
        · exact ih found

theorem live_of_nextKey? {place : Nat} (found : t.nextKey? place = some k) :
    (t.get k).isNil = false := by
  have within : ∀ (fuel place : Nat), t.nextKeyWithin? place fuel = some k →
      (t.get k).isNil = false := by
    intro fuel
    induction fuel with
    | zero =>
        intro place found
        cases found
    | succ fuel ih =>
        intro place found
        unfold nextKeyWithin? at found
        split at found
        · cases found
        · split at found
          · exact ih _ found
          · rename_i live
            obtain rfl := Option.some.inj found
            exact eq_false_of_ne_true live
  exact within _ _ found

/-- A traversal only comes to keys in use. -/
theorem live_of_keyFrom? {i : Nat} (found : t.keyFrom? i = some k) : (t.get k).isNil = false := by
  unfold keyFrom? at found
  split at found
  · rename_i j next
    obtain rfl := Option.some.inj found
    simpa [hasIndex, getIndex] using hasIndex_of_nextIndex? next
  · exact live_of_nextKey? found

theorem live_of_keyAfter {before : Key} (found : t.keyAfter before = .ok (some k)) :
    (t.get k).isNil = false := by
  unfold keyAfter at found
  split at found
  · exact live_of_keyFrom? (Except.ok.inj found)
  · split at found
    · exact live_of_nextKey? (Except.ok.inj found)
    · cases found

end Table

namespace Vault

open Library

variable {V W : Vault} {args : Arguments} {h : Heap}

/-! ## New tables -/

theorem shows_withRoom (V : Vault) (items others : Nat) : V.Shows (.withRoom items others) := by
  intro k live
  rw [Table.get_withRoom] at live
  cases live

theorem shows_foldl_setIndex {values : List Value} (shared : V.Shares values) (i : Nat) {t : Table}
    (shows_ : V.Shows t) :
    V.Shows ((values.zipIdx i).foldl (fun t entry => t.setIndex (entry.2 + 1) entry.1) t) := by
  induction values generalizing i t with
  | nil => exact shows_
  | cons v values ih =>
      refine ih (fun w member => shared w (List.mem_cons_of_mem v member)) (i + 1) ?_
      exact Guards.shows_set shows_ trivial (shared v List.mem_cons_self)

theorem shows_ofItems {values : List Value} (shared : V.Shares values) :
    V.Shows (.ofItems values) :=
  shows_foldl_setIndex shared 0 (shows_withRoom V _ _)

theorem shows_ofEntries {entries : List (String × Value)}
    (shared : ∀ entry ∈ entries, V.Shares entry.2) : V.Shows (.ofEntries entries) := by
  have stored : ∀ t, V.Shows t →
      V.Shows (entries.foldl (fun t entry => t.setText entry.1 entry.2) t) := by
    induction entries with
    | nil => exact fun _ shows_ => shows_
    | cons entry entries ih =>
        intro t shows_
        refine ih (fun other member => shared other (List.mem_cons_of_mem entry member)) _ ?_
        exact Guards.shows_set shows_ trivial (shared entry List.mem_cons_self)
  exact stored _ (shows_withRoom V _ _)

theorem Guards.shares_newTable (guards : V.Guards h) {t : Table} (shows_ : V.Shows t)
    (metatable : ∀ m, t.metatable? = some m → V.Open m) :
    V.Passes h (h.newTable t).2 ∧ (V.on (h.newTable t).2).Shares (h.newTable t).1 :=
  ⟨guards.newTable shows_ metatable, guards.open_new t⟩

theorem shares_texts (texts : List String) : V.Shares (texts.map Value.ofText) := by
  intro v member
  obtain ⟨text, _, rfl⟩ := List.mem_map.mp member
  trivial

theorem yields_newList {values : List Value} (shared : V.Shares values) :
    V.Yields (Eval.alter fun h => h.newList values) :=
  .alter fun W h later guards => guards.shares_newTable (shows_ofItems (later.shares shared))
    fun m linked => by
      rw [Table.metatable?_ofItems] at linked
      cases linked

/-! ## Values of hosts -/

mutual

theorem Guards.ofJson : ∀ {V : Vault} {h : Heap}, V.Guards h → ∀ j : Json,
    V.Passes h (Conversion.ofJson h j).2 ∧
      (V.on (Conversion.ofJson h j).2).Shares (Conversion.ofJson h j).1
  | V, h, guards, .null => ⟨.refl guards, trivial⟩
  | V, h, guards, .bool b => ⟨.refl guards, trivial⟩
  | V, h, guards, .int n => by
      refine ⟨.refl guards, ?_⟩
      show Value.Public _ (Conversion.ofInt n)
      unfold Conversion.ofInt
      split <;> trivial
  | V, h, guards, .float x => ⟨.refl guards, trivial⟩
  | V, h, guards, .str s => ⟨.refl guards, trivial⟩
  | V, h, guards, .arr items => by
      obtain ⟨passes, shared⟩ := guards.ofItems items
      have arrays := passes.guards.rests.arrays
      obtain ⟨made, isOpen⟩ := passes.guards.shares_newTable
        (t := { Table.ofItems (Conversion.ofItems h items).1 with
          metatable? := some (Conversion.ofItems h items).2.arrayMetatable })
        (shows_ofItems shared) fun m linked => by
          obtain rfl := Option.some.inj linked
          exact arrays
      exact ⟨passes.trans made, isOpen⟩
  | V, h, guards, .obj entries => by
      obtain ⟨passes, shared⟩ := guards.ofEntries entries
      obtain ⟨made, isOpen⟩ := passes.guards.shares_newTable (shows_ofEntries shared) fun m linked => by
        rw [Table.metatable?_ofEntries] at linked
        cases linked
      exact ⟨passes.trans made, isOpen⟩

theorem Guards.ofItems : ∀ {V : Vault} {h : Heap}, V.Guards h → ∀ items : List Json,
    V.Passes h (Conversion.ofItems h items).2 ∧
      (V.on (Conversion.ofItems h items).2).Shares (Conversion.ofItems h items).1
  | V, h, guards, [] => ⟨.refl guards, shares_nil⟩
  | V, h, guards, item :: items => by
      obtain ⟨first, shared⟩ := guards.ofJson item
      obtain ⟨rest, others⟩ := first.guards.ofItems items
      exact ⟨first.trans rest, shares_cons ((first.guards.later rest).shares shared) others⟩

theorem Guards.ofEntries : ∀ {V : Vault} {h : Heap}, V.Guards h → ∀ entries : List (String × Json),
    V.Passes h (Conversion.ofEntries h entries).2 ∧
      ∀ entry ∈ (Conversion.ofEntries h entries).1,
        (V.on (Conversion.ofEntries h entries).2).Shares entry.2
  | V, h, guards, [] => ⟨.refl guards, fun _ member => absurd member List.not_mem_nil⟩
  | V, h, guards, (key, value) :: entries => by
      obtain ⟨first, shared⟩ := guards.ofJson value
      obtain ⟨rest, others⟩ := first.guards.ofEntries entries
      refine ⟨first.trans rest, fun entry member => ?_⟩
      rcases List.mem_cons.mp member with rfl | later
      · exact (first.guards.later rest).shares shared
      · exact others entry later

end

theorem yields_jsonValue (j : Json) : V.Yields (jsonValue j) :=
  .alter fun _ _ _ guards => guards.ofJson j

/-! ## Items -/

theorem yields_item {list : Value} (shared : V.Shares list) (i : Int64) : V.Yields (item list i) :=
  yields_index shared trivial

theorem yields_setItem {list v : Value} (shared : V.Shares list) (value : V.Shares v) (i : Int64) :
    V.Yields (setItem list i v) :=
  yields_assign shared trivial value

theorem yields_listArgument (given : V.Shares args.values) (i : Nat) (events : List String) :
    V.Yields (listArgument args i events) := by
  have shared := shares_get given i
  unfold listArgument
  generalize args.get i = v at shared
  cases v with
  | table id => exact .pure shared
  | _ =>
      refine (Yields.read fun _ _ _ _ => trivial).bind fun W _ later _ => ?_
      exact .ite (.pure (later.shares shared)) (yields_argsFailType args i _)

theorem yields_listLength {list : Value} (shared : V.Shares list) :
    V.Yields (listLength list) := by
  refine (yields_length shared).bind fun _ _ _ _ => ?_
  split
  · exact .pure trivial
  · split
    · exact .pure trivial
    · exact .fail _

theorem yields_copyItem {source target : Value} (giver : V.Shares source) (taker : V.Shares target)
    (i j : Int64) (next : Nat) : V.Yields (do
      setItem target j (← item source i)
      return some next) :=
  (yields_item giver i).bind fun _ _ later shared =>
    (yields_setItem (later.shares taker) shared j).bind fun _ _ _ _ => .pure trivial

theorem yields_shiftUp {list : Value} (shared : V.Shares list) (i j : Int64) :
    V.Yields (shiftUp list i j) :=
  .iterate _ fun _ => .ite (.pure trivial) (yields_copyItem shared shared _ _ _)

theorem yields_insert (given : V.Shares args.values) : V.Yields (insert args) := by
  refine (yields_listArgument given 1 _).bind fun W list later shared => ?_
  refine (yields_listLength shared).bind fun X size further _ => ?_
  have given := (later.trans further).shares given
  have shared := further.shares shared
  refine .ite ?_ (.ite ?_ (.fail _))
  · exact (yields_setItem shared (shares_get given 2) _).bind fun _ _ _ _ => .pure shares_nil
  · refine (yields_integer args 2).bind fun Y _ later _ => ?_
    refine (yields_check args 2 _ _).bind fun Y' _ later' _ => ?_
    have given := later'.shares (later.shares given)
    have shared := later'.shares (later.shares shared)
    refine (yields_shiftUp shared _ _).bind fun Z _ last _ => ?_
    exact (yields_setItem (last.shares shared) (last.shares (shares_get given 3)) _).bind
      fun _ _ _ _ => .pure shares_nil

theorem yields_remove (given : V.Shares args.values) : V.Yields (remove args) := by
  refine (yields_listArgument given 1 _).bind fun W list later shared => ?_
  refine (yields_listLength shared).bind fun X size further _ => ?_
  refine (yields_integerOr args 2 _).bind fun Y position later' _ => ?_
  have shared := later'.shares (further.shares shared)
  have removes : ∀ Z, Y.Later Z → Z.Yields (do
      let removed ← item list position
      Eval.iterate (size - position).toInt.toNat fun left => do
        if left = 0 then return none
        let k := size - Int64.ofNat left
        setItem list k (← item list (k + 1))
        return some (left - 1)
      setItem list (if position < size then size else position) .nil
      return [removed]) := by
    intro Z late
    refine (yields_item (late.shares shared) _).bind fun Z' removed later result => ?_
    have shared := later.shares (late.shares shared)
    have copied : Z'.Yields (Eval.iterate (size - position).toInt.toNat fun left => do
        if left = 0 then return none
        let k := size - Int64.ofNat left
        setItem list k (← item list (k + 1))
        return some (left - 1)) :=
      .iterate _ fun _ => .ite (.pure trivial) (yields_copyItem shared shared _ _ _)
    refine copied.bind fun X _ later _ => ?_
    exact (yields_setItem (v := .nil) (later.shares shared) trivial _).bind fun _ _ last _ =>
      .pure (shares_singleton (last.shares (later.shares result)))
  exact .ite ((yields_check args 2 _ _).bind fun Z _ late _ => removes Z late)
    (removes Y (.refl Y))

theorem yields_items {list : Value} (shared : V.Shares list) (i : Int64) (n : Nat) :
    V.Yields (items list i n) := by
  induction n generalizing V i with
  | zero => exact .pure shares_nil
  | succ n ih =>
      refine (yields_item shared i).bind fun W v later first => ?_
      exact (ih (later.shares shared) _).bind fun _ _ further rest =>
        .pure (shares_cons (further.shares first) rest)

theorem yields_joinItems (separator : ByteArray) {list : Value} (shared : V.Shares list)
    (acc : ByteArray) (i : Int64) (n : Nat) : V.Yields (joinItems separator list acc i n) := by
  induction n generalizing V acc i with
  | zero => exact .pure trivial
  | succ n ih =>
      refine (yields_item shared i).bind fun W v later _ => ?_
      split
      · exact .fail _
      · exact ih (later.shares shared) _ _

theorem yields_concatItems (given : V.Shares args.values) : V.Yields (concatItems args) := by
  refine (yields_listArgument given 1 _).bind fun W list later shared => ?_
  refine (yields_listLength shared).bind fun _ _ later₁ _ => ?_
  refine (yields_bytesOr args 2 _).bind fun _ _ later₂ _ => ?_
  refine (yields_integerOr args 3 _).bind fun _ _ later₃ _ => ?_
  refine (yields_integerOr args 4 _).bind fun _ _ later₄ _ => ?_
  have shared := later₄.shares (later₃.shares (later₂.shares (later₁.shares shared)))
  exact (yields_joinItems _ shared _ _ _).bind fun _ _ _ _ => .pure (shares_singleton trivial)

theorem yields_unpack (given : V.Shares args.values) : V.Yields (unpack args) := by
  have counted : ∀ W, V.Later W → ∀ i j : Int64, W.Yields (do
      let count := (j.toInt - i.toInt + 1).toNat
      if 1000000 ≤ count then Eval.fail "too many results to unpack"
      items (args.get 1) i count) := fun W later i j =>
    .stopIf (.fail _) fun X further =>
      yields_items (further.shares (later.shares (shares_get given 1))) _ _
  refine (yields_integerOr args 2 _).bind fun W i later _ => ?_
  refine .ite ?_ ?_
  · exact (yields_listLength (later.shares (shares_get given 1))).bind fun X j further _ =>
      counted X (later.trans further) i j
  · exact (yields_integer args 3).bind fun X j further _ => counted X (later.trans further) i j

theorem yields_pack (given : V.Shares args.values) : V.Yields (pack args) := by
  refine (Yields.alter fun W h later guards => ?_).bind fun W id _ isOpen =>
    .pure (shares_singleton (v := .table id) isOpen)
  refine guards.shares_newTable ?_ fun m linked => ?_
  · exact Guards.shows_set (shows_ofItems (later.shares given)) trivial trivial
  · rw [Table.metatable?_setText, Table.metatable?_ofItems] at linked
    cases linked

theorem yields_move (given : V.Shares args.values) : V.Yields (move args) := by
  refine (yields_listArgument given 1 _).bind fun W source later shared => ?_
  refine (yields_integer args 2).bind fun _ first later₂ _ => ?_
  refine (yields_integer args 3).bind fun _ last later₃ _ => ?_
  refine (yields_integer args 4).bind fun X start later₄ _ => ?_
  have later' := later₂.trans (later₃.trans later₄)
  have given := (later.trans later').shares given
  have shared := later'.shares shared
  have moves : ∀ Y target, X.Later Y → Y.Shares target → Y.Yields (do
      if first ≤ last then
        args.check 3 (0 < first || last < Int64.maxValue + first) "too many elements to move"
        let count := (last.toInt - first.toInt + 1).toNat
        args.check 4 (start.toInt ≤ Int64.maxValue.toInt - count + 1) "destination wrap around"
        let upward := last < start || start ≤ first || (!args.isNone 5 && !(source.same target))
        Eval.iterate 0 fun k => do
          if count ≤ k then return none
          let offset := Int64.ofNat (if upward then k else count - 1 - k)
          setItem target (start + offset) (← item source (first + offset))
          return some (k + 1)
      return [target]) := by
    intro Y target late taker
    refine .ite ?_ (.pure (shares_singleton taker))
    refine (yields_check args 3 _ _).bind fun _ _ later₅ _ => ?_
    refine (yields_check args 4 _ _).bind fun Z _ later₆ _ => ?_
    have later'' := later₅.trans later₆
    have taker := later''.shares taker
    refine Yields.bind (.iterate _ fun _ => .ite (.pure trivial)
      (yields_copyItem (later''.shares (late.shares shared)) taker _ _ _)) fun _ _ last _ => ?_
    exact .pure (shares_singleton (last.shares taker))
  refine .ite ?_ ?_
  · exact (yields_listArgument given 1 _).bind fun Y target late taker => moves Y target late taker
  · exact (yields_listArgument given 5 _).bind fun Y target late taker => moves Y target late taker

/-! ## Sorting -/

section

variable {list order pivot : Value}

theorem yields_before {a b : Value} (how : V.Shares order) (first : V.Shares a)
    (second : V.Shares b) : V.Yields (before order a b) :=
  .ite (yields_less first second) <|
    (Yields.callBack how (shares_pair first second)).bind fun _ _ _ _ => .pure trivial

theorem yields_badOrder {α : Type} [Disclosed α] : V.Yields (badOrder : Eval α) := .fail _

theorem yields_scanUp (shared : V.Shares list) (how : V.Shares order) (mid : V.Shares pivot)
    (stop fuel i : Nat) : V.Yields (scanUp list order pivot stop i fuel) := by
  induction fuel generalizing V i with
  | zero => exact yields_badOrder
  | succ fuel ih =>
      refine (yields_item shared _).bind fun W v later value => ?_
      refine (yields_before (later.shares how) value (later.shares mid)).bind
        fun X isBefore further _ => ?_
      have late := later.trans further
      refine .ite (.stopIf yields_badOrder fun Y last => ?_) (.pure (further.shares value))
      have later := late.trans last
      exact ih (later.shares shared) (later.shares how) (later.shares mid) _

theorem yields_scanDown (shared : V.Shares list) (how : V.Shares order) (mid : V.Shares pivot)
    (i fuel j : Nat) : V.Yields (scanDown list order pivot i j fuel) := by
  induction fuel generalizing V j with
  | zero => exact yields_badOrder
  | succ fuel ih =>
      refine (yields_item shared _).bind fun W v later value => ?_
      refine (yields_before (later.shares how) (later.shares mid) value).bind
        fun X isBefore further _ => ?_
      have late := later.trans further
      refine .ite (.stopIf yields_badOrder fun Y last => ?_) (.pure (further.shares value))
      have later := late.trans last
      exact ih (later.shares shared) (later.shares how) (later.shares mid) _

theorem yields_partition (shared : V.Shares list) (how : V.Shares order) (mid : V.Shares pivot)
    (high fuel i j : Nat) : V.Yields (partition list order pivot high i j fuel) := by
  induction fuel generalizing V i j with
  | zero => exact yields_badOrder
  | succ fuel ih =>
      refine (yields_scanUp shared how mid _ _ _).bind fun W found later first => ?_
      refine (yields_scanDown (later.shares shared) (later.shares how) (later.shares mid) _ _ _).bind
        fun X found' further second => ?_
      have late := later.trans further
      refine .ite ?_ ?_
      · refine (yields_setItem (late.shares shared) (further.shares first) _).bind fun Y _ last _ => ?_
        have later := late.trans last
        exact (yields_setItem (later.shares shared) (later.shares mid) _).bind
          fun _ _ _ _ => .pure trivial
      · refine (yields_setItem (late.shares shared) second _).bind fun Y _ later₁ _ => ?_
        refine (yields_setItem (later₁.shares (late.shares shared))
          (later₁.shares (further.shares first)) _).bind fun Z _ later₂ _ => ?_
        have later := late.trans (later₁.trans later₂)
        exact ih (later.shares shared) (later.shares how) (later.shares mid) _ _

theorem yields_orderPair (shared : V.Shares list) (how : V.Shares order) (i j : Nat) :
    V.Yields (orderPair list order i j) := by
  refine (yields_item shared _).bind fun W a later first => ?_
  refine (yields_item (later.shares shared) _).bind fun X b further second => ?_
  have late := later.trans further
  refine (yields_before (late.shares how) second (further.shares first)).bind fun Y _ last _ => ?_
  refine .ite ?_ (.pure trivial)
  have later := late.trans last
  refine (yields_setItem (later.shares shared) (last.shares second) _).bind fun Z _ final _ => ?_
  exact (yields_setItem (final.shares (later.shares shared))
    (final.shares (last.shares (further.shares first))) _).bind fun _ _ _ _ => .pure trivial

theorem yields_sortRange (shared : V.Shares list) (how : V.Shares order) (fuel low high : Nat) :
    V.Yields (sortRange list order low high fuel) := by
  induction fuel generalizing V low high with
  | zero => exact .pure trivial
  | succ fuel ih =>
      have both : ∀ W, V.Later W → ∀ low₁ high₁ low₂ high₂ : Nat, W.Yields (do
          sortRange list order low₁ high₁ fuel
          sortRange list order low₂ high₂ fuel) := fun W later low₁ high₁ low₂ high₂ =>
        (ih (later.shares shared) (later.shares how) _ _).bind fun X _ further _ =>
          ih (further.shares (later.shares shared)) (further.shares (later.shares how)) _ _
      have parts : ∀ W, V.Later W → W.Yields (do
          if high - low = 2 then return ()
          let pivot ← item list (Int64.ofNat ((low + high) / 2))
          let last ← item list (Int64.ofNat (high - 1))
          setItem list (Int64.ofNat ((low + high) / 2)) last
          setItem list (Int64.ofNat (high - 1)) pivot
          let p ← partition list order pivot high low (high - 1) (high + 1)
          if p - low < high - p then
            sortRange list order low (p - 1) fuel
            sortRange list order (p + 1) high fuel
          else
            sortRange list order (p + 1) high fuel
            sortRange list order low (p - 1) fuel) := by
        intro W later
        refine .ite (.pure trivial) ?_
        refine (yields_item (later.shares shared) _).bind fun W₁ pivot later₁ mid => ?_
        have late₁ := later.trans later₁
        refine (yields_item (late₁.shares shared) _).bind fun W₂ last later₂ value => ?_
        have late₂ := late₁.trans later₂
        refine (yields_setItem (late₂.shares shared) value _).bind fun W₃ _ later₃ _ => ?_
        have mid := later₃.shares (later₂.shares mid)
        have late₃ := late₂.trans later₃
        refine (yields_setItem (late₃.shares shared) mid _).bind fun W₄ _ later₄ _ => ?_
        have late₄ := late₃.trans later₄
        refine (yields_partition (late₄.shares shared) (late₄.shares how) (later₄.shares mid)
          _ _ _ _).bind fun W₅ p later₅ _ => ?_
        have late₅ := late₄.trans later₅
        exact .ite (both _ late₅ _ _ _ _) (both _ late₅ _ _ _ _)
      unfold sortRange
      refine .ite (.pure trivial) ?_
      refine (yields_orderPair shared how _ _).bind fun W _ later _ => ?_
      refine .ite (.pure trivial) ?_
      refine (yields_orderPair (later.shares shared) (later.shares how) _ _).bind
        fun X _ further _ => ?_
      have late := later.trans further
      refine .ite ?_ (parts X late)
      exact (yields_orderPair (late.shares shared) (late.shares how) _ _).bind fun Y _ last _ =>
        parts Y (late.trans last)

end

theorem yields_sort (given : V.Shares args.values) : V.Yields (sort args) := by
  refine (yields_listArgument given 1 _).bind fun W list later shared => ?_
  refine (yields_listLength shared).bind fun X _ later₁ _ => ?_
  refine .ite ?_ (.pure shares_nil)
  refine (yields_check args 1 _ _).bind fun Y _ later₂ _ => ?_
  have late := later₁.trans later₂
  have sorts : ∀ Z order, Y.Later Z → Z.Shares order → ∀ size : Nat, Z.Yields (do
      sortRange list order 1 size (size + 1)
      return ([] : List Value)) := fun Z order last how size =>
    (yields_sortRange (last.shares (late.shares shared)) how _ _ _).bind fun _ _ _ _ =>
      .pure shares_nil
  refine .ite (sorts Y .nil (.refl Y) trivial _) ?_
  exact (yields_callable ((later.trans late).shares given) 2).bind fun Z order last how =>
    sorts Z order last how _

theorem yields_table (f : TableFunction) (given : V.Shares args.values) :
    V.Yields (table f args) := by
  cases f with
  | concat => exact yields_concatItems given
  | insert => exact yields_insert given
  | move => exact yields_move given
  | pack => exact yields_pack given
  | remove => exact yields_remove given
  | sort => exact yields_sort given
  | unpack => exact yields_unpack given

end Vault

end ScriptHost.Lua
