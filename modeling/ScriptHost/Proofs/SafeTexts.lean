import ScriptHost.Lua.Library
import ScriptHost.Proofs.SafeOperations

/-!
# Numbers and strings keep secrets

The functions of the libraries for numbers and strings reach for no table but those that they are
given, and yield nothing but numbers and strings.
-/

set_option autoImplicit false

namespace ScriptHost.Lua.Vault

open Library

variable {V W : Vault} {args : Arguments}

theorem shares_map {α : Type} (o : Option α) {f : α → Value} (all : ∀ a, V.Shares (f a)) :
    V.Shares ((o.map f).getD .nil) := by
  cases o with
  | none => trivial
  | some a => exact all a

/-! ## Numbers -/

theorem shares_wholeOrFloat (x : Float) : V.Shares (wholeOrFloat x) := by
  unfold wholeOrFloat
  split <;> trivial

theorem yields_applyFloat (f : Float → Float) : V.Yields (applyFloat args f) :=
  (yields_float args 1).bind fun _ _ _ _ => .pure (shares_singleton trivial)

theorem yields_extreme (better : Number → Number → Bool) : V.Yields (extreme better args) := by
  have goes : ∀ (n : Nat) (W : Vault) (best : Number) (i : Nat),
      W.Yields (extreme.go better args best i n) := by
    intro n
    induction n with
    | zero => exact fun W best i => .pure trivial
    | succ n ih => exact fun W best i => (yields_number args i).bind fun _ _ _ _ => ih _ _ _
  exact (yields_number args 1).bind fun _ _ _ _ => (goes _ _ _ _).bind fun _ _ _ _ =>
    .pure (shares_singleton (shares_number _))

theorem yields_fmod : V.Yields (fmod args) := by
  unfold fmod
  split
  · exact (yields_check args _ _ _).bind fun _ _ _ _ => .pure (shares_singleton trivial)
  · exact (yields_float args 1).bind fun _ _ _ _ => (yields_float args 2).bind fun _ _ _ _ =>
      .pure (shares_singleton trivial)

theorem yields_modf : V.Yields (modf args) := by
  refine (yields_float args 1).bind fun _ _ _ _ => .pure (shares_pair ?_ trivial)
  split <;> trivial

theorem yields_log : V.Yields (log args) := by
  refine (yields_float args 1).bind fun _ _ _ _ => ?_
  refine .ite (.pure (shares_singleton trivial)) ?_
  exact (yields_float args 2).bind fun _ _ _ _ => .ite (.pure (shares_singleton trivial))
    (.ite (.pure (shares_singleton trivial)) (.pure (shares_singleton trivial)))

theorem yields_random : V.Yields (math .random args) := by
  have checked : ∀ (W : Vault) i condition message (v : Int64), W.Yields (do
      args.check i condition message
      return [Value.integer v]) := fun W i condition message v =>
    (yields_check args i condition message).bind fun _ _ _ _ => .pure (shares_singleton trivial)
  refine .ite (.pure (shares_singleton trivial)) (.ite ?_ (.ite ?_ (.fail _)))
  · exact (yields_integer args 1).bind fun _ _ _ _ => checked _ _ _ _ _
  · exact (yields_integer args 1).bind fun _ _ _ _ => (yields_integer args 2).bind
      fun _ _ _ _ => checked _ _ _ _ _

theorem yields_math (f : MathFunction) (given : V.Shares args.values) : V.Yields (math f args) := by
  cases f with
  | fmod => exact yields_fmod
  | modf => exact yields_modf
  | log => exact yields_log
  | max => exact yields_extreme _
  | min => exact yields_extreme _
  | random => exact yields_random
  | randomseed => exact .pure shares_nil
  | abs =>
      refine (yields_number args 1).bind fun _ _ _ _ => ?_
      split <;> exact .pure (shares_singleton trivial)
  | ceil =>
      refine (yields_number args 1).bind fun _ _ _ _ => ?_
      split
      · exact .pure (shares_singleton trivial)
      · exact .pure (shares_singleton (shares_wholeOrFloat _))
  | floor =>
      refine (yields_number args 1).bind fun _ _ _ _ => ?_
      split
      · exact .pure (shares_singleton trivial)
      · exact .pure (shares_singleton (shares_wholeOrFloat _))
  | atan =>
      refine (yields_float args 1).bind fun _ _ _ _ => ?_
      exact .ite (.pure (shares_singleton trivial)) ((yields_float args 2).bind fun _ _ _ _ =>
        .pure (shares_singleton trivial))
  | tointeger =>
      refine (yields_any given 1).bind fun W v _ _ => .pure (shares_singleton ?_)
      split
      · trivial
      · exact shares_map _ fun _ => trivial
  | type =>
      refine (yields_any given 1).bind fun W v _ _ => ?_
      split <;> exact .pure (shares_singleton trivial)
  | ult =>
      exact (yields_integer args 1).bind fun _ _ _ _ => (yields_integer args 2).bind
        fun _ _ _ _ => .pure (shares_singleton trivial)
  | _ => exact yields_applyFloat _

/-! ## Characters -/

theorem yields_utf8Char : V.Yields (utf8Char args) := by
  have goes : ∀ (n : Nat) (W : Vault) (i : Nat), W.Yields (utf8Char.go args i n) := by
    intro n
    induction n with
    | zero => exact fun W i => .pure trivial
    | succ n ih =>
        exact fun W i => (yields_integer args i).bind fun _ _ _ _ =>
          (yields_check args _ _ _).bind fun _ _ _ _ => (ih _ _).bind fun _ _ _ _ => .pure trivial
  exact (goes _ _ _).bind fun _ _ _ _ => .pure (shares_singleton trivial)

theorem shares_utf8Length (s : ByteArray) (j : Int) (lax : Bool) (place count fuel : Nat) :
    V.Shares (utf8Length.go s j lax place count fuel) := by
  induction fuel generalizing place count with
  | zero => exact shares_singleton trivial
  | succ fuel ih =>
      unfold utf8Length.go
      split
      · split
        · exact ih _ _
        · exact shares_pair trivial trivial
      · exact shares_singleton trivial

theorem yields_utf8Length : V.Yields (utf8Length args) :=
  (yields_bytes args 1).bind fun _ _ _ _ => (yields_integerOr args 2 _).bind fun _ _ _ _ =>
    (yields_integerOr args 3 _).bind fun _ _ _ _ => (yields_check args 2 _ _).bind fun _ _ _ _ =>
      (yields_check args 3 _ _).bind fun _ _ _ _ => .pure (shares_utf8Length _ _ _ _ _ _)

theorem yields_codepoint : V.Yields (codepoint args) := by
  have goes : ∀ (s : ByteArray) (j : Int) (lax : Bool) (fuel : Nat) (W : Vault) (place : Nat),
      W.Yields (codepoint.go s j lax place fuel) := by
    intro s j lax fuel
    induction fuel with
    | zero => exact fun W place => .pure shares_nil
    | succ fuel ih =>
        intro W place
        unfold codepoint.go
        split
        · split
          · exact (ih W _).bind fun _ _ _ rest => .pure (shares_cons trivial rest)
          · exact .fail _
        · exact .pure shares_nil
  exact (yields_bytes args 1).bind fun _ _ _ _ => (yields_integerOr args 2 _).bind fun _ _ _ _ =>
    (yields_integerOr args 3 _).bind fun _ _ _ _ => (yields_check args 2 _ _).bind fun _ _ _ _ =>
      (yields_check args 3 _ _).bind fun _ _ _ _ => goes _ _ _ _ _ _

theorem yields_offset : V.Yields (offset args) := by
  have answer : ∀ (W : Vault) (i? : Option Int),
      W.Yields (pure [(i?.map fun i => Value.integer (Int64.ofInt (i + 1))).getD .nil]) :=
    fun _ i? => .pure (shares_singleton (shares_map i? fun _ => trivial))
  refine (yields_bytes args 1).bind fun _ _ _ _ => (yields_integer args 2).bind fun _ _ _ _ =>
    (yields_integerOr args 3 _).bind fun _ _ _ _ => (yields_check args 3 _ _).bind fun _ _ _ _ => ?_
  exact .ite (answer _ _) (.stopIf (.fail _) fun _ _ => .ite (answer _ _) (answer _ _))

theorem yields_codesStep : V.Yields (codesStep args) := by
  refine (yields_bytes args 1).bind fun s _ _ _ => (yields_integer args 2).bind fun n _ _ _ => ?_
  refine .ite (.pure shares_nil) ?_
  split
  · exact .stopIf (.fail _) fun _ _ => .pure (shares_pair trivial trivial)
  · exact .fail _

theorem yields_utf8 (f : Utf8Function) : V.Yields (utf8 f args) := by
  cases f with
  | char => exact yields_utf8Char
  | codepoint => exact yields_codepoint
  | codesStep => exact yields_codesStep
  | len => exact yields_utf8Length
  | offset => exact yields_offset
  | codes =>
      exact (yields_bytes args 1).bind fun _ _ _ _ => (yields_check args 1 _ _).bind fun _ _ _ _ =>
        .pure (shares_cons trivial (shares_pair trivial trivial))

/-! ## Parts of strings -/

theorem yields_rep : V.Yields (rep args) := by
  refine (yields_bytes args 1).bind fun _ _ _ _ => (yields_integer args 2).bind fun _ _ _ _ =>
    (yields_bytesOr args 3 _).bind fun _ _ _ _ => ?_
  refine .ite (.pure (shares_singleton trivial)) ?_
  exact .stopIf (.fail _) fun _ _ => (Yields.reserve _).bind fun _ _ _ _ =>
    .pure (shares_singleton trivial)

theorem yields_byte : V.Yields (byte args) := by
  refine (yields_bytes args 1).bind fun s _ _ _ => (yields_integerOr args 2 _).bind fun _ _ _ _ =>
    (yields_integerOr args 3 _).bind fun _ _ _ _ => .pure fun v member => ?_
  obtain ⟨i, _, found⟩ := List.mem_filterMap.mp member
  obtain ⟨b, _, rfl⟩ := Option.map_eq_some_iff.mp found
  trivial

theorem yields_char : V.Yields (char args) := by
  have goes : ∀ (n : Nat) (W : Vault) (i : Nat), W.Yields (char.go args i n) := by
    intro n
    induction n with
    | zero => exact fun W i => .pure trivial
    | succ n ih =>
        exact fun W i => (yields_integer args i).bind fun _ _ _ _ =>
          (yields_check args _ _ _).bind fun _ _ _ _ => (ih _ _).bind fun _ _ _ _ => .pure trivial
  exact (goes _ _ _).bind fun _ _ _ _ => .pure (shares_singleton trivial)

theorem yields_sub : V.Yields (sub args) :=
  (yields_bytes args 1).bind fun _ _ _ _ => (yields_integer args 2).bind fun _ _ _ _ =>
    (yields_integerOr args 3 _).bind fun _ _ _ _ => .pure (shares_singleton trivial)

/-! ## Patterns -/

theorem yields_checked {α : Type} [Disclosed α] {result : Except String α}
    (shared : ∀ a, result = .ok a → V.Shares a) : V.Yields (checked result) := by
  cases result with
  | ok a => exact .pure (shared a rfl)
  | error message => exact .fail message

theorem shares_capture {s : ByteArray} {c : Pattern.Capture} {v : Value}
    (found : c.value s = .ok v) : V.Shares v := by
  unfold Pattern.Capture.value at found
  split at found <;> cases found <;> trivial

theorem shares_captures {s : ByteArray} {captures : List Pattern.Capture} {values : List Value}
    (found : captures.mapM (fun c => c.value s) = .ok values) : V.Shares values := by
  induction captures generalizing values with
  | nil =>
      cases found
      exact shares_nil
  | cons c captures ih =>
      rw [List.mapM_cons] at found
      cases first : c.value s with
      | error message => rw [first] at found; cases found
      | ok v =>
          cases rest : captures.mapM (fun c => c.value s) with
          | error message => rw [first, rest] at found; cases found
          | ok vs =>
              rw [first, rest] at found
              cases found
              exact shares_cons (shares_capture first) (ih rest)

theorem shares_matched {s : ByteArray} {start : Nat} {m : Pattern.Match} {values : List Value}
    (found : m.values s start = .ok values) : V.Shares values := by
  unfold Pattern.Match.values at found
  split at found
  · cases found
    exact shares_singleton trivial
  · exact shares_captures found

theorem yields_findOrMatch (isFind : Bool) : V.Yields (findOrMatch isFind args) := by
  refine (yields_bytes args 1).bind fun _ _ _ _ => (yields_bytes args 2).bind fun _ _ _ _ =>
    (yields_integerOr args 3 _).bind fun _ _ _ _ => ?_
  refine .ite (.pure (shares_singleton trivial)) (.ite ?_ ?_)
  · split
    · exact .pure (shares_pair trivial trivial)
    · exact .pure (shares_singleton trivial)
  · refine (yields_checked fun _ _ => trivial).bind fun _ _ _ _ => ?_
    split
    · exact .pure (shares_singleton trivial)
    · refine .ite ?_ (yields_checked fun _ found => shares_matched found)
      exact (yields_checked fun _ found => shares_captures found).bind fun _ _ _ captures =>
        .pure (shares_cons trivial (shares_cons trivial captures))

theorem yields_gmatch : V.Yields (gmatch args) := by
  refine (yields_bytes args 1).bind fun s _ _ _ => (yields_bytes args 2).bind fun pattern _ _ _ =>
    (yields_integerOr args 3 _).bind fun start _ _ _ => ?_
  refine (Yields.alter fun _ _ _ guards => ⟨guards.newClosure ?_, trivial⟩).bind fun _ _ _ _ =>
    .pure (shares_singleton trivial)
  exact shares_cons trivial (shares_cons trivial (shares_pair trivial trivial))

theorem yields_gmatchStep (self : Value) (captured : List Value) :
    V.Yields (gmatchStep self captured) := by
  have remembers : ∀ (W : Vault) (id : ClosureId) (s pattern : ByteArray) (i last : Int64),
      W.Yields (Eval.modify fun h => h.setCaptured id
        [.string s, .string pattern, .integer i, .integer last]) := fun W id s pattern i last =>
    .modify fun _ _ _ guards => guards.setCaptured id
      (shares_cons trivial (shares_cons trivial (shares_pair trivial trivial)))
  unfold gmatchStep
  split
  · refine (yields_checked fun _ _ => trivial).bind fun _ _ _ _ => ?_
    split
    · exact (remembers _ _ _ _ _ _).bind fun _ _ _ _ => .pure (shares_singleton trivial)
    · exact (remembers _ _ _ _ _ _).bind fun _ _ _ _ =>
        yields_checked fun _ found => shares_matched found
  · exact .pure (shares_singleton trivial)

theorem yields_replaced (s : ByteArray) (i : Nat) (m : Pattern.Match) (result : Value) :
    V.Yields (do
      if !result.isTruthy then return (s.extract i m.stop).toList
      match result.stringBytes? with
      | some text => return text.toList
      | none =>
        let type ← Eval.read fun h => h.typeNameOf result
        Eval.fail s!"invalid replacement value (a {type})") := by
  refine .ite (.pure trivial) ?_
  split
  · exact .pure trivial
  · exact (Yields.read fun _ _ _ _ => trivial).bind fun _ _ _ _ => .fail _

theorem yields_replacement (given : V.Shares args.values) (s : ByteArray) (i : Nat)
    (m : Pattern.Match) : V.Yields (replacement args s i m) := by
  refine (yields_checked fun _ found => shares_matched found).bind fun W values later shared => ?_
  have given := later.shares given
  split
  · rename_i id same
    have own : W.Shares (Value.table id) := by
      rw [← same]
      exact shares_get given 3
    exact (yields_index own (shares_firstOf shared)).bind fun _ _ _ _ => yields_replaced _ _ _ _
  · exact (Yields.callBack (shares_get given 3) shared).bind fun _ _ _ _ => yields_replaced _ _ _ _
  · exact (Yields.callBack (shares_get given 3) shared).bind fun _ _ _ _ => yields_replaced _ _ _ _
  · exact (yields_checked fun _ _ => trivial).bind fun _ _ _ _ => yields_replaced _ _ _ _

theorem yields_gsubLoop (given : V.Shares args.values) (s : ByteArray) (pattern : List UInt8)
    (anchored : Bool) (limit : Nat) (fuel i count : Nat) (last : Int) (acc : List UInt8) :
    V.Yields (gsubLoop args s pattern anchored limit i count last acc fuel) := by
  induction fuel generalizing V i count last acc with
  | zero =>
      unfold gsubLoop
      exact .pure trivial
  | succ fuel ih =>
      have skips : ∀ (W : Vault), V.Later W → ∀ i count last acc,
          W.Yields (gsubLoop.skip args s pattern anchored limit i count last acc fuel) := by
        intro W later i count last acc
        unfold gsubLoop.skip
        split
        · exact .ite (.pure trivial) (ih (later.shares given) _ _ _ _)
        · exact .pure trivial
      unfold gsubLoop
      refine .ite (.pure trivial) ?_
      refine (yields_checked fun _ _ => trivial).bind fun W _ later _ => ?_
      split
      · refine .ite (skips W later _ _ _ _) ?_
        refine (yields_replacement (later.shares given) _ _ _).bind fun X _ further _ => ?_
        exact .ite (.pure trivial) (ih (further.shares (later.shares given)) _ _ _ _)
      · exact skips W later _ _ _ _

theorem yields_gsubFrom (given : V.Shares args.values) (s pattern : ByteArray) :
    V.Yields (do
      let limit := (← args.integerOr 4 (Int64.ofNat (s.size + 1))).toInt.toNat
      let (anchored, body) := unanchored pattern.toList
      let (text, count) ← gsubLoop args s body anchored limit 0 0 (-1) [] (2 * s.size + 4)
      return [Value.string text.reverse.toByteArray, Value.integer (Int64.ofNat count)]) :=
  (yields_integerOr args 4 _).bind fun _ _ later _ =>
    (yields_gsubLoop (later.shares given) _ _ _ _ _ _ _ _ _).bind
      fun _ _ _ _ => .pure (shares_pair trivial trivial)

theorem yields_gsub (given : V.Shares args.values) : V.Yields (gsub args) := by
  refine (yields_bytes args 1).bind fun W s later _ => (yields_bytes args 2).bind
    fun X pattern further _ => ?_
  cases args.get 3
  case nil | boolean | null | userdata | coroutine =>
    exact (yields_argsFailType args 3 _).bind fun Y _ last _ =>
      yields_gsubFrom (((later.trans further).trans last).shares given) s pattern
  all_goals exact yields_gsubFrom ((later.trans further).shares given) s pattern

/-! ## Formats -/

theorem yields_format (flags : List Char) (hasPrecision : Bool) (spec : List Char)
    (message : String) :
    V.Yields (match Format.parse? flags hasPrecision spec with
      | some f => pure f
      | none => Eval.fail message : Eval Format) := by
  split
  · exact .pure trivial
  · exact .fail _

theorem yields_conversion (given : V.Shares args.values) (i : Nat) (spec : List Char)
    (letter : Char) : V.Yields (conversion args i spec letter) := by
  have ofInteger : ∀ (W : Vault) (f : Int64 → List UInt8),
      W.Yields (args.integer i >>= fun n => pure (f n)) :=
    fun W f => (yields_integer args i).bind fun _ _ _ _ => .pure trivial
  have ofFloat : ∀ (W : Vault) (f : Float → List UInt8),
      W.Yields (args.float i >>= fun x => pure (f x)) :=
    fun W f => (yields_float args i).bind fun _ _ _ _ => .pure trivial
  unfold conversion
  split
  case h_16 =>
    refine .stopIf (.fail _) fun W later => ?_
    split
    case h_6 => exact yields_argsFail args i _
    all_goals exact .pure trivial
  case h_17 =>
    refine (yields_any given i).bind fun W v _ shared => ?_
    refine (yields_toText shared).bind fun _ _ _ _ => .ite (.pure trivial) ?_
    exact (yields_check args i _ _).bind fun _ _ _ _ => (yields_format _ _ _ _).bind fun _ _ _ _ =>
      .pure trivial
  case h_18 => exact (yields_format _ _ _ _).bind fun _ _ _ _ => .pure trivial
  case h_19 => exact .fail _
  all_goals
    refine (yields_format _ _ _ _).bind fun W f _ _ => ?_
    first | exact ofInteger W _ | exact ofFloat W _

theorem yields_formatLoop (given : V.Shares args.values) (fuel i : Nat) (pattern : List UInt8) :
    V.Yields (formatLoop args i pattern fuel) := by
  induction fuel generalizing V i pattern with
  | zero =>
      unfold formatLoop
      exact .pure trivial
  | succ fuel ih =>
      unfold formatLoop
      split
      · exact .pure trivial
      · exact .pure trivial
      · rename_i same
        obtain rfl := Nat.succ.inj same
        refine Yields.bind (ih given _ _) fun _ _ _ _ => ?_
        exact .pure trivial
      · rename_i same
        obtain rfl := Nat.succ.inj same
        refine .stopIf (.fail _) fun W later => .stopIf (yields_argsFail args i _) fun X further => ?_
        have given := further.shares (later.shares given)
        split
        · exact .fail _
        · refine (yields_conversion given _ _ _).bind fun Y _ last _ => ?_
          refine Yields.bind (ih (last.shares given) _ _) fun _ _ _ _ => ?_
          exact .pure trivial
      · rename_i same
        obtain rfl := Nat.succ.inj same
        refine Yields.bind (ih given _ _) fun _ _ _ _ => ?_
        exact .pure trivial

/-! ## Binary formats -/

theorem yields_orFault {α : Type} [Disclosed α] {result : Except Pack.Fault α}
    (shared : ∀ a, result = .ok a → V.Shares a) : V.Yields (orFault args result) := by
  unfold orFault
  split
  · exact .pure (shared _ rfl)
  · exact .fail _
  · exact yields_argsFail args _ _

theorem yields_packItem (layout : Pack.Layout) (item : Pack.Item) (i : Nat) :
    V.Yields (packItem args layout item i) := by
  have checked : ∀ (W : Vault) condition message (bytes : List UInt8), W.Yields (do
      args.check i condition message
      return bytes) := fun W condition message bytes =>
    (yields_check args i condition message).bind fun _ _ _ _ => .pure trivial
  unfold packItem
  split
  · exact (yields_integer args i).bind fun _ _ _ _ => checked _ _ _ _
  · exact (yields_integer args i).bind fun _ _ _ _ => checked _ _ _ _
  · exact (yields_float args i).bind fun _ _ _ _ => .pure trivial
  · exact (yields_float args i).bind fun _ _ _ _ => .pure trivial
  · exact (yields_bytes args i).bind fun _ _ _ _ => (yields_check args i _ _).bind fun _ _ _ _ =>
      (Yields.reserve _).bind fun _ _ _ _ => .pure trivial
  · exact (yields_bytes args i).bind fun _ _ _ _ => checked _ _ _ _
  · exact (yields_bytes args i).bind fun _ _ _ _ => checked _ _ _ _
  all_goals exact .pure trivial

theorem yields_packLoop (layout : Pack.Layout) (i place : Nat) (format : List UInt8) (fuel : Nat) :
    V.Yields (packLoop args layout i place format fuel) := by
  induction fuel generalizing V layout i place format with
  | zero => cases format <;> exact .pure trivial
  | succ fuel ih =>
      cases format with
      | nil => exact .pure trivial
      | cons letter rest =>
          unfold packLoop
          exact (yields_orFault fun _ _ => trivial).bind fun _ _ _ _ =>
            (yields_packItem _ _ _).bind fun _ _ _ _ => (ih _ _ _ _).bind fun _ _ _ _ =>
              .pure trivial

theorem yields_packValues : V.Yields (packValues args) :=
  (yields_bytes args 1).bind fun _ _ _ _ => (yields_packLoop _ _ _ _ _).bind fun _ _ _ _ =>
    .pure (shares_singleton trivial)

theorem yields_packedSize : V.Yields (packedSize args) :=
  (yields_bytes args 1).bind fun _ _ _ _ => (yields_orFault fun _ _ => trivial).bind
    fun _ _ _ _ => .pure (shares_singleton trivial)

instance : Disclosed (List Value × Nat) where
  Public V found := ∀ v ∈ found.1, v.Public V
  mono wider shared v member := (shared v member).mono wider

theorem exists_of_bind {ε α β : Type} {first : Except ε α} {rest : α → Except ε β} {b : β}
    (done : first >>= rest = .ok b) : ∃ a, first = .ok a ∧ rest a = .ok b := by
  cases first with
  | error e => cases done
  | ok a => exact ⟨a, rfl, done⟩

theorem shares_read {layout : Pack.Layout} {item : Pack.Item} {data : ByteArray} {start : Nat}
    {found : Option Value × Nat} (read : item.read layout data start = .ok found) :
    V.Shares found.1.toList := by
  unfold Pack.Item.read at read
  dsimp only at read
  split at read
  · obtain ⟨n, _, answered⟩ := exists_of_bind read
    cases answered
    exact shares_singleton trivial
  · cases read
    exact shares_singleton trivial
  · cases read
    exact shares_singleton trivial
  · cases read
    exact shares_singleton trivial
  · obtain ⟨n, _, answered⟩ := exists_of_bind read
    split at answered
    · cases answered
    · cases answered
      exact shares_singleton trivial
  · split at read
    · cases read
      exact shares_singleton trivial
    · cases read
  all_goals
    cases read
    exact shares_nil

theorem shares_unpackFrom {data : ByteArray} {fuel : Nat} {layout : Pack.Layout} {place : Nat}
    {format : List UInt8} {found : List Value × Nat}
    (read : Pack.unpackFrom data layout place format fuel = .ok found) : V.Shares found := by
  induction fuel generalizing layout place format found with
  | zero =>
      cases format <;>
        · cases read
          exact shares_nil
  | succ fuel ih =>
      cases format with
      | nil =>
          cases read
          exact shares_nil
      | cons letter rest =>
          rw [Pack.unpackFrom] at read
          obtain ⟨⟨item, layout, rest⟩, _, read⟩ := exists_of_bind read
          dsimp only at read
          split at read
          · cases read
          · obtain ⟨⟨v?, place⟩, first, read⟩ := exists_of_bind read
            obtain ⟨⟨values, place⟩, further, read⟩ := exists_of_bind read
            cases read
            exact shares_append (shares_read first) (ih further)

theorem yields_unpackValues : V.Yields (unpackValues args) := by
  refine (yields_bytes args 1).bind fun _ _ _ _ => (yields_bytes args 2).bind fun _ _ _ _ =>
    (yields_integerOr args 3 _).bind fun _ _ _ _ => (yields_check args 3 _ _).bind fun _ _ _ _ =>
      (yields_orFault fun _ read => shares_unpackFrom read).bind fun _ _ _ shared => ?_
  exact .pure (shares_append shared (shares_singleton trivial))

/-! ## Arithmetic on strings -/

theorem yields_stringArith (given : V.Shares args.values) (op : ArithOp) :
    V.Yields (stringArith op args) := by
  have refuses : ∀ W : Vault, W.Yields (stringArith.refuse args) := fun _ => .fail _
  unfold stringArith
  split
  · split
    · exact .pure (shares_singleton (shares_number _))
    · exact .raiseText _
  · refine (Yields.read fun W h later guards => guards.shares_metamethod
      (later.shares (shares_get given 2)) (event_ne op)).bind fun W m later own => ?_
    split
    · exact refuses W
    · refine .ite (refuses W) (.callBack own ?_)
      exact later.shares (shares_pair (shares_get given 1) (shares_get given 2))

theorem yields_string (self : Value) (captured : List Value) (f : StringFunction)
    (given : V.Shares args.values) : V.Yields (string self captured f args) := by
  cases f with
  | byte => exact yields_byte
  | char => exact yields_char
  | dump => exact .fail _
  | find => exact yields_findOrMatch true
  | «match» => exact yields_findOrMatch false
  | format =>
      exact (yields_bytes args 1).bind fun _ _ later _ =>
        (yields_formatLoop (later.shares given) _ _ _).bind fun _ _ _ _ =>
          .pure (shares_singleton trivial)
  | gmatch => exact yields_gmatch
  | gmatchStep => exact yields_gmatchStep self captured
  | gsub => exact yields_gsub given
  | pack => exact yields_packValues
  | packsize => exact yields_packedSize
  | unpack => exact yields_unpackValues
  | rep => exact yields_rep
  | sub => exact yields_sub
  | len => exact (yields_bytes args 1).bind fun _ _ _ _ => .pure (shares_singleton trivial)
  | lower => exact (yields_bytes args 1).bind fun _ _ _ _ => .pure (shares_singleton trivial)
  | upper => exact (yields_bytes args 1).bind fun _ _ _ _ => .pure (shares_singleton trivial)
  | reverse => exact (yields_bytes args 1).bind fun _ _ _ _ => .pure (shares_singleton trivial)
  | negate =>
      simp only [string]
      split
      · exact .pure (shares_singleton (shares_number _))
      · exact .fail _
  | _ =>
      simp only [string]
      exact yields_stringArith given _

end ScriptHost.Lua.Vault
