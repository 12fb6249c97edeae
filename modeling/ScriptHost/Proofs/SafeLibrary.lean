import ScriptHost.Host.Script
import ScriptHost.Proofs.SafeTables
import ScriptHost.Proofs.SafeTexts
import ScriptHost.Proofs.Utf8Text

/-!
# The library keeps secrets

A function of the library that is given nothing secret neither discloses nor changes a secret
table, unless it gets, sets or circumvents the metatable of the globals.
-/

set_option autoImplicit false

namespace ScriptHost.Lua

namespace Vault

open Library

variable {V W : Vault} {args : Arguments} {h : Heap}

/-! ## Programs and errors -/

theorem Guards.loadText (guards : V.Guards h) (name text : List UInt8) {environment : Value}
    (shared : V.Shares environment) :
    V.Passes h (loadText name text environment h).2 ∧
      (V.on (loadText name text environment h).2).Shares (loadText name text environment h).1 := by
  unfold Library.loadText
  split
  · exact ⟨.refl guards, trivial⟩
  · obtain passes := guards.newCell shared
    exact ⟨passes.trans (passes.guards.newClosure trivial), trivial⟩

theorem yields_compile (name text : List UInt8) {environment : Value}
    (shared : V.Shares environment) : V.Yields (compile name text environment) :=
  .alter fun _ _ later guards => guards.loadText name text (later.shares shared)

theorem yields_globalsValue : V.Yields globalsValue :=
  .read fun _ _ _ guards => guards.shares_table

theorem shares_caught {thrown : Thrown} (shared : V.Shares thrown) : V.Shares (caught thrown) := by
  cases thrown with
  | error v => exact shared
  | outOfMemory => trivial

theorem shares_loaded {result : Except String Value} (shared : V.Shares result) :
    V.Shares (loaded result) := by
  cases result with
  | ok f => exact shares_singleton shared
  | error message => exact shares_pair trivial trivial

theorem yields_raiseAt (level : Int64) {v : Value} (shared : V.Shares v) :
    V.Yields (raiseAt level v) := by
  unfold raiseAt
  split
  · refine .ite (.raise (by trivial)) ?_
    exact Yields.sites.bind fun _ _ _ _ => .raise (by trivial)
  · exact .raise shared

theorem yields_readPieces (given : V.Shares args.values) :
    V.Yields (fun _ => readPieces args fun _ => .done (.returned []) : Eval (List Value)) := by
  refine .ends fun W later => .loop shares_nil ?_ fun _ _ => .done shares_nil
  intro X state further shared
  have given := further.shares (later.shares given)
  refine .call (shares_get given 1) shares_nil fun Y values last results => ?_
  have shared := last.shares shared
  generalize firstOf values = piece
  cases piece with
  | nil => exact .done shared
  | string s =>
      dsimp only
      split
      · exact .done shared
      · exact .done (shares_append shared (shares_singleton trivial))
  | _ => exact .raise (by trivial)

theorem yields_loadFrom (name text : List UInt8)
    {environment : Value} (shared : V.Shares environment) (mode : ByteArray) : V.Yields (do
      if !admitsText mode then return loaded (.error (refusal mode))
      return loaded (← compile name text environment)) :=
  .ite (.pure (shares_pair trivial trivial)) <|
    (yields_compile name text shared).bind fun _ _ _ result => .pure (shares_loaded result)

theorem yields_loadIn (given : V.Shares args.values) (mode : ByteArray) {environment : Value}
    (shared : V.Shares environment) : V.Yields (do
      match (args.get 1).stringBytes? with
      | some s =>
        let name ← args.bytesOr 2 s
        if !admitsText mode then return loaded (.error (refusal mode))
        return loaded (← compile name.toList s.toList environment)
      | none =>
        let name ← args.bytesOr 2 "=(load)".toUTF8
        let _ ← args.callable 1
        let pieces ← Eval.protect fun _ => readPieces args fun _ => .done (.returned [])
        match pieces with
        | .error thrown => return [.nil, caught thrown]
        | .ok pieces =>
          let text := pieces.flatMap fun v => (v.stringBytes?.map ByteArray.toList).getD []
          if !admitsText mode then return loaded (.error (refusal mode))
          return loaded (← compile name.toList text environment)) := by
  split
  · refine (yields_bytesOr args 2 _).bind fun W name later _ => ?_
    exact yields_loadFrom _ _ (later.shares shared) _
  · refine (yields_bytesOr args 2 _).bind fun W name later₁ _ => ?_
    refine (yields_callable (later₁.shares given) 1).bind fun X _ later₂ _ => ?_
    have later := later₁.trans later₂
    refine (Yields.protect (yields_readPieces (later.shares given))).bind fun Y pieces last result => ?_
    cases pieces with
    | error thrown => exact .pure (shares_pair trivial (shares_caught result))
    | ok pieces => exact yields_loadFrom _ _ (last.shares (later.shares shared)) _

theorem yields_load (given : V.Shares args.values) : V.Yields (load args) := by
  refine (yields_bytesOr args 3 _).bind fun W mode later _ => ?_
  have given := later.shares given
  refine .ite ?_ (yields_loadIn given mode (shares_get given 4))
  exact yields_globalsValue.bind fun X environment later shared =>
    yields_loadIn (later.shares given) mode shared

theorem yields_compileFile (path : ByteArray) {environment : Value}
    (shared : V.Shares environment) : V.Yields (compileFile path environment) := by
  refine (Yields.ask _).bind fun W _ later _ => ?_
  split
  · exact .pure trivial
  · exact yields_compile _ _ (later.shares shared)

theorem yields_loadfile (given : V.Shares args.values) : V.Yields (loadfile args) := by
  refine (yields_bytesOr args 1 _).bind fun W path later₁ _ => ?_
  refine (yields_bytesOr args 2 _).bind fun X mode later₂ _ => ?_
  have given := later₂.shares (later₁.shares given)
  have loads : ∀ (Y : Vault) environment, Y.Shares environment → Y.Yields (do
      if !admitsText mode then return loaded (.error (refusal mode))
      return loaded (← compileFile path environment)) := fun Y environment shared =>
    .ite (.pure (shares_pair trivial trivial)) <|
      (yields_compileFile path shared).bind fun _ _ _ result => .pure (shares_loaded result)
  refine .ite ?_ (loads X _ (shares_get given 3))
  exact yields_globalsValue.bind fun Y environment _ shared => loads Y environment shared

theorem yields_dofile : V.Yields (dofile args) := by
  refine (yields_bytesOr args 1 _).bind fun W path _ _ => ?_
  refine yields_globalsValue.bind fun X environment _ shared => ?_
  refine (yields_compileFile path shared).bind fun Y result _ compiled => ?_
  cases result with
  | ok f => exact .callBack compiled shares_nil
  | error message => exact .raiseText _

/-! ## Basic functions -/

theorem yields_tonumber (given : V.Shares args.values) : V.Yields (tonumber args) := by
  refine .ite ?_ ?_
  · exact (yields_any given 1).bind fun _ _ _ _ =>
      .pure (shares_singleton (shares_map _ shares_number))
  · refine (yields_integer args 2).bind fun _ _ _ _ => ?_
    split
    · exact (yields_check args 2 _ _).bind fun _ _ _ _ =>
        .pure (shares_singleton (shares_map _ fun _ => trivial))
    · exact yields_argsFailType args 1 _

theorem yields_select (given : V.Shares args.values) : V.Yields (select args) := by
  have selects : ∀ W, V.Later W → W.Yields (do
      let n := (← args.integer 1).toInt
      let count : Int := args.count
      if n < 0 then
        args.check 1 (1 ≤ count + n) "index out of range"
        return args.values.drop (count + n).toNat
      else
        args.check 1 (1 ≤ n) "index out of range"
        return args.values.drop n.toNat) := by
    intro W later
    refine (yields_integer args 1).bind fun X _ later₁ _ => .ite ?_ ?_
    · exact (yields_check args 1 _ _).bind fun _ _ later₂ _ =>
        .pure (later₂.shares (later₁.shares (later.shares (shares_drop given _))))
    · exact (yields_check args 1 _ _).bind fun _ _ later₂ _ =>
        .pure (later₂.shares (later₁.shares (later.shares (shares_drop given _))))
  unfold select
  cases args.get 1 with
  | string s => exact .ite (.pure (shares_singleton trivial)) (selects V (.refl V))
  | _ => exact selects V (.refl V)

theorem yields_next (given : V.Shares args.values) : V.Yields (next args) := by
  refine (yields_argsTable given 1).bind fun W id later isOpen => ?_
  refine (Yields.read fun X h further guards => ?_).bind fun X found _ shared => ?_
  · have entry : ∀ result : Except Unit (Option Key),
        (∀ k, result = .ok (some k) → ((h.table id).get k).isNil = false) →
        X.Shares (result.map fun key? => key?.map fun k => (k.value, (h.table id).get k)) := by
      intro result live
      rcases result with _ | (_ | k)
      · trivial
      · trivial
      · exact guards.shows id (further.open isOpen).2 k (live k rfl)
    dsimp only
    split
    · exact entry _ fun k found => Table.live_of_keyFrom? (Except.ok.inj found)
    · split
      · exact entry _ fun k found => Table.live_of_keyAfter found
      · trivial
  · rcases found with _ | (_ | pair)
    · exact .raiseText _
    · exact .pure (shares_singleton trivial)
    · exact .pure (shares_pair shared.1 shared.2)

theorem yields_getmetatable (given : V.Shares args.values)
    (ordinary : V.tended → args.get 1 ≠ .table V.globals) : V.Yields (getmetatable args) := by
  have shared := shares_get given 1
  have shown : ∀ (W : Vault) h m, W.Guards h → W.Open m →
      W.Shares [if (h.rawGetText m "__metatable").isNil then Value.table m
        else h.rawGetText m "__metatable"] := by
    intro W h m guards isOpen
    split
    · exact shares_singleton (v := .table m) isOpen
    · exact shares_singleton (guards.shares_rawGet isOpen.2 _)
  refine yields_anyThen (.read fun W h later guards => ?_)
  generalize args.get 1 = v at shared ordinary
  cases v with
  | userdata id => exact shares_singleton trivial
  | string s =>
      simp only [Heap.metatable?]
      cases linked : h.stringMetatable? with
      | none => exact shares_singleton trivial
      | some m => exact shown W h m guards (guards.rests.strings m linked)
  | table id =>
      simp only [Heap.metatable?]
      cases linked : (h.table id).metatable? with
      | none => exact shares_singleton trivial
      | some m =>
          refine shown W h m guards (guards.metatable id m (later.open shared).2 ?_ linked)
          rw [later.globals, later.tended]
          rintro tended rfl
          exact ordinary tended rfl
  | _ => exact shares_singleton trivial

theorem yields_setmetatable (given : V.Shares args.values)
    (ordinary : V.tended → args.get 1 ≠ .table V.globals) : V.Yields (setmetatable args) := by
  have sets : ∀ W id new?, V.Later W → args.get 1 = .table id →
      (∀ m, new? = some m → W.Open m) → W.Yields (do
        let isProtected ← Eval.read fun h => !(h.metamethod (.table id) "__metatable").isNil
        if isProtected then Eval.fail "cannot change a protected metatable"
        Eval.modify fun h => h.modifyTable id fun t => { t with metatable? := new? }
        return [args.get 1]) := by
    intro W id new? later same linked
    have shared : W.Shares (args.get 1) := later.shares (shares_get given 1)
    refine (Yields.read fun _ _ _ _ => trivial).bind fun X _ later₁ _ => ?_
    refine .stopIf (.fail _) fun Y later₂ => ?_
    have late := later₁.trans later₂
    refine (Yields.modify fun Z h later₃ guards => ?_).bind fun Z _ later₃ _ =>
      .pure (shares_singleton (later₃.shares (late.shares shared)))
    have further := late.trans later₃
    rw [same] at shared
    refine guards.modifyTable (f := fun t => { t with metatable? := new? }) (further.open shared)
      h.used (guards.shows id (further.open shared).2)
      (.inr ⟨?_, fun m new => further.open (linked m new)⟩) ?_
    · intro tended here
      rw [further.tended, later.tended] at tended
      rw [further.globals, later.globals] at here
      exact ordinary tended (same.trans (congrArg Value.table here))
    · intro here linked
      have tended := guards.tends linked
      rw [further.tended, later.tended] at tended
      rw [further.globals, later.globals] at here
      exact absurd (same.trans (congrArg Value.table here)) (ordinary tended)
  refine yields_tableThen fun id same => ?_
  have shared := shares_get given 2
  generalize args.get 2 = v at shared
  cases v with
  | nil =>
      refine .ite (refuses_argsFailType args 2 _).andThen.yields ?_
      exact sets V id none (.refl V) same fun m new => nomatch new
  | table m =>
      refine sets V id (some m) (.refl V) same fun m' new => ?_
      obtain rfl := Option.some.inj new
      exact shared
  | _ => exact (refuses_argsFailType args 2 _).andThen.yields

theorem yields_rawset (given : V.Shares args.values)
    (ordinary : V.tended → args.get 1 ≠ .table V.globals) :
    V.Yields (base (Heap.collect true) .rawset args) := by
  refine yields_tableThen fun id same => ?_
  have isOpen : V.Shares (Value.table id) := same ▸ shares_get given 1
  refine (yields_any given 2).bind fun W key later₁ sharedKey => ?_
  refine (yields_any (later₁.shares given) 3).bind fun X value later₂ sharedValue => ?_
  have late := later₁.trans later₂
  have other : X.tended → id ≠ X.globals := by
    rw [late.globals, late.tended]
    rintro tended rfl
    exact ordinary tended same
  refine (yields_assignRaw (late.open isOpen) (later₂.shares sharedKey) sharedValue other).bind
    fun Y _ last _ => ?_
  exact .pure (shares_singleton (last.shares (late.shares (shares_get given 1))))

theorem yields_ipairsStep (given : V.Shares args.values) : V.Yields (ipairsStep args) := by
  refine (yields_integer args 2).bind fun W i later _ => ?_
  have step : W.Shares (Value.integer (i + 1)) := trivial
  refine (yields_index (later.shares (shares_get given 1)) step).bind fun _ v _ shared => .pure ?_
  split
  · exact shares_singleton trivial
  · exact shares_pair trivial shared

theorem yields_pairs (given : V.Shares args.values) : V.Yields (pairs args) := by
  refine (yields_any given 1).bind fun W v _ shared => ?_
  refine (Yields.read fun X h further guards => guards.shares_metamethod (further.shares shared)
    (by decide)).bind fun X m further own => ?_
  have shared := further.shares shared
  refine .ite (.pure (shares_cons trivial (shares_pair shared trivial))) ?_
  exact (Yields.callBack own (shares_singleton shared)).bind fun _ _ _ results =>
    .pure (shares_cons (shares_firstOf results) (shares_pair
      (shares_firstOf (shares_drop results 1)) (shares_firstOf (shares_drop results 2))))

theorem yields_rawlen : V.Yields (rawlen args) := by
  unfold rawlen
  split
  · exact (Yields.read fun _ _ _ _ => trivial).bind fun _ _ _ _ => .pure (shares_singleton trivial)
  · exact .pure (shares_singleton trivial)
  · exact yields_argsFail args 1 _

theorem yields_pcall (given : V.Shares args.values) : V.Yields (pcall args) := by
  unfold pcall
  split
  · exact .raiseText _
  · rename_i f rest same
    rw [same] at given
    have shared : V.Shares rest := fun v member => given v (List.mem_cons_of_mem f member)
    refine (Yields.protect (.callBack (given f List.mem_cons_self) shared)).bind
      fun _ result _ results => ?_
    cases result with
    | ok vs => exact .pure (shares_cons trivial results)
    | error thrown => exact .pure (shares_pair trivial (shares_caught results))

theorem yields_xpcall (given : V.Shares args.values) : V.Yields (xpcall args) := by
  unfold xpcall
  split
  · rename_i f handler rest same
    rw [same] at given
    have shared : V.Shares rest := fun v member =>
      given v (List.mem_cons_of_mem f (List.mem_cons_of_mem handler member))
    have handles : V.Shares handler := given handler (List.mem_cons_of_mem f List.mem_cons_self)
    refine (Yields.protect (.callBack (given f List.mem_cons_self) shared)).bind
      fun W result later results => ?_
    cases result with
    | ok vs => exact .pure (shares_cons trivial results)
    | error thrown =>
        refine (Yields.protect (.callBack (later.shares handles)
          (shares_singleton (shares_caught results)))).bind fun _ result _ handled => ?_
        cases result with
        | ok vs => exact .pure (shares_pair trivial (shares_firstOf handled))
        | error thrown => exact .pure (shares_pair trivial (shares_caught handled))
  · exact .raiseText _

theorem yields_collectgarbage : V.Yields (collectgarbage (Heap.collect true) args) := by
  refine (yields_bytesOr args 1 _).bind fun _ _ _ _ => (yields_check args 1 _ _).bind
    fun _ _ _ _ => ?_
  refine .ite ?_ (.ite ?_ (.ite ?_ (.ite ?_ ?_)))
  · exact (Yields.modify fun _ _ _ guards => guards.collect true).bind fun _ _ _ _ =>
      .pure (shares_singleton trivial)
  · exact (Yields.read fun _ _ _ _ => trivial).bind fun _ _ _ _ =>
      .pure (shares_singleton trivial)
  all_goals exact .pure (shares_singleton trivial)

theorem yields_base (f : BaseFunction) (given : V.Shares args.values)
    (ordinary : f = .getmetatable ∨ f = .setmetatable ∨ f = .rawset → V.tended →
      args.get 1 ≠ .table V.globals) :
    V.Yields (base (Heap.collect true) f args) := by
  cases f with
  | collectgarbage => exact yields_collectgarbage
  | dofile => exact yields_dofile
  | getmetatable => exact yields_getmetatable given (ordinary (by simp))
  | ipairsStep => exact yields_ipairsStep given
  | load => exact yields_load given
  | loadfile => exact yields_loadfile given
  | next => exact yields_next given
  | pairs => exact yields_pairs given
  | pcall => exact yields_pcall given
  | xpcall => exact yields_xpcall given
  | rawlen => exact yields_rawlen
  | rawset => exact yields_rawset given (ordinary (by simp))
  | select => exact yields_select given
  | setmetatable => exact yields_setmetatable given (ordinary (by simp))
  | tonumber => exact yields_tonumber given
  | assert =>
      refine (yields_any given 1).bind fun W _ later _ => .ite (.pure (later.shares given)) ?_
      refine yields_raiseAt 1 ?_
      split
      · trivial
      · exact later.shares (shares_get given 2)
  | error =>
      exact (yields_integerOr args 2 _).bind fun W _ later _ =>
        yields_raiseAt _ (later.shares (shares_get given 1))
  | ipairs =>
      exact (yields_any given 1).bind fun _ _ _ shared =>
        .pure (shares_cons trivial (shares_pair shared trivial))
  | rawequal =>
      exact (yields_any given 1).bind fun _ _ later _ =>
        (yields_any (later.shares given) 2).bind fun _ _ _ _ => .pure (shares_singleton trivial)
  | rawget =>
      refine (yields_argsTable given 1).bind fun W id later₁ isOpen => ?_
      refine (yields_any (later₁.shares given) 2).bind fun X key later₂ _ => ?_
      exact .read fun Y h later₃ guards => shares_singleton
        (guards.shares_rawGet_of_key? ((later₂.trans later₃).open isOpen).2 key)
  | tostring =>
      exact (yields_any given 1).bind fun _ _ _ shared => (yields_toText shared).bind
        fun _ _ _ _ => .pure (shares_singleton trivial)
  | type =>
      exact (yields_any given 1).bind fun _ _ _ _ => .pure (shares_singleton trivial)
  | warn => exact (yields_bytes args 1).bind fun _ _ _ _ => .pure shares_nil

/-! ## Coroutines -/

theorem yields_statusOf (id : CoroutineId) : V.Yields (statusOf id) :=
  .ite (Yields.running.bind fun _ _ _ _ => .pure trivial) (.read fun _ _ _ _ => trivial)

theorem yields_coroutineArgument (i : Nat) : V.Yields (coroutineArgument args i) := by
  unfold coroutineArgument
  split
  · exact .pure trivial
  · exact yields_argsFailType args i _

theorem yields_resumeCoroutine (id : CoroutineId) {values : List Value}
    (shared : V.Shares values) : V.Yields (resumeCoroutine id values) := by
  refine (yields_statusOf id).bind fun W status later _ => ?_
  cases status with
  | suspended => exact .resume (later.shares shared)
  | _ => exact .pure trivial

theorem yields_newCoroutine (given : V.Shares args.values) : V.Yields (newCoroutine args) :=
  (yields_callable given 1).bind fun _ _ _ shared =>
    .alter fun _ _ later guards => ⟨guards.newCoroutine (later.shares shared), trivial⟩

theorem yields_closeValues {error : Value} (failed : V.Shares error) {values : List Value}
    (shared : V.Shares values) : V.Yields (closeValues error values) := by
  induction values generalizing V error with
  | nil => exact .pure failed
  | cons v vs ih =>
      have first : V.Shares v := shared v List.mem_cons_self
      have rest : V.Shares vs := fun w member => shared w (List.mem_cons_of_mem v member)
      refine (Yields.read fun W h later guards => guards.shares_metamethod (later.shares first)
        (by decide)).bind fun W m later own => ?_
      refine (Yields.protect (.callBack own (later.shares (shares_pair first failed)))).bind
        fun X result further results => ?_
      have late := later.trans further
      cases result with
      | ok vs => exact ih (late.shares failed) (late.shares rest)
      | error thrown => exact ih (shares_caught results) (late.shares rest)

theorem yields_closeCoroutine : V.Yields (closeCoroutine args) := by
  have closes : ∀ (W : Vault) id, W.Yields (do
      let pending ← fun next => .abandon id next
      let error ← closeValues .nil (pending.filter Value.isTruthy)
      return if error.isNil then [.boolean true] else [.boolean false, error]) := by
    intro W id
    refine (Yields.abandon id).bind fun X values _ shared => ?_
    have none_ : X.Shares Value.nil := trivial
    refine (yields_closeValues none_ fun v member =>
      shared v (List.mem_filter.mp member).1).bind fun Y error _ failed => .pure ?_
    split
    · exact shares_singleton trivial
    · exact shares_pair trivial failed
  refine (yields_coroutineArgument 1).bind fun W id _ _ => ?_
  refine (yields_statusOf id).bind fun X status _ _ => ?_
  cases status with
  | suspended => exact closes X id
  | dead => exact closes X id
  | running => exact .fail _
  | normal => exact .fail _

theorem yields_wrapped {captured values : List Value} (shared : V.Shares values) :
    V.Yields (wrapped captured values) := by
  unfold wrapped
  split
  · refine (yields_resumeCoroutine _ shared).bind fun W result later results => ?_
    split
    · exact .pure results
    · exact yields_raiseAt _ trivial
    · exact .raise results
  · exact .pure shares_nil

theorem yields_coroutine (captured : List Value) (f : CoroutineFunction)
    (given : V.Shares args.values) : V.Yields (coroutine captured f args) := by
  cases f with
  | create => exact (yields_newCoroutine given).bind fun _ _ _ _ => .pure (shares_singleton trivial)
  | close => exact yields_closeCoroutine
  | isyieldable => exact Yields.running.bind fun _ _ _ _ => .pure (shares_singleton trivial)
  | resume =>
      refine (yields_coroutineArgument 1).bind fun W id later _ => ?_
      refine (yields_resumeCoroutine id (later.shares (shares_drop given 1))).bind
        fun _ result _ results => ?_
      cases result with
      | ok vs => exact .pure (shares_cons trivial results)
      | error thrown => exact .pure (shares_pair trivial (shares_caught results))
  | running =>
      refine Yields.running.bind fun _ id? _ _ => ?_
      cases id? <;> exact .pure (shares_pair trivial trivial)
  | status =>
      exact (yields_coroutineArgument 1).bind fun _ id _ _ => (yields_statusOf id).bind
        fun _ _ _ _ => .pure (shares_singleton trivial)
  | wrap =>
      refine (yields_newCoroutine given).bind fun W id _ _ => ?_
      exact (Yields.alter fun _ _ _ guards =>
        ⟨guards.newClosure (c := .native _ _) (shares_singleton (v := .coroutine id) trivial), trivial⟩).bind
          fun _ _ _ _ => .pure (shares_singleton trivial)
  | wrapped => exact yields_wrapped given
  | yield =>
      refine Yields.running.bind fun W id? later _ => ?_
      cases id? with
      | some id => exact .yield (later.shares given)
      | none => exact .raiseText _

/-! ## Modules -/

theorem yields_firstReadable (names : List (List UInt8)) : V.Yields (firstReadable names) := by
  induction names generalizing V with
  | nil => exact .pure trivial
  | cons name names ih =>
      refine (Yields.ask _).bind fun W _ _ _ => ?_
      split
      · exact .pure trivial
      · exact .pure trivial
      · exact ih

theorem yields_searchFiles (name path : List UInt8) : V.Yields (searchFiles name path) := by
  refine (yields_firstReadable _).bind fun W found? _ _ => ?_
  cases found? <;> exact .pure trivial

theorem yields_searchpath : V.Yields (searchpath args) := by
  refine (yields_bytes args 1).bind fun _ _ _ _ => (yields_bytes args 2).bind fun _ _ _ _ =>
    (yields_bytesOr args 3 _).bind fun _ _ _ _ => (yields_bytesOr args 4 _).bind fun _ _ _ _ => ?_
  refine (yields_searchFiles _ _).bind fun _ result _ _ => ?_
  cases result with
  | ok found => exact .pure (shares_singleton trivial)
  | error message => exact .pure (shares_pair trivial trivial)

theorem yields_searchPreload {preload : Value} (shared : V.Shares preload) :
    V.Yields (searchPreload preload args) := by
  refine (yields_bytes args 1).bind fun W name later _ => ?_
  have key : W.Shares (Value.string name) := trivial
  refine (yields_index (later.shares shared) key).bind fun _ loader _ found => ?_
  exact .ite (.pure (shares_singleton trivial)) (.pure (shares_pair found trivial))

theorem yields_searchSource {package : Value} (shared : V.Shares package) :
    V.Yields (searchSource package args) := by
  refine (yields_bytes args 1).bind fun W name later _ => ?_
  have key : W.Shares (Value.ofText "path") := trivial
  refine (yields_index (later.shares shared) key).bind fun X path _ _ => ?_
  split
  · exact .fail _
  · refine (yields_searchFiles _ _).bind fun Y result _ _ => ?_
    cases result with
    | error message => exact .pure (shares_singleton trivial)
    | ok file =>
        refine yields_globalsValue.bind fun Y environment _ global => ?_
        refine (yields_compileFile _ global).bind fun Z result _ compiled => ?_
        cases result with
        | ok f => exact .pure (shares_pair compiled trivial)
        | error message => exact .fail _

theorem yields_findLoader {searchers : TableId} (isOpen : V.Open searchers) (name : ByteArray)
    (fuel : Nat) (messages : String) (i : Nat) :
    V.Yields (findLoader searchers name messages i fuel) := by
  have notFound : ∀ (W : Vault) messages, W.Yields (findLoader.notFound name messages) :=
    fun _ _ => .fail _
  induction fuel generalizing V messages i with
  | zero => exact notFound V messages
  | succ fuel ih =>
      refine (Yields.read fun W h later guards => ?_).bind fun W searcher later shared => ?_
      · exact guards.shares_rawGet (later.open isOpen).2 (.integer (Int64.ofNat i))
      · refine .ite (notFound W _) ?_
        refine (Yields.callBack shared (shares_singleton (v := .string name) trivial)).bind
          fun X found further results => ?_
        have isOpen := further.open (later.open isOpen)
        have both : X.Shares (firstOf found, firstOf (found.drop 1)) :=
          ⟨shares_firstOf results, shares_firstOf (shares_drop results 1)⟩
        split
        · exact .pure both
        · exact .pure both
        · split <;> exact ih isOpen _ _

theorem yields_require {package : Value} (shared : V.Shares package) :
    V.Yields (require package args) := by
  refine (yields_bytes args 1).bind fun W name later₁ _ => ?_
  refine (Yields.read fun X h later guards => ?_).bind fun X loaded later₂ modules => ?_
  · exact guards.rests.loaded
  have key : ∀ Z : Vault, Z.Shares (Value.string name) := fun _ => trivial
  refine (yields_index modules (key X)).bind fun Y present later₃ found => ?_
  refine .ite (.pure (shares_singleton found)) ?_
  have field : Y.Shares (Value.ofText "searchers") := trivial
  refine (yields_index (later₃.shares (later₂.shares (later₁.shares shared))) field).bind
    fun Z searchers later₄ listed => ?_
  have modules := later₄.shares (later₃.shares modules)
  cases searchers with
  | table searchers =>
      refine (Yields.read fun _ _ _ _ => trivial).bind fun Z₁ count later₅ _ => ?_
      refine (yields_findLoader (later₅.open listed) name _ _ _).bind fun Z₂ loader later₆ both => ?_
      refine (Yields.callBack both.1 (shares_pair (v := .string name) trivial both.2)).bind
        fun Z₃ results later₇ returned => ?_
      have modules := later₇.shares (later₆.shares (later₅.shares modules))
      have data : Z₃.Shares loader.2 := later₇.shares (a := loader.2) both.2
      have rest : ∀ W, Z₃.Later W → W.Yields (do
          let stored ← Operation.index {} none loaded (.string name)
          if stored.isNil then
            Operation.assign {} none loaded (.string name) (.boolean true)
            return [.boolean true, loader.2]
          else return [stored, loader.2]) := by
        intro W later
        refine (yields_index (later.shares modules) (key W)).bind fun X stored further found => ?_
        have modules := further.shares (later.shares modules)
        have data := further.shares (later.shares data)
        refine .ite ?_ (.pure (shares_pair found data))
        have isLoaded : X.Shares (Value.boolean true) := trivial
        exact (yields_assign modules (key X) isLoaded).bind
          fun _ _ last _ => .pure (shares_pair trivial (last.shares data))
      refine .ite ?_ (rest Z₃ (.refl Z₃))
      exact (yields_assign modules (key Z₃) (shares_firstOf returned)).bind fun W _ later _ =>
        rest W later
  | _ => exact .fail _

theorem yields_package {captured : List Value} (shared : V.Shares captured) (f : PackageFunction) :
    V.Yields (package captured f args) := by
  cases f with
  | require => exact yields_require (shares_firstOf shared)
  | searchpath => exact yields_searchpath
  | loadlib =>
      unfold package
      exact .failure _
  | searchPreload => exact yields_searchPreload (shares_firstOf shared)
  | searchFiles => exact yields_searchSource (shares_firstOf shared)
  | searchNative => exact .pure (shares_singleton trivial)

/-! ## Dates -/

theorem shares_dateFields (d : Date) : ∀ field ∈ dateFields d, V.Shares field.2 := by
  intro field member
  simp only [dateFields, List.mem_cons, List.not_mem_nil, or_false] at member
  rcases member with rfl | rfl | rfl | rfl | rfl | rfl | rfl | rfl | rfl <;> trivial

theorem yields_assignFields {object : Value} (shared : V.Shares object)
    (fields : List (String × Value)) (values : ∀ field ∈ fields, ∀ W : Vault, W.Shares field.2) :
    V.Yields (assignFields object fields) := by
  induction fields generalizing V with
  | nil => exact .pure trivial
  | cons field fields ih =>
      have first := values field List.mem_cons_self V
      have key : V.Shares (Value.ofText field.1) := trivial
      exact (yields_assign shared key first).bind fun W _ later _ =>
        ih (later.shares shared) fun other member => values other (List.mem_cons_of_mem _ member)

theorem yields_dateField {object : Value} (shared : V.Shares object) (name : String)
    (absent? : Option Int) (base : Int) : V.Yields (dateField object name absent? base) := by
  have key : V.Shares (Value.ofText name) := trivial
  refine (yields_index shared key).bind fun _ _ _ _ => ?_
  split
  · exact .stopIf (.fail _) fun _ _ => .pure trivial
  · refine .stopIf (.fail _) fun _ _ => ?_
    split
    · exact .pure trivial
    · exact .fail _

theorem yields_timeOf (given : V.Shares args.values) : V.Yields (timeOf args) := by
  refine yields_tableThen fun id same => ?_
  have shared : V.Shares (Value.table id) := same ▸ shares_get given 1
  iterate 6
    refine (yields_dateField shared _ _ _).bind fun _ _ later _ => ?_
    replace shared := later.shares shared
  refine (yields_assignFields shared _ fun field member W => shares_dateFields _ field member).bind
    fun _ _ _ _ => .stopIf (.fail _) fun _ _ => .pure (shares_singleton trivial)

theorem yields_date : V.Yields (date args) := by
  refine (yields_bytesOr args 1 _).bind fun _ _ _ _ => (yields_integerOr args 2 _).bind
    fun _ seconds _ _ => ?_
  refine .stopIf (.fail _) fun _ _ => ?_
  refine .ite ?_ ?_
  · have metatable := Table.metatable?_ofEntries (dateFields (Date.ofSeconds seconds.toInt))
    refine (Yields.alter fun W h _ guards => ?_).bind fun _ id _ isOpen =>
      .pure (shares_singleton isOpen)
    exact guards.shares_newTable (shows_ofEntries (shares_dateFields _)) fun m linked => by
      rw [metatable] at linked
      cases linked
  · split
    · exact .pure (shares_singleton trivial)
    · exact yields_argsFail args 1 _

theorem yields_system (f : SystemFunction) (given : V.Shares args.values) :
    V.Yields (system f args) := by
  cases f with
  | difftime =>
      exact (yields_float args 1).bind fun _ _ _ _ => (yields_float args 2).bind fun _ _ _ _ =>
        .pure (shares_singleton trivial)
  | getenv => exact (yields_bytes args 1).bind fun _ _ _ _ => .pure (shares_singleton trivial)
  | absent library name => exact .fail _
  | clock => exact .pure (shares_singleton (v := .float _) trivial)
  | date => exact yields_date
  | time => exact .ite (.pure (shares_singleton (v := .integer _) trivial)) (yields_timeOf given)

/-! ## Functions of the host -/

theorem yields_failureOf {thrown : Thrown} (shared : V.Shares thrown) :
    V.Yields (failureOf thrown) := by
  cases thrown with
  | outOfMemory => exact .pure trivial
  | error v =>
      refine (Yields.read fun _ _ _ _ => trivial).bind fun W failure? later _ => ?_
      cases failure? with
      | some f => exact .pure trivial
      | none =>
          have text : W.Yields (do return [Value.string (← Operation.toText v)]) :=
            (yields_toText (later.shares (a := v) shared)).bind fun _ _ _ _ =>
              .pure (shares_singleton trivial)
          refine (Yields.protect text).bind fun _ result _ _ => ?_
          split <;> exact .pure trivial

theorem yields_hostCall {f : Value} {values : List Value} (function : V.Shares f)
    (shared : V.Shares values) : V.Yields (hostCall f values) := by
  refine (Yields.protect (.callBack function shared)).bind fun W result _ results => ?_
  cases result with
  | ok vs => exact .pure results
  | error thrown => exact (yields_failureOf results).bind fun _ _ _ _ => .failure _

theorem yields_write (bytes : ByteArray) : V.Yields (write bytes) := by
  refine (Yields.ask _).bind fun _ _ _ _ => ?_
  split
  · exact .pure trivial
  · exact .failure _

theorem yields_lineOf {values : List Value} (shared : V.Shares values) :
    V.Yields (lineOf values) := by
  have textOf : ∀ (W : Vault) v, W.Shares v → W.Yields (lineOf.textOf v) := fun W v shared =>
    (yields_hostCall (f := .builtin (.base .tostring)) trivial (shares_singleton shared)).bind
      fun _ _ _ _ => .pure trivial
  induction values generalizing V with
  | nil => exact .pure trivial
  | cons v vs ih =>
      have first : V.Shares v := shared v List.mem_cons_self
      cases vs with
      | nil => exact (textOf V v first).bind fun _ _ _ _ => .pure trivial
      | cons w vs =>
          refine (textOf V v first).bind fun W _ later _ => ?_
          exact (ih (later.shares fun u member => shared u (List.mem_cons_of_mem v member))).bind
            fun _ _ _ _ => .pure trivial

theorem yields_print (given : V.Shares args.values) : V.Yields (print args) :=
  (yields_lineOf given).bind fun _ _ _ _ => (yields_write _).bind fun _ _ _ _ => .pure shares_nil

theorem yields_writeValues (values : List Value) (i : Nat) : V.Yields (writeValues i values) := by
  induction values generalizing V i with
  | nil => exact .pure shares_nil
  | cons v vs ih =>
      unfold writeValues
      cases v with
      | string s => exact (yields_write _).bind fun _ _ _ _ => ih _
      | integer n => exact (yields_write _).bind fun _ _ _ _ => ih _
      | float x => exact (yields_write _).bind fun _ _ _ _ => ih _
      | _ => exact (Refuses.failure _).andThen.yields

theorem yields_textArgument (function? : Option String) (i : Nat) :
    V.Yields (textArgument function? args i) := by
  unfold textArgument
  split
  · exact .pure trivial
  · exact .failure _

theorem yields_self (method : String) : V.Yields (self method args) := by
  unfold self
  dsimp only
  split
  · refine (Yields.read fun _ h _ guards => guards.shares_resource? _).bind fun _ r? _ shared => ?_
    split
    · exact .pure fun id same => shared id (same ▸ rfl)
    · exact .failure _
  · exact .failure _

theorem yields_resultsOf (method : String) : V.Yields (resultsOf method args) := by
  refine (yields_self method).bind fun _ _ _ _ => ?_
  split
  · exact .pure trivial
  · exact .failure _

theorem yields_resultsGet : V.Yields (resultsGet args) := by
  refine (yields_resultsOf _).bind fun _ _ _ _ => (yields_textArgument _ 2).bind fun _ _ _ _ =>
    (Yields.ask _).bind fun _ _ _ _ => ?_
  split
  · exact (yields_jsonValue _).bind fun _ _ _ shared => .pure (shares_singleton shared)
  · exact .pure (shares_singleton trivial)

theorem yields_resultsSet : V.Yields (resultsSet args) := by
  refine (yields_resultsOf _).bind fun _ _ _ _ => (yields_textArgument _ 2).bind fun _ _ _ _ => ?_
  refine .ite ((Yields.ask _).bind fun _ _ _ _ => .pure shares_nil) ?_
  refine (Yields.read fun _ _ _ _ => trivial).bind fun _ _ _ _ => ?_
  split
  · exact (Yields.ask _).bind fun _ _ _ _ => .pure shares_nil
  · exact .failure _

theorem yields_resultsPairs : V.Yields (resultsPairs args) := by
  refine (yields_resultsOf _).bind fun _ _ _ _ => (Yields.ask _).bind fun _ _ _ _ =>
    (yields_jsonValue _).bind fun W snapshot _ shared => ?_
  refine yields_globalsValue.bind fun X global later₁ globals => ?_
  have name : X.Shares (Value.ofText "next") := trivial
  refine (yields_index globals name).bind fun Y next later₂ found => ?_
  have shared := later₂.shares (later₁.shares shared)
  split
  · exact .pure (shares_cons found (shares_pair shared trivial))
  · exact .pure (shares_cons found (shares_pair shared trivial))
  · exact .failure _

theorem yields_managerOf (method : String) : V.Yields (managerOf method args) := by
  refine (yields_self method).bind fun _ _ _ shared => ?_
  split
  · exact .pure fun id same => shared id (same ▸ rfl)
  · exact .failure _

theorem yields_contextGet : V.Yields (contextGet args) := by
  have unknown : ∀ (W : Vault) name, W.Yields (contextGet.unknown name) := fun _ _ => .failure _
  refine (yields_self _).bind fun W _ _ _ => ?_
  split
  · refine .ite ?_ (unknown _ _)
    refine (Yields.ask _).bind fun X _ _ _ => ?_
    split
    · exact .pure (shares_singleton trivial)
    · exact .pure (shares_singleton trivial)
    · exact .pure (shares_singleton trivial)
    · exact (yields_newList (shares_texts _)).bind fun _ id _ isOpen =>
        .pure (shares_singleton (v := .table id) isOpen)
  · split <;> exact unknown _ _

theorem yields_answer {α : Type} [Disclosed α] {answer? : Option α}
    (shared : ∀ a, answer? = some a → V.Shares a) : V.Yields (answer answer?) := by
  unfold answer
  split
  · exact .pure (shared _ rfl)
  · exact .failure _

theorem yields_managerIndex : V.Yields (managerIndex args) := by
  unfold managerIndex
  split
  · dsimp only
    repeat' split
    all_goals exact .pure (shares_singleton trivial)
  · exact .pure (shares_singleton trivial)

/-- A global that the host lets scripts assign has not the name of a binding. -/
theorem yields_guardAssignment (given : V.Shares args.values) :
    V.Yields (guardAssignment Binding.names args) := by
  have target := shares_get given 1
  have sharedKey := shares_get given 2
  have sharedValue := shares_get given 3
  unfold guardAssignment
  generalize args.get 1 = object at target
  generalize args.get 2 = key at sharedKey
  cases object with
  | table id =>
      dsimp only
      split
      · exact .failure _
      · rename_i free
        split
        · rename_i k found
          refine (Yields.modify fun W h later guards => ?_).bind fun _ _ _ _ => .pure shares_nil
          refine guards.rawSet (later.open target) (shares_key (later.shares sharedKey) found)
            (later.shares sharedValue) ?_
          rintro - - binding rfl
          obtain rfl := Value.eq_string_of_key? found
          have listed : Binding.names.contains binding.name = true :=
            List.contains_iff_mem.mpr (List.mem_map_of_mem (Binding.mem_all binding))
          dsimp only at free
          rw [show String.fromUTF8? binding.name.toUTF8 = some binding.name from
            fromUTF8?_toByteArray binding.name, Option.filter_some, if_pos listed] at free
          cases free
        · exact .failure _
  | _ => exact .failure _

theorem yields_host (f : HostFunction) (given : V.Shares args.values) :
    V.Yields (host Binding.names f args) := by
  cases f with
  | print => exact yields_print given
  | write => exact yields_writeValues _ _
  | log =>
      exact (yields_textArgument _ 1).bind fun _ _ _ _ => (yields_textArgument _ 2).bind
        fun _ _ _ _ => .pure shares_nil
  | isAbsent => exact .pure (shares_singleton (v := .boolean _) trivial)
  | guardAssignment => exact yields_guardAssignment given
  | resultsGet => exact yields_resultsGet
  | resultsSet => exact yields_resultsSet
  | resultsCount =>
      exact (yields_resultsOf _).bind fun _ _ _ _ => (Yields.ask _).bind fun _ _ _ _ =>
        .pure (shares_singleton trivial)
  | resultsPairs => exact yields_resultsPairs
  | managerIndex => exact yields_managerIndex
  | managerCachedKeys =>
      refine (yields_managerOf _).bind fun _ id? _ handle =>
        (Yields.ask (.cachedKeys id?) handle).bind fun _ _ _ _ => ?_
      exact (yields_answer (α := List String) fun _ _ => trivial).bind fun _ _ _ _ =>
        (yields_newList (shares_texts _)).bind fun _ id _ isOpen =>
          .pure (shares_singleton (v := .table id) isOpen)
  | managerIsCached =>
      refine (yields_managerOf _).bind fun _ id? _ handle =>
        (yields_textArgument _ 2).bind fun W key later _ => ?_
      have granted : W.Grants (.isCached id? key) := later.shares (a := id?) handle
      exact (Yields.ask _ granted).bind fun _ _ _ _ =>
        (yields_answer (α := Bool) fun _ _ => trivial).bind fun _ _ _ _ =>
          .pure (shares_singleton trivial)
  | managerClear =>
      refine (yields_managerOf _).bind fun _ id? _ handle =>
        (Yields.ask (.clearEngines id?) handle).bind fun _ _ _ _ => ?_
      exact (yields_answer (α := Nat) fun _ _ => trivial).bind fun _ _ _ _ =>
        .pure (shares_singleton trivial)
  | contextGet => exact yields_contextGet
  | failureText =>
      unfold host
      dsimp only
      split
      · refine (Yields.read fun _ _ _ guards => guards.shares_resource? _).bind fun _ _ _ _ => ?_
        split <;> exact .pure (shares_singleton trivial)
      · exact .pure (shares_singleton trivial)
  | callback i =>
      exact (Yields.ask _).bind fun _ _ _ _ => .pure (shares_singleton trivial)

end Vault

/-- Functions that get, set or circumvent the metatable of their first argument. -/
def Builtin.handlesMetatable : Builtin → Bool
  | .base .getmetatable | .base .setmetatable | .base .rawset => true
  | _ => false

theorem Vault.safe_run {V : Vault} (callee : Value) (f : Builtin) {captured args : List Value}
    (held : V.Shares captured) (given : V.Shares args)
    (ordinary : f.handlesMetatable → V.tended → firstOf args ≠ .table V.globals) :
    V.Safe (Library.run Host.setting callee f captured args) := by
  refine Yields.run ?_
  cases f with
  | base f =>
      refine yields_base f given ?_
      have first : ∀ name, (⟨name, args⟩ : Arguments).get 1 = firstOf args := by
        intro name
        cases args <;> rfl
      rintro (rfl | rfl | rfl) <;> exact first _ ▸ ordinary rfl
  | string f => exact yields_string callee captured f given
  | table f => exact yields_table f given
  | math f => exact yields_math f given
  | utf8 f => exact yields_utf8 f
  | coroutine f => exact yields_coroutine captured f given
  | package f => exact yields_package held f
  | system f => exact yields_system f given
  | host f => exact yields_host f given

end ScriptHost.Lua
