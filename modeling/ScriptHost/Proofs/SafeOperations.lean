import ScriptHost.Lua.Library.Arguments
import ScriptHost.Proofs.FieldAccess
import ScriptHost.Proofs.Safety

/-!
# Operations that keep secrets

Reading a global may lead through the secret tables, but it only gives what stands in a scope.
Assigning one may not, as the metatable of the globals has the host decide.
-/

set_option autoImplicit false

namespace ScriptHost.Lua.Vault

variable {α : Type} [Disclosed α] {V W : Vault} {h : Heap} {place : Place} {label? : Option Label}

theorem yields_placeFail (message : String) : V.Yields (place.fail message : Eval α) :=
  .raiseText _

theorem yields_failType (operation : String) (value : Value) :
    V.Yields (place.failType operation value label? : Eval α) :=
  (Yields.read fun _ _ _ _ => trivial).bind fun _ _ _ _ => yields_placeFail _

/-! ## Indexing -/

/-- A value that may be indexed: one that scripts may hold, or a scope. -/
def Answers (V : Vault) (object : Value) : Prop :=
  V.Shares object ∨ ∃ scope, object = .table scope ∧ V.scope scope

theorem Answers.mono {object : Value} (answers : V.Answers object) (later : V.Later W) :
    W.Answers object := by
  rcases answers with shared | ⟨scope, rfl, known⟩
  · exact .inl (later.shares shared)
  · exact .inr ⟨scope, rfl, later.scope scope known⟩

/-- What may come of looking something up in an object. -/
def Found (V : Vault) (object : Value) : Operation.Access → Prop
  | .found v => V.Shares v
  | .handler f => V.Shares f ∧ V.Shares object
  | .forward other => V.Answers other
  | .refused => True

theorem found_ofMetamethod {object m : Value} (shared : V.Shares object) (own : V.Shares m) :
    V.Found object (.ofMetamethod m) := by
  cases m with
  | closure id => exact ⟨trivial, shared⟩
  | builtin f => exact ⟨trivial, shared⟩
  | _ => exact .inl own

namespace Guards

theorem shares_rawGet_of_key? (guards : V.Guards h) {id : TableId} (isOpen : ¬ V.Secret id)
    (key : Value) : V.Shares ((key.key?.map (h.rawGet id)).getD .nil) := by
  cases key.key? with
  | none => trivial
  | some k => exact guards.shares_rawGet isOpen k

/-- What an object answers by the metamethod for fields that it does not have. -/
theorem found_index (guards : V.Guards h) {object : Value} (shared : V.Shares object)
    {absent : Operation.Access} (otherwise : V.Found object absent) :
    V.Found object (if (h.metamethod object "__index").isNil then absent
      else .ofMetamethod (h.metamethod object "__index")) := by
  split
  · exact otherwise
  · cases object with
    | table id =>
        simp only [Heap.metamethod, Heap.metatable?]
        cases linked : (h.table id).metatable? with
        | none => exact .inl trivial
        | some m =>
            by_cases here : V.tended ∧ id = V.globals
            · rw [here.2, guards.link here.1] at linked
              rcases (guards.lookup m linked).index with nil | ⟨scope, found, known⟩
              · simp only [nil]
                exact .inl trivial
              · simp only [found]
                exact .inr ⟨scope, rfl, known⟩
            · exact found_ofMetamethod shared
                (guards.shares_rawGet (guards.metatable id m shared.2 (not_and.mp here) linked).2 _)
    | string s =>
        simp only [Heap.metamethod, Heap.metatable?]
        cases linked : h.stringMetatable? with
        | none => exact .inl trivial
        | some m =>
            exact found_ofMetamethod shared (guards.shares_rawGet (guards.rests.strings m linked).2 _)
    | userdata id =>
        simp only [Heap.metamethod]
        cases h.resource? id with
        | none => exact .inl trivial
        | some r => cases r <;> exact found_ofMetamethod shared trivial
    | _ => exact .inl trivial

theorem found_lookUp (guards : V.Guards h) {object key : Value} (answers : V.Answers object) :
    V.Found object (Operation.lookUp h object key) := by
  rcases answers with shared | ⟨scope, rfl, known⟩
  · unfold Operation.lookUp
    cases object with
    | table id =>
        dsimp only
        split
        · exact guards.found_index shared trivial
        · exact guards.shares_rawGet_of_key? shared.2 key
    | _ => exact guards.found_index shared trivial
  · have plain := guards.plain scope (.inr known)
    have shared : V.Shares ((key.key?.map (h.rawGet scope)).getD .nil) := by
      cases key.key? with
      | none => trivial
      | some k => exact (guards.scope scope known).2 k
    unfold Operation.lookUp
    simp only [Heap.metamethod, Heap.metatable?, plain]
    split
    · exact trivial
    · exact shared

end Guards

theorem yields_indexWithin (key : Value) (shared : V.Shares key) (fuel : Nat) (object : Value)
    (label? : Option Label) (answers : V.Answers object) :
    V.Yields (Operation.indexWithin place label? object key fuel) := by
  induction fuel generalizing V object label? with
  | zero => exact yields_placeFail _
  | succ fuel ih =>
      refine Yields.readThen fun W h later guards next continues => ?_
      have found : W.Found object (Operation.lookUp h object key) :=
        guards.found_lookUp (answers.mono later)
      cases access : Operation.lookUp h object key with
      | found v =>
          rw [access] at found
          exact (Yields.pure found) W next (.refl W) continues
      | handler f =>
          rw [access] at found
          exact ((Yields.call found.1 (shares_pair found.2 (later.shares shared))).bind
            fun _ _ _ results => .pure (shares_firstOf results)) W next (.refl W) continues
      | forward other =>
          rw [access] at found
          exact (ih (later.shares shared) other none found) W next (.refl W) continues
      | refused => exact yields_failType (α := Value) _ _ W next (.refl W) continues

theorem yields_index {object key : Value} (shared : V.Shares object) (sharedKey : V.Shares key) :
    V.Yields (Operation.index place label? object key) :=
  yields_indexWithin key sharedKey _ object label? (.inl shared)

/-! ## Assignment -/

/-- What may come of looking for the place of an assignment. A global that is assigned without
the host has not the name of a binding. -/
def Targets (V : Vault) (object key : Value) : Operation.Access → Prop
  | .found _ => ∀ id k, object = .table id → key.key? = some k → Guards.Assignable V id k
  | .handler f => V.Shares f
  | .forward other => V.Shares other
  | .refused => True

theorem Guards.targets_lookUpTarget (guards : V.Guards h) {object key : Value}
    (shared : V.Shares object) :
    V.Targets object key (Operation.lookUpTarget h object key) := by
  have other : V.Shares (h.metamethod object "__newindex") :=
    guards.shares_metamethod shared (by decide)
  have handled : ∀ m, V.Shares m → V.Targets object key (.ofMetamethod m) := by
    intro m own
    cases m with
    | closure id => exact trivial
    | builtin f => exact trivial
    | _ => exact own
  have viaMetamethod : ∀ absent, V.Targets object key absent →
      V.Targets object key (if (h.metamethod object "__newindex").isNil then absent
        else .ofMetamethod (h.metamethod object "__newindex")) := by
    intro absent otherwise
    split
    · exact otherwise
    · exact handled _ other
  unfold Operation.lookUpTarget
  cases object with
  | table id =>
      dsimp only
      split
      · rename_i absent
        split
        · rename_i unlinked
          intro _ k same found
          obtain rfl := Value.table.inj same
          rintro rfl linked
          -- the metatable of the globals would have answered
          cases installed : V.lookup? with
          | none => exact absurd installed linked
          | some m =>
              have link := guards.link (guards.tends linked)
              rw [installed] at link
              rw [metamethod_of_metatable?_eq_some link,
                (guards.lookup m installed).newindex] at unlinked
              cases unlinked
        · exact handled _ other
      · rename_i live
        intro _ k same found
        obtain rfl := Value.table.inj same
        rintro rfl linked binding rfl
        have nil := guards.unshadowed linked binding
        rw [guards.globals] at nil
        simp only [found, Option.map_some, Option.getD_some] at live
        rw [show h.rawGet V.globals (.ofText binding.name) = .nil from nil] at live
        exact live rfl
  | _ => exact viaMetamethod _ trivial

theorem yields_assignRaw {id : TableId} {key value : Value} (isOpen : V.Open id)
    (sharedKey : V.Shares key) (sharedValue : V.Shares value)
    (ordinary : V.tended → id ≠ V.globals) :
    V.Yields (Operation.assignRaw place id key value) := by
  unfold Operation.assignRaw
  cases found : key.key? with
  | none => exact yields_placeFail _
  | some k =>
      refine .modify fun W h later guards => ?_
      refine guards.rawSet (later.open isOpen) (shares_key (later.shares sharedKey) found)
        (later.shares sharedValue) fun same linked => ?_
      exact absurd (same.trans later.globals) (ordinary (later.tended.mp (guards.tends linked)))

/-- As long as the globals have the same metatable, an assignment that has been allowed is. -/
theorem safe_assignRaw {id : TableId} {key value : Value} (isOpen : V.Open id)
    (sharedKey : V.Shares key) (sharedValue : V.Shares value)
    (assignable : ∀ k, key.key? = some k → Guards.Assignable V id k) {next : Unit → Action}
    (continues : ∀ W a, V.Later W → W.Shares a → W.Safe (next a)) :
    V.Safe (Operation.assignRaw place id key value next) := by
  unfold Operation.assignRaw
  cases found : key.key? with
  | none => exact (yields_placeFail (α := Unit) _) V next (.refl V) continues
  | some k =>
      have passes : ∀ W h, V.Near W → W.Guards h → W.Passes h (h.rawSet id k value) := by
        intro W h near guards
        have later := near.toLater
        refine guards.rawSet (later.open isOpen) (shares_key (later.shares sharedKey) found)
          (later.shares sharedValue) ?_
        intro same linked
        rw [near.same] at linked
        exact assignable k found (same.trans later.globals) linked
      refine .heap passes fun W h near guards => ?_
      exact continues _ _ (near.toLater.trans (guards.later (passes W h near guards))) trivial

theorem yields_assignWithin (key value : Value) (sharedKey : V.Shares key)
    (sharedValue : V.Shares value) (fuel : Nat) (object : Value) (label? : Option Label)
    (shared : V.Shares object) :
    V.Yields (Operation.assignWithin place label? object key value fuel) := by
  induction fuel generalizing V object label? with
  | zero => exact yields_placeFail _
  | succ fuel ih =>
      refine Yields.readThen fun W h later guards next continues => ?_
      have target : W.Targets object key (Operation.lookUpTarget h object key) :=
        guards.targets_lookUpTarget (later.shares shared)
      have object' := later.shares shared
      have key' := later.shares sharedKey
      have value' := later.shares sharedValue
      cases access : Operation.lookUpTarget h object key with
      | found v =>
          rw [access] at target
          cases object with
          | table id =>
              exact safe_assignRaw object' key' value' (fun k found => target id k rfl found)
                continues
          | _ => exact continues W () (.refl W) trivial
      | handler f =>
          rw [access] at target
          exact ((Yields.call target (shares_cons object' (shares_pair key' value'))).bind
            fun _ _ _ _ => .pure (a := ()) trivial) W next (.refl W) continues
      | forward other =>
          rw [access] at target
          exact (ih key' value' other none target) W next (.refl W) continues
      | refused => exact yields_failType (α := Unit) _ _ W next (.refl W) continues

theorem yields_assign {object key value : Value} (shared : V.Shares object)
    (sharedKey : V.Shares key) (sharedValue : V.Shares value) :
    V.Yields (Operation.assign place label? object key value) :=
  yields_assignWithin key value sharedKey sharedValue _ object label? shared

/-! ## Arithmetic, strings and comparison -/

theorem shares_number (n : Number) : V.Shares n.value := by
  cases n <;> trivial

theorem Guards.shares_binaryMetamethod (guards : V.Guards h) {a b : Value} (first : V.Shares a)
    (second : V.Shares b) {event : String} (other : event ≠ "__index") :
    V.Shares (Operation.binaryMetamethod h event a b) := by
  unfold Operation.binaryMetamethod
  dsimp only
  split
  · exact guards.shares_metamethod second other
  · exact guards.shares_metamethod first other

theorem yields_callMetamethod {site : Site} {m a b : Value} (own : V.Shares m) (first : V.Shares a)
    (second : V.Shares b) {f : List Value → α}
    (result : ∀ W values, V.Later W → W.Shares values → W.Shares (f values)) :
    V.Yields (Eval.call site m [a, b] >>= fun values => Pure.pure (f values)) :=
  (Yields.call own (shares_pair first second)).bind fun W values later shared =>
    .pure (result W values later shared)

theorem event_ne (op : ArithOp) : "__" ++ Operation.eventOf op ≠ "__index" := by
  cases op <;> decide

theorem yields_failInteger (label? : Option Label) : V.Yields (Operation.failInteger place label?) :=
  yields_placeFail _

theorem yields_arithByMetamethod (op : ArithOp) (labels : Option Label × Option Label)
    {a b : Value} (first : V.Shares a) (second : V.Shares b) :
    V.Yields (Operation.arithByMetamethod place op labels a b) := by
  unfold Operation.arithByMetamethod
  refine (Yields.read fun W h later guards => guards.shares_binaryMetamethod
    (later.shares first) (later.shares second) (event_ne op)).bind fun W m later own => ?_
  split
  · exact yields_callMetamethod own (later.shares first) (later.shares second)
      fun _ _ _ => shares_firstOf
  · repeat' split
    all_goals first | exact yields_failInteger _ | exact yields_failType _ _

theorem yields_arith (op : ArithOp) (labels : Option Label × Option Label) {a b : Value}
    (first : V.Shares a) (second : V.Shares b) :
    V.Yields (Operation.arith place op labels a b) := by
  unfold Operation.arith
  split
  · split
    · exact .pure (shares_number _)
    · exact yields_arithByMetamethod op labels first second
    · exact yields_placeFail _
  · exact yields_arithByMetamethod op labels first second

theorem yields_negate {v : Value} (shared : V.Shares v) :
    V.Yields (Operation.negate place label? v) := by
  unfold Operation.negate
  split
  · exact .pure (shares_number _)
  · refine (Yields.read fun W h later guards => guards.shares_metamethod (later.shares shared)
      (by decide)).bind fun W m later own => ?_
    split
    · exact yields_failType _ _
    · exact yields_callMetamethod own (later.shares shared) (later.shares shared)
        fun _ _ _ => shares_firstOf

theorem yields_bitNot {v : Value} (shared : V.Shares v) :
    V.Yields (Operation.bitNot place label? v) := by
  unfold Operation.bitNot
  split
  · exact .pure trivial
  · refine (Yields.read fun W h later guards => guards.shares_metamethod (later.shares shared)
      (by decide)).bind fun W m later own => ?_
    split
    · exact yields_callMetamethod own (later.shares shared) (later.shares shared)
        fun _ _ _ => shares_firstOf
    · split
      · exact yields_failInteger _
      · exact yields_failType _ _

theorem yields_concat (labels : Option Label × Option Label) {a b : Value} (first : V.Shares a)
    (second : V.Shares b) : V.Yields (Operation.concat place labels a b) := by
  unfold Operation.concat
  split
  · split
    · exact (Yields.reserve _).bind fun _ _ _ _ => .pure trivial
    · exact .pure trivial
  · refine (Yields.read fun W h later guards => guards.shares_binaryMetamethod
      (later.shares first) (later.shares second) (by decide)).bind fun W m later own => ?_
    split
    · exact yields_callMetamethod own (later.shares first) (later.shares second)
        fun _ _ _ => shares_firstOf
    · split <;> exact yields_failType _ _

theorem yields_length {v : Value} (shared : V.Shares v) :
    V.Yields (Operation.length place label? v) := by
  unfold Operation.length
  split
  · exact .pure trivial
  · refine (Yields.read fun W h later guards => guards.shares_metamethod (later.shares shared)
      (by decide)).bind fun W m later own => ?_
    split
    · exact yields_callMetamethod own (later.shares shared) (later.shares shared)
        fun _ _ _ => shares_firstOf
    · split
      · exact (Yields.read fun _ _ _ _ => trivial).bind fun _ _ _ _ => .pure trivial
      · exact yields_failType _ _

theorem yields_equal {a b : Value} (first : V.Shares a) (second : V.Shares b) :
    V.Yields (Operation.equal place a b) := by
  have compared : V.Yields (do
      let m ← Eval.read fun h => Operation.binaryMetamethod h "__eq" a b
      if m.isNil then return false
      else return (firstOf (← Eval.call (place.site "eq") m [a, b])).isTruthy) := by
    refine (Yields.read fun W h later guards => guards.shares_binaryMetamethod
      (later.shares first) (later.shares second) (by decide)).bind fun W m later own => ?_
    split
    · exact .pure trivial
    · exact yields_callMetamethod own (later.shares first) (later.shares second)
        fun _ _ _ _ => trivial
  unfold Operation.equal
  split
  · exact .pure trivial
  · split
    · exact compared
    · exact compared
    · exact .pure trivial

theorem yields_failOrder (a b : Value) : V.Yields (Operation.failOrder place a b : Eval α) :=
  (Yields.read fun _ _ _ _ => trivial).bind fun _ _ _ _ =>
    Yields.ite (yields_placeFail _) (yields_placeFail _)

theorem yields_order {event : String} (other : "__" ++ event ≠ "__index")
    (onNumbers : Number → Number → Bool) (onStrings : List UInt8 → List UInt8 → Bool)
    {a b : Value} (first : V.Shares a) (second : V.Shares b) :
    V.Yields (Operation.order place event onNumbers onStrings a b) := by
  unfold Operation.order
  split
  · exact .pure trivial
  · split
    · exact .pure trivial
    · refine (Yields.read fun W h later guards => guards.shares_binaryMetamethod
        (later.shares first) (later.shares second) other).bind fun W m later own => ?_
      split
      · exact yields_failOrder _ _
      · exact yields_callMetamethod own (later.shares first) (later.shares second)
          fun _ _ _ _ => trivial

theorem yields_less {a b : Value} (first : V.Shares a) (second : V.Shares b) :
    V.Yields (Operation.less place a b) :=
  have other : "__" ++ "lt" ≠ "__index" := by decide
  yields_order other Number.less Operation.bytesLess first second

theorem yields_lessEqual {a b : Value} (first : V.Shares a) (second : V.Shares b) :
    V.Yields (Operation.lessEqual place a b) :=
  have other : "__" ++ "le" ≠ "__index" := by decide
  yields_order other Number.lessEqual (fun x y => !Operation.bytesLess y x) first second

theorem yields_compare (op : CompareOp) {a b : Value} (first : V.Shares a) (second : V.Shares b) :
    V.Yields (Operation.compare place op a b) := by
  cases op with
  | equal => exact yields_equal first second
  | unequal => exact (yields_equal first second).bind fun _ _ _ _ => .pure trivial
  | less => exact yields_less first second
  | lessEqual => exact yields_lessEqual first second
  | greater => exact yields_less second first
  | greaterEqual => exact yields_lessEqual second first

theorem yields_toText {v : Value} (shared : V.Shares v) : V.Yields (Operation.toText v) := by
  unfold Operation.toText
  refine (Yields.read fun W h later guards => guards.shares_metamethod (later.shares shared)
    (by decide)).bind fun W m later own => ?_
  split
  · exact .read fun _ _ _ _ => trivial
  · refine (Yields.callBack own (shares_singleton (later.shares shared))).bind fun _ _ _ _ => ?_
    split
    · exact .pure trivial
    · split
      · exact .pure trivial
      · exact .fail _

/-! ## Arguments -/

section

variable (args : Arguments) (i : Nat)

theorem shares_get {args : Arguments} (given : V.Shares args.values) (i : Nat) :
    V.Shares (args.get i) :=
  shares_getD given _

omit [Disclosed α] in
theorem refuses_argsFail (message : String) : V.Refuses (args.fail i message : Eval α) := by
  refine .after .sites fun W _ _ _ => ?_
  dsimp only
  split
  · split <;> exact .fail _
  · exact .fail _

theorem yields_argsFail (message : String) : V.Yields (args.fail i message : Eval α) :=
  (refuses_argsFail args i message).yields

theorem yields_typeName : V.Yields (args.typeName i) := by
  unfold Arguments.typeName
  split
  · exact .pure trivial
  · split
    · exact .pure trivial
    · exact .read fun _ _ _ _ => trivial

omit [Disclosed α] in
theorem refuses_argsFailType (expected : String) :
    V.Refuses (args.failType i expected : Eval α) :=
  .after (yields_typeName args i) fun _ _ _ _ => refuses_argsFail _ _ _

theorem yields_argsFailType (expected : String) : V.Yields (args.failType i expected : Eval α) :=
  (refuses_argsFailType args i expected).yields

theorem yields_any {args : Arguments} (given : V.Shares args.values) (i : Nat) :
    V.Yields (args.any i) :=
  .ite (yields_argsFail _ _ _) (.pure (shares_get given i))

theorem yields_argsTable {args : Arguments} (given : V.Shares args.values) (i : Nat) :
    V.Yields (args.table i) := by
  have shared := shares_get given i
  unfold Arguments.table
  split
  · rename_i id same
    rw [same] at shared
    exact .pure (a := id) shared
  · exact yields_argsFailType _ _ _

/-- What is done with an argument may depend on which one it is. -/
theorem yields_anyThen {args : Arguments} {i : Nat} {f : Value → Eval α}
    (rest : V.Yields (f (args.get i))) : V.Yields (args.any i >>= f) := by
  unfold Arguments.any
  split
  · exact (refuses_argsFail args i _).andThen.yields
  · exact rest

theorem yields_tableThen {args : Arguments} {i : Nat} {f : TableId → Eval α}
    (rest : ∀ id, args.get i = .table id → V.Yields (f id)) : V.Yields (args.table i >>= f) := by
  unfold Arguments.table
  split
  · rename_i id same
    exact rest id same
  · exact (refuses_argsFailType args i _).andThen.yields

theorem yields_callable {args : Arguments} (given : V.Shares args.values) (i : Nat) :
    V.Yields (args.callable i) :=
  .ite (.pure (shares_get given i)) (yields_argsFailType _ _ _)

theorem yields_number : V.Yields (args.number i) := by
  unfold Arguments.number
  split
  · exact .pure trivial
  · exact yields_argsFailType _ _ _

theorem yields_float : V.Yields (args.float i) :=
  (yields_number args i).bind fun _ _ _ _ => .pure trivial

theorem yields_integer : V.Yields (args.integer i) := by
  refine (yields_number args i).bind fun _ _ _ _ => ?_
  split
  · exact .pure trivial
  · exact yields_argsFail _ _ _

theorem yields_integerOr (absent : Int64) : V.Yields (args.integerOr i absent) :=
  .ite (.pure trivial) (yields_integer args i)

theorem yields_bytes : V.Yields (args.bytes i) := by
  unfold Arguments.bytes
  split
  · exact .pure trivial
  · exact yields_argsFailType _ _ _

theorem yields_bytesOr (absent : ByteArray) : V.Yields (args.bytesOr i absent) :=
  .ite (.pure trivial) (yields_bytes args i)

theorem yields_check (condition : Bool) (message : String) :
    V.Yields (args.check i condition message) := by
  unfold Arguments.check
  split
  · exact yields_argsFail _ _ _
  · exact .pure trivial

end

end ScriptHost.Lua.Vault
