import ScriptHost.Lua.Evaluate
import ScriptHost.Proofs.SafeTables

/-!
# Programs keep secrets

Whatever a program does is safe when it is called with nothing secret. The proofs follow the
syntax: expressions first, then assignments, loops and statements.
-/

set_option autoImplicit false

namespace ScriptHost.Lua.Vault

open Activation

variable {V W : Vault} {h : Heap} {α : Type} [Disclosed α]

theorem shares_adjust {values : List Value} (shared : V.Shares values) (n : Nat) :
    V.Shares (adjust n values) := by
  induction n generalizing values with
  | zero => exact shares_nil
  | succ n ih =>
      cases values with
      | nil => exact shares_cons trivial (ih shares_nil)
      | cons v vs =>
          exact shares_cons (shared v List.mem_cons_self)
            (ih fun w member => shared w (List.mem_cons_of_mem v member))

theorem yields_makeFunction (a : Activation) (locals : Locals) (i : Nat) :
    V.Yields (a.makeFunction locals i) :=
  (Yields.alter fun _ _ _ guards => ⟨guards.newClosure (c := .script _ _ _) trivial, trivial⟩).bind
    fun _ _ _ _ => .pure trivial

/-! ## Constructors -/

/-- A table that is made is not that of the globals. -/
theorem yields_newTableThen {t : Table} (shows_ : ∀ W : Vault, W.Shows t)
    (plain : t.metatable? = none) {rest : TableId → Eval α}
    (continues : ∀ W id, V.Later W → W.Open id → id ≠ W.globals → W.Yields (rest id)) :
    V.Yields (Eval.alter (fun h => h.newTable t) >>= rest) := by
  intro W next later last
  have passes : ∀ X h, W.Near X → X.Guards h → X.Passes h (h.newTable t).2 :=
    fun X h _ guards => guards.newTable (shows_ X) fun m linked => by
      rw [plain] at linked
      cases linked
  refine .heap passes fun X h near guards => ?_
  have further := near.toLater.trans (guards.later (passes X h near guards))
  refine continues _ _ (later.trans further) (guards.open_new t) ?_ _ next (.refl _)
    fun Y b final => last Y b (further.trans final)
  intro same
  have present : (X.on (h.newTable t).2).globals.index < X.size := guards.open_globals.1
  rw [← same, ← guards.size] at present
  exact Nat.lt_irrefl _ present

theorem shows_tableFor (fields : List Field) (V : Vault) : V.Shows (tableFor fields) := by
  unfold tableFor
  split
  split <;> exact shows_withRoom V _ _

theorem metatable?_tableFor (fields : List Field) : (tableFor fields).metatable? = none := by
  unfold tableFor
  split
  split <;> rfl

theorem yields_storeItems {id : TableId} (isOpen : V.Open id) (other : id ≠ V.globals)
    {items : List Value} (shared : V.Shares items) : V.Yields (storeItems id items) := by
  refine .modify fun W h later guards => ?_
  have isOpen := later.open isOpen
  have other : id ≠ W.globals := later.globals ▸ other
  replace shared := later.shares shared
  have stores : ∀ (i : Nat) (h : Heap), W.Guards h → W.Passes h
      ((items.zipIdx i).foldl
        (fun h entry => h.rawSet id (.integer (Int64.ofNat (entry.2 + 1))) entry.1) h) := by
    clear later guards
    induction items with
    | nil => exact fun _ _ guards => .refl guards
    | cons v items ih =>
        intro i h guards
        have first : W.Passes h (h.rawSet id (.integer (Int64.ofNat (i + 1))) v) :=
          guards.rawSet isOpen trivial (shared v List.mem_cons_self) fun same => absurd same other
        have same : W.on (h.rawSet id (.integer (Int64.ofNat (i + 1))) v) = W :=
          guards.on_of_size (Heap.size_tables_rawSet ..)
        have next := first.guards
        rw [same] at next
        refine first.trans ?_
        rw [same]
        exact ih (fun w member => shared w (List.mem_cons_of_mem v member)) (i + 1) _ next
  have laid : W.Passes h (h.modifyTable id fun t =>
      if t.arraySize < items.length then t.relayout items.length t.capacity else t) := by
    refine guards.modifyTable (f := fun t =>
      if t.arraySize < items.length then t.relayout items.length t.capacity else t) isOpen h.used
      ?_ (.inl ?_) fun same => absurd same other
    · intro k live
      have same : ∀ t : Table, Table.get (if t.arraySize < items.length then
          t.relayout items.length t.capacity else t) k = t.get k := by
        intro t
        split
        · exact Table.get_relayout ..
        · rfl
      rw [same] at live ⊢
      exact guards.shows id isOpen.2 k live
    · split <;> rfl
  have same := guards.on_of_size (Heap.size_tables_modifyTable h id fun t =>
    if t.arraySize < items.length then t.relayout items.length t.capacity else t)
  have next := laid.guards
  rw [same] at next
  refine laid.trans ?_
  rw [same]
  exact stores 0 _ next

/-! ## Expressions -/

theorem yields_operands (left : Expr) {x y : Eval (List Value)} (first : V.Yields x)
    (second : V.Yields y) : V.Yields (operands left x y) := by
  unfold operands
  split
  · exact second.bind fun W ys later shared => (first.mono later).bind fun X xs further shared' =>
      .pure ⟨shares_firstOf shared', shares_firstOf (further.shares shared)⟩
  · exact first.bind fun W xs later shared => (second.mono later).bind fun X ys further shared' =>
      .pure ⟨shares_firstOf (further.shares shared), shares_firstOf shared'⟩

theorem yields_one {m : Eval Value} (yields : V.Yields m) : V.Yields (do return [← m]) :=
  yields.bind fun _ _ _ shared => .pure (shares_singleton shared)

theorem yields_field {place : Place} {label? : Option Label} {object : Value}
    (shared : V.Shares object) (name : ByteArray) :
    V.Yields (Operation.index place label? object (.string name)) :=
  have key : V.Shares (Value.string name) := trivial
  yields_index shared key

section

variable (a : Activation) (locals : Locals)

mutual

theorem yields_values : ∀ {V : Vault} (e : Expr), V.Shares a.varargs →
    V.Yields (a.values locals e)
  | _, .nil, _ => .pure (shares_singleton trivial)
  | _, .boolean b, _ => .pure (shares_singleton trivial)
  | _, .integer n, _ => .pure (shares_singleton trivial)
  | _, .float x, _ => .pure (shares_singleton trivial)
  | _, .string s, _ => .pure (shares_singleton trivial)
  | _, .varargs, given => .pure given
  | _, .local i name, _ => yields_one (.read fun _ _ _ guards => guards.shares_cell _)
  | _, .captured i name, _ => yields_one (.read fun _ _ _ guards => guards.shares_cell _)
  | _, .function i, _ => yields_one (yields_makeFunction a locals i)
  | _, .global environment name line, given =>
      (yields_values environment given).bind fun _ _ _ object =>
        yields_one (yields_field (shares_firstOf object) _)
  | _, .index object key line, given =>
      (yields_values object given).bind fun _ _ later object =>
        (yields_values key (later.shares given)).bind fun _ _ further key =>
          yields_one (yields_index (further.shares (shares_firstOf object)) (shares_firstOf key))
  | _, .call f arguments line, given =>
      (yields_values f given).bind fun _ _ later f =>
        (yields_valuesOfList arguments (later.shares given)).bind fun _ _ further arguments =>
          .call (further.shares (shares_firstOf f)) arguments
  | _, .method object name arguments line, given =>
      (yields_values object given).bind fun _ _ later₁ object =>
        (yields_field (shares_firstOf object) _).bind fun _ _ later₂ f =>
          (yields_valuesOfList arguments (later₂.shares (later₁.shares given))).bind
            fun _ _ later₃ arguments => .call (later₃.shares f)
              (shares_cons (later₃.shares (later₂.shares (shares_firstOf object))) arguments)
  | _, .unary op operand line, given => by
      refine (yields_values operand given).bind fun W values _ shared => ?_
      have shared := shares_firstOf shared
      cases op with
      | not => exact .pure (shares_singleton trivial)
      | negate => exact yields_one (yields_negate shared)
      | length => exact yields_one (yields_length shared)
      | bitNot => exact yields_one (yields_bitNot shared)
  | _, .binary op left right line, given => by
      have first := yields_values left given
      have second := yields_values right given
      cases op with
      | and =>
          refine first.bind fun W xs later shared => .ite ?_ ?_
          · exact (second.mono later).bind fun _ _ _ shared =>
              .pure (shares_singleton (shares_firstOf shared))
          · exact .pure (shares_singleton (shares_firstOf shared))
      | or =>
          refine first.bind fun W xs later shared => .ite ?_ ?_
          · exact .pure (shares_singleton (shares_firstOf shared))
          · exact (second.mono later).bind fun _ _ _ shared =>
              .pure (shares_singleton (shares_firstOf shared))
      | concat =>
          exact first.bind fun W xs later shared => (second.mono later).bind
            fun X ys further shared' => yields_one
              (yields_concat _ (further.shares (shares_firstOf shared)) (shares_firstOf shared'))
      | arith op =>
          exact (yields_operands left first second).bind fun W pair _ shared =>
            yields_one (yields_arith op _ shared.1 shared.2)
      | compare op =>
          exact (yields_operands left first second).bind fun W pair _ shared =>
            (yields_compare op shared.1 shared.2).bind fun _ _ _ _ =>
              .pure (shares_singleton trivial)
  | _, .group inner, given =>
      (yields_values inner given).bind fun _ _ _ shared =>
        .pure (shares_singleton (shares_firstOf shared))
  | _, .table fields line, given => by
      refine yields_newTableThen ?_ ?_ fun W id later isOpen other => ?_
      · exact shows_tableFor fields
      · exact metatable?_tableFor fields
      · refine (yields_storeFields id line isOpen other fields (later.shares given)).bind
          fun X items further shared => ?_
        have isOpen := further.open isOpen
        refine (yields_storeItems isOpen (further.globals ▸ other) shared).bind fun Y _ last _ => ?_
        exact .pure (shares_singleton (v := .table id) (last.open isOpen))

theorem yields_valuesOfList : ∀ {V : Vault} (es : List Expr), V.Shares a.varargs →
    V.Yields (a.valuesOfList locals es)
  | _, [], _ => .pure shares_nil
  | _, [e], given => yields_values e given
  | _, e :: e' :: es, given =>
      (yields_values e given).bind fun _ _ later first =>
        (yields_valuesOfList (e' :: es) (later.shares given)).bind fun _ _ further rest =>
          .pure (shares_cons (further.shares (shares_firstOf first)) rest)

theorem yields_storeFields : ∀ {V : Vault} (id : TableId) (line : Nat), V.Open id →
    id ≠ V.globals → ∀ fields : List Field, V.Shares a.varargs →
    V.Yields (a.storeFields locals id line fields)
  | _, _, _, _, _, [], _ => .pure shares_nil
  | _, _, _, _, _, [.item e], given => yields_values e given
  | _, id, line, isOpen, other, .item e :: field :: fields, given =>
      (yields_values e given).bind fun W _ later first =>
        (yields_storeFields id line (later.open isOpen) (later.globals ▸ other) (field :: fields)
          (later.shares given)).bind fun _ _ further rest =>
            .pure (shares_cons (further.shares (shares_firstOf first)) rest)
  | _, id, line, isOpen, other, .entry key value :: fields, given => by
      refine (yields_values key given).bind fun W k later₁ sharedKey => ?_
      refine (yields_values value (later₁.shares given)).bind fun X v later₂ shared => ?_
      have late := later₁.trans later₂
      refine (yields_assignRaw (late.open isOpen) (later₂.shares (shares_firstOf sharedKey))
        (shares_firstOf shared) fun _ => late.globals ▸ other).bind fun Y _ last _ => ?_
      have late := late.trans last
      exact yields_storeFields id line (late.open isOpen) (late.globals ▸ other) fields
        (late.shares given)

end

variable {a : Activation} {locals : Locals} (given : V.Shares a.varargs)

include given

theorem yields_value (e : Expr) : V.Yields (a.value locals e) :=
  (yields_values a locals e given).bind fun _ _ _ shared => .pure (shares_firstOf shared)

/-! ## Assignments -/

instance : Disclosed Target where
  Public V
    | .cell _ => True
    | .entry object key _ _ => V.Shares object ∧ V.Shares key
  mono {V W target} wider shared := by
    cases target with
    | cell id => trivial
    | entry object key label? line => exact ⟨wider.shares shared.1, wider.shares shared.2⟩

instance : Disclosed (List Target) where
  Public V targets := ∀ target ∈ targets, V.Shares target
  mono wider shared target member := wider.shares (shared target member)

theorem yields_target (line : Nat) (e : Expr) : V.Yields (a.target locals line e) := by
  cases e with
  | «local» i name => exact .pure (a := Target.cell _) trivial
  | captured i name => exact .pure (a := Target.cell _) trivial
  | global environment name line =>
      exact (yields_value given environment).bind fun _ _ _ object =>
        .pure (a := Target.entry _ (.string name) _ _) ⟨object, trivial⟩
  | index object key line =>
      exact (yields_value given object).bind fun _ _ later object =>
        (yields_value (later.shares given) key).bind fun _ _ further key =>
          .pure (a := Target.entry _ _ _ _) ⟨further.shares object, key⟩
  | _ => exact .pure (a := Target.entry .nil .nil none line) ⟨trivial, trivial⟩

theorem yields_targets (line : Nat) (es : List Expr) : V.Yields (a.targets locals line es) := by
  induction es generalizing V with
  | nil => exact .pure fun _ member => absurd member List.not_mem_nil
  | cons e es ih =>
      refine (yields_target given line e).bind fun W target later first => ?_
      refine (ih (later.shares given)).bind fun X rest further others => .pure ?_
      intro other member
      rcases List.mem_cons.mp member with rfl | member
      · exact further.shares first
      · exact others other member

omit given in
theorem yields_store {v : Value} (shared : V.Shares v) {target : Target}
    (place : V.Shares target) : V.Yields (a.store v target) := by
  cases target with
  | cell id => exact .modify fun _ _ later guards => guards.setCell id (later.shares shared)
  | entry object key label? line => exact yields_assign place.1 place.2 shared

omit given in
theorem yields_storeAll {targets : List Target} (places : V.Shares targets) {values : List Value}
    (shared : V.Shares values) : V.Yields (a.storeAll targets values) := by
  induction targets generalizing V values with
  | nil => exact .pure trivial
  | cons target targets ih =>
      have rest : V.Shares targets := fun t member => places t (List.mem_cons_of_mem target member)
      refine (ih rest (shares_drop shared 1)).bind fun W _ later _ => ?_
      exact yields_store (later.shares (shares_firstOf shared))
        (later.shares (places target List.mem_cons_self))

end

/-! ## Loops -/

/-- A block is safe at every time from now on, from its start and from each of its labels. -/
structure SafeBlock (V : Vault) (b : Block) : Prop where
  run : ∀ W locals final, V.Later W → (∀ X locals, W.Later X → X.Safe (final locals)) →
    W.Safe (b.run locals final)
  jump : ∀ W n label locals action, V.Later W → b.jump n label locals = some action →
    W.Safe action

theorem SafeBlock.mono {b : Block} (safe : V.SafeBlock b) (later : V.Later W) : W.SafeBlock b where
  run X locals final further := safe.run X locals final (later.trans further)
  jump X n label locals action further := safe.jump X n label locals action (later.trans further)

section

variable {b : Block} (safe : V.SafeBlock b) (locals : Locals)

include safe

theorem yields_enter : V.Yields (b.enter locals) := by
  intro W next later continues
  unfold Block.enter
  split
  · exact .labelled (safe.run W locals _ later fun _ _ _ => .done trivial)
      (fun X label locals action further => safe.jump X _ label locals action (later.trans further))
      fun X further => continues X () further trivial
  · exact safe.run W locals _ later fun X _ further => continues X () further trivial

theorem yields_whileLoop {condition : Eval Value} (tests : V.Yields condition) :
    V.Yields (whileLoop condition locals b) := by
  intro W next later continues
  refine .loop shares_nil ?_ fun X further => continues X () further trivial
  intro X state further _
  refine tests X _ (later.trans further) fun Y v final _ => .ite ?_ (.done trivial)
  exact yields_enter (safe.mono (later.trans (further.trans final))) locals Y _ (.refl Y)
    fun _ _ _ _ => .done shares_nil

theorem yields_repeatLoop : V.Yields (repeatLoop locals b) := by
  intro W next later continues
  refine .loop shares_nil ?_ fun X further => continues X () further trivial
  intro X state further _
  exact yields_enter (safe.mono (later.trans further)) locals X _ (.refl X)
    fun _ _ _ _ => .done shares_nil

theorem yields_countedLoop (c : Counting) : V.Yields (countedLoop c locals b) := by
  have runs : ∀ W (v : Value) (again : Completion), V.Later W → W.Shares v →
      (∀ X : Vault, X.Shares again) → W.Safe (.heap fun h =>
        ((h.newCell v).2, b.enter ((h.newCell v).1 :: locals) fun () => .done again)) := by
    intro W v again later shared ends
    refine .heap (fun X h near guards => guards.newCell (near.toLater.shares shared)) ?_
    intro X h near guards
    have late := near.toLater.trans (guards.later (guards.newCell (near.toLater.shares shared)))
    exact yields_enter (safe.mono (later.trans late)) _ _ _ (.refl _) fun Y _ _ _ => .done (ends Y)
  intro W next later continues
  have continues : ∀ X, W.Later X → X.Safe (next ()) := fun X further =>
    continues X () further trivial
  unfold countedLoop countLoop
  cases c with
  | none => exact continues W (.refl W)
  | integers first step more =>
      refine .loop (shares_pair trivial trivial) ?_ continues
      intro X state further _
      dsimp only
      split
      · refine runs X _ _ (later.trans further) trivial fun Y => ?_
        split
        · trivial
        · exact shares_pair (V := Y) trivial trivial
      · exact .done trivial
  | floats first last step =>
      refine .loop (shares_singleton trivial) ?_ continues
      intro X state further _
      dsimp only
      split
      · exact .ite (runs X _ _ (later.trans further) trivial fun Y =>
          shares_singleton (V := Y) trivial) (.done trivial)
      · exact .done trivial

end

theorem yields_failCount {place : Place} (fault : CountFault) :
    V.Yields (failCount place fault : Eval α) := by
  cases fault with
  | zeroStep => exact yields_placeFail _
  | notNumber what v =>
      exact (Yields.read fun _ _ _ _ => trivial).bind fun _ _ _ _ => yields_placeFail _

theorem yields_closeAfter {place : Place} {name : String} {v : Value} {body : Action}
    (shared : V.Shares v) (safe : ∀ W, V.Later W → W.Safe body) :
    V.Yields (closeAfter place name v body) := by
  intro W next later continues
  have continues : ∀ X, W.Later X → X.Safe (next ()) := fun X further =>
    continues X () further trivial
  unfold closeAfter
  split
  · refine (Yields.read fun _ _ _ _ => trivial) W _ (.refl W) fun X lacking further _ => .ite ?_ ?_
    · exact (yields_placeFail (α := Unit) _) X _ (.refl X) fun Y _ final _ =>
        continues Y (further.trans final)
    · exact .closing (further.shares (later.shares shared)) (safe X (later.trans further))
        fun Y final => continues Y (further.trans final)
  · exact .closing trivial (safe W later) continues

theorem yields_eachLoop {place : Place} {site : Site} {count : Nat} {iterator : List Value}
    (shared : V.Shares iterator) (locals : Locals) {b : Block} (safe : V.SafeBlock b) :
    V.Yields (eachLoop place site count iterator locals b) := by
  unfold eachLoop
  split
  · rename_i f state control closing
    have all : ∀ v ∈ [f, state, control, closing], V.Shares v := shared
    refine yields_closeAfter (all closing (by simp)) fun W later => ?_
    refine .loop (later.shares (shares_singleton (all control (by simp)))) ?_
      fun _ _ => .done trivial
    intro X control further current
    have late := later.trans further
    refine .call (late.shares (all f (by simp)))
      (shares_pair (late.shares (all state (by simp))) (shares_firstOf current)) ?_
    intro Y values final results
    have late := late.trans final
    have cells : ∀ Z h, Y.Near Z → Z.Guards h →
        Z.Passes h (h.newCells locals (adjust count values)).2 := fun Z h near guards =>
      guards.newCells locals (near.toLater.shares (shares_adjust results count))
    refine .ite (.done trivial) (.heap cells fun Z h near guards => ?_)
    have last := near.toLater.trans (guards.later (cells Z h near guards))
    have entered := yields_enter (safe.mono (late.trans last))
      (h.newCells locals (adjust count values)).1 _ (fun _ => .done (.again [firstOf values]))
      (.refl _) fun U _ ending _ =>
        .done (shares_singleton (ending.shares (last.shares (shares_firstOf results))))
    exact entered
  · exact .pure trivial

/-! ## Statements -/

section

variable {a : Activation} {locals : Locals}

theorem yields_tailCall (given : V.Shares a.varargs) (e : Expr) :
    V.Yields (a.tailCall locals e) := by
  cases e with
  | call f arguments line =>
      refine (yields_value given f).bind fun W f later₁ function => ?_
      refine (yields_valuesOfList a locals arguments (later₁.shares given)).bind
        fun X arguments later₂ shared => .ends fun Y later₃ => ?_
      exact .tail (later₃.shares (later₂.shares function)) (later₃.shares shared)
  | method object name arguments line =>
      refine (yields_value given object).bind fun W object later₁ self => ?_
      refine (yields_field self name).bind fun X f later₂ function => ?_
      have given := later₂.shares (later₁.shares given)
      refine (yields_valuesOfList a locals arguments given).bind
        fun Y arguments later₃ shared => .ends fun Z later₄ => ?_
      have late := later₃.trans later₄
      exact .tail (late.shares function)
        (shares_cons (late.shares (later₂.shares self)) (later₄.shares shared))
  | _ => exact yields_values a locals _ given

theorem safe_returnValues (given : V.Shares a.varargs) (es : List Expr) :
    V.Safe (a.returnValues locals es) := by
  unfold returnValues
  split
  · exact (yields_tailCall given _).run
  · exact (yields_valuesOfList a locals es given).run

theorem yields_declareFunction (i : Nat) : V.Yields (a.declareFunction locals i) := by
  refine (Yields.alter fun _ _ _ guards => ⟨guards.newCell (v := .nil) trivial, trivial⟩).bind
    fun W cell _ _ => ?_
  refine (yields_makeFunction a _ i).bind fun X f _ shared => ?_
  exact (Yields.modify fun _ _ later guards => guards.setCell cell (later.shares shared)).bind
    fun _ _ _ _ => .pure trivial

theorem shares_closingValue? {names : List (String × Attribute)} {values : List Value}
    {name : String} {v : Value} (shared : V.Shares values)
    (found : closingValue? names values = some (name, v)) : V.Shares v := by
  induction names generalizing values with
  | nil => cases found
  | cons entry names ih =>
      obtain ⟨other, manner⟩ := entry
      cases manner with
      | closing =>
          obtain ⟨-, rfl⟩ := Prod.mk.inj (Option.some.inj found)
          exact shares_firstOf shared
      | _ => exact ih (shares_drop shared 1) found

end

/-- Statements are safe from their start and from each of their labels. -/
structure SafeBody (a : Activation) (body : List Stat) : Prop where
  run : ∀ {V : Vault} {locals : Locals} {final : Locals → Action}, V.Shares a.varargs →
    (∀ W locals, V.Later W → W.Safe (final locals)) → V.Safe (a.statements locals body final)
  jump : ∀ {V : Vault} {count : Nat} {label : String} {locals : Locals} {action : Action},
    V.Shares a.varargs → a.afterLabel count label locals body = some action → V.Safe action

theorem SafeBody.block {a : Activation} {body : List Stat} (safe : SafeBody a body)
    (given : V.Shares a.varargs) : V.SafeBlock (a.blockOf body) where
  run _ _ _ later continues := safe.run (later.shares given) continues
  jump _ _ _ _ _ later found := safe.jump (later.shares given) found

theorem yields_assignment {a : Activation} (locals : Locals) (given : V.Shares a.varargs)
    (line : Nat) (targets es : List Expr) : V.Yields (do
      let ts ← a.targets locals line targets
      let vs ← a.valuesOfList locals es
      a.storeAll ts (adjust ts.length vs)) := by
  refine (yields_targets given line targets).bind fun W ts later places => ?_
  refine (yields_valuesOfList a locals es (later.shares given)).bind fun X values further shared => ?_
  exact yields_storeAll (further.shares places) (shares_adjust shared _)

mutual

theorem safe_body (a : Activation) : ∀ body : List Stat, SafeBody a body
  | [] => ⟨fun _ continues => continues _ _ (.refl _), fun _ found => nomatch found⟩
  | s :: rest => by
      have others := safe_body a rest
      refine ⟨fun {V locals final} given continues => ?_,
        fun {V count label locals action} given found => ?_⟩
      · cases s with
        | declare names es line =>
            refine Yields.run ?_
            refine (yields_valuesOfList a locals es given).bind fun W values later₁ shared => ?_
            have shared := shares_adjust shared names.length
            refine (Yields.alter fun X h later guards =>
              ⟨guards.newCells locals (later.shares shared), trivial⟩).bind
                fun X locals later₂ _ => ?_
            have late := later₁.trans later₂
            split
            · exact .ends fun Y later => others.run ((late.trans later).shares given)
                fun Z locals further => continues Z locals ((late.trans later).trans further)
            · rename_i name v found
              refine (yields_closeAfter (shares_closingValue? (later₂.shares shared) found)
                fun Y later => ?_).bind fun Y _ later₃ _ => .ends fun Z later₄ =>
                  continues Z locals (late.trans (later₃.trans later₄))
              exact others.run ((late.trans later).shares given) fun _ _ _ => .done trivial
        | declareFunction name i =>
            exact yields_declareFunction i V _ (.refl V) fun W locals later _ =>
              others.run (later.shares given)
                fun X locals further => continues X locals (later.trans further)
        | _ =>
            exact yields_statement a _ locals given V _ (.refl V) fun W _ later _ =>
              others.run (later.shares given)
                fun X locals further => continues X locals (later.trans further)
      · cases s with
        | label name =>
            simp only [afterLabel] at found
            split at found
            · obtain rfl := Option.some.inj found
              exact others.run given fun _ _ _ => .done trivial
            · exact others.jump given found
        | _ => exact others.jump given found

theorem yields_statement (a : Activation) : ∀ {V : Vault} (stat : Stat) (locals : Locals),
    V.Shares a.varargs → V.Yields (a.statement locals stat)
  | V, .assign targets es line, locals, given => by
      have single : ∀ target e, V.Yields (do
          let t ← a.target locals line target
          let v ← a.value locals e
          a.store v t) := fun target e =>
        (yields_target given line target).bind fun W t later place =>
          (yields_value (later.shares given) e).bind fun X v further shared =>
            yields_store shared (further.shares place)
      have several := yields_assignment locals given line targets es
      rcases targets with _ | ⟨target, _ | ⟨target', targets⟩⟩
      · exact several
      · rcases es with _ | ⟨e, _ | ⟨e', es⟩⟩
        · exact several
        · exact single target e
        · exact several
      · exact several
  | V, .call e, locals, given =>
      (yields_values a locals e given).bind fun _ _ _ _ => .pure trivial
  | V, .block body, locals, given => yields_enter ((safe_body a body).block given) locals
  | V, .whileDo condition body, locals, given =>
      yields_whileLoop ((safe_body a body).block given) locals (yields_value given condition)
  | V, .repeatBody body, locals, given =>
      yields_repeatLoop ((safe_body a body).block given) locals
  | V, .ifThen condition thenBody elseBody, locals, given =>
      (yields_value given condition).bind fun W v later _ =>
        .ite (yields_enter ((safe_body a thenBody).block (later.shares given)) locals)
          (yields_enter ((safe_body a elseBody).block (later.shares given)) locals)
  | V, .countLoop first last step body line, locals, given => by
      have block := (safe_body a body).block given
      refine (yields_value given first).bind fun W x later₁ _ => ?_
      refine (yields_value (later₁.shares given) last).bind fun X y later₂ _ => ?_
      refine (yields_value ((later₁.trans later₂).shares given) step).bind fun Y z later₃ _ => ?_
      cases counting x y z with
      | error fault => exact yields_failCount fault
      | ok c => exact yields_countedLoop (block.mono (later₁.trans (later₂.trans later₃))) locals c
  | V, .eachLoop count es body line, locals, given =>
      (yields_valuesOfList a locals es given).bind fun W values later shared =>
        yields_eachLoop (shares_adjust shared 4) locals
          (((safe_body a body).block given).mono later)
  | V, .return es line, locals, given =>
      .ends fun W later => safe_returnValues (later.shares given) es
  | V, .break, locals, given => .ends fun _ _ => .done trivial
  | V, .goto label, locals, given => .ends fun _ _ => .done trivial
  | V, .label name, locals, given => .pure trivial
  | V, .declare names es line, locals, given => .pure trivial
  | V, .declareFunction name i, locals, given => .pure trivial

end

/-- A function of a program is safe when it is called with values that scripts may hold. -/
theorem safe_enter (chunk : Chunk) (proto : Proto) (captured : Array CellId) {args : List Value}
    (given : V.Shares args) : V.Safe (Activation.enter chunk proto captured args) := by
  have varargs : V.Shares (if proto.isVararg then args.drop proto.parameters else []) := by
    split
    · exact shares_drop given _
    · exact shares_nil
  have cells : ∀ W h, V.Near W → W.Guards h →
      W.Passes h (h.newCells [] (adjust proto.parameters args)).2 := fun W h near guards =>
    guards.newCells [] (near.toLater.shares (shares_adjust given _))
  refine .heap cells fun W h near guards => ?_
  have late := near.toLater.trans (guards.later (cells W h near guards))
  exact yields_enter ((safe_body _ proto.body).block (late.shares varargs)) _ _ _ (.refl _)
    fun _ _ _ _ => .done shares_nil

end ScriptHost.Lua.Vault
