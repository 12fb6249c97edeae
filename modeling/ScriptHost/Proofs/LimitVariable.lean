import ScriptHost.Proofs.ConfigSources

/-!
# The heap limit by a variable

What a load makes of a numeral in the variable of the heap limit. It keeps the number that a layer
would keep, except that zero counts as no limit in one spelling alone: every other numeral of zero
is kept as the limit zero.
-/

set_option autoImplicit false

namespace ScriptHost.Config

/-! ## Numerals -/

/-- The number that a digit stands for. -/
def digitValue (c : Char) : Nat := c.toNat - '0'.toNat

/-- Decimal digits and the number they stand for, leading zeros included. -/
inductive Digits : List Char → Nat → Prop
  | one {c : Char} : c.isDigit = true → Digits [c] (digitValue c)
  | more {cs : List Char} {n : Nat} {c : Char} : Digits cs n → c.isDigit = true →
      Digits (cs ++ [c]) (n * 10 + digitValue c)

/-- Digits, with a plus sign in front of them or without. -/
inductive Numeral : List Char → Nat → Prop
  | unsigned {cs : List Char} {n : Nat} : Digits cs n → Numeral cs n
  | signed {cs : List Char} {n : Nat} : Digits cs n → Numeral ('+' :: cs) n

/-- A text with a numeral in it and white space around. -/
def Denotes (text : String) (n : Nat) : Prop := Numeral (Text.trim text).toList n

section

variable {cs : List Char} {n : Nat}

theorem Digits.append {more : List Char} (digits : Digits cs n)
    (all : more.all Char.isDigit = true) :
    Digits (cs ++ more) (more.foldl (fun n c => n * 10 + digitValue c) n) := by
  induction more generalizing cs n with
  | nil => simpa using digits
  | cons c more ih =>
      rw [List.all_cons, Bool.and_eq_true] at all
      have longer := ih (digits.more all.1) all.2
      rwa [List.append_assoc, List.singleton_append] at longer

theorem digits_iff : Digits cs n ↔ cs ≠ [] ∧ cs.all Char.isDigit = true ∧
    n = cs.foldl (fun n c => n * 10 + digitValue c) 0 := by
  constructor
  · intro digits
    induction digits with
    | one isDigit => simp [isDigit]
    | more _ isDigit ih => simp [isDigit, ih]
  · rintro ⟨nonempty, all, rfl⟩
    cases cs with
    | nil => exact absurd rfl nonempty
    | cons c cs =>
        rw [List.all_cons, Bool.and_eq_true] at all
        have first : Digits [c] (0 * 10 + digitValue c) := by
          rw [Nat.zero_mul, Nat.zero_add]
          exact .one all.1
        exact first.append all.2

theorem not_digits_plus : ¬ Digits ('+' :: cs) n := by
  rw [digits_iff]
  rintro ⟨_, all, _⟩
  rw [List.all_cons, show Char.isDigit '+' = false by decide] at all
  cases all

/-- Reading takes exactly the numerals of 64 bits. -/
theorem natural64?_eq_some {s : String} :
    natural64? s = some n ↔ Numeral s.toList n ∧ n < 2 ^ 64 := by
  have digits (cs : List Char) :
      (if (cs.isEmpty || !cs.all Char.isDigit) = true then none
        else if cs.foldl (fun n c => n * 10 + digitValue c) 0 < 2 ^ 64 then
          some (cs.foldl (fun n c => n * 10 + digitValue c) 0) else none) = some n ↔
      Digits cs n ∧ n < 2 ^ 64 := by
    rw [digits_iff]
    cases cs <;> grind
  by_cases plus : ∃ cs, s.toList = '+' :: cs
  · obtain ⟨cs, split⟩ := plus
    have read := digits cs
    simp only [natural64?, split]
    refine read.trans (and_congr_left fun _ => ⟨.signed, fun numeral => ?_⟩)
    cases numeral with
    | unsigned digits => exact absurd digits not_digits_plus
    | signed digits => exact digits
  · have read := digits s.toList
    have unsigned : natural64? s = some n ↔ Digits s.toList n ∧ n < 2 ^ 64 := by
      rw [← read]
      simp only [natural64?]
      split
      · rename_i cs split
        exact absurd ⟨cs, split⟩ plus
      · rfl
    refine unsigned.trans (and_congr_left fun _ => ⟨.unsigned, fun numeral => ?_⟩)
    generalize s.toList = cs at plus numeral ⊢
    cases numeral with
    | unsigned digits => exact digits
    | signed digits => exact absurd ⟨_, rfl⟩ plus

theorem Digits.unique {m : Nat} (digits : Digits cs n) (too : Digits cs m) : n = m :=
  (digits_iff.mp digits).2.2.trans (digits_iff.mp too).2.2.symm

theorem Numeral.unique {m : Nat} (numeral : Numeral cs n) (too : Numeral cs m) : n = m := by
  cases numeral with
  | unsigned digits =>
      cases too with
      | unsigned others => exact digits.unique others
      | signed => exact absurd digits not_digits_plus
  | signed digits =>
      cases too with
      | unsigned others => exact absurd others not_digits_plus
      | signed others => exact digits.unique others

theorem numeral_zero : Numeral ['0'] 0 := .unsigned (.one rfl)

theorem not_numeral_nil : ¬ Numeral [] n := by
  rintro ⟨digits⟩
  exact (digits_iff.mp digits).1 rfl

end

/-! ## The variable -/

section

variable {text : String} {n : Nat}

/-- What an accepted numeral is kept as. -/
theorem limit_of_denotes {limit : Option Nat} (denotes : Denotes text n)
    (accepted : readLimit text = .ok limit) :
    limit = if Text.trim text = "0" then none else some n := by
  simp only [readLimit, limitVariable?] at accepted
  by_cases zero : Text.trim text = "0"
  · simp only [zero, decide_true, Bool.or_true, if_true] at accepted ⊢
    exact (Except.ok.inj accepted).symm
  · have full : Text.trim text ≠ "" := fun empty => by
      rw [Denotes, empty] at denotes
      exact not_numeral_nil denotes
    simp only [zero, full, decide_false, Bool.or_false, Bool.false_eq_true, if_false]
      at accepted ⊢
    cases read : natural64? (Text.trim text) with
    | none => simp [read] at accepted
    | some m =>
        simp only [read, Option.map_some, Option.elim_some, Except.ok.injEq] at accepted
        rw [← accepted, denotes.unique (natural64?_eq_some.mp read).1]

/-- No other text is kept as the limit zero. -/
theorem denotes_zero_of_readLimit (accepted : readLimit text = .ok (some 0)) :
    Denotes text 0 ∧ Text.trim text ≠ "0" := by
  simp only [readLimit, limitVariable?] at accepted
  split at accepted
  · cases accepted
  · rename_i kept
    simp only [Bool.or_eq_true, decide_eq_true_eq, not_or] at kept
    cases read : natural64? (Text.trim text) with
    | none => simp [read] at accepted
    | some m =>
        simp only [read, Option.map_some, Option.elim_some, Except.ok.injEq,
          Option.some.injEq] at accepted
        subst accepted
        exact ⟨(natural64?_eq_some.mp read).1, kept.2⟩

end

/-! ## Loads -/

namespace Source

variable {files : FileTree} {environment : Environment} {source : Source} {sources : List Source}
  {before after : Config}

theorem exists_of_putAll_cons
    (put : putAll files environment (source :: sources) before = .ok after) :
    ∃ middle, putOn files environment before source = .ok middle ∧
      putAll files environment sources middle = .ok after := by
  cases first : putOn files environment before source with
  | error e =>
      rw [putAll_cons_error first] at put
      cases put
  | ok middle =>
      rw [putAll_cons_ok first] at put
      exact ⟨middle, rfl, put⟩

theorem exists_of_putAll_append {earlier later : List Source}
    (put : putAll files environment (earlier ++ later) before = .ok after) :
    ∃ middle, putAll files environment earlier before = .ok middle ∧
      putAll files environment later middle = .ok after := by
  induction earlier generalizing before with
  | nil => exact ⟨before, rfl, put⟩
  | cons source earlier ih =>
      obtain ⟨next, first, rest⟩ := exists_of_putAll_cons put
      obtain ⟨middle, reached, last⟩ := ih rest
      exact ⟨middle, (putAll_cons_ok first).trans reached, last⟩

/-- The other variables leave the heap limit alone. -/
theorem limit_putOn_environment {key : Key} (other : key ≠ .memoryLimit)
    (put : putOn files environment before (.environment key) = .ok after) :
    after.engine.memoryLimitMb = before.engine.memoryLimitMb := by
  simp only [putOn, applyVariable] at put
  split at put
  · cases put
    rfl
  · split at put
    · cases put
      cases key <;> first | rfl | exact absurd rfl other
    · cases put

theorem limit_putAll_environment {keys : List Key} (others : Key.memoryLimit ∉ keys)
    (put : putAll files environment (keys.map .environment) before = .ok after) :
    after.engine.memoryLimitMb = before.engine.memoryLimitMb := by
  induction keys generalizing before with
  | nil =>
      cases put
      rfl
  | cons key keys ih =>
      rw [List.mem_cons, not_or] at others
      obtain ⟨middle, first, rest⟩ := exists_of_putAll_cons put
      rw [ih others.2 rest, limit_putOn_environment (Ne.symm others.1) first]

/-- No layer keeps the limit zero. -/
theorem limit_putOn_file {path : Path} (put : putOn files environment before (.file path) = .ok after)
    (kept : before.engine.memoryLimitMb ≠ some 0) : after.engine.memoryLimitMb ≠ some 0 := by
  rw [putOn] at put
  cases present : files.exists? path with
  | false =>
      rw [applyFile_absent present] at put
      cases put
      exact kept
  | true =>
      rw [applyFile_present present] at put
      split at put
      · cases put
      · split at put
        · rename_i layer _
          cases put
          simp only [Config.apply, EngineConfig.apply]
          split
          · rename_i mb _
            simp only [limitOf]
            split
            · rename_i positive
              rintro zero
              exact absurd (Option.some.inj zero) (Nat.ne_of_gt positive)
            · simp
          · exact kept
        · cases put

theorem limit_putAll (others : Source.environment .memoryLimit ∉ sources)
    (put : putAll files environment sources before = .ok after)
    (kept : before.engine.memoryLimitMb ≠ some 0) : after.engine.memoryLimitMb ≠ some 0 := by
  induction sources generalizing before with
  | nil =>
      cases put
      exact kept
  | cons source sources ih =>
      rw [List.mem_cons, not_or] at others
      obtain ⟨middle, first, rest⟩ := exists_of_putAll_cons put
      refine ih others.2 rest ?_
      cases source with
      | file path => exact limit_putOn_file first kept
      | environment key =>
          rw [limit_putOn_environment (fun same => others.1 (same ▸ rfl)) first]
          exact kept

end Source

section

variable {loader : Loader} {files : FileTree} {environment : Environment} {config : Config}

/-- The variables that are read before and after the heap limit, around it. -/
theorem exists_sources (loader : Loader) (environment : Environment) :
    ∃ paths : List Path, loader.sources environment = paths.map .file ++
      if loader.skipEnvironment then [] else
        [Key.debug, .collectOnRelease].map .environment ++
          .environment .memoryLimit ::
            [Key.defaultPolicy, .searchPaths, .logLevel].map .environment := by
  obtain ⟨globalPath?, projectRoot?, skipEnvironment, skipGlobal, skipProject⟩ := loader
  refine ⟨(if skipGlobal then [] else [globalPath?.getD (defaultPath environment)]) ++
    if skipProject then [] else projectRoot?.toList.map projectPath, ?_⟩
  cases skipGlobal <;> cases skipProject <;> cases projectRoot? <;> simp [Loader.sources]

/-- The heap limit after a load: what the variable is read as if it is set, and else not zero. -/
theorem limit_of_load (loaded : loader.load files environment = .ok config) :
    if loader.skipEnvironment then config.engine.memoryLimitMb ≠ some 0
    else match environment.text? Key.memoryLimit.variableName with
      | some text => readLimit text = .ok config.engine.memoryLimitMb
      | none => config.engine.memoryLimitMb ≠ some 0 := by
  obtain ⟨paths, sources⟩ := exists_sources loader environment
  rw [load_eq_putAll, sources] at loaded
  obtain ⟨lower, below, loaded⟩ := Source.exists_of_putAll_append loaded
  have layered := Source.limit_putAll (by simp) below (by simp)
  split
  · rename_i skips
    rw [if_pos skips] at loaded
    cases loaded
    exact layered
  · rename_i reads
    rw [if_neg reads] at loaded
    obtain ⟨early, earlier, loaded⟩ := Source.exists_of_putAll_append loaded
    obtain ⟨late, given, later⟩ := Source.exists_of_putAll_cons loaded
    rw [← Source.limit_putAll_environment (by decide) earlier] at layered
    rw [Source.limit_putAll_environment (by decide) later]
    simp only [Source.putOn, applyVariable] at given
    split
    · rename_i text set
      rw [set] at given
      dsimp only at given
      split at given
      · rename_i value read
        cases given
        exact read
      · cases given
    · rename_i unset
      rw [unset] at given
      cases given
      exact layered

theorem limit_apply (base : Config) {layer : Layer} {n : Nat}
    (sets : layer.engine.memoryLimitMb = some n) :
    (base.apply layer).engine.memoryLimitMb = if n = 0 then none else some n := by
  simp only [Config.apply, EngineConfig.apply, sets, limitOf]
  by_cases zero : n = 0
  · simp [zero]
  · rw [if_pos (Nat.pos_of_ne_zero zero), if_neg zero]

/-- After a load the heap limit that a numeral in the variable gives is that of a layer with its
number, whatever the sources below give, unless the numeral is zero in another spelling than the
single digit: then the limit zero is kept. The bytes that it allows are always those of the layer.
By no other source a load keeps the limit zero. -/
theorem limit_variable_as_layer (loaded : loader.load files environment = .ok config) :
    (loader.skipEnvironment = false →
      ∀ text n, environment.text? "CINDER_MEMORY_LIMIT_MB" = some text → Denotes text n →
        ∀ (base : Config) (layer : Layer), layer.engine.memoryLimitMb = some n →
          (base.apply layer).engine.memoryLimitMb = (if n = 0 then none else some n) ∧
          (config.engine.memoryLimitMb = (base.apply layer).engine.memoryLimitMb ↔
            (n = 0 → Text.trim text = "0")) ∧
          config.engine.memoryLimitBytes = (base.apply layer).engine.memoryLimitBytes) ∧
    (config.engine.memoryLimitMb = some 0 ↔ loader.skipEnvironment = false ∧
      ∃ text, environment.text? "CINDER_MEMORY_LIMIT_MB" = some text ∧ Denotes text 0 ∧
        Text.trim text ≠ "0") := by
  have kept := limit_of_load loaded
  refine ⟨fun reads text n set denotes base layer sets => ?_, fun zero => ?_, ?_⟩
  · simp only [reads, Bool.false_eq_true, if_false, Key.variableName, set] at kept
    have limit := limit_of_denotes denotes kept
    have layered := limit_apply base sets
    have zero_of_digit (digit : Text.trim text = "0") : n = 0 := by
      rw [Denotes, digit] at denotes
      exact denotes.unique numeral_zero
    refine ⟨layered, ?_⟩
    rw [EngineConfig.memoryLimitBytes, EngineConfig.memoryLimitBytes, limit, layered]
    by_cases digit : Text.trim text = "0"
    · simp [digit, zero_of_digit digit]
    · by_cases zero : n = 0 <;> simp [digit, zero]
  · split at kept
    · exact absurd zero kept
    · rename_i reads
      split at kept
      · rename_i text set
        rw [zero] at kept
        exact ⟨by simpa using reads, text, set, denotes_zero_of_readLimit kept⟩
      · exact absurd zero kept
  · rintro ⟨reads, text, set, denotes, spelled⟩
    simp only [reads, Bool.false_eq_true, if_false, Key.variableName, set] at kept
    rw [limit_of_denotes denotes kept, if_neg spelled]

end

/-- A load of nothing but the variable of the heap limit. -/
def variableAlone : Loader := { skipGlobal := true, skipProject := true }

/-- The value of the variable. -/
def limitGiven (text : String) : Environment :=
  { values := [("CINDER_MEMORY_LIMIT_MB", Utf8.bytes text)] }

/-- A sign, a leading zero and white space do not matter. -/
theorem limit_variable_as_layer_signed :
    ∃ config, variableAlone.load default (limitGiven " +012 ") = .ok config ∧
      variableAlone.skipEnvironment = false ∧
      (limitGiven " +012 ").text? "CINDER_MEMORY_LIMIT_MB" = some " +012 " ∧
      Denotes " +012 " 12 ∧ config.engine.memoryLimitMb =
        (({} : Config).apply { engine := { memoryLimitMb := some 12 } }).engine.memoryLimitMb := by
  have succeeds : (variableAlone.load default (limitGiven " +012 ")).toOption.isSome = true := by
    decide +kernel
  have set : (limitGiven " +012 ").text? "CINDER_MEMORY_LIMIT_MB" = some " +012 " := by
    decide +kernel
  have numeral : Denotes " +012 " 12 := by
    have read : natural64? (Text.trim " +012 ") = some 12 := by decide +kernel
    exact (natural64?_eq_some.mp read).1
  cases loaded : variableAlone.load default (limitGiven " +012 ") with
  | error e => simp [loaded, Except.toOption] at succeeds
  | ok config =>
      have agrees := ((limit_variable_as_layer loaded).1 rfl _ _ set numeral {}
        { engine := { memoryLimitMb := some 12 } } rfl).2.1
      exact ⟨config, rfl, rfl, set, numeral, agrees.mpr (by decide)⟩

/-- Two digits zero are kept as the limit zero, where a layer with this number leaves none. -/
theorem limit_variable_keeps_zero :
    Denotes "00" 0 ∧
      (variableAlone.load default (limitGiven "00")).toOption =
        some { engine := { memoryLimitMb := some 0 } } ∧
      (({} : Config).apply { engine := { memoryLimitMb := some 0 } }).engine.memoryLimitMb = none := by
  have read : natural64? (Text.trim "00") = some 0 := by decide +kernel
  exact ⟨(natural64?_eq_some.mp read).1, by decide +kernel, rfl⟩

end ScriptHost.Config
