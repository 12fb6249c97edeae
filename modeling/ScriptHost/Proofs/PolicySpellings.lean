import ScriptHost.Policy
import Mathlib.Data.List.Forall2
import Mathlib.Data.List.TakeWhile

/-!
# Spellings of the policies

The texts that are read as a policy: one of the accepted names, in any mixture of ASCII cases, with
an underscore or a hyphen at each joint, and with white space around it.
-/

set_option autoImplicit false

namespace ScriptHost

/-! ## Surrounding white space -/

namespace Text

/-- What is left of a text without the white space around it. -/
structure Trimmed (cs core : List Char) : Prop where
  around : ∃ before after, cs = before ++ core ++ after ∧
    (∀ c ∈ before, isBlank c = true) ∧ ∀ c ∈ after, isBlank c = true
  first : ∀ c ∈ core.head?, isBlank c = false
  last : ∀ c ∈ core.getLast?, isBlank c = false

variable {cs core : List Char}

theorem blank_of_mem_takeWhile {c : Char} (member : c ∈ cs.takeWhile isBlank) :
    isBlank c = true :=
  List.all_eq_true.mp List.all_takeWhile c member

theorem head?_dropWhile_isBlank : ∀ c ∈ (cs.dropWhile isBlank).head?, isBlank c = false := by
  intro c head
  have stop := List.head?_dropWhile_not isBlank cs
  rw [Option.mem_def.mp head] at stop
  simpa using stop

theorem trimmed_trimChars (cs : List Char) : Trimmed cs (trimChars cs) := by
  let front := cs.takeWhile isBlank
  let back := ((cs.dropWhile isBlank).reverse.takeWhile isBlank).reverse
  have rest : cs.dropWhile isBlank = trimChars cs ++ back := by
    rw [trimChars, ← List.reverse_append, List.takeWhile_append_dropWhile, List.reverse_reverse]
  refine ⟨⟨front, back, ?_, ?_, ?_⟩, ?_, ?_⟩
  · rw [List.append_assoc, ← rest, List.takeWhile_append_dropWhile]
  · intro c member
    exact blank_of_mem_takeWhile member
  · intro c member
    exact blank_of_mem_takeWhile (List.mem_reverse.mp member)
  · intro c head
    refine head?_dropWhile_isBlank c (?_ : c ∈ (cs.dropWhile isBlank).head?)
    rw [rest, List.head?_append, Option.mem_def.mp head]
    rfl
  · intro c last
    rw [trimChars, List.getLast?_reverse] at last
    exact head?_dropWhile_isBlank c last

/-- White space in front of a character that is none goes, and nothing else does. -/
theorem dropWhile_isBlank_append {before : List Char} (blank : ∀ c ∈ before, isBlank c = true)
    (first : ∀ c ∈ core.head?, isBlank c = false) :
    (before ++ core).dropWhile isBlank = core := by
  rw [List.dropWhile_append_of_pos blank]
  cases core with
  | nil => rfl
  | cons c core => rw [List.dropWhile_cons_of_neg (by simp [first c rfl])]

theorem Trimmed.unique (trimmed : Trimmed cs core) : trimChars cs = core := by
  obtain ⟨before, after, rfl, blankBefore, blankAfter⟩ := trimmed.around
  cases core with
  | nil =>
      have all : ∀ c ∈ before ++ [] ++ after, isBlank c = true := by
        intro c member
        rw [List.append_nil, List.mem_append] at member
        exact member.elim (blankBefore c) (blankAfter c)
      rw [trimChars, List.dropWhile_eq_nil_iff.mpr all]
      rfl
  | cons c core =>
      have front : (before ++ (c :: core) ++ after).dropWhile isBlank = c :: core ++ after := by
        rw [List.append_assoc]
        exact dropWhile_isBlank_append blankBefore trimmed.first
      rw [trimChars, front, List.reverse_append,
        dropWhile_isBlank_append (fun c member => blankAfter c (List.mem_reverse.mp member))
          (fun c head => trimmed.last c (List.head?_reverse ▸ head)), List.reverse_reverse]

end Text

namespace Policy

/-! ## Names, and texts that are alike -/

/-- The accepted names and the policies they stand for. -/
inductive Named : String → Policy → Prop
  | fullIsolation : Named "full-isolation" fullIsolation
  | fullFrame : Named "full-frame" fullIsolation
  | fullframe : Named "fullframe" fullIsolation
  | clean : Named "clean" clean
  | refresh : Named "refresh" refresh
  | reuse : Named "reuse" reuse
  | cached : Named "cached" reuse

/-- The same character up to the case of an ASCII letter and the choice of the joint. -/
inductive Alike : Char → Char → Prop
  | same (c : Char) : Alike c c
  | capital {c d : Char} : c.isUpper = true → d.toNat = c.toNat + 32 → Alike c d
  | small {c d : Char} : d.isUpper = true → c.toNat = d.toNat + 32 → Alike c d
  | underscore : Alike '_' '-'
  | hyphen : Alike '-' '_'

/-- Two texts that differ in the white space around them, in case and in joints at most. -/
def Respelled (s t : String) : Prop :=
  ∃ core other, Text.Trimmed s.toList core ∧ Text.Trimmed t.toList other ∧
    List.Forall₂ Alike core other

theorem isUpper_iff {c : Char} : c.isUpper = true ↔ 65 ≤ c.toNat ∧ c.toNat ≤ 90 := by
  have meaning : c.isUpper = decide (c.val ≥ 'A'.val ∧ c.val ≤ 'Z'.val) := rfl
  rw [meaning]
  simp [UInt32.le_iff_toNat_le, ← Char.toNat_val]

theorem toNat_toLower (c : Char) :
    c.toLower.toNat = if 65 ≤ c.toNat ∧ c.toNat ≤ 90 then c.toNat + 32 else c.toNat := by
  have bounds : c.val ≥ 'A'.val ∧ c.val ≤ 'Z'.val ↔ 65 ≤ c.toNat ∧ c.toNat ≤ 90 := by
    simp [UInt32.le_iff_toNat_le, ← Char.toNat_val]
  by_cases upper : 65 ≤ c.toNat ∧ c.toNat ≤ 90
  · have lower : c.toLower = ⟨c.val + ('a'.val - 'A'.val), _⟩ := dif_pos (bounds.mpr upper)
    have code : c.val.toNat = c.toNat := Char.toNat_val
    have sum : (c.val + ('a'.val - 'A'.val)).toNat = (c.val.toNat + 32) % 2 ^ 32 :=
      UInt32.toNat_add _ _
    rw [lower, if_pos upper]
    exact sum.trans (by omega)
  · have same : c.toLower = c := dif_neg (bounds.not.mpr upper)
    rw [same, if_neg upper]

theorem toNat_foldChar (c : Char) : (foldChar c).toNat =
    if c.toNat = 95 then 45 else if 65 ≤ c.toNat ∧ c.toNat ≤ 90 then c.toNat + 32
    else c.toNat := by
  have joint : c.toNat = 95 ↔ c = '_' := Char.toNat_inj (d := '_')
  rw [foldChar]
  by_cases under : c = '_'
  · rw [if_pos under, if_pos (joint.mpr under)]
    rfl
  · rw [if_neg under, if_neg (joint.not.mpr under), toNat_toLower]

theorem alike_iff {c d : Char} : Alike c d ↔ foldChar c = foldChar d := by
  rw [← Char.toNat_inj, toNat_foldChar, toNat_foldChar]
  constructor
  · intro alike
    cases alike with
    | same => rfl
    | capital upper shift =>
        have := isUpper_iff.mp upper
        split_ifs <;> omega
    | small upper shift =>
        have := isUpper_iff.mp upper
        split_ifs <;> omega
    | underscore => rfl
    | hyphen => rfl
  · intro equal
    by_cases same : c.toNat = d.toNat
    · rw [Char.toNat_inj.mp same]
      exact .same d
    by_cases capital : c.isUpper = true ∧ d.toNat = c.toNat + 32
    · exact .capital capital.1 capital.2
    by_cases small : d.isUpper = true ∧ c.toNat = d.toNat + 32
    · exact .small small.1 small.2
    rw [isUpper_iff] at capital small
    have joints : c.toNat = 95 ∧ d.toNat = 45 ∨ c.toNat = 45 ∧ d.toNat = 95 := by
      split_ifs at equal <;> omega
    obtain ⟨under, hyphen⟩ | ⟨hyphen, under⟩ := joints
    · obtain rfl : c = '_' := Char.toNat_inj.mp under
      obtain rfl : d = '-' := Char.toNat_inj.mp hyphen
      exact .underscore
    · obtain rfl : c = '-' := Char.toNat_inj.mp hyphen
      obtain rfl : d = '_' := Char.toNat_inj.mp under
      exact .hyphen

theorem spelling_eq_iff {s t : String} : spelling s = spelling t ↔ Respelled s t := by
  have same : spelling s = spelling t ↔
      List.Forall₂ Alike (Text.trimChars s.toList) (Text.trimChars t.toList) := by
    rw [spelling, spelling, String.ofList_inj, ← List.forall₂_eq_eq_eq, List.forall₂_map_left_iff,
      List.forall₂_map_right_iff]
    exact ⟨fun equal => equal.imp fun _ _ => alike_iff.mpr,
      fun alike => alike.imp fun _ _ => alike_iff.mp⟩
  rw [same]
  constructor
  · intro alike
    exact ⟨_, _, Text.trimmed_trimChars _, Text.trimmed_trimChars _, alike⟩
  · rintro ⟨core, other, trimmed, trimmedOther, alike⟩
    rwa [trimmed.unique, trimmedOther.unique]

/-! ## Reading -/

theorem ofSpelling?_eq_some_iff {name : String} {policy : Policy} :
    ofSpelling? name = some policy ↔ Named name policy := by
  constructor
  · intro found
    rw [ofSpelling?] at found
    split_ifs at found with isolation clean refresh reuse <;>
      simp only [Option.some.injEq] at found <;> subst found
    · simp only [Bool.or_eq_true, decide_eq_true_eq] at isolation
      obtain (rfl | rfl) | rfl := isolation
      · exact .fullIsolation
      · exact .fullframe
      · exact .fullFrame
    · exact clean ▸ .clean
    · exact refresh ▸ .refresh
    · simp only [Bool.or_eq_true, decide_eq_true_eq] at reuse
      obtain rfl | rfl := reuse
      · exact .reuse
      · exact .cached
  · intro named
    cases named <;> rfl

theorem Named.spelling {name : String} {policy : Policy} (named : Named name policy) :
    spelling name = name := by
  cases named <;> decide

theorem named_name (policy : Policy) : Named policy.name policy := by
  cases policy with
  | fullIsolation => exact .fullIsolation
  | clean => exact .clean
  | refresh => exact .refresh
  | reuse => exact .reuse

theorem parse_eq_ok_iff {s : String} {policy : Policy} :
    parse s = .ok policy ↔ Named (spelling s) policy := by
  rw [← ofSpelling?_eq_some_iff, parse]
  cases ofSpelling? (spelling s) <;> simp

/-- A text is read as a policy exactly when it is a spelling of a name of that policy, and any
other text stands unchanged in the error. -/
theorem parse_follows_names (s : String) :
    (∀ policy, parse s = .ok policy ↔ ∃ name, Named name policy ∧ Respelled s name) ∧
    ((∀ name policy, Named name policy → ¬ Respelled s name) ↔ parse s = .error ⟨s⟩) ∧
    (∀ t, Respelled s t → parse t = (parse s).mapError fun _ => ⟨t⟩) ∧
    ∀ policy : Policy, parse policy.name = .ok policy := by
  have named_iff (policy : Policy) :
      Named (spelling s) policy ↔ ∃ name, Named name policy ∧ Respelled s name := by
    constructor
    · intro named
      exact ⟨_, named, spelling_eq_iff.mp named.spelling.symm⟩
    · rintro ⟨name, named, respelled⟩
      rwa [spelling_eq_iff.mpr respelled, named.spelling]
  refine ⟨fun policy => parse_eq_ok_iff.trans (named_iff policy), ?_, ?_, ?_⟩
  · constructor
    · intro unnamed
      rw [parse]
      cases found : ofSpelling? (spelling s) with
      | none => rfl
      | some policy =>
          obtain ⟨name, named, respelled⟩ :=
            (named_iff policy).mp (ofSpelling?_eq_some_iff.mp found)
          exact absurd respelled (unnamed name policy named)
    · intro refused name policy named respelled
      have read := parse_eq_ok_iff.mpr ((named_iff policy).mpr ⟨name, named, respelled⟩)
      simp [refused] at read
  · intro t respelled
    rw [parse, parse, spelling_eq_iff.mpr respelled]
    cases ofSpelling? (spelling t) <;> rfl
  · intro policy
    exact parse_eq_ok_iff.mpr ((named_name policy).spelling.symm ▸ named_name policy)

example : parse "\tFull_FRAME\u2003" = .ok fullIsolation := by decide

end Policy

end ScriptHost
