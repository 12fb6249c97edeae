import ScriptHost.Proofs.TomlValues

/-!
# Lines of TOML documents

Headers and key lines with plain names are read one after another, and each leads from one state of
the document to the next.
-/

set_option autoImplicit false

namespace ScriptHost

namespace Toml

open Reader

/-! ## Lines -/

variable {name text line rest : List Char} {value : Toml} {doc doc' doc'' : Document} {fuel : Nat}

theorem Visible.skipSpace (visible : Visible text) : Reader.skipSpace text = text := by
  obtain ⟨c, more, rfl, space, -⟩ := visible
  rw [Reader.skipSpace, List.dropWhile_cons, if_neg (by simp [space])]

theorem Visible.lineEnd? (visible : Visible text) : Reader.lineEnd? text = none := by
  have start := visible.skipSpace
  obtain ⟨c, more, rfl, -, comment, newline, feed⟩ := visible
  simp [Reader.lineEnd?, start, skipComment, comment, newline?, newline, feed]

/-- A name that needs no quotes as a key. -/
structure BareName (name : List Char) : Prop where
  nonempty : name ≠ []
  all : name.all isBareKey = true

namespace BareName

theorem bare (bareName : BareName name) : ∀ c ∈ name, isBareKey c = true :=
  List.all_eq_true.mp bareName.all

theorem visible (bareName : BareName name) (rest : List Char) : Visible (name ++ rest) := by
  obtain ⟨c, more, rfl⟩ := List.exists_cons_of_ne_nil bareName.nonempty
  have bare := bareName.bare c List.mem_cons_self
  have other : ∀ d, isBareKey d = false → c ≠ d := by
    rintro d notBare rfl
    rw [bare] at notBare
    cases notBare
  refine ⟨c, more ++ rest, rfl, ?_, other '#' (by decide), other '\n' (by decide),
    other '\r' (by decide)⟩
  simp [isSpace, other ' ' (by decide), other '\t' (by decide)]

theorem head_ne (bareName : BareName name) {d : Char} (notBare : isBareKey d = false) :
    ∀ more, name ++ rest ≠ d :: more := by
  intro more same
  obtain ⟨c, others, rfl⟩ := List.exists_cons_of_ne_nil bareName.nonempty
  have bare := bareName.bare c List.mem_cons_self
  rw [(List.cons.inj same).1, notBare] at bare
  cases bare

theorem simpleKey? (bareName : BareName name)
    (ends : ∀ c, rest.head? = some c → isBareKey c = false) :
    Reader.simpleKey? (name ++ rest) = some (String.ofList name, rest) := by
  have stop : rest.takeWhile isBareKey = [] ∧ rest.dropWhile isBareKey = rest := by
    cases rest with
    | nil => exact ⟨rfl, rfl⟩
    | cons c rest => simp [ends c rfl]
  have taken : (name ++ rest).takeWhile isBareKey = name := by
    rw [List.takeWhile_append_of_pos bareName.bare, stop.1, List.append_nil]
  have dropped : (name ++ rest).dropWhile isBareKey = rest := by
    rw [List.dropWhile_append_of_pos bareName.bare, stop.2]
  unfold Reader.simpleKey?
  split
  · rename_i same
    exact absurd same (bareName.head_ne (by decide) _)
  · rename_i same
    exact absurd same (bareName.head_ne (by decide) _)
  · simp [taken, dropped, bareName.nonempty]

theorem key? {key : String} (bareName : BareName key.toList) (ends : ∀ c, rest.head? = some c → isBareKey c = false)
    (last : (skipSpace rest).head? ≠ some '.') :
    Reader.key? (key.toList ++ rest) = some ([key], skipSpace rest) := by
  have start := (bareName.visible rest).skipSpace
  have parts : keyParts? ((key.toList ++ rest).length + 1) (key.toList ++ rest) =
      some ([key], skipSpace rest) := by
    rw [keyParts?, start, bareName.simpleKey? ends, String.ofList_toList]
    simp only [Option.bind_eq_bind, Option.bind_some]
    split
    · rename_i same
      rw [same] at last
      exact absurd rfl last
    · rfl
  rw [Reader.key?, parts]
  rfl

end BareName

/-- A text that is read as a value up to the end of its line. -/
structure ValueText (text : List Char) (value : Toml) : Prop where
  visible : ∀ rest, Visible (text ++ rest)
  read : ∀ fuel rest, text.length < fuel →
    value? fuel depthLimit (text ++ '\n' :: rest) = some (value, '\n' :: rest)

theorem ValueText.boolean (b : Bool) : ValueText (booleanText b).toList (.boolean b) where
  visible rest := by cases b <;> exact visible_cons _ (by decide)
  read fuel rest enough := by
    obtain ⟨fuel, rfl⟩ := Nat.exists_eq_succ_of_ne_zero (Nat.ne_zero_of_lt enough)
    exact value?_booleanText b _

theorem ValueText.string (s : String) : ValueText (stringText s).toList (.string s) where
  visible := visible_stringText s
  read fuel rest enough := by
    obtain ⟨fuel, rfl⟩ := Nat.exists_eq_succ_of_ne_zero (Nat.ne_zero_of_lt enough)
    exact value?_stringText s (by simp) (by simp)

theorem ValueText.natural {n : Nat} (small : n < 2 ^ 63) :
    ValueText (Nat.toDigits 10 n) (.integer n) where
  visible rest := by
    obtain ⟨d, others, written⟩ := List.exists_cons_of_ne_nil
      (Nat.toDigits_ne_nil (n := n) (b := 10))
    have digit : d.isDigit = true := isDigit_toDigits d (written ▸ List.mem_cons_self)
    have other : ∀ c : Char, c.isDigit = false → d ≠ c := by
      rintro c notDigit rfl
      rw [digit] at notDigit
      cases notDigit
    rw [written]
    refine visible_cons _ ⟨?_, other _ rfl, other _ rfl, other _ rfl⟩
    simp [isSpace, other ' ' rfl, other '\t' rfl]
  read fuel rest enough := by
    obtain ⟨fuel, rfl⟩ := Nat.exists_eq_succ_of_ne_zero (Nat.ne_zero_of_lt enough)
    exact value?_toDigits small rest

theorem length_itemLines (items : List String) : items.length ≤ (itemLines items).length := by
  induction items with
  | nil => exact Nat.le_refl _
  | cons s items ih =>
      simp only [itemLines_cons, List.length_cons, List.length_append]
      omega

theorem length_arrayText (strings : List String) :
    strings.length + 2 ≤ (arrayText (strings.map stringText)).toList.length := by
  rcases strings with _ | ⟨s, _ | ⟨t, strings⟩⟩
  · decide
  · obtain ⟨quote, text, opens, -⟩ := stringText_opens s
    simp [arrayText, opens]
  · have written : (arrayText ((s :: t :: strings).map stringText)).toList =
        '[' :: '\n' :: (itemLines (s :: t :: strings) ++ [']']) := by
      simp [arrayText, itemLines, List.flatMap_map]
    have enough := length_itemLines (s :: t :: strings)
    rw [written]
    simp only [List.length_cons, List.length_append] at enough ⊢
    omega

theorem ValueText.strings (strings : List String) :
    ValueText (arrayText (strings.map stringText)).toList (.array (strings.map .string)) where
  visible rest := by
    rcases strings with _ | ⟨_, _ | ⟨_, _⟩⟩ <;>
      simp only [List.map, arrayText, String.toList_append] <;>
      exact visible_cons _ (by decide)
  read fuel rest enough := by
    apply value?_arrayText strings _ _ (by decide)
    have shorter := length_arrayText strings
    omega

/-- A text that is one line of a document, whatever follows it. -/
def Line (doc : Document) (line : List Char) (doc' : Document) : Prop :=
  ∀ rest, line? doc (line ++ rest) = some (doc', rest)

theorem line_blank (doc : Document) : Line doc ['\n'] doc := fun _ => rfl

theorem line_entry (doc : Document) (key : String) (bareName : BareName key.toList)
    (valueText : ValueText text value) (fresh : doc.opened.get? key = none) :
    Line doc (key.toList ++ ' ' :: '=' :: ' ' :: text ++ ['\n'])
      { doc with opened := doc.opened.put key value } := by
  intro rest
  have added : doc.addEntry [key] value = some { doc with opened := doc.opened.put key value } := by
    simp [Document.addEntry, addLine, descend, fresh]
  have shape : key.toList ++ ' ' :: '=' :: ' ' :: text ++ ['\n'] ++ rest =
      key.toList ++ ' ' :: '=' :: ' ' :: (text ++ '\n' :: rest) := by simp
  have keys : key? (key.toList ++ ' ' :: '=' :: ' ' :: (text ++ '\n' :: rest)) =
      some ([key], '=' :: ' ' :: (text ++ '\n' :: rest)) :=
    bareName.key? (by simp; decide) (by show some '=' ≠ some '.'; decide)
  have read := valueText.read ((' ' :: (text ++ '\n' :: rest)).length + 2) rest (by simp; omega)
  have blank : skipSpace (' ' :: (text ++ '\n' :: rest)) = text ++ '\n' :: rest :=
    (valueText.visible ('\n' :: rest)).skipSpace
  have visible := bareName.visible (' ' :: '=' :: ' ' :: (text ++ '\n' :: rest))
  rw [shape, line?, visible.skipSpace]
  split
  · rename_i same
    exact absurd same (bareName.head_ne (by decide) _)
  · rename_i same
    exact absurd same (bareName.head_ne (by decide) _)
  · rw [visible.lineEnd?, keys]
    simp only [Option.bind_eq_bind, Option.bind_some, blank, read, added]
    rfl

theorem line_header (key : String) (bareName : BareName key.toList)
    (opened : doc.openTable [key] = some doc') :
    Line doc ('[' :: key.toList ++ [']', '\n']) doc' := by
  intro rest
  have shape : '[' :: key.toList ++ [']', '\n'] ++ rest = '[' :: (key.toList ++ ']' :: '\n' :: rest) := by simp
  have keys : key? (key.toList ++ ']' :: '\n' :: rest) =
      some ([key], ']' :: '\n' :: rest) :=
    bareName.key? (by simp; decide) (by show some ']' ≠ some '.'; decide)
  rw [shape, line?, show skipSpace ('[' :: (key.toList ++ ']' :: '\n' :: rest)) =
    '[' :: (key.toList ++ ']' :: '\n' :: rest) from rfl]
  split
  · rename_i same
    exact absurd (List.cons.inj same).2 (bareName.head_ne (by decide) _)
  · rename_i same
    rw [← (List.cons.inj same).2, keys]
    simp only [Option.bind_eq_bind, Option.bind_some, opened]
    rfl
  · rename_i different
    exact absurd rfl (different _)

/-- The lines that lead from one state of a document to another. -/
inductive Lines : Document → List Char → Document → Prop where
  | done {doc : Document} : Lines doc [] doc
  | line {doc doc' doc'' : Document} {line text : List Char} :
      line ≠ [] → Line doc line doc' → Lines doc' text doc'' → Lines doc (line ++ text) doc''

theorem Lines.lines? (lines : Lines doc text doc') (enough : text.length < fuel) :
    Reader.lines? fuel doc text = some doc' := by
  induction lines generalizing fuel with
  | done => unfold Reader.lines?; rfl
  | @line doc doc' doc'' line text nonempty read _ ih =>
      obtain ⟨fuel, rfl⟩ := Nat.exists_eq_succ_of_ne_zero (Nat.ne_zero_of_lt enough)
      obtain ⟨c, more, rfl⟩ := List.exists_cons_of_ne_nil nonempty
      have further : Reader.lines? fuel doc' text = some doc'' := ih (by simp at enough; omega)
      have first := read text
      rw [List.cons_append] at first ⊢
      rw [Reader.lines?, first]
      · exact further
      · exact List.cons_ne_nil c _

theorem Lines.append (lines : Lines doc text doc') (further : Lines doc' rest doc'') :
    Lines doc (text ++ rest) doc'' := by
  induction lines with
  | done => exact further
  | line nonempty read _ ih =>
      rw [List.append_assoc]
      exact .line nonempty read (ih further)

end Toml

end ScriptHost
