import ScriptHost.Path

/-!
# Well formed text

The well formed byte strings are the encodings of characters one after another. Repairing a byte
string yields such a string and leaves one that is well formed as it is.
-/

set_option autoImplicit false

namespace ScriptHost

theorem fromUTF8?_toByteArray (s : String) : String.fromUTF8? s.toByteArray = some s := by
  rw [String.fromUTF8?, dif_pos s.isValidUTF8]
  rfl

theorem toByteArray_of_fromUTF8? {b : ByteArray} {s : String}
    (decoded : String.fromUTF8? b = some s) : s.toByteArray = b := by
  simp only [String.fromUTF8?] at decoded
  split at decoded
  · obtain rfl := Option.some.inj decoded
    rfl
  · cases decoded

namespace Utf8

variable {b : UInt8} {rest : List UInt8} {n : Nat}

/-- The bytes of some characters. -/
def encode (cs : List Char) : List UInt8 := cs.flatMap String.utf8EncodeChar

/-! ## Single characters -/

/-- The second byte of a sequence is within what its first byte allows. -/
def Second (first second : UInt8) : Prop :=
  (secondBounds first).1 ≤ second ∧ second ≤ (secondBounds first).2

/-- The well formed sequences: a first byte and those that follow it. -/
inductive Sequence : UInt8 → List UInt8 → Prop
  | one {a : UInt8} : a < 0x80 → Sequence a []
  | two {a b : UInt8} : 0xC2 ≤ a → a ≤ 0xDF → isContinuation b → Sequence a [b]
  | three {a b c : UInt8} : 0xE0 ≤ a → a ≤ 0xEF → Second a b → isContinuation c →
      Sequence a [b, c]
  | four {a b c d : UInt8} : 0xF0 ≤ a → a ≤ 0xF4 → Second a b → isContinuation c →
      isContinuation d → Sequence a [b, c, d]

theorem following?_eq (a : UInt8) : following? a =
    if a.toNat < 0x80 then some 0
    else if 0xC2 ≤ a.toNat ∧ a.toNat ≤ 0xDF then some 1
    else if 0xE0 ≤ a.toNat ∧ a.toNat ≤ 0xEF then some 2
    else if 0xF0 ≤ a.toNat ∧ a.toNat ≤ 0xF4 then some 3
    else none := by
  simp only [following?, UInt8.lt_iff_toNat_lt, UInt8.le_iff_toNat_le, UInt8.reduceToNat,
    Bool.and_eq_true, decide_eq_true_eq]

theorem isContinuation_iff {a : UInt8} : isContinuation a = true ↔ 0x80 ≤ a.toNat ∧ a.toNat ≤ 0xBF := by
  simp only [isContinuation, UInt8.le_iff_toNat_le, UInt8.reduceToNat, Bool.and_eq_true,
    decide_eq_true_eq]

theorem second_iff {a b : UInt8} : Second a b ↔
    0x80 ≤ b.toNat ∧ b.toNat ≤ 0xBF ∧ (a.toNat = 0xE0 → 0xA0 ≤ b.toNat) ∧
      (a.toNat = 0xED → b.toNat ≤ 0x9F) ∧ (a.toNat = 0xF0 → 0x90 ≤ b.toNat) ∧
      (a.toNat = 0xF4 → b.toNat ≤ 0x8F) := by
  have same (n : UInt8) : a = n ↔ a.toNat = n.toNat := UInt8.toNat_inj.symm
  simp only [Second, secondBounds, same, UInt8.le_iff_toNat_le, UInt8.reduceToNat]
  split
  · simp only [UInt8.reduceToNat]
    omega
  split
  · simp only [UInt8.reduceToNat]
    omega
  split
  · simp only [UInt8.reduceToNat]
    omega
  split
  · simp only [UInt8.reduceToNat]
    omega
  · simp only [UInt8.reduceToNat]
    omega

theorem val_ofNat {v : Nat} (valid : v.isValidChar) : (Char.ofNat v).val.toNat = v := by
  rw [Char.ofNat, dif_pos valid]
  rfl

theorem exists_encodeChar {a : UInt8} {more : List UInt8} (sequence : Sequence a more) :
    ∃ c, String.utf8EncodeChar c = a :: more := by
  cases sequence with
  | one low =>
      simp only [UInt8.lt_iff_toNat_lt, UInt8.reduceToNat] at low
      have valid : a.toNat.isValidChar := by
        simp only [Nat.isValidChar]
        omega
      refine ⟨Char.ofNat a.toNat, ?_⟩
      unfold String.utf8EncodeChar
      simp only [val_ofNat valid]
      rw [if_pos (by omega)]
      simp
  | two low high second =>
      rename_i b
      simp only [UInt8.le_iff_toNat_le, UInt8.reduceToNat, isContinuation_iff] at low high second
      have valid : Nat.isValidChar (a.toNat % 0x20 * 0x40 + b.toNat % 0x40) := by
        simp only [Nat.isValidChar]
        omega
      refine ⟨Char.ofNat (a.toNat % 0x20 * 0x40 + b.toNat % 0x40), ?_⟩
      unfold String.utf8EncodeChar
      simp only [val_ofNat valid]
      rw [if_neg (by omega), if_pos (by omega)]
      simp only [List.cons.injEq, and_true, ← UInt8.toNat_inj, UInt8.toNat_ofNat']
      omega
  | three low high second third =>
      rename_i b c
      simp only [UInt8.le_iff_toNat_le, UInt8.reduceToNat, isContinuation_iff, second_iff]
        at low high second third
      have valid : Nat.isValidChar
          (a.toNat % 0x10 * 0x1000 + b.toNat % 0x40 * 0x40 + c.toNat % 0x40) := by
        simp only [Nat.isValidChar]
        omega
      refine ⟨Char.ofNat (a.toNat % 0x10 * 0x1000 + b.toNat % 0x40 * 0x40 + c.toNat % 0x40), ?_⟩
      unfold String.utf8EncodeChar
      simp only [val_ofNat valid]
      rw [if_neg (by omega), if_neg (by omega), if_pos (by omega)]
      simp only [List.cons.injEq, and_true, ← UInt8.toNat_inj, UInt8.toNat_ofNat']
      omega
  | four low high second third fourth =>
      rename_i b c d
      simp only [UInt8.le_iff_toNat_le, UInt8.reduceToNat, isContinuation_iff, second_iff]
        at low high second third fourth
      have valid : Nat.isValidChar (a.toNat % 0x08 * 0x40000 + b.toNat % 0x40 * 0x1000 +
          c.toNat % 0x40 * 0x40 + d.toNat % 0x40) := by
        simp only [Nat.isValidChar]
        omega
      refine ⟨Char.ofNat (a.toNat % 0x08 * 0x40000 + b.toNat % 0x40 * 0x1000 +
        c.toNat % 0x40 * 0x40 + d.toNat % 0x40), ?_⟩
      unfold String.utf8EncodeChar
      simp only [val_ofNat valid]
      rw [if_neg (by omega), if_neg (by omega), if_neg (by omega)]
      simp only [List.cons.injEq, and_true, ← UInt8.toNat_inj, UInt8.toNat_ofNat']
      omega

theorem sequence_encodeChar (c : Char) :
    ∃ a more, String.utf8EncodeChar c = a :: more ∧ Sequence a more := by
  have valid := c.valid
  simp only [UInt32.isValidChar, Nat.isValidChar] at valid
  unfold String.utf8EncodeChar
  dsimp only
  split
  · refine ⟨_, _, rfl, .one ?_⟩
    simp only [UInt8.lt_iff_toNat_lt, UInt8.reduceToNat, UInt8.toNat_ofNat']
    omega
  split
  · refine ⟨_, _, rfl, .two ?_ ?_ ?_⟩ <;>
      simp only [UInt8.le_iff_toNat_le, isContinuation_iff, UInt8.reduceToNat,
        UInt8.toNat_ofNat'] <;>
      omega
  split
  · refine ⟨_, _, rfl, .three ?_ ?_ ?_ ?_⟩ <;>
      simp only [UInt8.le_iff_toNat_le, isContinuation_iff, second_iff, UInt8.reduceToNat,
        UInt8.toNat_ofNat'] <;>
      omega
  · refine ⟨_, _, rfl, .four ?_ ?_ ?_ ?_ ?_⟩ <;>
      simp only [UInt8.le_iff_toNat_le, isContinuation_iff, second_iff, UInt8.reduceToNat,
        UInt8.toNat_ofNat'] <;>
      omega

/-! ## Chunks -/

theorem chunk_cons {a : UInt8} {want : Nat} (first : following? a = some (want + 1))
    (second : Second a b) : chunk a (b :: rest) = continueChunk want 1 rest := by
  simp only [chunk, first]
  rw [if_pos]
  simp only [Bool.and_eq_true, decide_eq_true_eq]
  exact second

theorem chunk_of_sequence {a : UInt8} {more : List UInt8} (sequence : Sequence a more)
    (rest : List UInt8) : chunk a (more ++ rest) = .scalar more.length := by
  cases sequence with
  | one low =>
      simp only [UInt8.lt_iff_toNat_lt, UInt8.reduceToNat] at low
      have first : following? a = some 0 := by rw [following?_eq, if_pos low]
      simp [chunk, first]
  | two low high second =>
      simp only [UInt8.le_iff_toNat_le, UInt8.reduceToNat] at low high
      have first : following? a = some 1 := by
        rw [following?_eq, if_neg (by omega), if_pos ⟨low, high⟩]
      refine (chunk_cons first ?_).trans rfl
      rw [isContinuation_iff] at second
      rw [second_iff]
      omega
  | three low high second third =>
      simp only [UInt8.le_iff_toNat_le, UInt8.reduceToNat] at low high
      have first : following? a = some 2 := by
        rw [following?_eq, if_neg (by omega), if_neg (by omega), if_pos ⟨low, high⟩]
      refine (chunk_cons first second).trans ?_
      simp [continueChunk, third]
  | four low high second third fourth =>
      simp only [UInt8.le_iff_toNat_le, UInt8.reduceToNat] at low high
      have first : following? a = some 3 := by
        rw [following?_eq, if_neg (by omega), if_neg (by omega), if_neg (by omega),
          if_pos ⟨low, high⟩]
      refine (chunk_cons first second).trans ?_
      simp [continueChunk, third, fourth]

theorem continuations_of_continueChunk {want seen : Nat}
    (found : continueChunk want seen rest = .scalar n) :
    n = seen + want ∧ ∃ more tail, rest = more ++ tail ∧ more.length = want ∧
      ∀ b ∈ more, isContinuation b = true := by
  induction want generalizing seen rest with
  | zero =>
      cases found
      exact ⟨rfl, [], rest, rfl, rfl, by simp⟩
  | succ want ih =>
      cases rest with
      | nil => cases found
      | cons b rest =>
          by_cases continues : isContinuation b
          · rw [continueChunk, if_pos continues] at found
            obtain ⟨count, more, tail, rfl, length, all⟩ := ih found
            refine ⟨by omega, b :: more, tail, rfl, by simp [length], fun c member => ?_⟩
            rcases List.mem_cons.mp member with rfl | member
            · exact continues
            · exact all c member
          · rw [continueChunk, if_neg continues] at found
            cases found

theorem range_of_following? {a : UInt8} {count : Nat} (found : following? a = some count) :
    count = 0 ∧ a.toNat < 0x80 ∨ count = 1 ∧ 0xC2 ≤ a.toNat ∧ a.toNat ≤ 0xDF ∨
      count = 2 ∧ 0xE0 ≤ a.toNat ∧ a.toNat ≤ 0xEF ∨
      count = 3 ∧ 0xF0 ≤ a.toNat ∧ a.toNat ≤ 0xF4 := by
  rw [following?_eq] at found
  grind

theorem sequence_of_chunk {a : UInt8} (found : chunk a rest = .scalar n) :
    ∃ more tail, rest = more ++ tail ∧ more.length = n ∧ Sequence a more := by
  cases first : following? a with
  | none => simp [chunk, first] at found
  | some count =>
      have range := range_of_following? first
      cases count with
      | zero =>
          simp only [chunk, first, Chunk.scalar.injEq] at found
          refine ⟨[], rest, rfl, found, .one ?_⟩
          simp only [UInt8.lt_iff_toNat_lt, UInt8.reduceToNat]
          omega
      | succ want =>
          cases rest with
          | nil => simp [chunk, first] at found
          | cons b rest =>
              by_cases second : Second a b
              · rw [chunk_cons first second] at found
                obtain ⟨rfl, more, tail, rfl, length, all⟩ := continuations_of_continueChunk found
                refine ⟨b :: more, tail, rfl, by simp [length, Nat.add_comm], ?_⟩
                match more, length, all with
                | [], length, _ =>
                    refine .two ?_ ?_ ?_ <;>
                      simp only [UInt8.le_iff_toNat_le, UInt8.reduceToNat, isContinuation_iff] <;>
                      rw [second_iff] at second <;>
                      simp only [List.length_nil] at length <;>
                      omega
                | [c], length, all =>
                    simp only [List.length_cons, List.length_nil] at length
                    refine .three ?_ ?_ second (all c (by simp)) <;>
                      simp only [UInt8.le_iff_toNat_le, UInt8.reduceToNat] <;>
                      omega
                | [c, d], length, all =>
                    simp only [List.length_cons, List.length_nil] at length
                    refine .four ?_ ?_ second (all c (by simp)) (all d (by simp)) <;>
                      simp only [UInt8.le_iff_toNat_le, UInt8.reduceToNat] <;>
                      omega
                | _ :: _ :: _ :: more, length, _ =>
                    simp only [List.length_cons] at length
                    omega
              · simp only [chunk, first] at found
                rw [if_neg] at found
                · cases found
                · simp only [Bool.and_eq_true, decide_eq_true_eq]
                  exact second

/-! ## Whole texts -/

theorem lossyInto_append (acc : List UInt8) :
    ∀ bs, lossyInto acc bs = lossyInto [] bs ++ acc
  | [] => by simp [lossyInto]
  | b :: rest => by
      have shorter (n : Nat) : ∀ acc, lossyInto acc (rest.drop n) = lossyInto [] (rest.drop n) ++ acc :=
        fun acc => lossyInto_append acc (rest.drop n)
      rw [lossyInto, lossyInto]
      cases chunk b rest with
      | scalar n =>
          dsimp only
          rw [shorter n (_ ++ b :: acc), shorter n (_ ++ [b])]
          simp
      | bad n | cut n =>
          dsimp only
          rw [shorter n (_ ++ acc), shorter n (_ ++ [])]
          simp
termination_by bs => bs.length
decreasing_by all_goals simp only [List.length_drop, List.length_cons]; omega

theorem lossy_nil : lossy [] = [] := by
  simp [lossy, lossyInto]

theorem lossy_scalar (found : chunk b rest = .scalar n) :
    lossy (b :: rest) = b :: rest.take n ++ lossy (rest.drop n) := by
  rw [lossy, lossyInto, found]
  dsimp only
  rw [lossyInto_append]
  simp [lossy]

/-- Everything else is replaced. -/
theorem lossy_ill_formed (found : chunk b rest = .bad n ∨ chunk b rest = .cut n) :
    lossy (b :: rest) = replacement ++ lossy (rest.drop n) := by
  rcases found with found | found <;>
    · rw [lossy, lossyInto, found]
      dsimp only
      rw [lossyInto_append]
      simp [lossy]

theorem lossy_sequence {a : UInt8} {more : List UInt8} (sequence : Sequence a more)
    (rest : List UInt8) : lossy (a :: more ++ rest) = a :: more ++ lossy rest := by
  rw [List.cons_append, lossy_scalar (chunk_of_sequence sequence rest)]
  simp

/-- A well formed text is not changed. -/
theorem lossy_encode_append (cs : List Char) (rest : List UInt8) :
    lossy (encode cs ++ rest) = encode cs ++ lossy rest := by
  induction cs with
  | nil => rfl
  | cons c cs ih =>
      obtain ⟨a, more, encoded, sequence⟩ := sequence_encodeChar c
      rw [encode, List.flatMap_cons, encoded, List.append_assoc, lossy_sequence sequence,
        ← encode, ih, List.append_assoc]

/-- A repaired text is well formed. -/
theorem exists_encode_lossy : ∀ bs, ∃ cs, lossy bs = encode cs
  | [] => ⟨[], lossy_nil⟩
  | b :: rest => by
      have replaced {n : Nat} (found : chunk b rest = .bad n ∨ chunk b rest = .cut n) :
          ∃ cs, lossy (b :: rest) = encode cs := by
        obtain ⟨cs, repaired⟩ := exists_encode_lossy (rest.drop n)
        refine ⟨'\uFFFD' :: cs, ?_⟩
        rw [lossy_ill_formed found, repaired]
        rfl
      cases found : chunk b rest with
      | scalar n =>
          obtain ⟨cs, repaired⟩ := exists_encode_lossy (rest.drop n)
          obtain ⟨more, tail, rfl, length, sequence⟩ := sequence_of_chunk found
          obtain ⟨c, encoded⟩ := exists_encodeChar sequence
          refine ⟨c :: cs, ?_⟩
          rw [lossy_scalar found, repaired, encode, encode, List.flatMap_cons, encoded, ← length,
            List.take_left]
      | bad n => exact replaced (.inl found)
      | cut n => exact replaced (.inr found)
termination_by bs => bs.length
decreasing_by all_goals simp only [List.length_drop, List.length_cons]; omega

theorem lossy_encode (cs : List Char) : lossy (encode cs) = encode cs := by
  have kept := lossy_encode_append cs []
  rwa [lossy_nil, List.append_nil] at kept

/-! ## Strings -/

theorem toList_loop (b : ByteArray) (i : Nat) (r : List UInt8) :
    ByteArray.toList.loop b i r = r.reverse ++ b.data.toList.drop i := by
  unfold ByteArray.toList.loop
  split
  · rename_i inside
    have next : b.data.toList.drop i = b.data[i] :: b.data.toList.drop (i + 1) :=
      List.drop_eq_getElem_cons (by simpa using inside)
    rw [toList_loop b (i + 1), next]
    simp [ByteArray.get!, getElem!_pos, inside]
  · rename_i outside
    rw [List.drop_of_length_le (by simpa using outside), List.append_nil]
termination_by b.size - i

theorem toList_eq (b : ByteArray) : b.toList = b.data.toList := by
  simp [ByteArray.toList, toList_loop]

theorem bytes_ofList (cs : List Char) : bytes (String.ofList cs) = encode cs := by
  simp [bytes, toList_eq, List.utf8Encode, encode]

theorem bytes_append (s t : String) : bytes (s ++ t) = bytes s ++ bytes t := by
  simp [bytes, toList_eq]

theorem bytes_eq_encode (s : String) : bytes s = encode s.toList := by
  rw [← bytes_ofList, String.ofList_toList]

theorem toByteArray_bytes (s : String) : (bytes s).toByteArray = s.toByteArray := by
  rw [bytes, toList_eq]
  ext1
  simp

theorem bytes_text (bs : List UInt8) : bytes (text bs) = lossy bs := by
  obtain ⟨cs, repaired⟩ := exists_encode_lossy bs
  rw [← bytes_ofList] at repaired
  rw [text, repaired, toByteArray_bytes, fromUTF8?_toByteArray, Option.getD_some]

theorem text_bytes (s : String) : text (bytes s) = s := by
  rw [text, bytes_eq_encode, lossy_encode, ← bytes_eq_encode, toByteArray_bytes,
    fromUTF8?_toByteArray, Option.getD_some]

end Utf8

/-! ## Paths -/

theorem Path.ofString_of_text? {path : Path} {s : String} (text : path.text? = some s) :
    Path.ofString s = path := by
  rw [ofString, Utf8.bytes, String.toUTF8_eq_toByteArray, toByteArray_of_fromUTF8? text,
    Utf8.toList_eq, List.toList_data_toByteArray]

theorem Path.text?_ofString (s : String) : (Path.ofString s).text? = some s := by
  rw [text?, ofString, Utf8.text?, Utf8.toByteArray_bytes, fromUTF8?_toByteArray]

end ScriptHost
