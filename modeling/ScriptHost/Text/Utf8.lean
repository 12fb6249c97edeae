/-!
# UTF-8

Byte strings cut into well formed sequences and maximal ill formed ones. `lossy` replaces each
maximal ill formed sequence by U+FFFD and keeps everything else byte for byte.
-/

set_option autoImplicit false

namespace ScriptHost.Utf8

/-- How a byte string begins: a well formed sequence, or a maximal ill formed one. The number
counts the bytes that belong to it after the first. -/
inductive Chunk where
  | scalar (more : Nat)
  | bad (more : Nat)
  /-- An ill formed sequence that only lacks bytes, at the end of the text. -/
  | cut (more : Nat)
deriving DecidableEq, Repr

def isContinuation (b : UInt8) : Bool := 0x80 ≤ b && b ≤ 0xBF

/-- The lowest and highest second byte after a given first byte. -/
def secondBounds (first : UInt8) : UInt8 × UInt8 :=
  if first = 0xE0 then (0xA0, 0xBF)
  else if first = 0xED then (0x80, 0x9F)
  else if first = 0xF0 then (0x90, 0xBF)
  else if first = 0xF4 then (0x80, 0x8F)
  else (0x80, 0xBF)

/-- The number of bytes that follow a first byte, if it can begin a sequence. -/
def following? (first : UInt8) : Option Nat :=
  if first < 0x80 then some 0
  else if 0xC2 ≤ first && first ≤ 0xDF then some 1
  else if 0xE0 ≤ first && first ≤ 0xEF then some 2
  else if 0xF0 ≤ first && first ≤ 0xF4 then some 3
  else none

/-- Counts how many of the next `want` bytes are continuations, `seen` having been found. -/
def continueChunk : Nat → Nat → List UInt8 → Chunk
  | 0, seen, _ => .scalar seen
  | _ + 1, seen, [] => .cut seen
  | want + 1, seen, b :: rest =>
    if isContinuation b then continueChunk want (seen + 1) rest else .bad seen

/-- The chunk that begins with `first` and goes on in `rest`. -/
def chunk (first : UInt8) (rest : List UInt8) : Chunk :=
  match following? first with
  | none => .bad 0
  | some 0 => .scalar 0
  | some (want + 1) =>
    match rest with
    | [] => .cut 0
    | b :: rest =>
      let (lo, hi) := secondBounds first
      if lo ≤ b && b ≤ hi then continueChunk want 1 rest else .bad 0

/-- The bytes of U+FFFD. -/
def replacement : List UInt8 := [0xEF, 0xBF, 0xBD]

/-- Appends the reverse of the lossy form of a text to `acc`. -/
def lossyInto (acc : List UInt8) : List UInt8 → List UInt8
  | [] => acc
  | b :: rest =>
    match chunk b rest with
    | .scalar n => lossyInto ((rest.take n).reverse ++ b :: acc) (rest.drop n)
    | .bad n | .cut n => lossyInto (replacement.reverse ++ acc) (rest.drop n)
termination_by bs => bs.length
decreasing_by all_goals simp only [List.length_drop, List.length_cons]; omega

/-- Replaces every maximal ill formed sequence by U+FFFD. -/
def lossy (bs : List UInt8) : List UInt8 := (lossyInto [] bs).reverse

/-- Where a text stops being well formed. -/
structure Fault where
  index : Nat
  /-- The length of the ill formed sequence, absent if the text merely ends too early. -/
  length? : Option Nat
deriving DecidableEq, Repr

/-- The first ill formed sequence, for a text whose first byte has the given index. -/
def faultFrom? (index : Nat) : List UInt8 → Option Fault
  | [] => none
  | b :: rest =>
    match chunk b rest with
    | .scalar n => faultFrom? (index + n + 1) (rest.drop n)
    | .bad n => some ⟨index, some (n + 1)⟩
    | .cut _ => some ⟨index, none⟩
termination_by bs => bs.length
decreasing_by simp only [List.length_drop, List.length_cons]; omega

def fault? (bs : List UInt8) : Option Fault := faultFrom? 0 bs

def Fault.message (fault : Fault) : String :=
  match fault.length? with
  | some n => s!"invalid utf-8 sequence of {n} bytes from index {fault.index}"
  | none => s!"incomplete utf-8 byte sequence from index {fault.index}"

/-- A byte string as text, ill formed sequences replaced. -/
def text (bs : List UInt8) : String :=
  (String.fromUTF8? (lossy bs).toByteArray).getD ""

def text? (bs : List UInt8) : Option String := String.fromUTF8? bs.toByteArray

def bytes (s : String) : List UInt8 := s.toUTF8.toList

end ScriptHost.Utf8
