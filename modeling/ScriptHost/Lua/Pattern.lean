import ScriptHost.Lua.Number

/-!
# Patterns

Patterns for parts of byte strings. A pattern is matched at one place of a subject, with
backtracking; repetitions prefer as many occurrences as possible unless they are lazy.
-/

set_option autoImplicit false

namespace ScriptHost.Lua

namespace Pattern

/-! ## Classes -/

def isAlpha (b : UInt8) : Bool := (65 ≤ b && b ≤ 90) || (97 ≤ b && b ≤ 122)
def isUpper (b : UInt8) : Bool := 65 ≤ b && b ≤ 90
def isLower (b : UInt8) : Bool := 97 ≤ b && b ≤ 122
def isControl (b : UInt8) : Bool := b < 32 || b = 127
def isGraph (b : UInt8) : Bool := 32 < b && b < 127
def isPunct (b : UInt8) : Bool := isGraph b && !isAlpha b && !Number.isDigit b

/-- The class with a given small letter. -/
def class? (letter : UInt8) : Option (UInt8 → Bool) :=
  if letter = 97 then some isAlpha
  else if letter = 99 then some isControl
  else if letter = 100 then some Number.isDigit
  else if letter = 103 then some isGraph
  else if letter = 108 then some isLower
  else if letter = 112 then some isPunct
  else if letter = 115 then some Number.isSpace
  else if letter = 117 then some isUpper
  else if letter = 119 then some fun b => isAlpha b || Number.isDigit b
  else if letter = 120 then some Number.isHexDigit
  else none

/-- Whether a byte is in the class of a letter, whose capital stands for the complement. Other
bytes stand for themselves. -/
def inClass (letter b : UInt8) : Bool :=
  match class? (if isUpper letter then letter + 32 else letter) with
  | some f => if isUpper letter then !f b else f b
  | none => letter = b

inductive Part where
  | byte (b : UInt8)
  | range (low high : UInt8)
  | letter (b : UInt8)
deriving Repr, Inhabited

def Part.has (b : UInt8) : Part → Bool
  | byte c => b = c
  | range low high => low ≤ b && b ≤ high
  | letter c => inClass c b

inductive Item where
  | any
  | byte (b : UInt8)
  | letter (b : UInt8)
  | set (complement : Bool) (parts : List Part)
deriving Repr, Inhabited

def Item.has (b : UInt8) : Item → Bool
  | any => true
  | byte c => b = c
  | letter c => inClass c b
  | set complement parts => (parts.any fun part => part.has b) != complement

/-- The parts of the inside of a set. -/
def parts : List UInt8 → List Part
  | 37 :: c :: rest => .letter c :: parts rest
  | a :: 45 :: b :: rest => .range a b :: parts rest
  | a :: rest => .byte a :: parts rest
  | [] => []

/-- Splits the inside of a set from what follows its bracket. The first byte belongs to the
inside in any case. -/
def splitSet (first : Bool) : List UInt8 → Option (List UInt8 × List UInt8)
  | [] => none
  | [a] => if a = 93 && !first then some ([], []) else none
  | a :: b :: rest =>
    if a = 93 && !first then some ([], b :: rest)
    else if a = 37 then
      (splitSet false rest).map fun (inside, rest) => (a :: b :: inside, rest)
    else (splitSet false (b :: rest)).map fun (inside, rest) => (a :: inside, rest)

def missingBracket : String := "malformed pattern (missing ']')"

/-- The set after its opening bracket. -/
def set (pattern : List UInt8) : Except String (Item × List UInt8) :=
  let (complement, pattern) := match pattern with
    | 94 :: rest => (true, rest)
    | pattern => (false, pattern)
  match splitSet true pattern with
  | some (inside, rest) => .ok (.set complement (parts inside), rest)
  | none => .error missingBracket

/-- The first item of a pattern that is not empty. -/
def item : List UInt8 → Except String (Item × List UInt8)
  | [] => .ok (.any, [])
  | 46 :: rest => .ok (.any, rest)
  | 37 :: c :: rest => .ok (.letter c, rest)
  | [37] => .error "malformed pattern (ends with '%')"
  | 91 :: rest => set rest
  | c :: rest => .ok (.byte c, rest)

/-! ## Matching -/

inductive Extent where
  | unfinished
  /-- Not a part of the subject but a place in it. -/
  | position
  | closed (length : Nat)
deriving DecidableEq, Repr, Inhabited

structure Capture where
  start : Nat
  extent : Extent
deriving DecidableEq, Repr, Inhabited

/-- A match: where it ends, and its captures in order. -/
structure Match where
  stop : Nat
  captures : List Capture
deriving DecidableEq, Repr, Inhabited

abbrev Result := Except String (Option Match)

def maxCaptures : Nat := 32

def byteAt? (subject : ByteArray) (i : Nat) : Option UInt8 := subject[i]?

def hasAt (subject : ByteArray) (item : Item) (i : Nat) : Bool :=
  (byteAt? subject i).any fun b => item.has b

/-- How often an item matches in a row from a place on. -/
def countRun (subject : ByteArray) (item : Item) (i : Nat) : Nat → Nat
  | 0 => 0
  | fuel + 1 => if hasAt subject item i then countRun subject item (i + 1) fuel + 1 else 0

/-- Where a balanced text ends whose opening mark has been read. -/
def balanced? (subject : ByteArray) (open_ close : UInt8) (i depth : Nat) : Nat → Option Nat
  | 0 => none
  | fuel + 1 =>
    match byteAt? subject i with
    | none => none
    | some b =>
      if b = close then
        if depth = 1 then some (i + 1) else balanced? subject open_ close (i + 1) (depth - 1) fuel
      else balanced? subject open_ close (i + 1) (if b = open_ then depth + 1 else depth) fuel

/-- Tries a longest repetition first and then shorter ones. -/
def longestFirst (goOn : Nat → Result) (i : Nat) : Nat → Result
  | 0 => goOn i
  | n + 1 => do
    match ← goOn (i + n + 1) with
    | some m => return some m
    | none => longestFirst goOn i n

/-- Tries a shortest repetition first and then longer ones. -/
def shortestFirst (subject : ByteArray) (item : Item) (goOn : Nat → Result) (i : Nat) :
    Nat → Result
  | 0 => return none
  | fuel + 1 => do
    match ← goOn i with
    | some m => return some m
    | none =>
      if hasAt subject item i then shortestFirst subject item goOn (i + 1) fuel
      else return none

/-- Finishes the last unfinished capture. -/
def closeCapture (captures : List Capture) (i : Nat) : Except String (List Capture) :=
  match captures.reverse.findIdx? fun c => c.extent == .unfinished with
  | some back =>
    let k := captures.length - 1 - back
    .ok (captures.modify k fun c => { c with extent := .closed (i - c.start) })
  | none => .error "invalid pattern capture"

/-- The text of an earlier capture. -/
def captured (subject : ByteArray) (captures : List Capture) (digit : UInt8) :
    Except String ByteArray :=
  let k := digit.toNat - 49
  match captures[k]? with
  | some ⟨start, .closed length⟩ => .ok (subject.extract start (start + length))
  | _ => .error s!"invalid capture index %{k + 1}"

/-! ## Pieces -/

inductive Repetition where
  | once
  | optional
  | longest
  | longestNonempty
  | shortest
deriving DecidableEq, Repr, Inhabited

inductive Piece where
  | finish
  /-- Captures a place. -/
  | position
  | opening
  | closing
  /-- The end of the subject. -/
  | anchor
  | balanced (opening closing : UInt8)
  | frontier (item : Item)
  | earlier (digit : UInt8)
  | item (item : Item) (repetition : Repetition)
deriving Repr, Inhabited

def Repetition.read : List UInt8 → Repetition × List UInt8
  | [] => (.once, [])
  | mark :: rest =>
    if mark = 63 then (.optional, rest)
    else if mark = 42 then (.longest, rest)
    else if mark = 43 then (.longestNonempty, rest)
    else if mark = 45 then (.shortest, rest)
    else (.once, mark :: rest)

def readItem (pattern : List UInt8) : Except String (Piece × List UInt8) := do
  let (item, rest) ← item pattern
  let (repetition, rest) := Repetition.read rest
  return (.item item repetition, rest)

def readEscape (letter : UInt8) (rest : List UInt8) : Except String (Piece × List UInt8) :=
  if letter = 98 then
    match rest with
    | opening :: closing :: rest => .ok (.balanced opening closing, rest)
    | _ => .error "malformed pattern (missing arguments to '%b')"
  else if letter = 102 then
    match rest with
    | bracket :: rest =>
      if bracket = 91 then (set rest).map fun (item, rest) => (.frontier item, rest)
      else .error "missing '[' after '%f' in pattern"
    | [] => .error "missing '[' after '%f' in pattern"
  else if Number.isDigit letter then .ok (.earlier letter, rest)
  else readItem (37 :: letter :: rest)

def readPiece : List UInt8 → Except String (Piece × List UInt8)
  | [] => .ok (.finish, [])
  | b :: rest =>
    if b = 40 then
      if rest.head? == some 41 then .ok (.position, rest.drop 1) else .ok (.opening, rest)
    else if b = 41 then .ok (.closing, rest)
    else if b = 36 && rest.isEmpty then .ok (.anchor, [])
    else if b = 37 then
      match rest with
      | letter :: rest => readEscape letter rest
      | [] => readItem [37]
    else readItem (b :: rest)

/-! ## Matching -/

/-- Adds a capture that starts at a place. -/
def addCapture (captures : List Capture) (capture : Capture) : Except String (List Capture) :=
  if maxCaptures ≤ captures.length then .error "too many captures"
  else .ok (captures ++ [capture])

/-- Whether a place lies between a byte outside and a byte inside an item. Beyond the ends of
the subject there are zero bytes. -/
def isFrontier (subject : ByteArray) (item : Item) (i : Nat) : Bool :=
  let before := if i = 0 then 0 else (byteAt? subject (i - 1)).getD 0
  let here := (byteAt? subject i).getD 0
  !item.has before && item.has here

/-- Whether a text stands at a place of the subject. -/
def hasText (subject text : ByteArray) (i : Nat) : Bool :=
  i + text.size ≤ subject.size && subject.extract i (i + text.size) == text

/-- Matches an item as often as its repetition says, and then what follows. -/
def repeated (subject : ByteArray) (item : Item) (repetition : Repetition) (i : Nat)
    (goOn : Nat → Result) : Result :=
  match repetition with
  | .once => if hasAt subject item i then goOn (i + 1) else return none
  | .optional => longestFirst goOn i (if hasAt subject item i then 1 else 0)
  | .longest => longestFirst goOn i (countRun subject item i (subject.size - i))
  | .longestNonempty =>
    match countRun subject item i (subject.size - i) with
    | 0 => return none
    | n + 1 => longestFirst goOn (i + 1) n
  | .shortest => shortestFirst subject item goOn i (subject.size - i + 1)

/-- Matches a pattern at a place of the subject. The last argument bounds the length of the
pattern. -/
def matchAt (subject : ByteArray) (captures : List Capture) (i : Nat) (pattern : List UInt8) :
    Nat → Result
  | 0 => return none
  | fuel + 1 => do
    let (piece, rest) ← readPiece pattern
    match piece with
    | .finish => return some ⟨i, captures⟩
    | .position =>
      matchAt subject (← addCapture captures ⟨i, .position⟩) i rest fuel
    | .opening =>
      matchAt subject (← addCapture captures ⟨i, .unfinished⟩) i rest fuel
    | .closing => matchAt subject (← closeCapture captures i) i rest fuel
    | .anchor => return if i = subject.size then some ⟨i, captures⟩ else none
    | .balanced opening closing =>
      if byteAt? subject i == some opening then
        match balanced? subject opening closing (i + 1) 1 (subject.size - i) with
        | some stop => matchAt subject captures stop rest fuel
        | none => return none
      else return none
    | .frontier item =>
      if isFrontier subject item i then matchAt subject captures i rest fuel else return none
    | .earlier digit => do
      let text ← captured subject captures digit
      if hasText subject text i then matchAt subject captures (i + text.size) rest fuel
      else return none
    | .item item repetition =>
      repeated subject item repetition i fun j => matchAt subject captures j rest fuel

def run (subject : ByteArray) (pattern : List UInt8) (i : Nat) : Result :=
  matchAt subject [] i pattern (pattern.length + 1)

/-- The first match from a place on; an anchored pattern matches only there. -/
def search (subject : ByteArray) (pattern : List UInt8) (anchored : Bool) (i : Nat) :
    Nat → Except String (Option (Nat × Match))
  | 0 => return none
  | fuel + 1 => do
    match ← run subject pattern i with
    | some m => return some (i, m)
    | none =>
      if anchored || subject.size ≤ i then return none
      else search subject pattern anchored (i + 1) fuel

def Capture.value (subject : ByteArray) (c : Capture) : Except String Value :=
  match c.extent with
  | .unfinished => .error "unfinished capture"
  | .position => .ok (.integer (Int64.ofNat (c.start + 1)))
  | .closed length => .ok (.string (subject.extract c.start (c.start + length)))

/-- The captures of a match, or the whole match if it has none. -/
def Match.values (subject : ByteArray) (start : Nat) (m : Match) : Except String (List Value) :=
  if m.captures.isEmpty then .ok [.string (subject.extract start m.stop)]
  else m.captures.mapM fun c => c.value subject

end Pattern

end ScriptHost.Lua
