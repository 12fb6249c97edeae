import ScriptHost.Text.Utf8

/-!
# File paths

Paths are byte strings in which only the slash separates. Two paths are `same` when their
components agree, so repeated slashes, inner dots and a final slash do not matter.
-/

set_option autoImplicit false

namespace ScriptHost

structure Path where
  bytes : List UInt8
deriving DecidableEq, Repr, Inhabited

namespace Path

def slash : UInt8 := 47
def dot : UInt8 := 46

def ofString (s : String) : Path := ⟨Utf8.bytes s⟩

def text? (p : Path) : Option String := Utf8.text? p.bytes

/-- The path for display, with ill formed bytes replaced. -/
def display (p : Path) : String := Utf8.text p.bytes

/-- Cuts a byte string at every occurrence of a byte; there is one piece more than cuts. -/
def splitAt (cut : UInt8) : List UInt8 → List (List UInt8)
  | [] => [[]]
  | b :: rest =>
    if b = cut then [] :: splitAt cut rest
    else
      match splitAt cut rest with
      | [] => [[b]]
      | piece :: pieces => (b :: piece) :: pieces

/-- Joins pieces with a byte between them. -/
def joinWith (glue : UInt8) : List (List UInt8) → List UInt8
  | [] => []
  | [piece] => piece
  | piece :: pieces => piece ++ glue :: joinWith glue pieces

inductive Component where
  | root
  | current
  | parent
  | name (bytes : List UInt8)
deriving DecidableEq, Repr

def isAbsolute (p : Path) : Bool := p.bytes.head? == some slash

/-- Whether a piece between slashes stands for nothing. -/
def isBlankPiece (piece : List UInt8) : Bool := piece.isEmpty || piece == [dot]

def Component.ofPiece (piece : List UInt8) : Component :=
  if piece == [dot, dot] then .parent else .name piece

/-- The length of what stands before the body: a root slash, or a leading dot. -/
def headLength (p : Path) : Nat :=
  match p.bytes with
  | [] => 0
  | [b] => if b = slash || b = dot then 1 else 0
  | b :: c :: _ => if b = slash || (b = dot && c = slash) then 1 else 0

def head (p : Path) : List UInt8 := p.bytes.take p.headLength

def bodyPieces (p : Path) : List (List UInt8) := splitAt slash (p.bytes.drop p.headLength)

/-- The components of a path. A dot counts only at the start of a relative path. -/
def components (p : Path) : List Component :=
  (match p.head with
    | [] => []
    | b :: _ => [if b = slash then .root else .current]) ++
  ((p.bodyPieces.filter fun piece => !isBlankPiece piece).map Component.ofPiece)

/-- Equality of paths as locations: componentwise. -/
def same (p q : Path) : Bool := p.components == q.components

/-- The path without its last component. A root and the empty path have no parent. -/
def parent? (p : Path) : Option Path :=
  match p.bodyPieces.reverse.dropWhile isBlankPiece with
  | [] => if p.head == [dot] then some ⟨[]⟩ else none
  | _ :: above => some ⟨p.head ++ joinWith slash (above.dropWhile isBlankPiece).reverse⟩

/-- The parent, unless it is empty. -/
def directory? (p : Path) : Option Path := p.parent?.filter fun q => !q.bytes.isEmpty

/-- The last component, if it is a name. -/
def fileName? (p : Path) : Option (List UInt8) :=
  match p.components.getLast? with
  | some (.name bytes) => some bytes
  | _ => none

/-- A file name without its last extension; a leading dot begins no extension. -/
def stemOf (name : List UInt8) : List UInt8 :=
  match name.reverse.dropWhile (· != dot) with
  | [] => name
  | _ :: before => if before.isEmpty then name else before.reverse

def fileStem? (p : Path) : Option (List UInt8) := p.fileName?.map stemOf

/-- `q` seen from `p`; an absolute `q` stays as it is. -/
def join (p q : Path) : Path :=
  if q.isAbsolute then q
  else if p.bytes.isEmpty || p.bytes.getLast? == some slash then ⟨p.bytes ++ q.bytes⟩
  else ⟨p.bytes ++ slash :: q.bytes⟩

end Path

end ScriptHost
