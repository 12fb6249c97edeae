import ScriptHost.Lua.Number
import ScriptHost.Text.Utf8

/-!
# Tokens

The words of a program text. `Token.scan` cuts a text into lexemes; the last one is the end of
the text, or the first thing that is no token.
-/

set_option autoImplicit false

namespace ScriptHost.Lua

inductive Token where
  | name (bytes : List UInt8)
  /-- A string, and its text in error messages. -/
  | string (value : List UInt8) (shown : List UInt8)
  | number (value : Number) (shown : List UInt8)
  | symbol (text : String)
  /-- A byte that begins no token. -/
  | stray (byte : UInt8)
  | eof
  /-- Something that begins like a token but is none. -/
  | bad (message : String)
deriving Inhabited

/-- A token and the line on which it ends. -/
structure Lexeme where
  token : Token
  line : Nat
deriving Inhabited

namespace Token

def reserved : List String :=
  ["and", "break", "do", "else", "elseif", "end", "false", "for", "function", "goto", "if", "in",
    "local", "nil", "not", "or", "repeat", "return", "then", "true", "until", "while"]

/-- The operators and marks, a longer one before every one that begins it. -/
def operators : List String :=
  ["...", "..", "==", "~=", "<=", ">=", "//", "<<", ">>", "::", "+", "-", "*", "/", "%", "^", "#",
    "&", "~", "|", "<", ">", "=", "(", ")", "\x7b", "\x7d", "[", "]", ";", ":", ",", "."]

def isNameStart (b : UInt8) : Bool := b = 95 || (65 ≤ b && b ≤ 90) || (97 ≤ b && b ≤ 122)

def isNamePart (b : UInt8) : Bool := isNameStart b || Number.isDigit b

/-- A text between quotes, up to its first zero byte. -/
def quoted (shown : List UInt8) : String := s!"'{Utf8.text (shown.takeWhile (· ≠ 0))}'"

def byteText (b : UInt8) : String :=
  if 32 ≤ b && b < 127 then quoted [b] else s!"'<\\{b.toNat}>'"

def shown : Token → String
  | name bytes => quoted bytes
  | string _ shown | number _ shown => quoted shown
  | symbol text => s!"'{text}'"
  | stray b => byteText b
  | eof => "<eof>"
  | bad message => message

/-- What a scanner found, the rest of the text, and its line. -/
abbrev Scanned := Token × List UInt8 × Nat

/-! ## Long brackets -/

/-- Counts the equals signs of a long bracket whose first bracket has been read. -/
def bracketLevel? (open_ : UInt8) (bs : List UInt8) : Option (Nat × List UInt8) :=
  let level := (bs.takeWhile (· = 61)).length
  match bs.drop level with
  | b :: rest => if b = open_ then some (level, rest) else none
  | [] => none

/-- Whether the text goes on with the closing bracket of a level, after its first bracket. -/
def closes (level : Nat) (bs : List UInt8) : Bool :=
  bs.take (level + 1) == List.replicate level 61 ++ [93]

/-- Reads a long string up to its closing bracket; the content comes reversed. A line end of any
kind counts as one newline. -/
def longBody (level : Nat) (acc : List UInt8) (line : Nat) :
    List UInt8 → Option (List UInt8 × List UInt8 × Nat)
  | [] => none
  | 13 :: 10 :: rest | 10 :: 13 :: rest => longBody level (10 :: acc) (line + 1) rest
  | b :: rest =>
    if b = 10 || b = 13 then longBody level (10 :: acc) (line + 1) rest
    else if b = 93 && closes level rest then some (acc, rest.drop (level + 1), line)
    else longBody level (b :: acc) line rest

/-- A long string after its opening bracket; a line end directly after the bracket is skipped. -/
def longString (what : String) (level line : Nat) (bs : List UInt8) : Scanned :=
  let (bs, start) := match bs with
    | 13 :: 10 :: rest | 10 :: 13 :: rest => (rest, line + 1)
    | 10 :: rest | 13 :: rest => (rest, line + 1)
    | bs => (bs, line)
  match longBody level [] start bs with
  | some (acc, rest, last) =>
    let bracket (b : UInt8) := b :: List.replicate level 61 ++ [b]
    (.string acc.reverse (bracket 91 ++ acc.reverse ++ bracket 93), rest, last)
  | none =>
    let ends := (bs.filter (· = 10)).length
    (.bad s!"unfinished long {what} (starting at line {line}) near <eof>", [], start + ends)

/-! ## Quoted strings -/

/-- An escape sequence: the bytes that it stands for, and the rest. -/
inductive Escape where
  | bytes (value : List UInt8) (rest : List UInt8)
  | newline (rest : List UInt8)
  /-- White space to skip, up to and including the given text. -/
  | skip (rest : List UInt8)
  /-- No escape sequence; `read` is how far the text was read. -/
  | bad (message : String) (read : List UInt8)
  | atEnd

/-- The UTF-8 form of a number below 2 ^ 31. -/
def utf8Bytes (n : Nat) : List UInt8 :=
  let tail (shift : Nat) : UInt8 := UInt8.ofNat (0x80 + n / 2 ^ shift % 64)
  let head (mark shift : Nat) : UInt8 := UInt8.ofNat (mark + n / 2 ^ shift)
  if n < 0x80 then [UInt8.ofNat n]
  else if n < 0x800 then [head 0xC0 6, tail 0]
  else if n < 0x10000 then [head 0xE0 12, tail 6, tail 0]
  else if n < 0x200000 then [head 0xF0 18, tail 12, tail 6, tail 0]
  else if n < 0x4000000 then [head 0xF8 24, tail 18, tail 12, tail 6, tail 0]
  else [head 0xFC 30, tail 24, tail 18, tail 12, tail 6, tail 0]

def letterEscape? (b : UInt8) : Option UInt8 :=
  ([(97, 7), (98, 8), (102, 12), (110, 10), (114, 13), (116, 9), (118, 11), (92, 92), (34, 34),
    (39, 39)] : List (UInt8 × UInt8)).lookup b

def codeEscape (bs : List UInt8) : Escape :=
  match bs with
  | 123 :: rest =>
    let digits := rest.takeWhile Number.isHexDigit
    let after := rest.dropWhile Number.isHexDigit
    let read := 117 :: 123 :: digits
    let tooLarge := ((List.range (digits.length + 1)).find? fun n =>
      2 ^ 31 ≤ Number.digitsValue 16 (digits.take n))
    match tooLarge with
    | some n => .bad "UTF-8 value too large" (117 :: 123 :: rest.take n)
    | none =>
      if digits.isEmpty then .bad "hexadecimal digit expected" (read ++ after.take 1)
      else
        match after with
        | 125 :: rest => .bytes (utf8Bytes (Number.digitsValue 16 digits)) rest
        | rest => .bad "missing '\x7d' in \\u\x7bxxxx\x7d" (read ++ rest.take 1)
  | rest => .bad "missing '\x7b' in \\u\x7bxxxx\x7d" (117 :: rest.take 1)

def escape (bs : List UInt8) : Escape :=
  match bs with
  | [] => .atEnd
  | 120 :: rest =>
    match rest with
    | a :: b :: rest' =>
      match Number.hexValue? a, Number.hexValue? b with
      | some x, some y => .bytes [UInt8.ofNat (16 * x + y)] rest'
      | none, _ => .bad "hexadecimal digit expected" [120, a]
      | _, none => .bad "hexadecimal digit expected" [120, a, b]
    | rest => .bad "hexadecimal digit expected" (120 :: rest)
  | 117 :: rest => codeEscape rest
  | 122 :: rest => .skip (rest.dropWhile Number.isSpace)
  | 13 :: 10 :: rest | 10 :: 13 :: rest => .newline rest
  | 10 :: rest | 13 :: rest => .newline rest
  | b :: rest =>
    match letterEscape? b with
    | some value => .bytes [value] rest
    | none =>
      if Number.isDigit b then
        let digits := (bs.take 3).takeWhile Number.isDigit
        let value := Number.digitsValue 10 digits
        if value < 256 then .bytes [UInt8.ofNat value] (bs.drop digits.length)
        else .bad "decimal escape too large" (bs.take (digits.length + 1))
      else .bad "invalid escape sequence" [b]

/-- The number of line ends in white space. -/
def lineEnds : List UInt8 → Nat
  | [] => 0
  | 13 :: 10 :: rest | 10 :: 13 :: rest => lineEnds rest + 1
  | b :: rest => lineEnds rest + (if b = 10 || b = 13 then 1 else 0)

/-- Reads a string up to its quote; the content so far comes reversed. -/
def quotedString (quote : UInt8) (acc : List UInt8) (line : Nat) (bs : List UInt8) :
    Nat → Scanned
  | 0 => (.bad "unfinished string near <eof>", [], line)
  | fuel + 1 =>
    match bs with
    | [] => (.bad "unfinished string near <eof>", [], line)
    | 92 :: rest =>
      match escape rest with
      | .bytes value rest => quotedString quote (value.reverse ++ acc) line rest fuel
      | .newline rest => quotedString quote (10 :: acc) (line + 1) rest fuel
      | .skip rest' =>
        let skipped := rest.take (rest.length - rest'.length)
        quotedString quote acc (line + lineEnds skipped) rest' fuel
      | .bad message read =>
        (.bad s!"{message} near {quoted (quote :: acc.reverse ++ 92 :: read)}", [], line)
      | .atEnd => (.bad "unfinished string near <eof>", [], line)
    | b :: rest =>
      if b = quote then (.string acc.reverse (quote :: acc.reverse ++ [quote]), rest, line)
      else if b = 10 || b = 13 then
        (.bad s!"unfinished string near {quoted (quote :: acc.reverse)}", [], line)
      else quotedString quote (b :: acc) line rest fuel

/-! ## Numerals, names and operators -/

/-- How far a numeral reaches: digits, points, and signs directly after an exponent mark. -/
def numeralSpan (mark : UInt8) (afterMark : Bool) : List UInt8 → List UInt8
  | [] => []
  | b :: rest =>
    if afterMark && (b = 43 || b = 45) then b :: numeralSpan mark false rest
    else if b ||| 32 = mark then b :: numeralSpan mark true rest
    else if Number.isHexDigit b || b = 46 then b :: numeralSpan mark false rest
    else []

/-- A numeral together with the letters that stick to it. -/
def numeralText (bs : List UInt8) : List UInt8 :=
  let span := match bs with
    | 48 :: x :: rest =>
      if x ||| 32 = 120 then 48 :: x :: numeralSpan 112 false rest else numeralSpan 101 false bs
    | bs => numeralSpan 101 false bs
  match bs.drop span.length with
  | b :: _ => if isNameStart b then span ++ [b] else span
  | [] => span

def numeral (bs : List UInt8) (line : Nat) : Scanned :=
  let text := numeralText bs
  match Number.numeral? text with
  | some n => (.number n text, bs.drop text.length, line)
  | none => (.bad s!"malformed number near {quoted text}", [], line)

def nameOrReserved (bs : List UInt8) (line : Nat) : Scanned :=
  let text := bs.takeWhile isNamePart
  let word := Utf8.text text
  (if reserved.contains word then .symbol word else .name text, bs.drop text.length, line)

def operator? (bs : List UInt8) : Option String :=
  operators.find? fun op => bs.take op.utf8ByteSize == op.toUTF8.toList

/-- The rest of a text after a comment whose marks have been read; the token is an end of text,
or what is wrong with the comment. -/
def comment (bs : List UInt8) (line : Nat) : Scanned :=
  let toLineEnd := (Token.eof, bs.dropWhile (fun b => b ≠ 10 && b ≠ 13), line)
  match bs with
  | 91 :: rest =>
    match bracketLevel? 91 rest with
    | some (level, rest) =>
      match longString "comment" level line rest with
      | (.string .., rest, line) => (.eof, rest, line)
      | scanned => scanned
    | none => toLineEnd
  | _ => toLineEnd

def next (bs : List UInt8) (line : Nat) : Scanned :=
  match bs with
  | [] => (.eof, [], line)
  | b :: rest =>
    if isNameStart b then nameOrReserved bs line
    else if Number.isDigit b || (b = 46 && (rest.head?.any Number.isDigit)) then numeral bs line
    else if b = 34 || b = 39 then quotedString b [] line rest (rest.length + 1)
    else if b = 91 && (rest.head? == some 91 || rest.head? == some 61) then
      match bracketLevel? 91 rest with
      | some (level, rest) => longString "string" level line rest
      | none =>
        let level := (rest.takeWhile (· = 61)).length
        (.bad s!"invalid long string delimiter near {quoted (bs.take (level + 1))}", [], line)
    else
      match operator? bs with
      | some op => (.symbol op, bs.drop op.utf8ByteSize, line)
      | none => (.stray b, rest, line)

/-- Cuts a text into lexemes. -/
def scanFrom (line : Nat) (bs : List UInt8) : Nat → List Lexeme
  | 0 => [⟨.eof, line⟩]
  | fuel + 1 =>
    match bs with
    | [] => [⟨.eof, line⟩]
    | 13 :: 10 :: rest | 10 :: 13 :: rest => scanFrom (line + 1) rest fuel
    | 45 :: 45 :: rest =>
      match comment rest line with
      | (.bad message, _, line) => [⟨.bad message, line⟩]
      | (_, rest, line) => scanFrom line rest fuel
    | b :: rest =>
      if b = 10 || b = 13 then scanFrom (line + 1) rest fuel
      else if Number.isSpace b then scanFrom line rest fuel
      else
        match next bs line with
        | (.bad message, _, line) => [⟨.bad message, line⟩]
        | (token, rest, line) => ⟨token, line⟩ :: scanFrom line rest fuel

def scan (bs : List UInt8) : List Lexeme := scanFrom 1 bs (bs.length + 1)

end Token

end ScriptHost.Lua
