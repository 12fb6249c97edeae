import ScriptHost.Toml.Document
import ScriptHost.Json.Reader

/-!
# Reading TOML

The grammar of TOML 1.0 over lists of characters. Nesting and keys may be at most 79 deep.
-/

set_option autoImplicit false

namespace ScriptHost.Toml.Reader

/-- The greatest nesting of values, and the greatest length of a key, plus one. -/
def depthLimit : Nat := 80

def isSpace (c : Char) : Bool := c = ' ' || c = '\t'

def skipSpace (cs : List Char) : List Char := cs.dropWhile isSpace

/-- A line end, if the text begins with one. -/
def newline? : List Char → Option (List Char)
  | '\n' :: rest => some rest
  | '\r' :: '\n' :: rest => some rest
  | _ => none

/-- The characters of a comment: all but control characters, tabs excepted. -/
def isComment (c : Char) : Bool := c = '\t' || (0x20 ≤ c.toNat && c.toNat ≠ 0x7F)

def skipComment : List Char → List Char
  | '#' :: rest => rest.dropWhile isComment
  | cs => cs

/-- The end of a line: blanks, perhaps a comment, and a line end or the end of the text. -/
def lineEnd? (cs : List Char) : Option (List Char) :=
  match skipComment (skipSpace cs) with
  | [] => some []
  | rest => newline? rest

/-- Drops blanks, line ends and comments. -/
def skipLines : Nat → List Char → List Char
  | 0, cs => cs
  | fuel + 1, cs =>
    match skipComment (skipSpace cs) with
    | rest =>
      match newline? rest with
      | some rest => skipLines fuel rest
      | none => rest

def isBareKey (c : Char) : Bool := c.isAlphanum || c = '-' || c = '_'

/-- A character given by its code point in hexadecimal digits. -/
def codePoint? (count : Nat) (cs : List Char) : Option (Char × List Char) := do
  let digits := cs.take count
  if digits.length < count then none
  else
    let values ← digits.mapM Json.Reader.hexValue?
    let n := values.foldl (fun n d => n * 16 + d) 0
    if n.isValidChar then some (Char.ofNat n, cs.drop count) else none

def escape? : List Char → Option (Char × List Char)
  | 'b' :: rest => some ('\x08', rest)
  | 't' :: rest => some ('\t', rest)
  | 'n' :: rest => some ('\n', rest)
  | 'f' :: rest => some ('\x0c', rest)
  | 'r' :: rest => some ('\r', rest)
  | '"' :: rest => some ('"', rest)
  | '\\' :: rest => some ('\\', rest)
  | 'u' :: rest => codePoint? 4 rest
  | 'U' :: rest => codePoint? 8 rest
  | _ => none

/-- A basic string after its opening quote. -/
def basic? (acc : List Char) : Nat → List Char → Option (String × List Char)
  | 0, _ => none
  | _ + 1, [] => none
  | fuel + 1, c :: rest =>
    if c = '"' then some (String.ofList acc.reverse, rest)
    else if c = '\\' then do
      let (c, rest) ← escape? rest
      basic? (c :: acc) fuel rest
    else if isComment c then basic? (c :: acc) fuel rest
    else none

/-- A literal string after its opening quote. -/
def literal? (cs : List Char) : Option (String × List Char) :=
  match cs.dropWhile fun c => isComment c && c ≠ '\'' with
  | '\'' :: rest =>
    some (String.ofList (cs.takeWhile fun c => isComment c && c ≠ '\''), rest)
  | _ => none

/-- The end of a multi-line string: up to two quotes belong to the text. -/
def closing? (quote : Char) (acc : List Char) (cs : List Char) : Option (String × List Char) :=
  let count := (cs.takeWhile (· = quote)).length
  if count < 3 then none
  else
    let kept := min (count - 3) 2
    some (String.ofList (acc.reverse ++ List.replicate kept quote), cs.drop (kept + 3))

/-- Drops the white space that a backslash at a line end swallows. -/
def skipFolded : Nat → List Char → List Char
  | 0, cs => cs
  | fuel + 1, cs =>
    match newline? (skipSpace cs) with
    | some rest => skipFolded fuel rest
    | none => skipSpace cs

/-- A multi-line string after its opening quotes and the line end right after them. -/
def multiline? (quote : Char) (acc : List Char) : Nat → List Char → Option (String × List Char)
  | 0, _ => none
  | _ + 1, [] => none
  | fuel + 1, c :: rest =>
    if c = quote then
      match closing? quote acc (c :: rest) with
      | some done => some done
      | none => multiline? quote (c :: acc) fuel rest
    else if c = '\\' && quote = '"' then
      match newline? (skipSpace rest) with
      | some after => multiline? quote acc fuel (skipFolded fuel after)
      | none => do
        let (c, rest) ← escape? rest
        multiline? quote (c :: acc) fuel rest
    else
      match newline? (c :: rest) with
      | some rest => multiline? quote ('\n' :: acc) fuel rest
      | none => if isComment c then multiline? quote (c :: acc) fuel rest else none

def dropNewline (cs : List Char) : List Char := (newline? cs).getD cs

def string? (cs : List Char) : Option (String × List Char) :=
  match cs with
  | '"' :: '"' :: '"' :: rest => multiline? '"' [] (rest.length + 1) (dropNewline rest)
  | '\'' :: '\'' :: '\'' :: rest => multiline? '\'' [] (rest.length + 1) (dropNewline rest)
  | '"' :: rest => basic? [] (rest.length + 1) rest
  | '\'' :: rest => literal? rest
  | _ => none

def simpleKey? (cs : List Char) : Option (String × List Char) :=
  match cs with
  | '"' :: rest => basic? [] (rest.length + 1) rest
  | '\'' :: rest => literal? rest
  | cs =>
    let name := cs.takeWhile isBareKey
    if name.isEmpty then none else some (String.ofList name, cs.dropWhile isBareKey)

/-- The parts of a dotted key, with blanks around the dots. -/
def keyParts? : Nat → List Char → Option (List String × List Char)
  | 0, _ => none
  | fuel + 1, cs => do
    let (part, rest) ← simpleKey? (skipSpace cs)
    match skipSpace rest with
    | '.' :: rest =>
      let (parts, rest) ← keyParts? fuel rest
      some (part :: parts, rest)
    | rest => some ([part], rest)

def key? (cs : List Char) : Option (List String × List Char) := do
  let (parts, rest) ← keyParts? (cs.length + 1) cs
  if parts.length < depthLimit then some (parts, rest) else none

/-- Digits with single underscores between them, at least one digit. -/
def digits? (isDigit : Char → Bool) (cs : List Char) : Option (List Char × List Char) :=
  let run := cs.takeWhile fun c => isDigit c || c = '_'
  if run.head?.all isDigit && run.getLast?.any isDigit && noDoubled run then
    some (run.filter isDigit, cs.drop run.length)
  else none
where
  noDoubled : List Char → Bool
    | '_' :: '_' :: _ => false
    | _ :: rest => noDoubled rest
    | [] => true

def digitsValue (base : Nat) (digits : List Char) : Nat :=
  digits.foldl (fun n c => n * base + (Json.Reader.hexValue? c).getD 0) 0

def integer? (n : Int) : Option Toml :=
  if -(2 ^ 63) ≤ n && n < 2 ^ 63 then some (.integer n) else none

def isHex (c : Char) : Bool := (Json.Reader.hexValue? c).isSome

/-- Decimal digits without a leading zero. -/
def decimalDigits? (cs : List Char) : Option (List Char × List Char) := do
  match cs with
  | '0' :: rest =>
    if rest.head?.any fun c => c.isDigit || c = '_' then none else some (['0'], rest)
  | cs => digits? Char.isDigit cs

/-- The exponent of a float, after its letter. -/
def exponent? (cs : List Char) : Option (Int × List Char) := do
  let (below, cs) := match cs with
    | '+' :: rest => (false, rest)
    | '-' :: rest => (true, rest)
    | cs => (false, cs)
  let (digits, rest) ← digits? Char.isDigit cs
  let size : Int := digitsValue 10 digits
  some (if below then -size else size, rest)

/-- Whether a number with these digits before the exponent is infinite as a float: it lies at
least half a unit above the greatest one. The number of digits alone decides most cases. -/
def overflows (digits : Nat) (exponent : Int) : Bool :=
  let size := (Nat.toDigits 10 digits).length + exponent
  if digits = 0 || size < 309 then false
  else if 309 < size then true
  else (2 ^ 1024 - 2 ^ 970) * 10 ^ (-exponent).toNat ≤ digits * 10 ^ exponent.toNat

/-- A float with so many digits after the point, from the end of its digits on. Only the positive
infinity has to be written as such. -/
def float? (negative : Bool) (digits : List Char) (places : Nat) (cs : List Char) :
    Option (Toml × List Char) := do
  let (exponent, rest) ← match cs with
    | 'e' :: rest | 'E' :: rest => exponent? rest
    | cs => some (0, cs)
  if !negative && overflows (digitsValue 10 digits) (exponent - places) then none
  else some (.float, rest)

/-- A float or a whole number, after its sign. -/
def unsigned? (negative : Bool) (cs : List Char) : Option (Toml × List Char) := do
  match cs with
  | 'i' :: 'n' :: 'f' :: rest => some (.float, rest)
  | 'n' :: 'a' :: 'n' :: rest => some (.float, rest)
  | cs =>
    let (digits, rest) ← decimalDigits? cs
    match rest with
    | '.' :: rest =>
      let (fraction, rest) ← digits? Char.isDigit rest
      float? negative (digits ++ fraction) fraction.length rest
    | 'e' :: _ | 'E' :: _ => float? negative digits 0 rest
    | rest =>
      let n : Int := digitsValue 10 digits
      some (← integer? (if negative then -n else n), rest)

/-- A whole number in another base, after its mark. -/
def based? (base : Nat) (isDigit : Char → Bool) (cs : List Char) : Option (Toml × List Char) := do
  let (digits, rest) ← digits? isDigit cs
  some (← integer? (digitsValue base digits), rest)

def number? (cs : List Char) : Option (Toml × List Char) :=
  match cs with
  | '+' :: rest => unsigned? false rest
  | '-' :: rest => unsigned? true rest
  | '0' :: 'x' :: rest => based? 16 isHex rest
  | '0' :: 'o' :: rest => based? 8 (fun c => '0' ≤ c && c ≤ '7') rest
  | '0' :: 'b' :: rest => based? 2 (fun c => c = '0' || c = '1') rest
  | cs => unsigned? false cs

/-- A decimal number of exactly `count` digits. -/
def fixedDigits? (count : Nat) (cs : List Char) : Option (Nat × List Char) :=
  let digits := cs.take count
  if digits.length = count && digits.all Char.isDigit then
    some (digitsValue 10 digits, cs.drop count)
  else none

def daysIn (year month : Nat) : Nat :=
  if month = 2 then
    if year % 4 = 0 && (year % 100 ≠ 0 || year % 400 = 0) then 29 else 28
  else if month = 4 || month = 6 || month = 9 || month = 11 then 30
  else 31

def date? (cs : List Char) : Option (List Char) := do
  let (year, rest) ← fixedDigits? 4 cs
  match rest with
  | '-' :: rest =>
    let (month, rest) ← fixedDigits? 2 rest
    match rest with
    | '-' :: rest =>
      let (day, rest) ← fixedDigits? 2 rest
      if 1 ≤ month && month ≤ 12 && 1 ≤ day && day ≤ daysIn year month then some rest else none
    | _ => none
  | _ => none

/-- Hours and minutes. -/
def clock? (cs : List Char) : Option (List Char) := do
  let (hour, rest) ← fixedDigits? 2 cs
  match rest with
  | ':' :: rest =>
    let (minute, rest) ← fixedDigits? 2 rest
    if hour ≤ 23 && minute ≤ 59 then some rest else none
  | _ => none

def time? (cs : List Char) : Option (List Char) := do
  match ← clock? cs with
  | ':' :: rest =>
    let (second, rest) ← fixedDigits? 2 rest
    if 60 < second then none
    else
      match rest with
      | '.' :: c :: rest => if c.isDigit then some (rest.dropWhile Char.isDigit) else none
      | '.' :: [] => none
      | rest => some rest
  | _ => none

/-- The distance from universal time, if one is given. -/
def offset? (cs : List Char) : Option (List Char) :=
  match cs with
  | 'Z' :: rest | 'z' :: rest => some rest
  | '+' :: rest | '-' :: rest => clock? rest
  | cs => some cs

def datetime? (cs : List Char) : Option (List Char) :=
  match date? cs with
  | some (mark :: rest) =>
    if mark = 'T' || mark = 't' then time? rest |>.bind offset?
    else if mark = ' ' && rest.head?.any Char.isDigit then time? rest |>.bind offset?
    else some (mark :: rest)
  | some [] => some []
  | none => time? cs

def looksLikeDate (cs : List Char) : Bool :=
  (fixedDigits? 4 cs).any (fun (_, rest) => rest.head? == some '-') ||
    (fixedDigits? 2 cs).any (fun (_, rest) => rest.head? == some ':')

mutual

/-- A value, at most `depth` levels deep. -/
def value? (fuel depth : Nat) (cs : List Char) : Option (Toml × List Char) :=
  match fuel with
  | 0 => none
  | fuel + 1 =>
    match cs with
    | [] => none
    | c :: rest =>
      if c = '"' || c = '\'' then do
        let (s, rest) ← string? cs
        some (.string s, rest)
      else if c = '[' then
        if depth ≤ 1 then none
        else do
          let (items, rest) ← items? fuel (depth - 1) rest
          some (.array items, rest)
      else if c = '\x7b' then
        if depth ≤ 1 then none
        else
          match skipSpace rest with
          | '\x7d' :: rest => some (.table .inline [], rest)
          | rest => do
            let (entries, rest) ← pairs? fuel (depth - 1) [] rest
            some (.table .inline entries, rest)
      else
        match cs with
        | 't' :: 'r' :: 'u' :: 'e' :: rest => some (.boolean true, rest)
        | 'f' :: 'a' :: 'l' :: 's' :: 'e' :: rest => some (.boolean false, rest)
        | cs =>
          if looksLikeDate cs then (datetime? cs).map fun rest => (.datetime, rest)
          else number? cs

/-- The items of an array up to its closing bracket. -/
def items? (fuel depth : Nat) (cs : List Char) : Option (List Toml × List Char) :=
  match fuel with
  | 0 => none
  | fuel + 1 =>
    match skipLines cs.length cs with
    | ']' :: rest => some ([], rest)
    | cs => do
      let (item, rest) ← value? fuel depth cs
      match skipLines rest.length rest with
      | ']' :: rest => some ([item], rest)
      | ',' :: rest =>
        let (items, rest) ← items? fuel depth rest
        some (item :: items, rest)
      | _ => none

/-- The pairs of an inline table up to its closing brace; there is at least one. -/
def pairs? (fuel depth : Nat) (entries : Entries) (cs : List Char) :
    Option (Entries × List Char) :=
  match fuel with
  | 0 => none
  | fuel + 1 => do
    let (keys, rest) ← key? cs
    match rest with
    | '=' :: rest =>
      let (value, rest) ← value? fuel depth (skipSpace rest)
      let entries ← addLine keys value .inline entries
      match skipSpace rest with
      | '\x7d' :: rest => some (entries, rest)
      | ',' :: rest => pairs? fuel depth entries rest
      | _ => none
    | _ => none

end

/-- One line of a document and the line end after it. -/
def line? (doc : Document) (cs : List Char) : Option (Document × List Char) :=
  match skipSpace cs with
  | '[' :: '[' :: rest => do
    let (path, rest) ← key? rest
    match rest with
    | ']' :: ']' :: rest => some (← doc.openItem path, ← lineEnd? rest)
    | _ => none
  | '[' :: rest => do
    let (path, rest) ← key? rest
    match rest with
    | ']' :: rest => some (← doc.openTable path, ← lineEnd? rest)
    | _ => none
  | cs =>
    match lineEnd? cs with
    | some rest => some (doc, rest)
    | none => do
      let (keys, rest) ← key? cs
      match rest with
      | '=' :: rest =>
        let (value, rest) ← value? (rest.length + 2) depthLimit (skipSpace rest)
        some (← doc.addEntry keys value, ← lineEnd? rest)
      | _ => none

def lines? : Nat → Document → List Char → Option Document
  | _, doc, [] => some doc
  | 0, _, _ :: _ => none
  | fuel + 1, doc, cs => do
    let (doc, rest) ← line? doc cs
    lines? fuel doc rest

end ScriptHost.Toml.Reader

namespace ScriptHost.Toml

/-- The top level table of a document. A byte order mark in front is skipped. -/
def parse? (s : String) : Option Entries := do
  let cs := s.toList
  let cs := if cs.head? == some '\ufeff' then cs.drop 1 else cs
  let doc ← Reader.lines? (cs.length + 1) ⟨[], [], [], false⟩ cs
  doc.close

end ScriptHost.Toml
