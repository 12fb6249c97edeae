import ScriptHost.Json.Printer

/-!
# Writing TOML

Strings choose the plainest of the four notations that can hold them; arrays of several items
take one line per item.
-/

set_option autoImplicit false

namespace ScriptHost.Toml

def longestRun (c : Char) (cs : List Char) : Nat :=
  (cs.foldl (fun (run, best) d =>
    let run := if d = c then run + 1 else 0
    (run, max run best)) (0, 0)).2

/-- Control characters that need an escape in every notation. -/
def needsEscape (c : Char) : Bool :=
  c ≠ '\t' && c ≠ '\n' && (c.toNat < 0x20 || c.toNat = 0x7F)

inductive Notation where
  | basic
  | literal
  | multilineBasic
  | multilineLiteral
deriving DecidableEq, Repr

/-- The plainest notation: without escapes if possible, basic before literal, one line before
several. -/
def Notation.choose (cs : List Char) : Notation :=
  let control := cs.any needsEscape
  let newline := cs.contains '\n'
  let backslash := cs.contains '\\'
  let doubles := longestRun '"' cs
  let singles := longestRun '\'' cs
  if !control && !backslash && doubles = 0 && !newline then .basic
  else if !control && singles = 0 && !newline then .literal
  else if !control && !backslash && doubles ≤ 2 then .multilineBasic
  else if !control && singles ≤ 2 then .multilineLiteral
  else if newline then .multilineBasic
  else .basic

/-- A character other than a quote in a basic string. -/
def escapeChar (multiline : Bool) (c : Char) : List Char :=
  if c = '\x08' then ['\\', 'b']
  else if c = '\t' then ['\\', 't']
  else if c = '\n' then if multiline then ['\n'] else ['\\', 'n']
  else if c = '\x0c' then ['\\', 'f']
  else if c = '\r' then ['\\', 'r']
  else if c = '\\' then ['\\', '\\']
  else if needsEscape c then
    ['\\', 'u', '0', '0', (Json.hexDigit (c.toNat / 16)).toUpper,
      (Json.hexDigit (c.toNat % 16)).toUpper]
  else [c]

/-- The inside of a basic string; of `seen` quotes in a row at most `allowed` stay unescaped. -/
def escaped (multiline : Bool) (allowed : Nat) (seen : Nat) : List Char → List Char
  | [] => []
  | c :: rest =>
    if c = '"' then
      if seen < allowed then '"' :: escaped multiline allowed (seen + 1) rest
      else '\\' :: '"' :: escaped multiline allowed 0 rest
    else escapeChar multiline c ++ escaped multiline allowed 0 rest

def stringText (s : String) : String :=
  let cs := s.toList
  let lead := if cs.contains '\n' then ['\n'] else []
  let quotes (c : Char) := List.replicate 3 c
  String.ofList <|
    match Notation.choose cs with
    | .basic => '"' :: escaped false 0 0 cs ++ ['"']
    | .literal => '\'' :: cs ++ ['\'']
    | .multilineBasic => quotes '"' ++ lead ++ escaped true 2 0 cs ++ quotes '"'
    | .multilineLiteral => quotes '\'' ++ lead ++ cs ++ quotes '\''

def arrayText (items : List String) : String :=
  match items with
  | [] => "[]"
  | [item] => "[" ++ item ++ "]"
  | items => "[\n" ++ String.join (items.map fun item => "    " ++ item ++ ",\n") ++ "]"

def booleanText (b : Bool) : String := if b then "true" else "false"

end ScriptHost.Toml
