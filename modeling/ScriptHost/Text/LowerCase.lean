import ScriptHost.Text.CaseTable

/-!
# Lower case of a text

Full lower casing: every character maps on its own, except that capital I with a dot becomes
two characters and a capital sigma at the end of a word becomes a final sigma.
-/

set_option autoImplicit false

namespace ScriptHost.Text

/-- Whether the first character that is not skipped is cased. -/
def startsCased (cs : List Char) : Bool :=
  match cs.dropWhile isCaseIgnorable with
  | c :: _ => isCased c
  | [] => false

/-- Lower cases the rest of a text; `before` holds what precedes it, nearest first. -/
def lowerFrom (before : List Char) : List Char → List Char
  | [] => []
  | c :: rest =>
    let lowered :=
      if c = '\u03a3' then
        if startsCased before && !startsCased rest then ['\u03c2'] else ['\u03c3']
      else if c = '\u0130' then ['i', '\u0307']
      else [simpleLower c]
    lowered ++ lowerFrom (c :: before) rest

def toLower (s : String) : String := String.ofList (lowerFrom [] s.toList)

end ScriptHost.Text
