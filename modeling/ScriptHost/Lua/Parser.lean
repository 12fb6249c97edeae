import ScriptHost.Lua.Syntax
import ScriptHost.Lua.Token

/-!
# Reading programs

`Chunk.parse` turns a program text into functions with all names resolved, or says what is wrong
with the text. The text is read from left to right with one token of lookahead, and the first
fault decides the message.
-/

set_option autoImplicit false

namespace ScriptHost.Lua

namespace Parser

structure Variable where
  name : String
  usage : Attribute
deriving Inhabited

/-- A variable of an enclosing function that a function uses. -/
structure CapturedVariable where
  subject : Variable
  source : Capture
deriving Inhabited

/-- A jump whose label has not been seen, with the number of variables in scope at it. -/
structure Jump where
  label : String
  line : Nat
  locals : Nat
deriving Inhabited

structure SeenLabel where
  name : String
  line : Nat
deriving Inhabited

structure Scope where
  isVararg : Bool
  /-- The line on which the function begins, zero for the main one. -/
  line : Nat
  /-- The variables in scope, innermost first. -/
  locals : List Variable := []
  captured : Array CapturedVariable := #[]
  labels : List SeenLabel := []
  /-- The unfinished jumps of the current block, in order. -/
  jumps : List Jump := []
  /-- The number of variables at the start of the current block. -/
  base : Nat := 0
deriving Inhabited

structure State where
  chunk : String
  lexemes : List Lexeme
  /-- The functions around the current place, innermost first. -/
  scopes : List Scope := []
  protos : Array Proto := #[]
  /-- How deep statements and expressions are nested. -/
  depth : Nat := 0

end Parser

/-- Reads a part of a program, or fails with a message. -/
abbrev Parser := StateT Parser.State (Except String)

namespace Parser

variable {α : Type}

/-! ## Tokens -/

def current : Parser Lexeme := do return (← get).lexemes.headD ⟨.eof, 1⟩

def token : Parser Token := do return (← current).token

def line : Parser Nat := do return (← current).line

def failPlain (message : String) : Parser α := do
  throw s!"{(← get).chunk}:{← line}: {message}"

def fail (message : String) : Parser α := do
  failPlain s!"{message} near {(← token).shown}"

/-- Fails if what comes next is no token. -/
def checkToken : Parser Unit := do
  match ← token with
  | .bad message => failPlain message
  | _ => pure ()

def advance : Parser Unit := do
  modify fun s => { s with lexemes := s.lexemes.drop 1 }
  checkToken

def isAt (text : String) : Parser Bool := do
  match ← token with
  | .symbol s => return s == text
  | _ => return false

/-- The token after the current one, if it is a symbol. -/
def isFollowedBy (text : String) : Parser Bool := do
  match (← get).lexemes with
  | _ :: ⟨.symbol s, _⟩ :: _ => return s == text
  | _ => return false

def skip (text : String) : Parser Bool := do
  if ← isAt text then
    advance
    return true
  else return false

def expect (text : String) : Parser Unit := do
  if !(← skip text) then fail s!"'{text}' expected"

/-- Expects the symbol that closes what began on a line. -/
def expectClosing (text opening : String) (start : Nat) : Parser Unit := do
  if !(← skip text) then
    if (← line) = start then fail s!"'{text}' expected"
    else fail s!"'{text}' expected (to close '{opening}' at line {start})"

def expectName : Parser String := do
  match ← token with
  | .name bytes =>
    advance
    return Utf8.text bytes
  | _ => fail "<name> expected"

/-- Whether a block ends here. -/
def isBlockEnd (untilEnds : Bool) : Parser Bool := do
  match ← token with
  | .eof => return true
  | .symbol s =>
    return s == "else" || s == "elseif" || s == "end" || (untilEnds && s == "until")
  | _ => return false

/-- Counts a level of nesting around a part. -/
def nested (body : Parser α) : Parser α := do
  let depth := (← get).depth
  if 195 ≤ depth then throw "C stack overflow"
  modify fun s => { s with depth := depth + 1 }
  let result ← body
  modify fun s => { s with depth }
  return result

/-! ## Scopes -/

def scope : Parser Scope := do return (← get).scopes.headD { isVararg := false, line := 0 }

def modifyScope (f : Scope → Scope) : Parser Unit :=
  modify fun s =>
    match s.scopes with
    | [] => s
    | scope :: outer => { s with scopes := f scope :: outer }

def declare (added : List Variable) : Parser Unit := do
  let count := (← scope).locals.length + added.length
  if 200 < count then
    let place := match (← scope).line with
      | 0 => "main function"
      | line => s!"function at line {line}"
    fail s!"too many local variables (limit is 200) in {place}"
  modifyScope fun s => { s with locals := added.reverse ++ s.locals }

/-- Finds a variable for the innermost of several functions; functions between it and the owner
of the variable capture the variable. -/
def resolve? (name : String) : List Scope → Option (Capture × Variable × List Scope)
  | [] => none
  | scope :: outer =>
    match scope.locals.findIdx? fun v => v.name == name with
    | some i => some (.local i, scope.locals[i]?.getD default, scope :: outer)
    | none =>
      match scope.captured.findIdx? fun v => v.subject.name == name with
      | some i =>
        some (.captured i, (scope.captured[i]?.getD default).subject, scope :: outer)
      | none =>
        match resolve? name outer with
        | none => none
        | some (source, subject, outer) =>
          some (.captured scope.captured.size, subject,
            { scope with captured := scope.captured.push ⟨subject, source⟩ } :: outer)

def Capture.expr (name : String) : Capture → Expr
  | .local i => .local i name
  | .captured i => .captured i name

/-- The name of the variable that holds the environment. -/
def environmentName : String := "_ENV"

def variableExpr (name : String) (line : Nat) : Parser Expr := do
  match resolve? name (← get).scopes with
  | some (source, _, scopes) =>
    modify fun s => { s with scopes }
    return Capture.expr name source
  | none =>
    match resolve? environmentName (← get).scopes with
    | some (source, _, scopes) =>
      modify fun s => { s with scopes }
      return .global (Capture.expr environmentName source) name.toUTF8 line
    | none => return .nil

def variableOf : Expr → Parser (Option Variable)
  | .local i _ => do return (← scope).locals[i]?
  | .captured i _ => do return ((← scope).captured[i]?).map CapturedVariable.subject
  | _ => return none

/-- Fails if an expression names a variable that must not be assigned. -/
def checkAssignable (target : Expr) : Parser Unit := do
  match ← variableOf target with
  | some ⟨name, .constant⟩ | some ⟨name, .closing⟩ =>
    failPlain s!"attempt to assign to const variable '{name}'"
  | _ => pure ()

def breakLabel : String := "break"

/-- Reads a part in a block of its own: its variables and labels end with it, and its unfinished
jumps go on in the block around it. -/
def inBlock (isLoop : Bool) (body : Parser α) : Parser α := do
  let before ← scope
  modifyScope fun s => { s with jumps := [], base := s.locals.length }
  let result ← body
  modifyScope fun s =>
    let jumps := if isLoop then s.jumps.filter fun j => j.label != breakLabel else s.jumps
    let jumps := jumps.map fun j => { j with locals := min j.locals before.locals.length }
    { s with
      locals := before.locals
      labels := before.labels
      base := before.base
      jumps := before.jumps ++ jumps }
  return result

/-- Jumps to a label that comes later. -/
def addJump (label : String) (line : Nat) : Parser Unit :=
  modifyScope fun s =>
    { s with jumps := s.jumps ++ [⟨label, line, s.locals.length⟩] }

/-- Fails if a label is known already. -/
def checkNewLabel (name : String) : Parser Unit := do
  match (← scope).labels.find? fun l => l.name == name with
  | some l => failPlain s!"label '{name}' already defined on line {l.line}"
  | none => pure ()

/-- Makes a label known and finishes the jumps to it. A label at the end of a block lies outside
the scopes of the variables of the block. -/
def addLabel (name : String) (line : Nat) (atEnd : Bool) : Parser Unit := do
  let s ← scope
  let count := if atEnd then s.base else s.locals.length
  match s.jumps.find? fun j => j.label == name && j.locals < count with
  | some j =>
    let entered := (s.locals[s.locals.length - 1 - j.locals]?.getD default).name
    failPlain s!"<goto {name}> at line {j.line} jumps into the scope of local '{entered}'"
  | none => pure ()
  modifyScope fun s =>
    { s with
      labels := ⟨name, line⟩ :: s.labels
      jumps := s.jumps.filter fun j => j.label != name }

/-- Fails if a jump of a function has no label. -/
def checkJumps : Parser Unit := do
  match (← scope).jumps with
  | [] => pure ()
  | j :: _ =>
    if j.label == breakLabel then failPlain s!"break outside a loop at line {j.line}"
    else failPlain s!"no visible label '{j.label}' for <goto> at line {j.line}"

/-- Reads a function: `body` in a scope of its own. -/
def inFunction (isVararg : Bool) (line parameters : Nat) (body : Parser (List Stat)) :
    Parser Nat := do
  modify fun s => { s with scopes := { isVararg, line } :: s.scopes }
  let stats ← inBlock false body
  checkJumps
  let done ← scope
  modify fun s =>
    { s with
      scopes := s.scopes.drop 1
      protos := s.protos.push
        { parameters, isVararg, body := stats,
          captures := done.captured.toList.map CapturedVariable.source } }
  return (← get).protos.size - 1

/-! ## Operators -/

def unaryOp? : Token → Option UnaryOp
  | .symbol "not" => some .not
  | .symbol "-" => some .negate
  | .symbol "~" => some .bitNot
  | .symbol "#" => some .length
  | _ => none

/-- A binary operator with its priorities to the left and to the right. -/
def binaryOp? : Token → Option (BinaryOp × Nat × Nat)
  | .symbol s =>
    match s with
    | "or" => some (.or, 1, 1)
    | "and" => some (.and, 2, 2)
    | "==" => some (.compare .equal, 3, 3)
    | "~=" => some (.compare .unequal, 3, 3)
    | "<" => some (.compare .less, 3, 3)
    | "<=" => some (.compare .lessEqual, 3, 3)
    | ">" => some (.compare .greater, 3, 3)
    | ">=" => some (.compare .greaterEqual, 3, 3)
    | "|" => some (.arith .bitOr, 4, 4)
    | "~" => some (.arith .bitXor, 5, 5)
    | "&" => some (.arith .bitAnd, 6, 6)
    | "<<" => some (.arith .shiftLeft, 7, 7)
    | ">>" => some (.arith .shiftRight, 7, 7)
    | ".." => some (.concat, 9, 8)
    | "+" => some (.arith .add, 10, 10)
    | "-" => some (.arith .subtract, 10, 10)
    | "*" => some (.arith .multiply, 11, 11)
    | "/" => some (.arith .divide, 11, 11)
    | "//" => some (.arith .floorDivide, 11, 11)
    | "%" => some (.arith .modulo, 11, 11)
    | "^" => some (.arith .power, 14, 13)
    | _ => none
  | _ => none

def unaryPriority : Nat := 12

/-- How a variable may be used, as its declaration says in angle brackets. -/
def usage : Parser Attribute := do
  if ← skip "<" then
    let name ← expectName
    expect ">"
    if name == "const" then return .constant
    else if name == "close" then return .closing
    else failPlain s!"unknown attribute '{name}'"
  else return .regular

def moreNames : Nat → Parser (List String)
  | 0 => return []
  | fuel + 1 => do
    if ← skip "," then
      let name ← expectName
      return name :: (← moreNames fuel)
    else return []

/-- The parameters of a function after the opening parenthesis, and whether more are allowed. -/
def parameters : Nat → Parser (List String × Bool)
  | 0 => return ([], false)
  | fuel + 1 => do
    match ← token with
    | .symbol "..." =>
      advance
      return ([], true)
    | .name _ =>
      let name ← expectName
      if ← skip "," then
        let (names, isVararg) ← parameters fuel
        return (name :: names, isVararg)
      else return ([name], false)
    | _ => fail "<name> expected"

def declared : Nat → Parser (List Variable)
  | 0 => return []
  | fuel + 1 => do
    let name ← expectName
    let usage ← usage
    if ← skip "," then return ⟨name, usage⟩ :: (← declared fuel)
    else return [⟨name, usage⟩]

/-- Fails unless an expression can be assigned. -/
def checkTarget (target : Expr) : Parser Unit :=
  match target with
  | .local .. | .captured .. => checkAssignable target
  | .global .. | .index .. => pure ()
  | _ => fail "syntax error"

/-! ## Expressions and statements

The last argument bounds how deep the functions call each other; it is chosen so large that it
never runs out. -/

mutual

/-- A block up to its end, without the scope. -/
def statements : Nat → Parser (List Stat)
  | 0 => return []
  | fuel + 1 => do
    if ← isBlockEnd true then return []
    else if ← isAt "return" then statement fuel
    else
      let first ← statement fuel
      return first ++ (← statements fuel)
termination_by structural fuel => fuel

def block : Nat → Parser (List Stat)
  | 0 => return []
  | fuel + 1 => inBlock false (statements fuel)
termination_by structural fuel => fuel

def expressions : Nat → Parser (List Expr)
  | 0 => return []
  | fuel + 1 => do
    let first ← expression fuel
    if ← skip "," then return first :: (← expressions fuel)
    else return [first]
termination_by structural fuel => fuel

def expression : Nat → Parser Expr
  | 0 => fail "expression too long"
  | fuel + 1 => subexpression 0 fuel
termination_by structural fuel => fuel

/-- An expression whose operators bind tighter than `limit`. -/
def subexpression (limit : Nat) : Nat → Parser Expr
  | 0 => fail "expression too long"
  | fuel + 1 => nested do
    let left ←
      match unaryOp? (← token) with
      | some op => do
        let opLine ← line
        advance
        let operand ← subexpression unaryPriority fuel
        pure (Expr.unary op operand opLine)
      | none => simpleExpression fuel
    operators limit left fuel
termination_by structural fuel => fuel

/-- Adds operators that bind tighter than `limit` to an expression. -/
def operators (limit : Nat) (left : Expr) : Nat → Parser Expr
  | 0 => return left
  | fuel + 1 => do
    match binaryOp? (← token) with
    | some (op, leftPriority, rightPriority) =>
      if leftPriority ≤ limit then return left
      else
        let opLine ← line
        advance
        let right ← subexpression rightPriority fuel
        operators limit (.binary op left right opLine) fuel
    | none => return left
termination_by structural fuel => fuel

def simpleExpression : Nat → Parser Expr
  | 0 => fail "expression too long"
  | fuel + 1 => do
    match ← token with
    | .number n _ =>
      advance
      return match n with
        | .integer n => .integer n
        | .float x => .float x
    | .string s _ =>
      advance
      return .string s.toByteArray
    | .symbol "nil" =>
      advance
      return .nil
    | .symbol "true" =>
      advance
      return .boolean true
    | .symbol "false" =>
      advance
      return .boolean false
    | .symbol "..." =>
      if !(← scope).isVararg then fail "cannot use '...' outside a vararg function"
      advance
      return .varargs
    | .symbol "\x7b" => tableConstructor fuel
    | .symbol "function" =>
      let start ← line
      advance
      return .function (← functionBody false start fuel)
    | _ => suffixedExpression fuel
termination_by structural fuel => fuel

def primaryExpression : Nat → Parser Expr
  | 0 => fail "expression too long"
  | fuel + 1 => do
    match ← token with
    | .name _ =>
      let nameLine ← line
      let name ← expectName
      variableExpr name nameLine
    | .symbol "(" =>
      let start ← line
      advance
      let inner ← expression fuel
      expectClosing ")" "(" start
      return .group inner
    | _ => fail "unexpected symbol"
termination_by structural fuel => fuel

def suffixedExpression : Nat → Parser Expr
  | 0 => fail "expression too long"
  | fuel + 1 => do
    let first ← primaryExpression fuel
    suffixes first fuel
termination_by structural fuel => fuel

/-- Adds fields, indices and calls to an expression. -/
def suffixes (left : Expr) : Nat → Parser Expr
  | 0 => return left
  | fuel + 1 => do
    match ← token with
    | .symbol "." =>
      advance
      let nameLine ← line
      let name ← expectName
      suffixes (.index left (.string name.toUTF8) nameLine) fuel
    | .symbol "[" =>
      let indexLine ← line
      let key ← bracketed fuel
      suffixes (.index left key indexLine) fuel
    | .symbol ":" =>
      advance
      let name ← expectName
      let callLine ← line
      let args ← arguments fuel
      suffixes (.method left name.toUTF8 args callLine) fuel
    | .symbol "(" | .symbol "\x7b" | .string .. =>
      let callLine ← line
      let args ← arguments fuel
      suffixes (.call left args callLine) fuel
    | _ => return left
termination_by structural fuel => fuel

def bracketed : Nat → Parser Expr
  | 0 => fail "expression too long"
  | fuel + 1 => do
    advance
    let key ← expression fuel
    expect "]"
    return key
termination_by structural fuel => fuel

def arguments : Nat → Parser (List Expr)
  | 0 => return []
  | fuel + 1 => do
    match ← token with
    | .string s _ =>
      advance
      return [.string s.toByteArray]
    | .symbol "\x7b" => return [← tableConstructor fuel]
    | .symbol "(" =>
      let start ← line
      advance
      if ← skip ")" then return []
      else
        let args ← expressions fuel
        expectClosing ")" "(" start
        return args
    | _ => fail "function arguments expected"
termination_by structural fuel => fuel

def tableConstructor : Nat → Parser Expr
  | 0 => fail "expression too long"
  | fuel + 1 => do
    let start ← line
    expect "\x7b"
    let entries ← fields fuel
    expectClosing "\x7d" "\x7b" start
    return .table entries start
termination_by structural fuel => fuel

def fields : Nat → Parser (List Field)
  | 0 => return []
  | fuel + 1 => do
    if ← isAt "\x7d" then return []
    else
      let first ← field fuel
      if (← skip ",") || (← skip ";") then return first :: (← fields fuel)
      else return [first]
termination_by structural fuel => fuel

def field : Nat → Parser Field
  | 0 => fail "expression too long"
  | fuel + 1 => do
    match ← token with
    | .name bytes =>
      if ← isFollowedBy "=" then
        advance
        advance
        return .entry (.string bytes.toByteArray) (← expression fuel)
      else return .item (← expression fuel)
    | .symbol "[" =>
      let key ← bracketed fuel
      expect "="
      return .entry key (← expression fuel)
    | _ => return .item (← expression fuel)
termination_by structural fuel => fuel

/-- The parameters and the body of a function, after its keyword. -/
def functionBody (isMethod : Bool) (start : Nat) : Nat → Parser Nat
  | 0 => fail "expression too long"
  | fuel + 1 => do
    expect "("
    let (names, isVararg) ←
      if ← isAt ")" then pure ([], false) else parameters fuel
    let names := if isMethod then "self" :: names else names
    inFunction isVararg start names.length do
      declare (names.map fun name => ⟨name, .regular⟩)
      expect ")"
      let stats ← statements fuel
      expectClosing "end" "function" start
      return stats
termination_by structural fuel => fuel

/-- A statement; one in the source may be several, or none. -/
def statement : Nat → Parser (List Stat)
  | 0 => fail "expression too long"
  | fuel + 1 => nested do
    let start ← line
    match ← token with
    | .symbol ";" =>
      advance
      return []
    | .symbol "if" => return [← ifStatement start fuel]
    | .symbol "while" =>
      advance
      let condition ← expression fuel
      expect "do"
      let body ← inBlock true (block fuel)
      expectClosing "end" "while" start
      return [.whileDo condition body]
    | .symbol "do" =>
      advance
      let body ← block fuel
      expectClosing "end" "do" start
      return [.block body]
    | .symbol "for" => return [← forStatement start fuel]
    | .symbol "repeat" =>
      advance
      inBlock true <| inBlock false do
        let body ← statements fuel
        expectClosing "until" "repeat" start
        let condition ← expression fuel
        return [.repeatBody (body ++ [.ifThen condition [.break] []])]
    | .symbol "function" => return [← functionStatement start fuel]
    | .symbol "local" =>
      advance
      if ← skip "function" then return [← localFunction fuel]
      else return [← localStatement start fuel]
    | .symbol "::" =>
      advance
      let name ← expectName
      expect "::"
      let skipped ← emptyStatements fuel
      checkNewLabel name
      addLabel name start (← isBlockEnd false)
      return .label name :: skipped
    | .symbol "return" =>
      advance
      return [← returnStatement start fuel]
    | .symbol "break" =>
      advance
      addJump breakLabel start
      return [.break]
    | .symbol "goto" =>
      advance
      let name ← expectName
      if (← scope).labels.any fun l => l.name == name then pure ()
      else addJump name start
      return [.goto name]
    | _ => return [← expressionStatement start fuel]
termination_by structural fuel => fuel

/-- Labels and empty statements. -/
def emptyStatements : Nat → Parser (List Stat)
  | 0 => return []
  | fuel + 1 => do
    if (← isAt ";") || (← isAt "::") then
      let first ← statement fuel
      return first ++ (← emptyStatements fuel)
    else return []
termination_by structural fuel => fuel

/-- A condition with its block, and what stands after it. -/
def ifStatement (start : Nat) : Nat → Parser Stat
  | 0 => fail "expression too long"
  | fuel + 1 => do
    advance
    let condition ← expression fuel
    expect "then"
    let thenBody ← block fuel
    if ← isAt "elseif" then return .ifThen condition thenBody [← ifStatement start fuel]
    else if ← skip "else" then
      let elseBody ← block fuel
      expectClosing "end" "if" start
      return .ifThen condition thenBody elseBody
    else
      expectClosing "end" "if" start
      return .ifThen condition thenBody []
termination_by structural fuel => fuel

def forStatement (start : Nat) : Nat → Parser Stat
  | 0 => fail "expression too long"
  | fuel + 1 => do
    advance
    let name ← expectName
    match ← token with
    | .symbol "=" =>
      advance
      let first ← expression fuel
      expect ","
      let last ← expression fuel
      let step ← if ← skip "," then expression fuel else pure (.integer 1)
      let body ← loopBody [name] start fuel
      return .countLoop first last step body start
    | .symbol "," | .symbol "in" =>
      let names ← moreNames fuel
      expect "in"
      let values ← expressions fuel
      let body ← loopBody (name :: names) start fuel
      return .eachLoop (names.length + 1) values body start
    | _ => fail "'=' or 'in' expected"
termination_by structural fuel => fuel

/-- The body of a loop with variables, up to its end. -/
def loopBody (names : List String) (start : Nat) : Nat → Parser (List Stat)
  | 0 => fail "expression too long"
  | fuel + 1 => do
    expect "do"
    let body ← inBlock true <| inBlock false do
      declare (names.map fun name => ⟨name, .regular⟩)
      statements fuel
    expectClosing "end" "for" start
    return body
termination_by structural fuel => fuel

def functionStatement (start : Nat) : Nat → Parser Stat
  | 0 => fail "expression too long"
  | fuel + 1 => do
    advance
    let nameLine ← line
    let name ← expectName
    let first ← variableExpr name nameLine
    let (target, isMethod) ← functionName first fuel
    let body ← functionBody isMethod start fuel
    checkAssignable target
    return .assign [target] [.function body] start
termination_by structural fuel => fuel

/-- The fields after the first part of a function's name, and whether the last one is a method. -/
def functionName (left : Expr) : Nat → Parser (Expr × Bool)
  | 0 => return (left, false)
  | fuel + 1 => do
    match ← token with
    | .symbol "." =>
      advance
      let nameLine ← line
      let name ← expectName
      functionName (.index left (.string name.toUTF8) nameLine) fuel
    | .symbol ":" =>
      advance
      let nameLine ← line
      let name ← expectName
      return (.index left (.string name.toUTF8) nameLine, true)
    | _ => return (left, false)
termination_by structural fuel => fuel

def localFunction : Nat → Parser Stat
  | 0 => fail "expression too long"
  | fuel + 1 => do
    let name ← expectName
    declare [⟨name, .regular⟩]
    return .declareFunction name (← functionBody false (← line) fuel)
termination_by structural fuel => fuel

def localStatement (start : Nat) : Nat → Parser Stat
  | 0 => fail "expression too long"
  | fuel + 1 => do
    let added ← declared fuel
    if 1 < (added.filter fun v => v.usage == .closing).length then
      failPlain "multiple to-be-closed variables in local list"
    let values ← if ← skip "=" then expressions fuel else pure []
    declare added
    return .declare (added.map fun v => (v.name, v.usage)) values start
termination_by structural fuel => fuel

def returnStatement (start : Nat) : Nat → Parser Stat
  | 0 => fail "expression too long"
  | fuel + 1 => do
    let values ←
      if (← isBlockEnd true) || (← isAt ";") then pure [] else expressions fuel
    let _ ← skip ";"
    return .return values start
termination_by structural fuel => fuel

def moreTargets : Nat → Parser (List Expr)
  | 0 => return []
  | fuel + 1 => do
    if ← skip "," then
      let target ← suffixedExpression fuel
      checkTarget target
      return target :: (← moreTargets fuel)
    else return []
termination_by structural fuel => fuel

def expressionStatement (start : Nat) : Nat → Parser Stat
  | 0 => fail "expression too long"
  | fuel + 1 => do
    let first ← suffixedExpression fuel
    if (← isAt "=") || (← isAt ",") then
      checkTarget first
      let targets ← moreTargets fuel
      expect "="
      let values ← expressions fuel
      return .assign (first :: targets) values start
    else
      match first with
      | .call .. | .method .. => return .call first
      | _ => fail "syntax error"
termination_by structural fuel => fuel

end

end Parser

/-- Reads a program text; the name of the program begins error messages. -/
def Chunk.parse (name : String) (text : List UInt8) : Except String Chunk := do
  let lexemes := Token.scan text
  let main : Parser Nat := do
    modify fun s =>
      { s with scopes := [{ isVararg := true, line := 0,
                            locals := [⟨Parser.environmentName, .regular⟩] }] }
    Parser.checkToken
    Parser.inFunction true 0 0 do
      let stats ← Parser.statements (24 * (lexemes.length + 8))
      match ← Parser.token with
      | .eof => return stats
      | _ => Parser.fail "<eof> expected"
  let (_, state) ← main.run { chunk := name, lexemes }
  return { name, protos := state.protos }

end ScriptHost.Lua
