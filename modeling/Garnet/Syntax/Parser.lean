import Garnet.Syntax.Cursor
import Garnet.Token.Stream

/-!
# Reading a program

The grammar, from the loosest construct to the tightest: statements,
assignment, `<<`, calls with a dot, primary expressions. A method name that
is followed by something that can start an argument takes the rest of the
line as its arguments.

Every construct is read by a function of the reader for the expressions
nested in it, so that `expression` alone is recursive: `expression depth`
reads expressions nested less than `depth` deep. A loop reads at most as
many items as there are tokens. Both bounds are met by every stream of
tokens when they are taken from its length, as `parse` does.
-/

namespace Garnet

/-- **Why a construct was not read.** -/
inductive Parser.Failure where
  /-- The tokens are wrong. -/
  | wrong (e : SyntaxError)
  /-- A bound on nesting or repetition was reached. -/
  | tooDeep

/-- **A reader** of some construct: it moves a cursor, and stops where it
fails. -/
abbrev Parser := EStateM Parser.Failure Cursor

namespace Parser

/-! ### Tokens -/

/-- The kind of the current token. -/
def kind : Parser Token.Kind :=
  return (← get).kind

/-- Moves to the next token. -/
def advance : Parser Unit :=
  modify Cursor.advance

/-- Whether the current token is of a kind. -/
def check (k : Token.Kind) : Parser Bool :=
  return (← get).check k

/-- Fails at the current token. -/
def unexpected {α : Type} (expected : String) (context : SyntaxContext) : Parser α := do
  throw (.wrong ((← get).unexpected expected context))

/-- Moves past the current token if it is of a kind, and tells whether it
is. -/
def eat (k : Token.Kind) : Parser Bool := do
  if ← check k then
    advance
    return true
  else
    return false

/-- Moves past the current token, which has to be of a kind. -/
def expect (k : Token.Kind) (expected : String) (context : SyntaxContext) : Parser Unit := do
  if ← check k then advance else unexpected expected context

/-- Moves past newlines. -/
def skipNewlines : Parser Unit :=
  modify Cursor.skipNewlines

/-- Moves past newlines and semicolons. -/
def skipTerminators : Parser Unit :=
  modify Cursor.skipTerminators

/-- A bound on the number of items that can still be read. -/
def room : Parser Nat :=
  return (← get).room

/-! ### Names -/

/-- An identifier or a constant. -/
def name (expected : String) (context : SyntaxContext) : Parser String := do
  match ← kind with
  | .ident s | .constant s =>
    advance
    return s
  | _ => unexpected expected context

/-- A constant. -/
def constantName (expected : String) (context : SyntaxContext) : Parser String := do
  match ← kind with
  | .constant s =>
    advance
    return s
  | _ => unexpected expected context

/-- The name of a method after a dot, where four keywords are names too. -/
def methodName : Parser String := do
  let found ← match ← kind with
    | .ident s | .constant s => pure s
    | .keyword .classKw => pure "class"
    | .keyword .beginKw => pure "begin"
    | .keyword .endKw => pure "end"
    | .keyword .thenKw => pure "then"
    | _ => unexpected "a method name" .expression
  advance
  return found

/-! ### Lists -/

/-- Items separated by commas, up to a closing parenthesis, with newlines
allowed around them. A comma may follow the last item. -/
def itemsWithin {α : Type} (item : Parser α) : Nat → Parser (List α)
  | 0 => throw .tooDeep
  | n + 1 => do
    if ← check (.mark .rightParen) then return []
    let a ← item
    skipNewlines
    if ← eat (.mark .comma) then
      skipNewlines
      return a :: (← itemsWithin item n)
    else
      return [a]

/-- Items between parentheses, after the opening one. -/
def parenthesized {α : Type} (item : Parser α) (context : SyntaxContext) :
    Parser (List α) := do
  skipNewlines
  let items ← itemsWithin item (← room)
  expect (.mark .rightParen) "`,` or `)`" context
  return items

/-- Arguments without parentheses: at least one, and one more after each
comma. -/
def commandArgumentsWithin (expr : Parser Node) : Nat → Parser (List Node)
  | 0 => throw .tooDeep
  | n + 1 => do
    let a ← expr
    if ← eat (.mark .comma) then
      skipNewlines
      return a :: (← commandArgumentsWithin expr n)
    else
      return [a]

/-- The arguments after a method name, if there are any: between
parentheses, or the rest of the line. -/
def arguments? (expr : Parser Node) : Parser (Option (List Node)) := do
  if ← eat (.mark .leftParen) then
    return some (← parenthesized expr .arguments)
  else
    let c ← get
    if c.startsArgument then return some (← commandArgumentsWithin expr (← room))
    else return none

/-! ### Statements -/

/-- What separates a statement from the next one, unless there is none. -/
def separator (context : SyntaxContext) : Parser Unit := do
  let c ← get
  if c.kind.isTerminator then skipTerminators
  else if c.closesStatements then return
  else unexpected "end of line or `;`" context

/-- Statements up to the token that closes them. -/
def statementsWithin (expr : Parser Node) (context : SyntaxContext) :
    Nat → Parser (List Node)
  | 0 => throw .tooDeep
  | n + 1 => do
    if (← get).closesStatements then return []
    let node ← expr
    separator context
    return node :: (← statementsWithin expr context n)

/-- **Statements**, separated by newlines and semicolons; the token that
closes them is left in place. -/
def statements (expr : Parser Node) (context : SyntaxContext) : Parser (List Node) := do
  skipTerminators
  statementsWithin expr context (← room)

/-- The `end` of a construct. -/
def endKeyword (context : SyntaxContext) : Parser Unit :=
  expect (.keyword .endKw) "`end`" context

/-! ### Constructs that start with a keyword -/

/-- The parameters of a method, between parentheses if there are any. -/
def parameters : Parser (List String) := do
  if ← eat (.mark .leftParen) then
    parenthesized (name "a parameter name" .methodDefinition) .methodDefinition
  else
    return []

/-- `def name(params) body end`, after the `def`. -/
def definition (expr : Parser Node) : Parser Node := do
  let context := SyntaxContext.methodDefinition
  let func ← name "a method name" context
  let params ← parameters
  let body ← statements expr context
  endKeyword context
  return .funcDecl func params body

/-- `else body`, if there is one. -/
def elseBranch (expr : Parser Node) : Parser (List Node) := do
  if ← eat (.keyword .elseKw) then statements expr .ifExpression else return []

/-- `condition [then] body` and the branches after it, without the `end`. An
`elsif` is an `if` by itself in the `else` branch. -/
def branchesWithin (expr : Parser Node) : Nat → Parser Node
  | 0 => throw .tooDeep
  | n + 1 => do
    let context := SyntaxContext.ifExpression
    let condition ← expr
    let _ ← eat (.keyword .thenKw)
    let body ← statements expr context
    if ← eat (.keyword .elsifKw) then
      return .ifBlock condition body [← branchesWithin expr n]
    else
      return .ifBlock condition body (← elseBranch expr)

/-- `if … end`, after the `if`. -/
def conditional (expr : Parser Node) : Parser Node := do
  let node ← branchesWithin expr (← room)
  endKeyword .ifExpression
  return node

/-- The class that a `rescue` clause without a class is for. -/
def defaultRescueClass : String := "StandardError"

/-- The class after a `rescue`. -/
def rescueClass : Parser String := do
  let c ← get
  if c.kind.isTerminator || c.closesStatements then return defaultRescueClass
  else constantName "an exception class name" .beginBlock

/-- The clauses of a `begin` block. -/
def rescuesWithin (expr : Parser Node) : Nat → Parser (List RescueClause)
  | 0 => throw .tooDeep
  | n + 1 => do
    let context := SyntaxContext.beginBlock
    if ← eat (.keyword .rescueKw) then
      let className ← rescueClass
      let body ← statements expr context
      return .mk className body :: (← rescuesWithin expr n)
    else
      return []

/-- `begin … rescue … end`, after the `begin`. -/
def beginBlock (expr : Parser Node) : Parser Node := do
  let context := SyntaxContext.beginBlock
  let body ← statements expr context
  let rescues ← rescuesWithin expr (← room)
  endKeyword context
  return .beginBlock body rescues

/-- The class that a class extends, after its name. -/
def superclass? : Parser (Option String) := do
  if ← eat (.mark .less) then
    return some (← constantName "a superclass name" .classDefinition)
  else
    return none

/-- `class Name [< Super] body end`, after the `class`. -/
def classDefinition (expr : Parser Node) : Parser Node := do
  let context := SyntaxContext.classDefinition
  let className ← constantName "a class name" context
  let superclass ← superclass?
  let body ← statements expr context
  endKeyword context
  return .classDecl className superclass body

/-- `return [value]`, after the `return`. -/
def returnValue (expr : Parser Node) : Parser Node := do
  let c ← get
  if c.kind.isTerminator || c.closesStatements then return .returnValue none
  else return .returnValue (some (← expr))

/-! ### Expressions -/

/-- An expression between parentheses, after the opening one. -/
def grouped (expr : Parser Node) : Parser Node := do
  skipNewlines
  let inner ← expr
  skipNewlines
  expect (.mark .rightParen) "`)`" .expression
  return inner

/-- A literal, after its token. -/
def literal (node : Node) : Parser Node := do
  advance
  return node

/-- An identifier: a call if arguments follow, else a reference. -/
def identifier (expr : Parser Node) (s : String) : Parser Node := do
  advance
  match ← arguments? expr with
  | some args => return .call none s args
  | none => return .bareReference s

/-- A constant: a call if an opening parenthesis follows, else a
reference. -/
def constant (expr : Parser Node) (s : String) : Parser Node := do
  advance
  if ← eat (.mark .leftParen) then
    return .call none s (← parenthesized expr .arguments)
  else
    return .bareReference s

/-- **A primary expression**: a literal, a name, a construct that starts with
a keyword, or an expression between parentheses. -/
def primary (expr : Parser Node) : Parser Node := do
  match ← kind with
  | .int n => literal (.int n)
  | .float x => literal (.float x)
  | .string s => literal (.simpleString s)
  | .interpolated s => literal (.interpolatedString s)
  | .symbol s => literal (.symbol s)
  | .global s => literal (.globalVariable s)
  | .keyword .trueKw => literal (.boolean true)
  | .keyword .falseKw => literal (.boolean false)
  | .keyword .fileKw => literal .fileName
  | .ident s => identifier expr s
  | .constant s => constant expr s
  | .keyword .defKw => do advance; definition expr
  | .keyword .ifKw => do advance; conditional expr
  | .keyword .beginKw => do advance; beginBlock expr
  | .keyword .classKw => do advance; classDefinition expr
  | .keyword .returnKw => do advance; returnValue expr
  | .mark .leftParen => do advance; grouped expr
  | _ => unexpected "an expression" .expression

/-- The calls with a dot that follow an expression. -/
def callsWithin (expr : Parser Node) : Nat → Node → Parser Node
  | 0, _ => throw .tooDeep
  | n + 1, target => do
    if ← eat (.mark .dot) then
      skipNewlines
      let func ← methodName
      let args := (← arguments? expr).getD []
      callsWithin expr n (.call (some target) func args)
    else
      return target

/-- A primary expression and the calls that follow it. -/
def operand (expr : Parser Node) : Parser Node := do
  let node ← primary expr
  callsWithin expr (← room) node

/-- The `<<` operators that follow an operand, each of them a call on
everything to its left. -/
def shiftsWithin (expr : Parser Node) : Nat → Node → Parser Node
  | 0, _ => throw .tooDeep
  | n + 1, left => do
    if ← eat (.mark .shiftLeft) then
      skipNewlines
      let right ← operand expr
      shiftsWithin expr n (.call (some left) "<<" [right])
    else
      return left

/-- Operands joined by `<<`. -/
def shift (expr : Parser Node) : Parser Node := do
  let node ← operand expr
  shiftsWithin expr (← room) node

/-- An assignment or what can stand on its left; nested expressions are read
by `expr`. -/
def expressionWith (expr : Parser Node) : Parser Node := do
  let first := (← get).current.span
  let left ← shift expr
  if ← eat (.mark .equals) then
    skipNewlines
    if left.isAssignable then return .assignment left (← expr)
    else throw (.wrong (.invalidTarget left first))
  else
    return left

/-- **An expression** in which expressions are nested less than `depth`
deep. -/
def expression : Nat → Parser Node
  | 0 => throw .tooDeep
  | depth + 1 => expressionWith (expression depth)

/-- **A program**: statements up to the end of the source. -/
def program (depth : Nat) : Parser (List Node) := do
  let nodes ← statements (expression depth) .program
  if (← get).atEnd then return nodes
  else unexpected "a statement" .program

end Parser

/-- **The program that a stream of tokens spells.** No more expressions can
be nested than there are tokens, so the bound on nesting is never what
fails. -/
def parseTokens (tokens : List Token) : Except SyntaxError (List Node) :=
  match (Parser.program (tokens.length + 1)).run (Cursor.start tokens) with
  | .ok nodes _ => .ok nodes
  | .error (.wrong e) _ => .error e
  | .error .tooDeep c => .error (.invalidToken c.current.span)

/-- **The program that a source spells.** -/
def parse (source : String) : Except SyntaxError (List Node) :=
  parseTokens (Token.stream source)

end Garnet
