import Garnet.Syntax
import Garnet.Token

/-!
# Syntax errors

Why a source is no program. An error says what was found and where, what
would have been right there, and what was being read.
-/

namespace Garnet

/-- **What is being read** when an error occurs. -/
inductive SyntaxContext where
  | program | expression | arguments | methodDefinition | ifExpression | beginBlock
  | classDefinition
  deriving DecidableEq

/-- A context in words. -/
def SyntaxContext.describe : SyntaxContext → String
  | program => "a program"
  | expression => "an expression"
  | arguments => "method arguments"
  | methodDefinition => "a method definition"
  | ifExpression => "an if expression"
  | beginBlock => "a begin block"
  | classDefinition => "a class definition"

/-- **Why a source is no program.** -/
inductive SyntaxError where
  /-- A token stands where it cannot stand. -/
  | unexpectedToken (found : Token.Kind) (expected : String) (context : SyntaxContext)
    (span : Span)
  /-- A token stands for characters that no rule recognises. -/
  | invalidToken (span : Span)
  /-- An expression stands on the left of `=` that nothing can be assigned
  to; the span is that of its first token. -/
  | invalidTarget (target : Node) (span : Span)

namespace SyntaxError

/-- Where the error is. -/
def span : SyntaxError → Span
  | unexpectedToken _ _ _ s => s
  | invalidToken s => s
  | invalidTarget _ s => s

/-- **The message of a syntax error.** -/
def message : SyntaxError → String
  | unexpectedToken found expected context _ =>
    "unexpected " ++ found.describe ++ " while parsing " ++ context.describe ++
      ", expected " ++ expected
  | invalidToken _ => "unrecognized input"
  | invalidTarget target _ => "cannot assign to `" ++ target.text ++ "`"

end SyntaxError

end Garnet
