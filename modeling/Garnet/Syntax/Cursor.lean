import Garnet.Syntax.Error

/-!
# A place in a stream of tokens

A cursor stands at a token and sees the tokens after it. It moves forward
only, and stays at the last token once it has reached it; the last token of
a stream is the end of the source. It keeps count of the tokens from its
place on, which bounds how many items can still be read.
-/

namespace Garnet

/-- **A place in a stream of tokens.** -/
structure Cursor where
  /-- The token the cursor stands at. -/
  current : Token
  /-- The tokens after it. -/
  ahead : List Token
  /-- How many tokens these are together. -/
  room : Nat
  /-- The number is kept along, and is right. -/
  room_eq : room = ahead.length + 1

namespace Cursor

/-- The place of a token, followed by others. -/
def standingAt (t : Token) (ts : List Token) : Cursor :=
  ⟨t, ts, ts.length + 1, rfl⟩

/-- The start of a stream. -/
def start : List Token → Cursor
  | t :: ts => standingAt t ts
  | [] => standingAt ⟨.eof, Span.point 0⟩ []

/-- The kind of the current token. -/
def kind (c : Cursor) : Token.Kind :=
  c.current.kind

/-- The kind of the token after the current one. -/
def peek (c : Cursor) : Token.Kind :=
  match c.ahead with
  | t :: _ => t.kind
  | [] => c.kind

/-- Whether the current token is of a kind, whatever it carries. -/
def check (c : Cursor) (k : Token.Kind) : Bool :=
  c.kind.alike k

/-- Whether the cursor stands at the end of the source. -/
def atEnd (c : Cursor) : Bool :=
  c.check .eof

/-- **The next place**; the last place is its own next place. -/
def advance (c : Cursor) : Cursor :=
  match h : c.ahead with
  | t :: ts => ⟨t, ts, c.room - 1, by simp [c.room_eq, h]⟩
  | [] => c

/-- The first place at or after the token `t`, followed by `ts`, whose kind
does not satisfy `p`, or the last place. -/
def skipFrom (p : Token.Kind → Bool) (t : Token) :
    (ts : List Token) → (room : Nat) → room = ts.length + 1 → Cursor
  | [], room, h => ⟨t, [], room, h⟩
  | u :: us, room, h =>
    if p t.kind then skipFrom p u us (room - 1) (by simp [h])
    else ⟨t, u :: us, room, h⟩

/-- The first place from here whose kind does not satisfy `p`, or the last
place. -/
def skipWhile (p : Token.Kind → Bool) (c : Cursor) : Cursor :=
  skipFrom p c.current c.ahead c.room c.room_eq

/-- The place after the newlines that stand here. -/
def skipNewlines (c : Cursor) : Cursor :=
  c.skipWhile (· == .newline)

/-- The place after the newlines and semicolons that stand here. -/
def skipTerminators (c : Cursor) : Cursor :=
  c.skipWhile Token.Kind.isTerminator

/-- **The error of finding the current token** where something else was
expected. A token that stands for unrecognised characters is reported as
such. -/
def unexpected (c : Cursor) (expected : String) (context : SyntaxContext) : SyntaxError :=
  if c.check .error then .invalidToken c.current.span
  else .unexpectedToken c.kind expected context c.current.span

/-- The place after the current token, if that is of a kind. -/
def expect (c : Cursor) (k : Token.Kind) (expected : String) (context : SyntaxContext) :
    Except SyntaxError Cursor :=
  if c.check k then .ok c.advance else .error (c.unexpected expected context)

/-- Whether a sequence of statements ends here. -/
def closesStatements (c : Cursor) : Bool :=
  match c.kind with
  | .keyword .endKw | .keyword .elseKw | .keyword .elsifKw | .keyword .rescueKw | .eof => true
  | _ => false

/-- Whether an argument of a call without parentheses can start here. -/
def startsArgument (c : Cursor) : Bool :=
  match c.kind with
  | .int _ | .float _ | .string _ | .interpolated _ | .symbol _ | .global _ | .ident _
  | .constant _ | .keyword .trueKw | .keyword .falseKw | .keyword .fileKw => true
  | _ => false

end Cursor

end Garnet
