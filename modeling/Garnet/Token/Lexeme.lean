import Garnet.Token
import Garnet.Token.Literal

/-!
# Lexemes

The longest piece of text that a lexical rule recognises at a place, and
what it is. The first character decides which rules can apply; where two
rules share it (an integer and a floating-point literal, `<` and `<<`, a
keyword and an identifier) the longer text wins, and a keyword wins over an
identifier of the same length.

Where no rule applies the lexeme is an error of one character, with three
exceptions in which a rule had begun: an integer literal out of range is one
error, and so are an unfinished string up to the last complete character of
it, and a backslash that continues no line together with the blanks after
it.
-/

namespace Garnet

/-- **A lexeme**: what stands at the head of a text. -/
structure Lexeme where
  /-- The kind of token it makes; nothing for blanks, comments and
  continued lines. -/
  kind : Option Token.Kind
  /-- How many characters belong to it after the first. -/
  more : Nat

namespace Lexeme

/-! ### Classes of characters -/

/-- A character that separates tokens on a line. -/
def isBlank (c : Char) : Bool :=
  c == ' ' || c == '\t' || c == '\r'

/-- A digit, or the underscore that may group digits. -/
def isDigitPart (c : Char) : Bool :=
  c.isDigit || c == '_'

/-- A character that a name may start with. -/
def isNameStart (c : Char) : Bool :=
  c.isAlpha || c == '_'

/-- A character that may occur in a name. -/
def isNamePart (c : Char) : Bool :=
  c.isAlphanum || c == '_'

/-- The mark that a method name or a symbol may end in. -/
def isNameMark (c : Char) : Bool :=
  c == '?' || c == '!'

/-! ### Names -/

/-- How many characters of a name stand at the head of a text. -/
def nameLength (s : List Char) : Nat :=
  (s.takeWhile isNamePart).length

/-- How many characters of a name stand at the head of a text, with the mark
that may follow it. -/
def markedLength (s : List Char) : Nat :=
  match s.drop (nameLength s) with
  | c :: _ => if isNameMark c then nameLength s + 1 else nameLength s
  | [] => nameLength s

/-- A keyword or an identifier. -/
def word (c : Char) (cs : List Char) : Lexeme :=
  let n := markedLength cs
  let spelling := String.ofList (c :: cs.take n)
  match Keyword.ofSpelling? spelling with
  | some k => ⟨some (.keyword k), n⟩
  | none => ⟨some (.ident spelling), n⟩

/-- A constant. -/
def constant (c : Char) (cs : List Char) : Lexeme :=
  let n := nameLength cs
  ⟨some (.constant (String.ofList (c :: cs.take n))), n⟩

/-- A symbol, after its colon. -/
def symbol (cs : List Char) : Lexeme :=
  match cs with
  | c :: r =>
    if isNameStart c then
      let n := markedLength r + 1
      ⟨some (.symbol (String.ofList (cs.take n))), n⟩
    else ⟨some .error, 0⟩
  | [] => ⟨some .error, 0⟩

/-- A global variable, after its dollar sign: a name, or one of three
characters. -/
def global (cs : List Char) : Lexeme :=
  match cs with
  | c :: r =>
    if isNameStart c then
      let n := nameLength r + 1
      ⟨some (.global (String.ofList (cs.take n))), n⟩
    else if c == ':' || c == '\x22' || c == '0' then
      ⟨some (.global (String.singleton c)), 1⟩
    else ⟨some .error, 0⟩
  | [] => ⟨some .error, 0⟩

/-! ### Numbers -/

/-- How many characters an exponent takes at the head of a text: a letter
`e`, perhaps a sign, and at least one digit. -/
def exponentLength : List Char → Nat
  | e :: r =>
    if e == 'e' || e == 'E' then
      let sign := match r with
        | s :: _ => if s == '+' || s == '-' then 1 else 0
        | [] => 0
      match ((r.drop sign).takeWhile Char.isDigit).length with
      | 0 => 0
      | n => n + sign + 1
    else 0
  | [] => 0

/-- How many characters a fraction takes at the head of a text: a point, a
digit, more digits, and perhaps an exponent. -/
def fractionLength : List Char → Nat
  | '.' :: d :: r =>
    if d.isDigit then
      let n := (r.takeWhile isDigitPart).length
      n + exponentLength (r.drop n) + 2
    else 0
  | _ => 0

/-- The integer that a literal denotes: its digits without the underscores,
with its sign. -/
def denotedInt (literal : List Char) : Int :=
  let value (s : List Char) : Int := Float64.digitsValue (s.filter Char.isDigit)
  match literal with
  | '-' :: r => -value r
  | r => value r

/-- An integer literal; one that does not fit 64 bits is an error. -/
def intKind (literal : List Char) : Token.Kind :=
  let n := denotedInt literal
  if -9223372036854775808 ≤ n ∧ n ≤ 9223372036854775807 then .int (Int64.ofInt n)
  else .error

/-- A floating-point literal. -/
def floatKind (literal : List Char) : Token.Kind :=
  match Float64.ofText? (String.ofList (literal.filter (· != '_'))) with
  | some x => .float x
  | none => .error

/-- A number whose first character is a digit, or a minus sign before a
digit. -/
def number (c : Char) (cs : List Char) : Lexeme :=
  let n := (cs.takeWhile isDigitPart).length
  match fractionLength (cs.drop n) with
  | 0 => ⟨some (intKind (c :: cs.take n)), n⟩
  | m => ⟨some (floatKind (c :: cs.take (n + m))), n + m⟩

/-! ### Strings -/

/-- How many characters stand before the closing quote of a string, or,
where there is none, before the place where the string breaks off; and
whether it is closed. A string is made of characters other than the quote
and the backslash, and of backslashes each followed by a character on the
same line. -/
def stringLength (quote : Char) : List Char → Nat × Bool
  | [] => (0, false)
  | ['\\'] => (0, false)
  | '\\' :: c :: cs =>
    if c = '\n' then (0, false)
    else
      let (n, closed) := stringLength quote cs
      (n + 2, closed)
  | c :: cs =>
    if c = quote then (0, true)
    else
      let (n, closed) := stringLength quote cs
      (n + 1, closed)

/-- A string literal, after its opening quote. -/
def string (quote : Char) (kind : List Char → Token.Kind) (cs : List Char) : Lexeme :=
  match stringLength quote cs with
  | (n, true) => ⟨some (kind (cs.take n)), n + 1⟩
  | (n, false) => ⟨some .error, n⟩

/-! ### The choice of the rule -/

/-- The rest of a line after a backslash: blanks and the end of the line
make a continuation. -/
def continuation (cs : List Char) : Lexeme :=
  let n := (cs.takeWhile fun c => c == ' ' || c == '\t').length
  match cs.drop n with
  | '\n' :: _ => ⟨none, n + 1⟩
  | '\r' :: '\n' :: _ => ⟨none, n + 2⟩
  | _ => ⟨some .error, n⟩

/-- Whether a number starts here. -/
def startsNumber (c : Char) (cs : List Char) : Bool :=
  c.isDigit || (c == '-' && cs.head?.any Char.isDigit)

/-- **The lexeme at the head of the text `c :: cs`.** -/
def read (c : Char) (cs : List Char) : Lexeme :=
  if isBlank c then ⟨none, (cs.takeWhile isBlank).length⟩
  else if startsNumber c cs then number c cs
  else if c.isLower || c == '_' then word c cs
  else if c.isUpper then constant c cs
  else
    match c with
    | '\n' => ⟨some .newline, 0⟩
    | '#' => ⟨none, (cs.takeWhile (· != '\n')).length⟩
    | '\\' => continuation cs
    | '(' => ⟨some (.mark .leftParen), 0⟩
    | ')' => ⟨some (.mark .rightParen), 0⟩
    | ',' => ⟨some (.mark .comma), 0⟩
    | '.' => ⟨some (.mark .dot), 0⟩
    | '=' => ⟨some (.mark .equals), 0⟩
    | ';' => ⟨some (.mark .semicolon), 0⟩
    | '<' =>
      if cs.head? = some '<' then ⟨some (.mark .shiftLeft), 1⟩
      else ⟨some (.mark .less), 0⟩
    | ':' => symbol cs
    | '$' => global cs
    | '\x27' => string '\x27' (fun s => .string (String.ofList (Literal.cookSingle s))) cs
    | '\x22' => string '\x22' (fun s => .interpolated (String.ofList (Literal.cookDouble s))) cs
    | _ => ⟨some .error, 0⟩

end Lexeme

end Garnet
