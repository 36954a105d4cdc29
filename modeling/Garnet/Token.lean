import Garnet.Number.Notation
import Garnet.Span
import Garnet.Text.Quoted

/-!
# Tokens

The words of the language. A token is a kind, with the value it carries if
it stands for a literal or a name, and the span it was read from. Every kind
has two texts: a description, which error messages use, and a debugging
form.
-/

namespace Garnet

/-- **The reserved words.** -/
inductive Keyword where
  | defKw | ifKw | elsifKw | elseKw | endKw | beginKw | rescueKw | classKw
  | returnKw | thenKw | trueKw | falseKw
  /-- `__FILE__`, the name of the unit that is running. -/
  | fileKw
  deriving DecidableEq

namespace Keyword

/-- How a keyword is written. -/
def spelling : Keyword → String
  | defKw => "def"
  | ifKw => "if"
  | elsifKw => "elsif"
  | elseKw => "else"
  | endKw => "end"
  | beginKw => "begin"
  | rescueKw => "rescue"
  | classKw => "class"
  | returnKw => "return"
  | thenKw => "then"
  | trueKw => "true"
  | falseKw => "false"
  | fileKw => "__FILE__"

/-- All keywords. -/
def all : List Keyword :=
  [defKw, ifKw, elsifKw, elseKw, endKw, beginKw, rescueKw, classKw, returnKw,
    thenKw, trueKw, falseKw, fileKw]

/-- The keyword that is written like this, if there is one. -/
def ofSpelling? (s : String) : Option Keyword :=
  all.find? fun k => k.spelling == s

end Keyword

/-- **The marks**: what is written with neither letters nor digits. -/
inductive Mark where
  | leftParen | rightParen | comma | dot | equals | shiftLeft | less | semicolon
  deriving DecidableEq

/-- How a mark is written. -/
def Mark.spelling : Mark → String
  | leftParen => "("
  | rightParen => ")"
  | comma => ","
  | dot => "."
  | equals => "="
  | shiftLeft => "<<"
  | less => "<"
  | semicolon => ";"

namespace Token

/-- **The kinds of token**, with what they carry. -/
inductive Kind where
  /-- An integer literal. -/
  | int (n : Int64)
  /-- A floating-point literal. -/
  | float (x : Float64)
  /-- A string between single quotes, its escapes resolved. -/
  | string (text : String)
  /-- A string between double quotes, its escapes resolved. -/
  | interpolated (text : String)
  /-- A symbol, without its colon. -/
  | symbol (name : String)
  /-- A global variable, without its dollar sign. -/
  | global (name : String)
  /-- A name that starts with a small letter or an underscore. -/
  | ident (name : String)
  /-- A name that starts with a capital letter. -/
  | constant (name : String)
  /-- A reserved word. -/
  | keyword (k : Keyword)
  /-- A mark. -/
  | mark (m : Mark)
  /-- The end of a line. -/
  | newline
  /-- Characters that no rule recognises. -/
  | error
  /-- The end of the source. -/
  | eof
  deriving DecidableEq

namespace Kind

/-- A text between backquotes. -/
def backquoted (s : String) : String :=
  "\x60" ++ s ++ "\x60"

/-- **The description of a kind**, as error messages show it. -/
def describe : Kind → String
  | int n => "integer " ++ backquoted (toString n)
  | float x => "float " ++ backquoted (x.text Float64.plain)
  | string s => "string '" ++ s ++ "'"
  | interpolated s => "string \"" ++ s ++ "\""
  | symbol s => "symbol " ++ backquoted (":" ++ s)
  | global s => "global " ++ backquoted ("$" ++ s)
  | ident s => "identifier " ++ backquoted s
  | constant s => "constant " ++ backquoted s
  | keyword k => backquoted k.spelling
  | mark m => backquoted m.spelling
  | newline => "end of line"
  | error => "unrecognized input"
  | eof => "end of input"

/-- The debugging form of a kind. -/
def debugText : Kind → String
  | int n => "Int(" ++ toString n ++ ")"
  | float x => "Float(" ++ x.text Float64.plain ++ ")"
  | string s => "String(" ++ Text.quoted s ++ ")"
  | interpolated s => "InterpolatedString(" ++ Text.quoted s ++ ")"
  | symbol s => "Symbol(" ++ s ++ ")"
  | global s => "GlobalVar(" ++ s ++ ")"
  | ident s => "Ident(" ++ s ++ ")"
  | constant s => "Constant(" ++ s ++ ")"
  | keyword k => k.spelling
  | mark m => m.spelling
  | k => k.describe

/-- Whether a token of this kind ends a statement. -/
def isTerminator : Kind → Bool
  | newline | mark .semicolon => true
  | _ => false

/-- **Whether two kinds differ at most in what they carry.** -/
def alike : Kind → Kind → Bool
  | int _, int _ | float _, float _ | string _, string _ | interpolated _, interpolated _
  | symbol _, symbol _ | global _, global _ | ident _, ident _ | constant _, constant _ => true
  | k, l => k == l

end Kind

end Token

/-- **A token**: its kind and where it stands. -/
structure Token where
  /-- What the token is. -/
  kind : Token.Kind
  /-- Where it was read. -/
  span : Span
  deriving DecidableEq

/-- The debugging form of a token. -/
def Token.debugText (t : Token) : String :=
  t.kind.debugText ++ " @ " ++ t.span.text

end Garnet
