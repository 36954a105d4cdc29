import Garnet.Text.Unprintable

/-!
# Quoted strings

The form in which a string is shown to a developer: between double quotes,
with a backslash before a quote, before a backslash and for the five
controls that have a letter of their own, and with the code point in
hexadecimal for every other character that would not show.
-/

namespace Garnet.Text

/-- The letter that stands for a character after a backslash, for the
characters that have one. -/
def escapeLetter? : Char → Option Char
  | '\x00' => some '0'
  | '\t' => some 't'
  | '\n' => some 'n'
  | '\r' => some 'r'
  | '\x22' => some '\x22'
  | '\\' => some '\\'
  | _ => none

/-- A code point in hexadecimal, between braces. -/
def codePoint (c : Char) : List Char :=
  '\\' :: 'u' :: '{' :: Nat.toDigits 16 c.toNat ++ ['}']

/-- One character of a quoted string. -/
def quotedChar (c : Char) : List Char :=
  match escapeLetter? c with
  | some l => ['\\', l]
  | none => if isPrintable c then [c] else codePoint c

/-- **A quoted string.** -/
def quoted (s : String) : String :=
  String.ofList ('\x22' :: s.toList.flatMap quotedChar ++ ['\x22'])

end Garnet.Text
