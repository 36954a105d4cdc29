import Garnet.Text.CaseMapping
import Garnet.Text.Cased

/-!
# The case of a text

A text changes case letter by letter, with one exception: a capital sigma
that ends a word becomes a final sigma. A word ends where the nearest
character that is not case-ignorable is no cased letter.
-/

namespace Garnet.Text

/-- A text in upper case. -/
def upcase (s : List Char) : List Char :=
  s.flatMap upperMapping.apply

/-- Whether the first character that is not case-ignorable is a cased
letter. -/
def meetsCased (s : List Char) : Bool :=
  match s.dropWhile caseIgnorable.contains with
  | [] => false
  | c :: _ => cased.contains c

/-- The lower case of a character, given what stands before it, nearest
first, and what follows. -/
def lowerIn (before : List Char) (c : Char) (after : List Char) : List Char :=
  if c = 'Σ' && meetsCased before && !meetsCased after then ['ς']
  else lowerMapping.apply c

/-- The lower case of a text that follows `before`, which is given nearest
first. -/
def downcaseAfter (before : List Char) : List Char → List Char
  | [] => []
  | c :: after => lowerIn before c after ++ downcaseAfter (c :: before) after

/-- A text in lower case. -/
def downcase (s : List Char) : List Char :=
  downcaseAfter [] s

end Garnet.Text
