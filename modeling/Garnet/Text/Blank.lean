import Garnet.Text.CharSet

/-!
# White space around a text

The 25 characters that have the property White_Space, and the removal of
those that stand at the two ends of a text.
-/

namespace Garnet.Text

/-- The characters that count as white space. -/
def whiteSpace : CharSet where
  ranges := [
    (0x9, 0xD), (0x20, 0x20), (0x85, 0x85), (0xA0, 0xA0), (0x1680, 0x1680),
    (0x2000, 0x200A), (0x2028, 0x2029), (0x202F, 0x202F), (0x205F, 0x205F),
    (0x3000, 0x3000)]

/-- A text without its longest end made of characters that satisfy `p`. -/
def dropEndWhile (p : Char → Bool) (s : List Char) : List Char :=
  (s.reverse.dropWhile p).reverse

/-- A text without the white space at its two ends. -/
def trim (s : List Char) : List Char :=
  dropEndWhile whiteSpace.contains (s.dropWhile whiteSpace.contains)

end Garnet.Text
