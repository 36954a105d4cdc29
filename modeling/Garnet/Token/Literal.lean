/-!
# The text of string literals

What the characters between the quotes of a string literal stand for.
Between double quotes a backslash gives the next character a meaning: six
letters stand for a control or a blank, every other character for itself.
Between single quotes a backslash only protects a backslash or a single
quote, and is an ordinary character elsewhere.
-/

namespace Garnet.Literal

/-- What a character stands for after a backslash between double quotes. -/
def escaped : Char → Char
  | 'n' => '\n'
  | 't' => '\t'
  | 'r' => '\r'
  | '0' => '\x00'
  | 'e' => '\x1b'
  | 's' => ' '
  | c => c

/-- **The text of a double-quoted literal**, from what stands between its
quotes. A backslash at the very end stands for itself. -/
def cookDouble : List Char → List Char
  | [] => []
  | ['\\'] => ['\\']
  | '\\' :: c :: cs => escaped c :: cookDouble cs
  | c :: cs => c :: cookDouble cs

/-- **The text of a single-quoted literal**, from what stands between its
quotes. -/
def cookSingle : List Char → List Char
  | [] => []
  | '\\' :: '\\' :: cs => '\\' :: cookSingle cs
  | '\\' :: '\x27' :: cs => '\x27' :: cookSingle cs
  | c :: cs => c :: cookSingle cs

end Garnet.Literal
