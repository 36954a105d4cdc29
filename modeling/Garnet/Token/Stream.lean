import Garnet.Token.Lexeme

/-!
# The tokens of a source

A source text is cut into lexemes from left to right; those that make a
token are kept, with their spans, and the end of the source makes the last
token.
-/

namespace Garnet.Token

/-- The number of bytes of a text. -/
def byteLength : List Char → Nat
  | [] => 0
  | c :: cs => c.utf8Size + byteLength cs

/-- The tokens of a text that starts at a byte offset of its source. -/
def streamFrom (offset : Nat) : List Char → List Token
  | [] => [⟨.eof, Span.point (min offset Span.limit)⟩]
  | c :: cs =>
    let lexeme := Lexeme.read c cs
    let stop := offset + byteLength (c :: cs.take lexeme.more)
    let rest := streamFrom stop (cs.drop lexeme.more)
    match lexeme.kind with
    | some kind => ⟨kind, Span.ofSource offset stop⟩ :: rest
    | none => rest
termination_by cs => cs.length
decreasing_by simp only [List.length_drop, List.length_cons]; omega

/-- **The tokens of a source**, the last of which is its end. -/
def stream (source : String) : List Token :=
  streamFrom 0 source.toList

end Garnet.Token
