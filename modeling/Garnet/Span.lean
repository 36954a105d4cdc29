/-!
# Spans of a source text

A span is a range of byte offsets in a source text. Offsets are those of
the UTF-8 form of the text and stay below `Span.limit`.
-/

namespace Garnet

/-- **A span**: the bytes from `start` up to, not including, `stop`. -/
structure Span where
  /-- The offset of the first byte. -/
  start : Nat
  /-- The offset after the last byte. -/
  stop : Nat
  deriving DecidableEq, Inhabited

namespace Span

/-- The largest offset a span can hold. -/
def limit : Nat := 4294967295

/-- **Why a range is no span.** -/
inductive RangeError where
  /-- The start lies beyond the limit. -/
  | startTooLarge (start : Nat)
  /-- The end lies beyond the limit. -/
  | endTooLarge (stop : Nat)
  deriving DecidableEq

/-- The message of a range error. -/
def RangeError.message : RangeError → String
  | startTooLarge n => "span start " ++ toString n ++ " exceeds u32::MAX (" ++ toString limit ++ ")"
  | endTooLarge n => "span end " ++ toString n ++ " exceeds u32::MAX (" ++ toString limit ++ ")"

/-- The span of a range of offsets; the start is looked at first. -/
def ofRange (start stop : Nat) : Except RangeError Span :=
  if limit < start then .error (.startTooLarge start)
  else if limit < stop then .error (.endTooLarge stop)
  else .ok ⟨start, stop⟩

/-- The span of a range in a source, which is the empty span at the start of
the source for a range that reaches beyond the limit. -/
def ofSource (start stop : Nat) : Span :=
  match ofRange start stop with
  | .ok span => span
  | .error _ => ⟨0, 0⟩

/-- The empty span at an offset. -/
def point (offset : Nat) : Span :=
  ⟨offset, offset⟩

/-- The number of bytes covered. -/
def length (s : Span) : Nat :=
  s.stop - s.start

/-- Whether no byte is covered. -/
def isEmpty (s : Span) : Bool :=
  s.start == s.stop

/-- The smallest span that covers two spans. -/
def merge (s t : Span) : Span :=
  ⟨min s.start t.start, max s.stop t.stop⟩

/-- A span as text. -/
def text (s : Span) : String :=
  toString s.start ++ ".." ++ toString s.stop

/-- The number of newlines among the first `n` bytes of a text. -/
def newlinesBefore : Nat → List Char → Nat
  | _, [] => 0
  | n, c :: cs =>
    if n = 0 then 0
    else (if c = '\n' then 1 else 0) + newlinesBefore (n - c.utf8Size) cs

/-- **The line a span starts on**, counted from one. -/
def lineIn (s : Span) (source : String) : Nat :=
  newlinesBefore s.start source.toList + 1

end Span

end Garnet
