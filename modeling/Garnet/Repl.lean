import Garnet.Interpreter.Evaluation
import Garnet.Text.Blank

/-!
# The interactive loop

The loop prompts for a line, evaluates it as a program of its own, and
answers with its value or with the message of its error; what a line binds
is there for the lines after it. The line `quit` ends the loop, and so does
the end of the input.
-/

namespace Garnet.Repl

open Interpreter

/-- The name of the unit that consists of the lines. -/
def unitName : String := "(garnet irb)"

/-- What invites a line. -/
def prompt : String := "> "

/-- The line that ends the loop. -/
def quitLine : String := "quit"

/-- The text of the outcome of a line: its value, or the message of its
error. -/
def resultText (s : Interpreter) : Except Error Value → String
  | .ok .nil => "=> nil"
  | .ok v => "=> " ++ s.toS v
  | .error e => " => " ++ e.kind.message

/-- What evaluating something leads to, if it leads to a value or an error. -/
def outcome (body : Eval Value) : Eval (Except Error Value) :=
  rescuing (do return .ok (← body)) fun e => return .error e

/-- **What follows a line.** -/
inductive Answer where
  /-- The loop ends. -/
  | quit
  /-- A text, and then the next prompt. -/
  | text (reply : String)

/-- **The answer to a line.** A blank line has an empty one. -/
def answer (host : Host) (depth : Nat) (line : String) : Eval Answer := do
  let source := String.ofList (Text.trim line.toList)
  if source = quitLine then return .quit
  if source.isEmpty then return .text ""
  let result ← outcome (run host depth source)
  return .text (resultText (← get) result ++ "\n")

/-! ### Lines of bytes -/

/-- The lines of an input, each with the line feed that ends it; the last one
may have none. -/
def byteLines : List UInt8 → List (List UInt8)
  | [] => []
  | b :: bytes =>
    if b = 10 then [b] :: byteLines bytes
    else
      match byteLines bytes with
      | [] => [[b]]
      | line :: lines => (b :: line) :: lines

/-- **The lines of an input**; a line that is no valid UTF-8 is no text. -/
def lines (input : ByteArray) : List (Option String) :=
  (byteLines input.toList).map fun line => String.fromUTF8? ⟨line.toArray⟩

/-! ### The whole loop -/

/-- **How the loop ends.** -/
inductive Ending where
  | quit
  | endOfInput
  /-- A line was no text. -/
  | notText
  deriving DecidableEq

/-- What a line led to. -/
structure Exchange where
  /-- What the line printed. -/
  printed : String
  /-- What the loop answered. -/
  reply : String

/-- **What the loop went through.** -/
structure Transcript where
  /-- The lines before the last prompt. -/
  exchanges : List Exchange
  /-- What came after the last prompt. -/
  ending : Ending

/-- What an interpreter printed after an earlier moment. -/
def printedSince (before after : Interpreter) : String :=
  String.ofList (after.printed.toList.drop before.printed.length)

/-- **The loop** over the lines of an input. -/
def loop (host : Host) (depth : Nat) : List (Option String) → Eval Transcript
  | [] => return ⟨[], .endOfInput⟩
  | none :: _ => return ⟨[], .notText⟩
  | some line :: rest => do
    let before ← get
    match ← answer host depth line with
    | .quit => return ⟨[], .quit⟩
    | .text reply =>
      let exchange := ⟨printedSince before (← get), reply⟩
      let transcript ← loop host depth rest
      return { transcript with exchanges := exchange :: transcript.exchanges }

namespace Transcript

/-- What is written after the last prompt: a line feed if the input ended. -/
def closing (t : Transcript) : String :=
  match t.ending with
  | .endOfInput => "\n"
  | _ => ""

/-- **What the loop itself wrote**: prompts and answers. -/
def written (t : Transcript) : String :=
  String.join (t.exchanges.map fun e => prompt ++ e.reply) ++ prompt ++ t.closing

/-- **What can be seen of a loop**: what it wrote, and what its lines
printed. -/
def shown (t : Transcript) : String :=
  String.join (t.exchanges.map fun e => prompt ++ e.printed ++ e.reply) ++ prompt ++ t.closing

end Transcript

end Garnet.Repl
