import Garnet.Interpreter.Arguments
import Garnet.Interpreter.Loading

/-!
# The methods of the top-level receiver
-/

namespace Garnet

open Interpreter

/-- Prints lines. -/
def printLines : List String → Eval Unit
  | [] => return
  | line :: lines => do
    printLine line
    printLines lines

/-- **Prints values**, each as its lines; no value at all prints an empty
line. -/
def puts (args : List Value) : Eval Value := do
  let s ← get
  printLines (if args.isEmpty then [""] else args.flatMap s.heap.lines)
  return .nil

/-- **The error that a value stands for** when it is raised. Strings and
classes become errors of the program with the text or the name as message,
and an error is itself. -/
def errorOf (s : Interpreter) : Value → Error
  | .string _ text => .ofKind (.runtime text)
  | .classValue r => .ofKind (.runtime (s.heap.classAt r).name)
  | .error _ e => e
  | v => .ofKind (.type (s.argumentName v) "Exception")

/-- The text of the only argument, which has to be a string. -/
def onlyText (args : List Value) : Eval String := do
  checkCount args 1
  stringArgument (← argument args 0)

/-- **What the methods of the top-level receiver do.** -/
def MainMethod.call (host : Host) (run : String → Eval Value) (m : MainMethod)
    (args : List Value) : Eval Value := do
  match m with
  | .toS => do
    checkCount args 0
    newString Startup.mainLabel
  | .puts => Garnet.puts args
  | .require => do
    let name ← onlyText args
    Interpreter.require host.files run name
  | .load => do
    let path ← onlyText args
    Interpreter.load host.files run path
  | .raise => do
    checkCountBetween args 0 1
    match args.head? with
    | none => Interpreter.raise (.runtime "unhandled exception")
    | some v => do raiseError (errorOf (← get) v)

end Garnet
