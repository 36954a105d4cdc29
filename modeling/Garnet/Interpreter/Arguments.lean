import Garnet.Interpreter.State

/-!
# What builtin methods check

A builtin method is given its arguments as values, in any number. It fails
with an error if their number is wrong, and with another one if a value is of
the wrong kind; the number is checked first. Nothing but that check protects
a method from reading an argument that it was not given.
-/

namespace Garnet.Interpreter

variable {α : Type}

/-- Fails because the number of arguments is wrong. -/
def wrongCount (args : List Value) (expected : String) : Eval α :=
  raise (.argument args.length expected)

/-- Fails unless there is a certain number of arguments. -/
def checkCount (args : List Value) (expected : Nat) : Eval Unit :=
  if args.length = expected then return else wrongCount args (toString expected)

/-- Fails unless the number of arguments lies between two bounds. -/
def checkCountBetween (args : List Value) (least most : Nat) : Eval Unit :=
  if least ≤ args.length ∧ args.length ≤ most then return
  else wrongCount args (toString least ++ ".." ++ toString most)

/-- **The argument at a place**, counted from zero. -/
def argument (args : List Value) (place : Nat) : Eval Value :=
  match args[place]? with
  | some v => return v
  | none => throw (.fault (.notGiven place args.length))

/-- How the error for a wrong argument names it: `nil`, `true` and `false` by
themselves, everything else by its class. -/
def argumentName (s : Interpreter) : Value → String
  | .nil => "nil"
  | .true => "true"
  | .false => "false"
  | v => s.className v

/-- Fails because an argument is of the wrong kind. -/
def wrongArgument (v : Value) (expected : String) : Eval α := do
  raise (.type ((← get).argumentName v) expected)

/-- Fails because the receiver is of the wrong kind. -/
def wrongReceiver (v : Value) (expected : String) : Eval α := do
  raise (.type ((← get).className v) expected)

/-- **The text of an argument** that has to be a string. -/
def stringArgument : Value → Eval String
  | .string _ text => return text
  | v => wrongArgument v "String"

/-- **The name in an argument** that has to be a symbol or a string. -/
def nameArgument : Value → Eval String
  | .symbol _ name => return name
  | .string _ text => return text
  | v => wrongArgument v "Symbol"

end Garnet.Interpreter
