import Garnet.Interpreter.Arguments

/-!
# The methods of numbers
-/

namespace Garnet

open Interpreter

/-- **What the methods of integers do.** The largest integer has no
successor. -/
def IntegerMethod.call (m : IntegerMethod) (receiver : Value) (args : List Value) :
    Eval Value := do
  checkCount args 0
  match receiver with
  | .int n =>
    match m with
    | .toF => return .float (.ofInt64 n)
    | .succ =>
      if n = Int64.maxValue then raise (.runtime "integer overflow")
      else return .int (n + 1)
    | .isZero => return .ofBool (n == 0)
  | v => wrongReceiver v "Integer"

/-- **The integer part of a floating-point number**, or the nearest integer
there is. Infinities and what is no number have none. -/
def floatToInteger (receiver : Value) (args : List Value) : Eval Value := do
  checkCount args 0
  match receiver with
  | .float x =>
    if x.isFinite then return .int x.truncate
    else raise (.runtime ("FloatDomainError: " ++ x.text Float64.literal))
  | v => wrongReceiver v "Float"

end Garnet
