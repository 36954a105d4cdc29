import Garnet.Interpreter.Methods.Array
import Garnet.Interpreter.Methods.File
import Garnet.Interpreter.Methods.Main
import Garnet.Interpreter.Methods.Number
import Garnet.Interpreter.Methods.Object
import Garnet.Interpreter.Methods.Text

/-!
# Calling a method

How a method is found for a call, and what calling it does. The method is
chosen before the arguments are evaluated, and it is still the one that is
called if an argument defines another one of its name.
-/

namespace Garnet

open Interpreter

/-- What a builtin method does, given how a source text is run. -/
def Builtin.call (host : Host) (run : String → Eval Value) (b : Builtin) (receiver : Value)
    (args : List Value) : Eval Value :=
  match b with
  | .object m => m.call receiver args
  | .classValue m => m.call receiver args
  | .array m => m.call receiver args
  | .string m => m.call receiver args
  | .integer m => m.call receiver args
  | .floatToInteger => Garnet.floatToInteger receiver args
  | .symbol m => m.call receiver args
  | .file m => m.call host args
  | .processId => do
    checkCount args 0
    return .int host.processId
  | .main m => m.call host run args

/-- **What a method does.** -/
def MethodBody.call (host : Host) (run : String → Eval Value) (body : MethodBody)
    (receiver : Value) (args : List Value) : Eval Value :=
  match body with
  | .doNothing => return .nil
  | .builtin b => b.call host run receiver args
  | .returnReceiver => return receiver
  | .returnArguments => newArray args
  | .returnConstant v => return v
  | .runProgram source => run source
  | .raiseError e => throw (.raised e)

namespace Interpreter

/-- **The method that a call stands for.** Nothing can be called on `nil`, and
a private method only by calls that do not name their receiver. -/
def callable (receiver : Value) (func : String) (hasTarget : Bool) : Eval Method := do
  if receiver.isNil then raise (.noMethod func "nil" "NilClass")
  else
    let s ← get
    match s.method? receiver func with
    | none => raise (.name func (s.toS receiver) (s.className receiver))
    | some r =>
      let m := s.heap.method r
      if m.visibility = .implicitReceiver && hasTarget then
        raise (.privateCall func (s.toS receiver) (s.className receiver))
      else return m

end Interpreter

end Garnet
