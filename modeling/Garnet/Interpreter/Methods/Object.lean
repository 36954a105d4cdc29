import Garnet.Interpreter.Arguments

/-!
# The methods of objects and classes
-/

namespace Garnet

open Interpreter

/-- Whether a value can never change: numbers, symbols, `nil` and the
booleans. -/
def Value.isFrozen : Value → Bool
  | .nil | .true | .false | .int _ | .float _ | .symbol .. => Bool.true
  | _ => Bool.false

/-- **What the methods of every object do.** -/
def ObjectMethod.call (m : ObjectMethod) (receiver : Value) (args : List Value) : Eval Value := do
  match m with
  | .toS => do
    checkCount args 0
    newString ((← get).toS receiver)
  | .inspect => do
    checkCount args 0
    newString ((← get).inspect receiver)
  | .classOf => do
    checkCount args 0
    let s ← get
    return .classValue (receiver.classOf s.heap s.classes)
  | .respondTo => do
    checkCount args 1
    let name ← nameArgument (← argument args 0)
    return .ofBool ((← get).respondsTo receiver name)
  | .isNil => do
    checkCount args 0
    return .ofBool receiver.isNil
  | .isSame => do
    checkCount args 1
    return .ofBool (receiver.same (← argument args 0))
  | .isFrozen => do
    checkCount args 0
    return .ofBool receiver.isFrozen

/-- A new instance of a class. -/
def newInstance (r : ClassRef) : Factory → Eval Value
  | .object label => fun s =>
    let (o, h) := s.heap.newObject ⟨r, label, .empty⟩
    .ok (.object o) { s with heap := h }
  | .array => newArray []
  | .string => newString ""

/-- What a method of classes does with a class. -/
def ClassMethod.onClass (m : ClassMethod) (r : ClassRef) : Eval Value := do
  let s ← get
  match m with
  | .new =>
    match (s.heap.classAt r).factory with
    | some factory => newInstance r factory
    | none => raise (.noMethod "new" (s.inspect (.classValue r)) "Class")
  | .name => newString (s.heap.classAt r).name
  | .superclass =>
    match (s.heap.classAt r).superclass with
    | some c => return .classValue c
    | none => return .nil
  | .ancestors => newArray ((s.heap.ancestors r).map .classValue)
  | .instanceMethods => do newArray (← (s.heap.publicInstanceMethods r).mapM intern)

/-- **What the methods of classes do.** -/
def ClassMethod.call (m : ClassMethod) (receiver : Value) (args : List Value) : Eval Value := do
  checkCount args 0
  match receiver with
  | .classValue r => m.onClass r
  | v => wrongReceiver v "Class"

end Garnet
