import Garnet.Interpreter.Arguments

/-!
# The methods of arrays

An array is shared by all who refer to it, so a change to it is seen by all
of them.
-/

namespace Garnet

open Interpreter

/-- The array that a receiver has to be. -/
def arrayReceiver : Value → Eval ArrayRef
  | .array r => return r
  | v => wrongReceiver v "Array"

/-- Changes the elements of an array. -/
def updateElements (r : ArrayRef) (change : List Value → List Value) : Eval Unit :=
  modify fun s => { s with heap := s.heap.setElements r (change (s.heap.elements r)) }

/-- The elements of an array. -/
def elementsOf (receiver : Value) : Eval (List Value) := do
  let r ← arrayReceiver receiver
  return (← get).heap.elements r

/-- The string forms of the elements of an array with a separator between
them. -/
def joinElements (receiver : Value) (separator : String) : Eval Value := do
  let elements ← elementsOf receiver
  let s ← get
  newString (separator.intercalate (elements.map s.toS))

/-- The text between joined elements: the first argument, nothing if there is
none. -/
def separatorText (args : List Value) : Eval String :=
  match args.head? with
  | some v => stringArgument v
  | none => return ""

/-- **What the methods of arrays do.** -/
def ArrayMethod.call (m : ArrayMethod) (receiver : Value) (args : List Value) : Eval Value := do
  match m with
  | .push => do
    let r ← arrayReceiver receiver
    updateElements r (· ++ args)
    return receiver
  | .append => do
    checkCount args 1
    let r ← arrayReceiver receiver
    let v ← argument args 0
    updateElements r (· ++ [v])
    return receiver
  | .unshift => do
    let r ← arrayReceiver receiver
    updateElements r (args ++ ·)
    return receiver
  | .length => do
    checkCount args 0
    return .ofNat (← elementsOf receiver).length
  | .first => do
    checkCount args 0
    return (← elementsOf receiver).head?.getD .nil
  | .last => do
    checkCount args 0
    return (← elementsOf receiver).getLast?.getD .nil
  | .includes => do
    checkCount args 1
    let elements ← elementsOf receiver
    let v ← argument args 0
    let s ← get
    return .ofBool (elements.any (s.heap.equals · v))
  | .isEmpty => do
    checkCount args 0
    return .ofBool (← elementsOf receiver).isEmpty
  | .join => do
    checkCountBetween args 0 1
    let separator ← separatorText args
    joinElements receiver separator

end Garnet
