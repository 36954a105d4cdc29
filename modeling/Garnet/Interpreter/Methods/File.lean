import Garnet.Interpreter.Arguments

/-!
# The operations on paths and files
-/

namespace Garnet

open Interpreter

/-- Whether something stands at a path. -/
def existsAt (files : FileSystem) (path : String) : Eval Value :=
  match files.lookup path with
  | .found .. => return .true
  | .failed _ => return .false
  | .unexplored place => throw (.unexplored place)

/-- The absolute path that a path stands for, or an error if it needs a home
directory and there is none. -/
def expandedPath (host : Host) (base : Option String) (path : String) : Eval Value :=
  match Path.expand host.files.cwdPath.toList host.home (base.map String.toList) path.toList with
  | some p => newString (String.ofList p)
  | none => raise (.runtime "ArgumentError: couldn't find HOME environment")

/-- The text of the argument at a place, which has to be a string. -/
def textArgument (args : List Value) (place : Nat) : Eval String := do
  stringArgument (← argument args place)

/-- The text of the second argument, which has to be a string if it is
given. -/
def secondText? (args : List Value) : Eval (Option String) := do
  match args[1]? with
  | some v => return some (← stringArgument v)
  | none => return none

/-- The last component of a path, without a suffix if one is given. -/
def basenameOf (path : String) (suffix : Option String) : String :=
  match suffix with
  | some suffix => String.ofList (Path.basenameWithout path.toList suffix.toList)
  | none => String.ofList (Path.basename path.toList)

/-- **What the operations on paths and files do.** -/
def FileMethod.call (host : Host) (m : FileMethod) (args : List Value) : Eval Value := do
  match m with
  | .join => do
    let parts ← args.mapM stringArgument
    newString (String.ofList (Path.join (parts.map String.toList)))
  | .basename => do
    checkCountBetween args 1 2
    let path ← textArgument args 0
    let suffix ← secondText? args
    newString (basenameOf path suffix)
  | .dirname => do
    checkCount args 1
    let path ← textArgument args 0
    newString (String.ofList (Path.dirname path.toList))
  | .isPresent => do
    checkCount args 1
    let path ← textArgument args 0
    existsAt host.files path
  | .expandPath => do
    checkCountBetween args 1 2
    let path ← textArgument args 0
    let base ← secondText? args
    expandedPath host base path

end Garnet
