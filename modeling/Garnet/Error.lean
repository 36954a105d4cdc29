import Garnet.CallStack

/-!
# Errors of the language

An error is raised by a failing operation or by the program itself, travels
outwards to the nearest `rescue` clause for it, and can be held as a value.
It keeps the backtrace of the place where it was raised.
-/

namespace Garnet

/-- **The causes of an error.** -/
inductive ErrorKind where
  /-- The source of a unit is no program. -/
  | parse (file detail : String)
  /-- A name, or a method of a receiver, does not exist. -/
  | name (name receiver className : String)
  /-- A name is bound neither as a bare name nor as a global. -/
  | undefined (name : String)
  /-- A method does not exist. -/
  | noMethod (method receiver className : String)
  /-- A private method was called with an explicit receiver. -/
  | privateCall (method receiver className : String)
  /-- A unit was not found. -/
  | load (name : String)
  /-- A unit was found and could not be read. -/
  | loadRead (name detail : String)
  /-- A method was called with the wrong number of arguments. -/
  | argument (given : Nat) (expected : String)
  /-- A value is of the wrong kind. -/
  | type (given expected : String)
  /-- A method was defined on a value that cannot hold methods. -/
  | cannotDefine (className : String)
  /-- The program raised the error itself, or an operation failed in some
  other way. -/
  | runtime (message : String)
  deriving DecidableEq

namespace ErrorKind

/-- The name of the class that errors of this kind belong to. -/
def className : ErrorKind → String
  | parse .. => "ParseError"
  | name .. | undefined .. => "NameError"
  | noMethod .. | privateCall .. => "NoMethodError"
  | load .. | loadRead .. => "LoadError"
  | argument .. => "ArgumentError"
  | type .. | cannotDefine .. => "TypeError"
  | runtime .. => "RuntimeError"

/-- **The message of an error.** -/
def message : ErrorKind → String
  | parse .. => "parse error"
  | name n receiver c =>
    "NameError: undefined local variable or method `" ++ n ++ "' for " ++ receiver ++ ":" ++ c
  | undefined n => "'" ++ n ++ "' is undefined"
  | noMethod m receiver c =>
    "NoMethodError: undefined method `" ++ m ++ "' for " ++ receiver ++ ":" ++ c
  | privateCall m receiver c =>
    "NoMethodError: private method `" ++ m ++ "' called for " ++ receiver ++ ":" ++ c
  | load n => "LoadError: cannot load such file -- " ++ n
  | loadRead n detail => "LoadError: cannot read " ++ n ++ " -- " ++ detail
  | argument given expected =>
    "ArgumentError: wrong number of arguments (given " ++ toString given ++ ", expected " ++
      expected ++ ")"
  | type given expected =>
    "TypeError: no implicit conversion of " ++ given ++ " into " ++ expected
  | cannotDefine c => "TypeError: can't define singleton method for " ++ c
  | runtime m => m

/-- **The string form of an error**, which a `rescue` clause compares with its
class name: the message of an error that the program raised, and the class
name of any other. -/
def toS : ErrorKind → String
  | runtime m => m
  | k => k.className

end ErrorKind

/-- **An error**: its cause, and the calls that were active when it was
raised. -/
structure Error where
  /-- What went wrong. -/
  kind : ErrorKind
  /-- Where it was raised; nothing for an error that has not been raised, or
  was raised outside every call. -/
  backtrace : Option Backtrace
  deriving DecidableEq

namespace Error

/-- An error that has not been raised. -/
def ofKind (k : ErrorKind) : Error :=
  ⟨k, none⟩

/-- The error with a backtrace, unless it has one already; an empty backtrace
counts for nothing. -/
def withBacktrace (e : Error) (b : Backtrace) : Error :=
  if e.backtrace.isNone && !b.frames.isEmpty then { e with backtrace := some b } else e

/-- **The error, raised at some place.** It keeps an earlier backtrace, and
a place outside every call leaves none. -/
def raisedAt (e : Error) (stack : CallStack) : Error :=
  e.withBacktrace stack.capture

/-- The text of the backtrace, empty if there is none. -/
def backtraceText (e : Error) : String :=
  match e.backtrace with
  | some b => b.text
  | none => ""

end Error

end Garnet
