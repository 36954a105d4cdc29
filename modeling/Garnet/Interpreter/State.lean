import Garnet.FileSystem
import Garnet.Object.Equality
import Garnet.Object.MethodSearch
import Garnet.Object.Printing
import Garnet.Object.Startup

/-!
# The state of an interpreter

An interpreter is a value: all that a program can change is a field of it.
What a program can only look at – the files, the home directory, the number
of the process – is its host, which stays as it is while a program runs.

An evaluation (`Eval`) either returns something or halts, and leaves an
interpreter behind in both cases. It halts because the program raised an
error, which a `rescue` clause can catch, or for a reason that nothing in the
program can catch.
-/

namespace Garnet

/-- **What surrounds an interpreter.** -/
structure Host where
  /-- The files. -/
  files : FileSystem
  /-- The home directory, if there is one. -/
  home : Option String
  /-- The number of the process. -/
  processId : Int64

/-- **An interpreter.** -/
structure Interpreter where
  /-- The values of bare names. -/
  objects : Bindings Value
  /-- The values of globals, by their names without the dollar sign. -/
  globals : Bindings Value
  /-- The symbols that exist, with the numbers that identify them. -/
  symbols : Bindings Nat
  /-- The arrays, objects, classes and methods. -/
  heap : Heap
  /-- The classes that existed at the start, by name. -/
  classes : ClassTable
  /-- The calls that are active. -/
  stack : CallStack
  /-- The name of the unit that is being evaluated. -/
  unitName : String
  /-- The top-level receiver. -/
  main : Value
  /-- All that has been printed. -/
  printed : String

/-- **What the language has no meaning for.** -/
inductive Fault where
  /-- A node of a kind that is not evaluated. -/
  | notEvaluated (kind : String)
  /-- A node of a kind that nothing can be assigned to. -/
  | notAssignable (kind : String)
  /-- An argument that a builtin method was not given. -/
  | notGiven (place count : Nat)
  deriving DecidableEq

/-- The message of a fault. -/
def Fault.message : Fault → String
  | notEvaluated kind => "evaluation of " ++ kind ++ " nodes is not implemented"
  | notAssignable kind => "cannot assign to a " ++ kind ++ " node"
  | notGiven place count =>
    "index out of bounds: the len is " ++ toString count ++ " but the index is " ++ toString place

/-- **Why an evaluation halts** without a value. -/
inductive Halt where
  /-- An error was raised and not rescued. -/
  | raised (e : Error)
  /-- Something without a meaning was evaluated. -/
  | fault (f : Fault)
  /-- A place in the file system was needed that has not been looked at. -/
  | unexplored (place : Place)
  /-- Programs were nested deeper than allowed. -/
  | exhausted

/-- **An evaluation.** -/
abbrev Eval := EStateM Halt Interpreter

namespace Interpreter

variable {α : Type}

/-! ### Errors -/

/-- Fails with an error, which gets the present backtrace unless it has one. -/
def raiseError (e : Error) : Eval α := fun s =>
  .error (.raised (e.raisedAt s.stack)) s

/-- Fails with a new error. -/
def raise (k : ErrorKind) : Eval α :=
  raiseError (Error.ofKind k)

/-- Does something else if an error is raised. -/
def rescuing (body : Eval α) (handler : Error → Eval α) : Eval α := fun s =>
  match body s with
  | .error (.raised e) s' => handler e s'
  | result => result

/-- Changes the interpreter if an error is raised, and lets the error pass. -/
def undoing (undo : Interpreter → Interpreter) (body : Eval α) : Eval α := fun s =>
  match body s with
  | .error (.raised e) s' => .error (.raised e) (undo s')
  | result => result

/-! ### Scopes

What these two set is set back however the evaluation inside ends. -/

/-- Evaluates inside a further call. -/
def inFrame (label : String) (body : Eval α) : Eval α := fun s =>
  match body { s with stack := s.stack.push label } with
  | .ok a s' => .ok a { s' with stack := s'.stack.pop }
  | .error h s' => .error h { s' with stack := s'.stack.pop }

/-- Evaluates with another unit as the present one. -/
def inUnit (name : String) (body : Eval α) : Eval α := fun s =>
  match body { s with unitName := name } with
  | .ok a s' => .ok a { s' with unitName := s.unitName }
  | .error h s' => .error h { s' with unitName := s.unitName }

/-! ### New values -/

/-- A new string. -/
def newString (text : String) : Eval Value := fun s =>
  let (id, h) := s.heap.freshId
  .ok (.string id text) { s with heap := h }

/-- A new array. -/
def newArray (elements : List Value) : Eval Value := fun s =>
  let (r, h) := s.heap.newArray elements
  .ok (.array r) { s with heap := h }

/-- A new error value. -/
def newError (e : Error) : Eval Value := fun s =>
  let (id, h) := s.heap.freshId
  .ok (.error id e) { s with heap := h }

/-- **The symbol of a name**, which is made when it is first asked for. -/
def intern (name : String) : Eval Value := fun s =>
  match s.symbols.find? name with
  | some id => .ok (.symbol id name) s
  | none =>
    let (id, h) := s.heap.freshId
    .ok (.symbol id name) { s with heap := h, symbols := s.symbols.set name id }

/-! ### Printing -/

/-- Prints a line. -/
def printLine (line : String) : Eval Unit :=
  modify fun s => { s with printed := s.printed ++ line ++ "\n" }

/-! ### Names -/

/-- What a name is bound to: as a bare name, or else as a global. -/
def find? (s : Interpreter) (name : String) : Option Value :=
  (s.objects.find? name).or (s.globals.find? name)

/-- The value of a name, or an error if it is not bound. -/
def valueOf (name : String) : Eval Value := do
  match (← get).find? name with
  | some v => return v
  | none => raise (.undefined name)

/-- The interpreter with a bare name bound anew. -/
def bind (s : Interpreter) (name : String) (v : Value) : Interpreter :=
  { s with objects := s.objects.set name v }

/-- The interpreter with a global bound anew. -/
def bindGlobal (s : Interpreter) (name : String) (v : Value) : Interpreter :=
  { s with globals := s.globals.set name v }

/-! ### Values in this interpreter -/

/-- The string form of a value. -/
def toS (s : Interpreter) (v : Value) : String :=
  s.heap.toS v

/-- The developer form of a value. -/
def inspect (s : Interpreter) (v : Value) : String :=
  s.heap.inspect v

/-- The name of the class of a value. -/
def className (s : Interpreter) (v : Value) : String :=
  v.className s.heap

/-- The method of a name for a value. -/
def method? (s : Interpreter) (v : Value) (name : String) : Option MethodRef :=
  s.heap.method? s.classes v name

/-- Whether everyone may call a method of a name on a value. -/
def respondsTo (s : Interpreter) (v : Value) (name : String) : Bool :=
  s.heap.respondsTo s.classes v name

/-! ### Defining methods -/

/-- **The interpreter with a new method on a value**: for all instances if the
value is a class, for the object alone if it is an object. No other value can
hold methods. -/
def defineMethod (s : Interpreter) (target : Value) (m : Method) :
    Except ErrorKind (MethodRef × Interpreter) :=
  let (r, h) := s.heap.newMethod m
  match target with
  | .classValue c => .ok (r, { s with heap := h.defineMethod c r })
  | .object o => .ok (r, { s with heap := h.defineObjectMethod o r })
  | v => .error (.cannotDefine (s.className v))

end Interpreter

end Garnet
