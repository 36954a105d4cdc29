import Garnet.Bindings
import Garnet.Error
import Garnet.Number.Float64
import Garnet.Object.Builtin

/-!
# Values

Everything a program computes is a value. Numbers, `nil` and the booleans
are values by themselves. Every other value has an identity: two strings with
the same text are still two strings. Strings, symbols and errors never
change, so they carry their contents along with the number that identifies
them; what can change – arrays, objects, classes, the tables of methods –
lives in the heap, and the value is a reference to it.
-/

namespace Garnet

/-- A reference to an array of the heap. -/
@[ext] structure ArrayRef where
  /-- The place in the heap. -/
  index : Nat
  deriving DecidableEq, Inhabited

/-- A reference to an object of the heap. -/
@[ext] structure ObjectRef where
  /-- The place in the heap. -/
  index : Nat
  deriving DecidableEq, Inhabited

/-- A reference to a class of the heap. -/
@[ext] structure ClassRef where
  /-- The place in the heap. -/
  index : Nat
  deriving DecidableEq, Inhabited

/-- A reference to a method of the heap. -/
structure MethodRef where
  /-- The place in the heap. -/
  index : Nat
  deriving DecidableEq, Inhabited

/-- **A value.** -/
inductive Value where
  | nil
  | true
  | false
  | int (n : Int64)
  | float (x : Float64)
  /-- A string, with the number that identifies it. -/
  | string (id : Nat) (text : String)
  /-- A symbol, with the number that identifies it. -/
  | symbol (id : Nat) (name : String)
  | array (r : ArrayRef)
  | object (r : ObjectRef)
  | classValue (r : ClassRef)
  | method (r : MethodRef)
  /-- An error, with the number that identifies it. -/
  | error (id : Nat) (e : Error)

namespace Value

/-- The value of a truth value. -/
def ofBool (b : Bool) : Value :=
  if b then .true else .false

/-- The value of a count. -/
def ofNat (n : Nat) : Value :=
  .int (Int64.ofNat n)

/-- Whether a value is `nil`. -/
def isNil : Value → Bool
  | nil => Bool.true
  | _ => Bool.false

/-- **Identity**: numbers are the same if they are represented alike, and
what has an identity is the same as itself alone. -/
def same : Value → Value → Bool
  | nil, nil | true, true | false, false => Bool.true
  | int m, int n => m == n
  | float x, float y => x == y
  | string i _, string j _ | symbol i _, symbol j _ | error i _, error j _ => i == j
  | array r, array s => r == s
  | object r, object s => r == s
  | classValue r, classValue s => r == s
  | method r, method s => r == s
  | _, _ => Bool.false

end Value

/-- **Who may call a method.** -/
inductive Visibility where
  /-- Everyone. -/
  | everyone
  /-- Calls without an explicit receiver. -/
  | implicitReceiver
  deriving DecidableEq

/-- **What a method does.** Beside the builtin methods there are those that a
program defines, which do nothing, and those that the host of an interpreter
installs. -/
inductive MethodBody where
  /-- Returns `nil`. -/
  | doNothing
  /-- A builtin method. -/
  | builtin (b : Builtin)
  /-- Returns the receiver. -/
  | returnReceiver
  /-- Returns the arguments in an array. -/
  | returnArguments
  /-- Returns a value. -/
  | returnConstant (v : Value)
  /-- Runs a program. -/
  | runProgram (source : String)
  /-- Fails with an error. -/
  | raiseError (e : Error)

/-- **A method.** -/
structure Method where
  /-- The name it was defined under. -/
  name : String
  /-- Who may call it. -/
  visibility : Visibility
  /-- What it does. -/
  body : MethodBody

/-- The debugging form of a method. -/
def Method.debugText (m : Method) (quotedName : String) : String :=
  let visibility := match m.visibility with
    | .everyone => "Public"
    | .implicitReceiver => "Private"
  "Method \x7b name: " ++ quotedName ++ ", visibility: " ++ visibility ++ ", .. \x7d"

/-- Methods by name. -/
abbrev MethodTable := Bindings MethodRef

/-- **What `new` makes of a class.** -/
inductive Factory where
  /-- An object of the class, which may have a fixed string form. -/
  | object (label : Option String)
  /-- An empty array. -/
  | array
  /-- An empty string. -/
  | string

/-- **A class**, or a module, which is a class that is included in others. -/
structure Class where
  /-- The name it was made with. -/
  name : String
  /-- The class it extends. -/
  superclass : Option ClassRef
  /-- The modules it includes, in the order of inclusion. -/
  includes : List ClassRef
  /-- The methods of its instances. -/
  methods : MethodTable
  /-- The methods of the class itself. -/
  classMethods : MethodTable
  /-- How instances are made; nothing if `new` is refused. -/
  factory : Option Factory

/-- **An object.** -/
structure Object where
  /-- Its class. -/
  classRef : ClassRef
  /-- Its fixed string form, if it has one. -/
  label : Option String
  /-- The methods of this object alone. -/
  methods : MethodTable

end Garnet
