import Garnet.Object.ClassTable

/-!
# The search for a method

A method of an instance is searched in the class, then in the modules the
class includes, then in the superclass, and so on upwards; a module is
searched like a class. Nothing is remembered between searches, so a method
that is added is found at once.

A chain of classes that does not come back to itself is no longer than the
number of classes, which bounds the search.
-/

namespace Garnet.Heap

/-- The method of a name for instances of a class; classes are searched at
most `room` deep. -/
def instanceMethodWithin (h : Heap) (name : String) : Nat → ClassRef → Option MethodRef
  | 0, _ => none
  | room + 1, r =>
    match (h.classAt r).methods.find? name with
    | some m => some m
    | none =>
      match (h.classAt r).includes.findSome? (h.instanceMethodWithin name room) with
      | some m => some m
      | none => (h.classAt r).superclass.bind (h.instanceMethodWithin name room)

/-- **The method of a name for instances of a class.** -/
def instanceMethod? (h : Heap) (r : ClassRef) (name : String) : Option MethodRef :=
  h.instanceMethodWithin name h.classes.size r

/-- A class and the classes above it, nearest first, at most `room` of
them. -/
def lineageWithin (h : Heap) : Nat → ClassRef → List ClassRef
  | 0, _ => []
  | room + 1, r =>
    r :: match (h.classAt r).superclass with
      | some s => h.lineageWithin room s
      | none => []

/-- **A class and the classes above it**, nearest first. -/
def lineage (h : Heap) (r : ClassRef) : List ClassRef :=
  h.lineageWithin h.classes.size r

/-- **The method of a name for a class itself**: the first one of the class
and the classes above it. -/
def classMethod? (h : Heap) (r : ClassRef) (name : String) : Option MethodRef :=
  (h.lineage r).findSome? fun c => (h.classAt c).classMethods.find? name

/-- **The method of a name for a value.** An object has methods of its own,
and a class its class methods; they come before the methods for instances of
the class of the value. -/
def method? (h : Heap) (t : ClassTable) (v : Value) (name : String) : Option MethodRef :=
  match v with
  | .object r =>
    match (h.object r).methods.find? name with
    | some m => some m
    | none => h.instanceMethod? (h.object r).classRef name
  | .classValue r =>
    match h.classMethod? r name with
    | some m => some m
    | none => h.instanceMethod? t.classClass name
  | v => h.instanceMethod? (v.classOf h t) name

/-- **Whether everyone may call a method of a name on a value.** -/
def respondsTo (h : Heap) (t : ClassTable) (v : Value) (name : String) : Bool :=
  match h.method? t v name with
  | some m => (h.method m).visibility == .everyone
  | none => false

/-- A class, the classes above it, and the modules that each of them
includes, right after it. -/
def ancestors (h : Heap) (r : ClassRef) : List ClassRef :=
  (h.lineage r).flatMap fun c => c :: (h.classAt c).includes

/-- The names in a table of methods that everyone may call. -/
def publicNames (h : Heap) (table : MethodTable) : List String :=
  (table.entries.filter fun e => (h.method e.2).visibility == .everyone).map fun e =>
    (h.method e.2).name

/-- A name added to a list in alphabetical order, unless it is there. -/
def insertName (name : String) : List String → List String
  | [] => [name]
  | n :: r =>
    if name = n then n :: r
    else if name < n then name :: n :: r
    else n :: insertName name r

/-- **The names of the methods that everyone may call on instances of a
class**, in alphabetical order. -/
def publicInstanceMethods (h : Heap) (r : ClassRef) : List String :=
  ((h.ancestors r).flatMap fun c => h.publicNames (h.classAt c).methods).foldr insertName []

end Garnet.Heap
