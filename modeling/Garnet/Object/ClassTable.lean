import Garnet.Object.Heap

/-!
# The class of a value

The classes that exist when an interpreter starts are found by name in the
class table, which does not change afterwards. A value that is no object
belongs to the class that the table has under the name of its kind.
-/

namespace Garnet

/-- **The class table.** -/
structure ClassTable where
  /-- The classes by name. -/
  byName : Bindings ClassRef
  /-- The class that stands in for a name that is missing. -/
  objectClass : ClassRef
  /-- The class of classes. -/
  classClass : ClassRef

/-- The class with a name. -/
def ClassTable.find? (t : ClassTable) (name : String) : Option ClassRef :=
  t.byName.find? name

/-- The class with a name, or the class of objects if there is none. -/
def ClassTable.resolve (t : ClassTable) (name : String) : ClassRef :=
  (t.find? name).getD t.objectClass

namespace Value

/-- **The name of the class of a value.** -/
def className (h : Heap) : Value → String
  | nil => "NilClass"
  | true => "TrueClass"
  | false => "FalseClass"
  | int _ => "Integer"
  | float _ => "Float"
  | string .. => "String"
  | symbol .. => "Symbol"
  | array _ => "Array"
  | object r => (h.classAt (h.object r).classRef).name
  | classValue _ => "Class"
  | method _ => "Method"
  | error _ e => e.kind.className

/-- **The class of a value.** -/
def classOf (h : Heap) (t : ClassTable) : Value → ClassRef
  | object r => (h.object r).classRef
  | v => t.resolve (v.className h)

end Value

end Garnet
