import Garnet.Object.Value

/-!
# The heap

Where arrays, objects, classes and methods live. Nothing is ever removed. A
reference is a place in one of four rows; every reference that an
interpreter hands out leads to something, and a place outside the row reads
as something empty.
-/

namespace Garnet

/-- **The heap.** -/
structure Heap where
  /-- The elements of each array. -/
  arrays : Array (List Value)
  /-- The objects. -/
  objects : Array Object
  /-- The classes. -/
  classes : Array Class
  /-- The methods. -/
  methods : Array Method
  /-- A number that identifies no string, symbol or error yet. -/
  nextId : Nat

namespace Heap

/-- The heap with nothing on it. -/
def empty : Heap :=
  ⟨#[], #[], #[], #[], 0⟩

/-! ### Reading -/

/-- The elements of an array. -/
def elements (h : Heap) (r : ArrayRef) : List Value :=
  (h.arrays[r.index]?).getD []

/-- The references to the arrays. -/
def arrayRefs (h : Heap) : List ArrayRef :=
  (List.range h.arrays.size).map ArrayRef.mk

/-- What has elements is one of the arrays. -/
theorem mem_arrayRefs {h : Heap} {r : ArrayRef} {v : Value} (hv : v ∈ h.elements r) :
    r ∈ h.arrayRefs := by
  refine List.mem_map.mpr ⟨r.index, List.mem_range.mpr ?_, rfl⟩
  unfold elements at hv
  cases hr : h.arrays[r.index]? with
  | none =>
    rw [hr] at hv
    cases hv
  | some vs => exact (Array.getElem?_eq_some_iff.mp hr).1

/-- An object. -/
def object (h : Heap) (r : ObjectRef) : Object :=
  (h.objects[r.index]?).getD ⟨⟨0⟩, none, .empty⟩

/-- A class. -/
def classAt (h : Heap) (r : ClassRef) : Class :=
  (h.classes[r.index]?).getD ⟨"", none, [], .empty, .empty, none⟩

/-- A method. -/
def method (h : Heap) (r : MethodRef) : Method :=
  (h.methods[r.index]?).getD ⟨"", .everyone, .doNothing⟩

/-- **A row after one of its places was set.** A place outside the row reads as
`d`, before and afterwards. -/
theorem getD_setIfInBounds {α : Type} (row : Array α) (i j : Nat) (a d : α) :
    ((row.setIfInBounds i a)[j]?).getD d
      = if j = i ∧ i < row.size then a else (row[j]?).getD d := by
  rw [Array.getElem?_setIfInBounds]
  by_cases hj : i = j
  · subst hj
    by_cases hi : i < row.size
    · simp [hi]
    · simp [hi]
  · rw [if_neg hj, if_neg fun h => hj h.1.symm]

/-! ### Growing -/

/-- A number that identifies nothing else, and the heap after it is taken. -/
def freshId (h : Heap) : Nat × Heap :=
  (h.nextId, { h with nextId := h.nextId + 1 })

/-- A new array. -/
def newArray (h : Heap) (elements : List Value) : ArrayRef × Heap :=
  (⟨h.arrays.size⟩, { h with arrays := h.arrays.push elements })

/-- A new object. -/
def newObject (h : Heap) (o : Object) : ObjectRef × Heap :=
  (⟨h.objects.size⟩, { h with objects := h.objects.push o })

/-- A new class. -/
def newClass (h : Heap) (c : Class) : ClassRef × Heap :=
  (⟨h.classes.size⟩, { h with classes := h.classes.push c })

/-- A new method. -/
def newMethod (h : Heap) (m : Method) : MethodRef × Heap :=
  (⟨h.methods.size⟩, { h with methods := h.methods.push m })

/-! ### Changing -/

/-- The heap with other elements in an array. -/
def setElements (h : Heap) (r : ArrayRef) (elements : List Value) : Heap :=
  { h with arrays := h.arrays.setIfInBounds r.index elements }

/-- The heap with an object changed. -/
def setObject (h : Heap) (r : ObjectRef) (o : Object) : Heap :=
  { h with objects := h.objects.setIfInBounds r.index o }

/-- The heap with a class changed. -/
def setClass (h : Heap) (r : ClassRef) (c : Class) : Heap :=
  { h with classes := h.classes.setIfInBounds r.index c }

/-- The heap with a method in the table of a class. -/
def defineMethod (h : Heap) (r : ClassRef) (m : MethodRef) : Heap :=
  let c := h.classAt r
  h.setClass r { c with methods := c.methods.set (h.method m).name m }

/-- The heap with a method in the table of the class itself. -/
def defineClassMethod (h : Heap) (r : ClassRef) (m : MethodRef) : Heap :=
  let c := h.classAt r
  h.setClass r { c with classMethods := c.classMethods.set (h.method m).name m }

/-- The heap with a method in the table of an object. -/
def defineObjectMethod (h : Heap) (r : ObjectRef) (m : MethodRef) : Heap :=
  let o := h.object r
  h.setObject r { o with methods := o.methods.set (h.method m).name m }

/-- The heap with a module included in a class, after the modules that are
included already. -/
def includeModule (h : Heap) (r module : ClassRef) : Heap :=
  let c := h.classAt r
  h.setClass r { c with includes := c.includes ++ [module] }

end Heap

end Garnet
