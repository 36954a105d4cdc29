import Garnet.Object.Heap
import Garnet.Visited

/-!
# Equality of contents

Two values are equal if they cannot be told apart by their contents: strings
by text, numbers by value, arrays element by element, everything else by
identity. Arrays can contain themselves; a pair of arrays that is met again
while it is being compared counts as equal. There are finitely many pairs of
arrays, so every comparison comes to an end.
-/

namespace Garnet

/-- Whether two values that are not both arrays are equal. -/
def Value.scalarEquals : Value → Value → Bool
  | .string _ s, .string _ t => s == t
  | .float x, .float y => x.equals y
  | .int m, .float y => (Float64.ofInt64 m).equals y
  | .float x, .int n => (Float64.ofInt64 n).equals x
  | v, w => v.same w

/-- The pairs of references to arrays. -/
def Heap.arrayPairs (h : Heap) : List (ArrayRef × ArrayRef) :=
  h.arrayRefs.flatMap fun r => h.arrayRefs.map fun s => (r, s)

/-- Where two arrays are compared element by element, both are on the heap. -/
theorem Heap.mem_arrayPairs {h : Heap} {r s : ArrayRef} {p : Value × Value}
    (hp : p ∈ (h.elements r).zip (h.elements s)) : (r, s) ∈ h.arrayPairs := by
  obtain ⟨hr, hs⟩ := List.of_mem_zip hp
  refine List.mem_flatMap.mpr ⟨r, Heap.mem_arrayRefs hr, ?_⟩
  exact List.mem_map.mpr ⟨s, Heap.mem_arrayRefs hs, rfl⟩

/-- Whether two values are equal, given that the pairs of `assumed` are. -/
def Heap.equalsGiven (h : Heap) (assumed : List (ArrayRef × ArrayRef)) (v w : Value) : Bool :=
  match v, w with
  | .array r, .array s =>
    if r = s ∨ (r, s) ∈ assumed then true
    else
      (h.elements r).length == (h.elements s).length &&
        ((h.elements r).zip (h.elements s)).attach.all fun p =>
          h.equalsGiven ((r, s) :: assumed) p.1.1 p.1.2
  | v, w => v.scalarEquals w
termination_by unvisited h.arrayPairs assumed
decreasing_by
  have hnew := (not_or.mp ‹¬(r = s ∨ (r, s) ∈ assumed)›).2
  exact unvisited_cons_lt (Heap.mem_arrayPairs p.2) hnew

/-- **Whether two values are equal.** -/
def Heap.equals (h : Heap) (v w : Value) : Bool :=
  h.equalsGiven [] v w

/-- Two arrays that contain each other, and nothing else, are equal. -/
example :
    let h : Heap := { Heap.empty with arrays := #[[.array ⟨1⟩], [.array ⟨0⟩]] }
    h.equals (.array ⟨0⟩) (.array ⟨1⟩) = true := by
  decide +kernel

end Garnet
