import Garnet.Number.Notation
import Garnet.Object.ClassTable
import Garnet.Text.Quoted
import Garnet.Visited

/-!
# The text of a value

A value has a string form, which programs print, and a form for developers,
which shows strings quoted and arrays with their elements. An array can
contain itself; where the same array is met again inside its own text, three
dots in brackets stand for it.

Both traversals below carry the list of the arrays that are open. An array is
opened only if it is not open yet, so the arrays that are not open become
fewer with each one, and the traversals come to an end on every heap.
-/

namespace Garnet

/-- The text that stands for an array inside itself. -/
def openArrayText : String := "[...]"

/-- The string form of a value that is no array. -/
def Value.scalarText (h : Heap) : Value → String
  | .nil => ""
  | .true => "true"
  | .false => "false"
  | .int n => toString n
  | .float x => x.text Float64.literal
  | .string _ s => s
  | .symbol _ name => name
  | .array _ => ""
  | .object r =>
    match (h.object r).label with
    | some label => label
    | none => "#<" ++ (h.classAt (h.object r).classRef).name ++ ">"
  | .classValue r => (h.classAt r).name
  | .method r => "#<Method: " ++ (h.method r).name ++ ">"
  | .error _ e => e.kind.toS

/-- The developer form of a value that is no array. -/
def Value.scalarInspect (h : Heap) : Value → String
  | .nil => "nil"
  | .string _ s => Text.quoted s
  | .symbol _ name => ":" ++ name
  | .error _ e => "#<" ++ e.kind.className ++ ": " ++ e.kind.message ++ ">"
  | v => v.scalarText h

/-- The developer form of a value inside the arrays of `opened`. -/
def Heap.inspectIn (h : Heap) (opened : List ArrayRef) (v : Value) : String :=
  match v with
  | .array r =>
    if r ∈ opened then openArrayText
    else
      let texts := (h.elements r).attach.map fun w => h.inspectIn (r :: opened) w.1
      "[" ++ ", ".intercalate texts ++ "]"
  | v => v.scalarInspect h
termination_by unvisited h.arrayRefs opened
decreasing_by exact unvisited_cons_lt (Heap.mem_arrayRefs w.2) ‹r ∉ opened›

/-- **The developer form of a value.** -/
def Heap.inspect (h : Heap) (v : Value) : String :=
  h.inspectIn [] v

/-- **The string form of a value.** -/
def Heap.toS (h : Heap) (v : Value) : String :=
  match v with
  | .array _ => h.inspect v
  | v => v.scalarText h

/-- The lines that a value inside the arrays of `opened` is printed as. -/
def Heap.linesIn (h : Heap) (opened : List ArrayRef) (v : Value) : List String :=
  match v with
  | .array r =>
    if r ∈ opened then [openArrayText]
    else if (h.elements r).isEmpty && opened.isEmpty then [""]
    else (h.elements r).attach.flatMap fun w => h.linesIn (r :: opened) w.1
  | v => [v.scalarText h]
termination_by unvisited h.arrayRefs opened
decreasing_by exact unvisited_cons_lt (Heap.mem_arrayRefs w.2) ‹r ∉ opened›

/-- **The lines that a value is printed as**: an array prints its elements one
after the other, and an empty array prints an empty line by itself and
nothing inside another one. -/
def Heap.lines (h : Heap) (v : Value) : List String :=
  h.linesIn [] v

/-- An array that contains itself between two numbers. -/
example :
    let h : Heap := { Heap.empty with arrays := #[[.int 1, .array ⟨0⟩, .int 2]] }
    h.inspect (.array ⟨0⟩) = "[1, [...], 2]" ∧ h.lines (.array ⟨0⟩) = ["1", "[...]", "2"] := by
  decide +kernel

end Garnet
