import Mathlib.Data.Finset.Card
import Mathlib.Data.List.Basic
import Mathlib.Logic.Relation
import Garnet.Proofs.Tables

/-!
# The order of a search

A method is searched in a class, in the modules that the class includes, and in
the class that it extends, and each of these is searched in the same way. If no
class comes back to itself on such a way – the hierarchy is **acyclic** – the
search has no need of a bound: it goes through the classes of one list
(`Heap.searchOrder`), and stops at the first one that has the method.

A search for a value goes through a list of tables in that way (`Heap.tables`):
the tables of the value itself come first, and those of the classes follow.
Nothing else is looked at (`Heap.method?_eq`).
-/

namespace Garnet

open Interpreter

namespace Heap

/-! ## Hierarchies without cycles -/

/-- **Whether a class is directly above another one**, which includes or extends
it. -/
def IsAbove (h : Heap) (q r : ClassRef) : Prop :=
  q ∈ (h.classAt r).includes ∨ (h.classAt r).superclass = some q

/-- **A hierarchy in which no class is above itself.** -/
def Acyclic (h : Heap) : Prop :=
  ∀ r, ¬Relation.TransGen h.IsAbove r r

open Classical in
/-- **The height of a class**: the number of the classes above it, itself
counted. -/
noncomputable def height (h : Heap) (r : ClassRef) : Nat :=
  ((Finset.range h.classes.size).filter fun i => Relation.ReflTransGen h.IsAbove ⟨i⟩ r).card

variable {h k : Heap} {q r : ClassRef}

/-- What has something above it is one of the classes. -/
theorem IsAbove.lt_size (hqr : h.IsAbove q r) : r.index < h.classes.size := by
  by_contra hge
  have hnone := classAt_of_le (Nat.le_of_not_lt hge)
  obtain hmem | hsuper := hqr
  · rw [hnone] at hmem
    cases hmem
  · rw [hnone] at hsuper
    cases hsuper

theorem height_le (h : Heap) (r : ClassRef) : h.height r ≤ h.classes.size := by
  classical
  exact (Finset.card_filter_le _ _).trans (Finset.card_range _).le

/-- A class has a height. -/
theorem height_pos (hr : r.index < h.classes.size) : 0 < h.height r := by
  classical
  exact Finset.card_pos.mpr ⟨r.index, Finset.mem_filter.mpr ⟨Finset.mem_range.mpr hr, .refl⟩⟩

/-- **What is above a class has less above it.** -/
theorem Acyclic.height_lt (hA : h.Acyclic) (hqr : h.IsAbove q r) : h.height q < h.height r := by
  classical
  refine Finset.card_lt_card (Finset.ssubset_iff_of_subset ?_ |>.mpr ⟨r.index, ?_, ?_⟩)
  · intro i hi
    obtain ⟨hrange, hiq⟩ := Finset.mem_filter.mp hi
    exact Finset.mem_filter.mpr ⟨hrange, hiq.tail hqr⟩
  · exact Finset.mem_filter.mpr ⟨Finset.mem_range.mpr hqr.lt_size, .refl⟩
  · intro hmem
    exact hA r (.tail' (Finset.mem_filter.mp hmem).2 hqr)

/-- **Where every class stands after those it refers to**, the hierarchy is
acyclic. -/
theorem acyclic_of_lt
    (hlt : ∀ i < h.classes.size, (∀ q ∈ (h.classAt ⟨i⟩).includes, q.index < i) ∧
      ∀ q ∈ (h.classAt ⟨i⟩).superclass, q.index < i) : h.Acyclic := by
  have hbefore {q r : ClassRef} (hqr : h.IsAbove q r) : q.index < r.index :=
    hqr.elim ((hlt r.index hqr.lt_size).1 q) ((hlt r.index hqr.lt_size).2 q)
  have htrans {q r : ClassRef} (hqr : Relation.TransGen h.IsAbove q r) : q.index < r.index := by
    induction hqr with
    | single hqr => exact hbefore hqr
    | tail _ hqr ih => exact ih.trans (hbefore hqr)
  exact fun r hr => Nat.lt_irrefl _ (htrans hr)

/-- The hierarchies of programs are acyclic. -/
theorem Ranked.acyclic (hR : h.Ranked) : h.Acyclic :=
  acyclic_of_lt fun i _ => ⟨hR.includes ⟨i⟩, hR.superclass ⟨i⟩⟩

/-! ## The classes that are searched -/

/-- **The classes in which a method for the instances of a class is searched**:
the class, then those for each module it includes, in the order of inclusion,
then those for the class it extends. -/
def searchOrder (h : Heap) (hA : h.Acyclic) (r : ClassRef) : List ClassRef :=
  r :: (((h.classAt r).includes.attach.flatMap fun q => h.searchOrder hA q.1) ++
    match _hs : (h.classAt r).superclass with
    | some q => h.searchOrder hA q
    | none => [])
termination_by h.height r
decreasing_by
  · exact hA.height_lt (Or.inl q.2)
  · exact hA.height_lt (Or.inr _hs)

/-- **A class and those above it**: the classes in which a method of the class
itself is searched. -/
def superclasses (h : Heap) (hA : h.Acyclic) (r : ClassRef) : List ClassRef :=
  r :: match _hs : (h.classAt r).superclass with
    | some q => h.superclasses hA q
    | none => []
termination_by h.height r
decreasing_by exact hA.height_lt (Or.inr _hs)

theorem searchOrder_eq (hA : h.Acyclic) (r : ClassRef) :
    h.searchOrder hA r = r :: ((h.classAt r).includes.flatMap (h.searchOrder hA) ++
      (h.classAt r).superclass.elim [] (h.searchOrder hA)) := by
  have hincludes : ((h.classAt r).includes.attach.flatMap fun q => h.searchOrder hA q.1)
      = (h.classAt r).includes.flatMap (h.searchOrder hA) := by
    rw [← List.flatMap_map Subtype.val, List.attach_map_subtype_val]
  rw [searchOrder, hincludes]
  split
  · next q hs => rw [hs]; rfl
  · next hs => rw [hs]; rfl

theorem superclasses_eq (hA : h.Acyclic) (r : ClassRef) :
    h.superclasses hA r = r :: (h.classAt r).superclass.elim [] (h.superclasses hA) := by
  rw [superclasses]
  split
  · next q hs => rw [hs]; rfl
  · next hs => rw [hs]; rfl

/-- The first find in lists one after the other. -/
theorem findSome?_flatMap {α β γ : Type} (f : β → Option γ) (g : α → List β) (as : List α) :
    (as.flatMap g).findSome? f = as.findSome? fun a => (g a).findSome? f := by
  induction as with
  | nil => rfl
  | cons a as ih =>
    rw [List.flatMap_cons, List.findSome?_append, ih, List.findSome?_cons]
    cases (g a).findSome? f with
    | none => rfl
    | some c => rfl

/-- **A bounded search goes through the search order**, if its bound is not less
than the height of the class where it starts. -/
theorem Acyclic.instanceMethodWithin (hA : h.Acyclic) (name : String) {room : Nat}
    (hroom : h.height r ≤ room) :
    h.instanceMethodWithin name room r
      = (h.searchOrder hA r).findSome? fun c => (h.classAt c).methods.find? name := by
  induction room generalizing r with
  | zero =>
    have hout : h.classes.size ≤ r.index :=
      Nat.le_of_not_lt fun hr => Nat.not_lt_of_le hroom (height_pos hr)
    rw [instanceMethodWithin_of_le hout, searchOrder_eq, List.findSome?_cons, classAt_of_le hout]
    rfl
  | succ room ih =>
    have habove {q : ClassRef} (hq : h.IsAbove q r) :
        h.instanceMethodWithin name room q
          = (h.searchOrder hA q).findSome? fun c => (h.classAt c).methods.find? name :=
      ih (Nat.le_of_lt_succ ((hA.height_lt hq).trans_le hroom))
    rw [Heap.instanceMethodWithin, searchOrder_eq, List.findSome?_cons, List.findSome?_append,
      findSome?_flatMap, ← findSome?_congr fun q hq => habove (Or.inl hq)]
    cases (h.classAt r).methods.find? name with
    | some m => rfl
    | none =>
      dsimp only
      cases (h.classAt r).includes.findSome? (h.instanceMethodWithin name room) with
      | some m => rfl
      | none =>
        cases hs : (h.classAt r).superclass with
        | none => rfl
        | some q => exact habove (Or.inr hs)

/-- **A bounded walk to the classes above** finds what stands in the line of them,
if its bound is not less than the height of the class where it starts, and if
nothing is found but in one of the classes. -/
theorem Acyclic.lineageWithin {β : Type} (hA : h.Acyclic) {f : ClassRef → Option β}
    (hnone : ∀ c : ClassRef, h.classes.size ≤ c.index → f c = none) {room : Nat}
    (hroom : h.height r ≤ room) :
    (h.lineageWithin room r).findSome? f = (h.superclasses hA r).findSome? f := by
  induction room generalizing r with
  | zero =>
    have hout : h.classes.size ≤ r.index :=
      Nat.le_of_not_lt fun hr => Nat.not_lt_of_le hroom (height_pos hr)
    rw [superclasses_eq, List.findSome?_cons, hnone r hout, classAt_of_le hout]
    rfl
  | succ room ih =>
    rw [Heap.lineageWithin, superclasses_eq, List.findSome?_cons, List.findSome?_cons]
    cases f r with
    | some b => rfl
    | none =>
      cases hs : (h.classAt r).superclass with
      | none => rfl
      | some q => exact ih (Nat.le_of_lt_succ ((hA.height_lt (Or.inr hs)).trans_le hroom))

/-- **A search for the instances of a class** goes through its search order. -/
theorem Acyclic.instanceMethod? (hA : h.Acyclic) (r : ClassRef) (name : String) :
    h.instanceMethod? r name
      = (h.searchOrder hA r).findSome? fun c => (h.classAt c).methods.find? name :=
  hA.instanceMethodWithin name (height_le h r)

/-- **The line of classes above a class** is that of its walk, for everything that
is found in classes. -/
theorem Acyclic.lineage {β : Type} (hA : h.Acyclic) (r : ClassRef) {f : ClassRef → Option β}
    (hnone : ∀ c : ClassRef, h.classes.size ≤ c.index → f c = none) :
    (h.lineage r).findSome? f = (h.superclasses hA r).findSome? f :=
  hA.lineageWithin hnone (height_le h r)

/-- **A search for a class itself** goes through the classes above it. -/
theorem Acyclic.classMethod? (hA : h.Acyclic) (r : ClassRef) (name : String) :
    h.classMethod? r name
      = (h.superclasses hA r).findSome? fun c => (h.classAt c).classMethods.find? name :=
  hA.lineage r fun c hc => by rw [classAt_of_le hc]; rfl

end Heap

/-! ## The tables that are searched -/

/-- **A reference to a table of methods.** -/
inductive TableRef where
  /-- The methods of an object alone. -/
  | ofObject (r : ObjectRef)
  /-- The methods of a class itself. -/
  | ofClass (r : ClassRef)
  /-- The methods of the instances of a class. -/
  | ofInstances (r : ClassRef)
  deriving DecidableEq

/-- The table into which a method is entered that is defined on a value. -/
def Value.table? : Value → Option TableRef
  | .object r => some (.ofObject r)
  | .classValue r => some (.ofInstances r)
  | _ => none

namespace Heap

/-- A table of methods. -/
def table (h : Heap) : TableRef → MethodTable
  | .ofObject r => (h.object r).methods
  | .ofClass r => (h.classAt r).classMethods
  | .ofInstances r => (h.classAt r).methods

/-- **The tables in which a method for a value is searched.** -/
def tables (h : Heap) (hA : h.Acyclic) (t : ClassTable) : Value → List TableRef
  | .object r => .ofObject r :: (h.searchOrder hA (h.object r).classRef).map .ofInstances
  | .classValue r =>
    (h.superclasses hA r).map .ofClass ++ (h.searchOrder hA t.classClass).map .ofInstances
  | v => (h.searchOrder hA (v.classOf h t)).map .ofInstances

variable {h k : Heap}

/-- **A search for a value** goes through its tables. -/
theorem method?_eq (hA : h.Acyclic) (t : ClassTable) (v : Value) (name : String) :
    h.method? t v name = (h.tables hA t v).findSome? fun q => (h.table q).find? name := by
  have hinstances (r : ClassRef) : h.instanceMethod? r name
      = ((h.searchOrder hA r).map .ofInstances).findSome? fun q => (h.table q).find? name := by
    rw [List.findSome?_map, hA.instanceMethod?]
    rfl
  cases v with
  | object r =>
    rw [method?, tables, List.findSome?_cons, ← hinstances, table]
    cases (h.object r).methods.find? name with
    | some m => rfl
    | none => rfl
  | classValue r =>
    have hclass : h.classMethod? r name
        = ((h.superclasses hA r).map .ofClass).findSome? fun q => (h.table q).find? name := by
      rw [List.findSome?_map, hA.classMethod?]
      rfl
    rw [method?, tables, List.findSome?_append, ← hinstances, ← hclass]
    cases h.classMethod? r name with
    | some m => rfl
    | none => rfl
  | _ => exact hinstances _

end Heap

end Garnet
