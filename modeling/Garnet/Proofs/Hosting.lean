import Mathlib.Data.String.Basic
import Mathlib.Logic.Relation
import Garnet.Proofs.Entering

/-!
# What a host does to the classes

Programs make no classes, include no modules, and define no methods but private
ones. All this is left to the host of an interpreter (`Heap.Edit`), which can do
it at any time before, between and after the programs that it runs (`HostStep`).
What a new interpreter can become in such steps is **hosted**
(`Interpreter.Hosted`).

Whatever is done, each method in the table of a class stands there under its own
name, and no name stands there twice (`Heap.Filed`).
-/

namespace Garnet

open Interpreter

/-! ## Tables in alphabetical order -/

namespace Heap

/-- A name that was added is there, and nothing is lost. -/
theorem mem_insertName {name n : String} {ns : List String} :
    n ∈ insertName name ns ↔ n = name ∨ n ∈ ns := by
  induction ns with
  | nil => exact List.mem_singleton.trans (or_iff_left List.not_mem_nil).symm
  | cons m ns ih =>
    rw [insertName]
    split
    · next heq => rw [heq, List.mem_cons, or_self_left]
    · split
      · exact List.mem_cons
      · rw [List.mem_cons, ih, List.mem_cons, or_left_comm]

/-- **Adding a name keeps the order.** -/
theorem pairwise_insertName (name : String) {ns : List String} (hns : ns.Pairwise (· < ·)) :
    (insertName name ns).Pairwise (· < ·) := by
  induction hns with
  | nil => exact List.pairwise_singleton _ _
  | @cons m ns hm hns ih =>
    rw [insertName]
    split
    · exact List.pairwise_cons.mpr ⟨hm, hns⟩
    · next hne =>
      split
      · next hlt =>
        refine List.pairwise_cons.mpr ⟨fun n hn => ?_, List.pairwise_cons.mpr ⟨hm, hns⟩⟩
        obtain rfl | hn := List.mem_cons.mp hn
        · exact hlt
        · exact hlt.trans (hm n hn)
      · next hge =>
        refine List.pairwise_cons.mpr ⟨fun n hn => ?_, ih⟩
        obtain rfl | hn := mem_insertName.mp hn
        · exact lt_of_le_of_ne (not_lt.mp hge) (Ne.symm hne)
        · exact hm n hn

end Heap

namespace Bindings

variable {α : Type} {b : Bindings α} {name : String} {a : α}

/-- **A table in alphabetical order**, with one entry for a name at most. -/
def Sorted (b : Bindings α) : Prop :=
  b.names.Pairwise (· < ·)

instance (b : Bindings α) : Decidable b.Sorted :=
  inferInstanceAs (Decidable (List.Pairwise _ _))

/-- An entry after a name was bound anew. -/
theorem mem_insertEntry {es : List (String × α)} {e : String × α}
    (he : e ∈ insertEntry name a es) : e = (name, a) ∨ e ∈ es := by
  induction es with
  | nil => exact Or.inl (List.mem_singleton.mp he)
  | cons d es ih =>
    rw [insertEntry] at he
    split at he
    · exact (List.mem_cons.mp he).imp_right (List.mem_cons_of_mem d)
    · split at he
      · exact List.mem_cons.mp he
      · obtain rfl | hmem := List.mem_cons.mp he
        · exact Or.inr List.mem_cons_self
        · exact (ih hmem).imp_right (List.mem_cons_of_mem d)

/-- Binding a name adds it to the names. -/
theorem names_set (b : Bindings α) (name : String) (a : α) :
    (b.set name a).names = Heap.insertName name b.names := by
  obtain ⟨es⟩ := b
  show (insertEntry name a es).map Prod.fst = Heap.insertName name (es.map Prod.fst)
  induction es with
  | nil => rfl
  | cons d es ih =>
    rw [insertEntry, List.map_cons, Heap.insertName]
    split
    · next heq => exact congrArg (· :: _) heq
    · split
      · rfl
      · exact congrArg (d.1 :: ·) ih

/-- **Binding a name keeps the order.** -/
theorem Sorted.set (hb : b.Sorted) (name : String) (a : α) : (b.set name a).Sorted := by
  rw [Sorted, names_set]
  exact Heap.pairwise_insertName name hb

/-- **In a table in alphabetical order** a name is bound to what stands beside
it. -/
theorem Sorted.find?_eq (hb : b.Sorted) (he : (name, a) ∈ b.entries) :
    b.find? name = some a := by
  obtain ⟨es⟩ := b
  show es.lookup name = _
  replace hb : es.Pairwise fun e d => e.1 < d.1 := List.pairwise_map.mp hb
  induction hb with
  | nil => cases he
  | @cons d es hd _ ih =>
    obtain ⟨n, c⟩ := d
    rw [lookup_cons_ite]
    obtain hhead | hmem := List.mem_cons.mp he
    · cases hhead
      exact if_pos rfl
    · have hlt : n < name := hd _ hmem
      rw [if_neg hlt.ne']
      exact ih hmem

end Bindings

/-! ## Steps of a host -/

/-- **A class as it is made**: it includes nothing, and has no methods. -/
def Class.bare (name : String) (superclass : Option ClassRef) (factory : Option Factory) : Class :=
  ⟨name, superclass, [], .empty, .empty, factory⟩

/-- **What a host changes on the heap.** -/
inductive Heap.Edit (h : Heap) : Heap → Prop
  /-- It makes a class. -/
  | newClass (name : String) (superclass : Option ClassRef) (factory : Option Factory) :
    (∀ q ∈ superclass, q.index < h.classes.size) →
    Edit h (h.newClass (.bare name superclass factory)).2
  /-- It includes a class in another one, as a module. -/
  | includeModule (r q : ClassRef) : q.index < h.classes.size → Edit h (h.includeModule r q)
  /-- It makes a method. -/
  | newMethod (d : Method) : Edit h (h.newMethod d).2
  /-- It enters a method into a table. -/
  | enter (q : TableRef) (m : MethodRef) : m.index < h.methods.size → Edit h (h.enter q m)

/-- **What a host does with an interpreter.** -/
inductive HostStep (s : Interpreter) : Interpreter → Prop
  /-- It has a request answered. -/
  | request (host : Host) (depth : Nat) (r : Request) :
    HostStep s (Outcome.state (r.eval host depth s))
  /-- It binds a name. -/
  | bind (name : String) (v : Value) : HostStep s (s.bind name v)
  /-- It changes the heap. -/
  | edit {k : Heap} : s.heap.Edit k → HostStep s { s with heap := k }

/-- **An interpreter that was new once**, and is what its host has made of it. -/
def Interpreter.Hosted (s : Interpreter) : Prop :=
  ∃ programName loadPath argv, Relation.ReflTransGen HostStep (start programName loadPath argv) s

namespace Interpreter.Hosted

variable {s t : Interpreter}

theorem start (programName : String) (loadPath argv : List String) :
    (Interpreter.start programName loadPath argv).Hosted :=
  ⟨programName, loadPath, argv, .refl⟩

theorem step (hs : s.Hosted) (hst : HostStep s t) : t.Hosted := by
  obtain ⟨programName, loadPath, argv, hsteps⟩ := hs
  exact ⟨programName, loadPath, argv, hsteps.tail hst⟩

/-- A host can change the heap as often as it likes. -/
theorem edits (hs : s.Hosted) {k : Heap} (hk : Relation.ReflTransGen Heap.Edit s.heap k) :
    Hosted { s with heap := k } := by
  induction hk with
  | refl => exact hs
  | tail _ hedit ih => exact ih.step (.edit hedit)

end Interpreter.Hosted

namespace Heap

variable {h k : Heap}

/-! ## What stands in the table of a class -/

/-- **A table whose methods stand under their own names**, and under no other
one. -/
structure Files (h : Heap) (table : MethodTable) : Prop where
  /-- It is in alphabetical order. -/
  sorted : table.Sorted
  /-- What is in it is on the heap. -/
  held : ∀ e ∈ table.entries, e.2.index < h.methods.size
  /-- A method stands under its name. -/
  named : ∀ e ∈ table.entries, (h.method e.2).name = e.1

instance (h : Heap) (table : MethodTable) : Decidable (h.Files table) :=
  decidable_of_iff (table.Sorted ∧ (∀ e ∈ table.entries, e.2.index < h.methods.size) ∧
      ∀ e ∈ table.entries, (h.method e.2).name = e.1)
    ⟨fun ⟨hs, hh, hn⟩ => ⟨hs, hh, hn⟩, fun ⟨hs, hh, hn⟩ => ⟨hs, hh, hn⟩⟩

/-- **A heap with such tables** for the instances of all classes. -/
def Filed (h : Heap) : Prop :=
  ∀ r, h.Files (h.classAt r).methods

theorem files_empty (h : Heap) : h.Files .empty :=
  ⟨List.Pairwise.nil, fun _ he => absurd he List.not_mem_nil,
    fun _ he => absurd he List.not_mem_nil⟩

/-- It is a matter of the methods on the heap. -/
theorem Files.of_methods_eq {table : MethodTable} (hF : h.Files table)
    (hk : k.methods = h.methods) : k.Files table where
  sorted := hF.sorted
  held e he := hk ▸ hF.held e he
  named e he := by
    unfold method
    rw [hk]
    exact hF.named e he

/-- A method that was made is on the heap. -/
theorem lt_size_newMethod (h : Heap) (d : Method) :
    (h.newMethod d).1.index < (h.newMethod d).2.methods.size := by
  show h.methods.size < (h.methods.push d).size
  rw [Array.size_push]
  exact Nat.lt_succ_self _

/-- Making a method leaves a table as it is. -/
theorem Files.newMethod {table : MethodTable} (hF : h.Files table) (d : Method) :
    (h.newMethod d).2.Files table where
  sorted := hF.sorted
  held e he := (hF.held e he).trans (lt_size_newMethod h d)
  named e he := by
    rw [method_newMethod, if_neg (hF.held e he).ne]
    exact hF.named e he

/-- Entering a method under its name. -/
theorem Files.set {table : MethodTable} (hF : h.Files table) {m : MethodRef}
    (hm : m.index < h.methods.size) : h.Files (table.set (h.method m).name m) where
  sorted := hF.sorted.set _ m
  held e he := by
    obtain rfl | hmem := Bindings.mem_insertEntry he
    · exact hm
    · exact hF.held e hmem
  named e he := by
    obtain rfl | hmem := Bindings.mem_insertEntry he
    · rfl
    · exact hF.named e hmem

/-- Tables that are filed by the methods of one heap, on another one that has the
same methods. -/
theorem Filed.of_methods_eq (hF : ∀ r, h.Files (k.classAt r).methods)
    (hk : k.methods = h.methods) : k.Filed :=
  fun r => (hF r).of_methods_eq hk

theorem Filed.newMethod (hF : h.Filed) (d : Method) : (h.newMethod d).2.Filed :=
  fun r => (hF r).newMethod d

/-- Entering a method into any table. -/
theorem Filed.enter (hF : h.Filed) (q : TableRef) {m : MethodRef} (hm : m.index < h.methods.size) :
    (h.enter q m).Filed := by
  cases q with
  | ofObject o => exact .of_methods_eq hF rfl
  | ofClass c =>
    refine .of_methods_eq (h := h) (fun r => ?_) rfl
    have hsame : ((h.defineClassMethod c m).classAt r).methods = (h.classAt r).methods :=
      classAt_defineClassMethod Class.methods (fun _ _ => rfl) h c r m
    exact hsame ▸ hF r
  | ofInstances c =>
    refine .of_methods_eq (h := h) (fun r => ?_) rfl
    show h.Files ((h.defineMethod c m).classAt r).methods
    unfold defineMethod
    rw [classAt_setClass]
    split
    · exact (hF c).set hm
    · exact hF r

/-- **No evaluation enters a method under another name.** -/
theorem Filed.invariant : Invariant Filed where
  arrays _ _ hF := .of_methods_eq hF rfl
  object _ _ _ hF := .of_methods_eq hF rfl
  classMethod c hF hnew := by
    cases hnew
    exact (hF.newMethod _).enter (.ofInstances c) (lt_size_newMethod _ _)
  objectMethod o hF hnew := by
    cases hnew
    exact (hF.newMethod _).enter (.ofObject o) (lt_size_newMethod _ _)

/-- **In a new interpreter** every method stands under its name. -/
theorem Filed.start (programName : String) (loadPath argv : List String) :
    (start programName loadPath argv).heap.Filed := by
  let k := (Startup.mainObject Startup.classes.1 Startup.classes.2).2
  have hall : ∀ i < k.classes.size, k.Files (k.classAt ⟨i⟩).methods := by
    decide +kernel
  have hat := k.forall_classAt (fun _ c => k.Files c.methods) hall fun _ => files_empty k
  exact Filed.invariant.start hat programName loadPath argv

/-! ## Other classes -/

/-- A class after one was made. -/
theorem classAt_newClass (h : Heap) (d : Class) (r : ClassRef) :
    (h.newClass d).2.classAt r = if r.index = h.classes.size then d else h.classAt r := by
  unfold newClass classAt
  rw [Array.getElem?_push]
  split
  · rfl
  · rfl

/-- Including a module changes nothing of a class but what it includes. -/
theorem methods_includeModule (h : Heap) (c q r : ClassRef) :
    ((h.includeModule c q).classAt r).methods = (h.classAt r).methods := by
  unfold includeModule
  rw [classAt_setClass]
  split
  · next hrc => rw [hrc.1]
  · rfl

theorem Filed.newClass (hF : h.Filed) {d : Class} (hd : d.methods = .empty) :
    (h.newClass d).2.Filed := by
  refine .of_methods_eq (h := h) (fun r => ?_) rfl
  rw [classAt_newClass]
  split
  · exact hd ▸ files_empty h
  · exact hF r

/-- **Nothing that a host changes** puts a method under another name. -/
theorem Edit.filed (hk : h.Edit k) (hF : h.Filed) : k.Filed := by
  cases hk with
  | newClass name superclass factory => exact hF.newClass rfl
  | includeModule r q =>
    exact .of_methods_eq (h := h) (fun c => methods_includeModule h r q c ▸ hF c) rfl
  | newMethod d => exact hF.newMethod d
  | enter q m hm => exact hF.enter q hm

end Heap

/-- **In every hosted interpreter** the methods stand under their names. -/
theorem Interpreter.Hosted.filed {s : Interpreter} (hs : s.Hosted) : s.heap.Filed := by
  obtain ⟨programName, loadPath, argv, hsteps⟩ := hs
  induction hsteps with
  | refl => exact Heap.Filed.start programName loadPath argv
  | tail _ hstep ih =>
    cases hstep with
    | request host depth r =>
      have hinvariant := Interpreter.Invariant.of_heap Heap.Filed.invariant
      exact (hinvariant.composes.request host depth r ih).1
    | bind name v => exact ih
    | edit hedit => exact hedit.filed ih

end Garnet
