import Garnet.Proofs.Hierarchy

/-!
# What stands in the tables of methods

A call finds its method under a name, in the table of a class or of an object.
The tables of a new interpreter are those of the builtin methods, and a program
can enter nothing into them but methods that do nothing. So what is true of
every builtin method and of the name it stands under, and of methods that do
nothing, is true of every method that a call of that name ever finds
(`Heap.Enters.callable`).
-/

namespace Garnet

open Interpreter

namespace Heap

/-- **The tables of methods on a heap.** -/
inductive HasTable (h : Heap) : MethodTable → Prop where
  /-- The methods of the instances of a class. -/
  | ofInstances (r : ClassRef) : h.HasTable (h.classAt r).methods
  /-- The methods of a class itself. -/
  | ofClass (r : ClassRef) : h.HasTable (h.classAt r).classMethods
  /-- The methods of an object. -/
  | ofObject (r : ObjectRef) : h.HasTable (h.object r).methods

/-- **A heap in whose tables only methods of a kind are entered**, which may
depend on the name of the entry. -/
def Enters (p : String → MethodBody → Bool) (h : Heap) : Prop :=
  ∀ table, h.HasTable table → ∀ name r, table.find? name = some r → p name (h.method r).body

variable {h : Heap} {p : String → MethodBody → Bool}

/-! ## What a search finds is an entry -/

/-- What is found for the instances of a class stands in a table. -/
theorem hasTable_of_instanceMethodWithin {name : String} {room : Nat} {r : ClassRef}
    {m : MethodRef} (hm : h.instanceMethodWithin name room r = some m) :
    ∃ table, h.HasTable table ∧ table.find? name = some m := by
  induction room generalizing r with
  | zero => cases hm
  | succ room ih =>
    rw [instanceMethodWithin] at hm
    split at hm
    -- in the class itself, in a module that it includes, or above it
    · next hfound =>
      cases hm
      exact ⟨_, .ofInstances r, hfound⟩
    · split at hm
      · next hfound =>
        cases hm
        obtain ⟨q, _, hq⟩ := List.exists_of_findSome?_eq_some hfound
        exact ih hq
      · obtain ⟨q, _, hq⟩ := Option.bind_eq_some_iff.mp hm
        exact ih hq

/-- **What is found for a value** stands in a table under its name. -/
theorem hasTable_of_method? {t : ClassTable} {v : Value} {name : String} {m : MethodRef}
    (hm : h.method? t v name = some m) :
    ∃ table, h.HasTable table ∧ table.find? name = some m := by
  unfold method? at hm
  split at hm
  · next r =>
    split at hm
    · next hfound =>
      cases hm
      exact ⟨_, .ofObject r, hfound⟩
    · exact hasTable_of_instanceMethodWithin hm
  · next r =>
    split at hm
    · next hfound =>
      cases hm
      obtain ⟨q, _, hq⟩ := List.exists_of_findSome?_eq_some hfound
      exact ⟨_, .ofClass q, hq⟩
    · exact hasTable_of_instanceMethodWithin hm
  · exact hasTable_of_instanceMethodWithin hm

/-- **What a call finds** is a method that may be entered under the name of the
call. -/
theorem Enters.callable {s t : Interpreter} (hs : s.heap.Enters p) {receiver : Value}
    {func : String} {hasTarget : Bool} {m : Method}
    (hm : callable receiver func hasTarget s = .ok m t) : p func m.body := by
  obtain ⟨r, hr, rfl⟩ := method?_of_callable hm
  obtain ⟨table, htable, hfound⟩ := hasTable_of_method? hr
  exact hs table htable func r hfound

/-! ## What can be entered -/

/-- An object after one was changed. -/
theorem object_setObject (h : Heap) (o r : ObjectRef) (d : Object) :
    (h.setObject o d).object r
      = if r = o ∧ o.index < h.objects.size then d else h.object r := by
  unfold setObject object
  simp only [getD_setIfInBounds, ObjectRef.ext_iff]

/-- An object after one was made. -/
theorem object_newObject (h : Heap) (d : Object) (r : ObjectRef) :
    (h.newObject d).2.object r = if r.index = h.objects.size then d else h.object r := by
  unfold newObject object
  rw [Array.getElem?_push]
  split
  · rfl
  · rfl

/-- A method that no call refers to yet may do what may be entered under every
name. -/
theorem Enters.newMethod (hE : h.Enters p) {m : Method} (hm : ∀ name, p name m.body) :
    (h.newMethod m).2.Enters p := by
  intro table htable name r hr
  have hold : h.HasTable table := by
    cases htable with
    | ofInstances r => exact .ofInstances r
    | ofClass r => exact .ofClass r
    | ofObject r => exact .ofObject r
  rw [method_newMethod]
  split
  · exact hm name
  · exact hE table hold name r hr

/-- Entering a method that may be entered under every name. -/
theorem Enters.set (hE : h.Enters p) {table : MethodTable} (htable : h.HasTable table)
    {m : MethodRef} (hm : ∀ name, p name (h.method m).body) (entry name : String)
    {r : MethodRef} (hr : (table.set entry m).find? name = some r) :
    p name (h.method r).body := by
  rw [Bindings.find?_set] at hr
  split at hr
  · cases hr
    exact hm name
  · exact hE table htable name r hr

/-- Entering it into the table of a class. -/
theorem Enters.defineMethod (hE : h.Enters p) (c : ClassRef) {m : MethodRef}
    (hm : ∀ name, p name (h.method m).body) : (h.defineMethod c m).Enters p := by
  intro table htable name r hr
  cases htable with
  | ofInstances q =>
    unfold Heap.defineMethod at hr
    rw [classAt_setClass] at hr
    split at hr
    · exact hE.set (.ofInstances c) hm _ name hr
    · exact hE _ (.ofInstances q) name r hr
  | ofClass q =>
    unfold Heap.defineMethod at hr
    rw [classAt_setClass] at hr
    split at hr
    · exact hE _ (.ofClass c) name r hr
    · exact hE _ (.ofClass q) name r hr
  | ofObject q => exact hE _ (.ofObject q) name r hr

/-- Entering it into the table of an object. -/
theorem Enters.defineObjectMethod (hE : h.Enters p) (o : ObjectRef) {m : MethodRef}
    (hm : ∀ name, p name (h.method m).body) : (h.defineObjectMethod o m).Enters p := by
  intro table htable name r hr
  cases htable with
  | ofInstances q => exact hE _ (.ofInstances q) name r hr
  | ofClass q => exact hE _ (.ofClass q) name r hr
  | ofObject q =>
    unfold Heap.defineObjectMethod at hr
    rw [object_setObject] at hr
    split at hr
    · exact hE.set (.ofObject o) hm _ name hr
    · exact hE _ (.ofObject q) name r hr

/-- **No evaluation enters anything else** than methods that do nothing. -/
theorem Enters.invariant (hp : ∀ name, p name .doNothing) : Invariant (Enters p) where
  arrays _ _ hE table htable := by
    refine hE table ?_
    cases htable with
    | ofInstances r => exact .ofInstances r
    | ofClass r => exact .ofClass r
    | ofObject r => exact .ofObject r
  object c label _ hE table htable name r hr := by
    cases htable with
    | ofInstances q => exact hE _ (.ofInstances q) name r hr
    | ofClass q => exact hE _ (.ofClass q) name r hr
    | ofObject q =>
      rw [object_newObject] at hr
      -- a new object has no entries
      split at hr
      · cases hr
      · exact hE _ (.ofObject q) name r hr
  classMethod c hE hnew := by
    cases hnew
    refine (hE.newMethod hp).defineMethod c fun name => ?_
    rw [method_newMethod, if_pos rfl]
    exact hp name
  objectMethod o hE hnew := by
    cases hnew
    refine (hE.newMethod hp).defineObjectMethod o fun name => ?_
    rw [method_newMethod, if_pos rfl]
    exact hp name

/-! ## New interpreters -/

/-- Whether every entry of a table is of a kind. -/
def allEntries (p : String → MethodBody → Bool) (h : Heap) (table : MethodTable) : Bool :=
  table.entries.all fun e => p e.1 (h.method e.2).body

/-- What is found in a table that was checked. -/
theorem of_allEntries {table : MethodTable} (hall : h.allEntries p table) {name : String}
    {r : MethodRef} (hr : table.find? name = some r) : p name (h.method r).body := by
  obtain ⟨before, after, hentries, _⟩ := List.lookup_eq_some_iff.mp hr
  unfold allEntries at hall
  rw [hentries] at hall
  exact List.all_eq_true.mp hall (name, r) (List.mem_append_right _ List.mem_cons_self)

/-- Whether every entry of every table on a heap is of a kind. -/
def allTables (p : String → MethodBody → Bool) (h : Heap) : Bool :=
  h.classes.all (fun c => h.allEntries p c.methods && h.allEntries p c.classMethods) &&
    h.objects.all fun o => h.allEntries p o.methods

/-- **A heap all of whose tables are of a kind**, checked one after the other. -/
theorem Enters.of_allTables (hall : h.allTables p) : h.Enters p := by
  unfold allTables at hall
  rw [Bool.and_eq_true, Array.all_eq_true, Array.all_eq_true] at hall
  -- a place outside its row reads as something with empty tables
  have hclass (r : ClassRef) :
      h.allEntries p (h.classAt r).methods && h.allEntries p (h.classAt r).classMethods := by
    unfold classAt
    cases hr : h.classes[r.index]? with
    | none => rfl
    | some c =>
      obtain ⟨hlt, rfl⟩ := Array.getElem?_eq_some_iff.mp hr
      exact hall.1 r.index hlt
  have hobject (r : ObjectRef) : h.allEntries p (h.object r).methods := by
    unfold object
    cases hr : h.objects[r.index]? with
    | none => rfl
    | some o =>
      obtain ⟨hlt, rfl⟩ := Array.getElem?_eq_some_iff.mp hr
      exact hall.2 r.index hlt
  intro table htable name r hr
  cases htable with
  | ofInstances q => exact of_allEntries (Bool.and_eq_true _ _ |>.mp (hclass q)).1 hr
  | ofClass q => exact of_allEntries (Bool.and_eq_true _ _ |>.mp (hclass q)).2 hr
  | ofObject q => exact of_allEntries (hobject q) hr

end Heap

end Garnet
