import Garnet.Proofs.Closure
import Garnet.Proofs.SearchOrder

/-!
# Entering a method

The tables in which a method for a value is searched depend on nothing but the
hierarchy of classes, and nothing is remembered from one search to the next. So
a method that is entered into a table is found from then on for exactly those
values in whose order of tables this one comes no later than the first one that
has the name; for every other value and every other name the search ends where
it ended before (`Heap.Entered.finds`). That says what it means to define
a method on a class or on an object. On any other value nothing can be defined,
and an attempt changes nothing.
-/

namespace Garnet

open Interpreter

namespace Heap

variable {h k : Heap}

/-! ## The order stays the same -/

/-- **Two heaps whose values are searched in the same tables**, whatever is
entered in these. -/
structure SameOrder (h k : Heap) : Prop where
  /-- Every class includes the same modules. -/
  includes : ∀ r, (k.classAt r).includes = (h.classAt r).includes
  /-- Every class extends the same class. -/
  superclass : ∀ r, (k.classAt r).superclass = (h.classAt r).superclass
  /-- Every object belongs to the same class. -/
  classRef : ∀ r, (k.object r).classRef = (h.object r).classRef

namespace SameOrder

theorem acyclic (hk : h.SameOrder k) (hA : h.Acyclic) : k.Acyclic := by
  have habove : k.IsAbove = h.IsAbove := by
    funext q r
    unfold IsAbove
    rw [hk.includes, hk.superclass]
  unfold Acyclic
  rw [habove]
  exact hA

theorem searchOrder (hk : h.SameOrder k) (hA : h.Acyclic) (r : ClassRef) :
    k.searchOrder (hk.acyclic hA) r = h.searchOrder hA r := by
  induction r using Heap.searchOrder.induct h hA with
  | case1 r hincludes hsuper =>
    rw [searchOrder_eq, searchOrder_eq, hk.includes, hk.superclass,
      List.flatMap_congr fun q hq => hincludes ⟨q, hq⟩]
    cases hs : (h.classAt r).superclass with
    | none => rfl
    | some q => exact congrArg (fun above => r :: (_ ++ above)) (hsuper q hs)

theorem superclasses (hk : h.SameOrder k) (hA : h.Acyclic) (r : ClassRef) :
    k.superclasses (hk.acyclic hA) r = h.superclasses hA r := by
  induction r using Heap.superclasses.induct h hA with
  | case1 r hsuper =>
    rw [superclasses_eq, superclasses_eq, hk.superclass]
    cases hs : (h.classAt r).superclass with
    | none => rfl
    | some q => exact congrArg (r :: ·) (hsuper q hs)

theorem tables (hk : h.SameOrder k) (hA : h.Acyclic) (t : ClassTable) (v : Value) :
    k.tables (hk.acyclic hA) t v = h.tables hA t v := by
  cases v with
  | object r => rw [Heap.tables, Heap.tables, hk.searchOrder hA, hk.classRef]
  | classValue r => rw [Heap.tables, Heap.tables, hk.searchOrder hA, hk.superclasses hA]
  | _ => exact congrArg (List.map TableRef.ofInstances) (hk.searchOrder hA _)

end SameOrder

/-! ## The first table with a name -/

/-- **Whether a table comes first for a name** in an order of tables: it is one of
them, and comes no later than the first of them that has the name. -/
def ComesFirst (h : Heap) (order : List TableRef) (q : TableRef) (name : String) : Prop :=
  q ∈ order ∧ order.idxOf q ≤ order.findIdx fun p => ((h.table p).find? name).isSome

instance (h : Heap) (order : List TableRef) (q : TableRef) (name : String) :
    Decidable (h.ComesFirst order q name) :=
  inferInstanceAs (Decidable (_ ∧ _))

/-- **What a search finds when one more thing is there**: that thing, if the
search does not find something before it comes there. -/
theorem findSome?_update {α β : Type} [DecidableEq α] (f : α → Option β) (a : α) (b : β)
    (as : List α) :
    as.findSome? (fun c => if c = a then some b else f c)
      = if a ∈ as ∧ as.idxOf a ≤ as.findIdx (fun c => (f c).isSome) then some b
        else as.findSome? f := by
  induction as with
  | nil => rfl
  | cons c as ih =>
    rw [List.findSome?_cons]
    by_cases hc : c = a
    · subst hc
      simp
    · have hmem : a ∈ c :: as ↔ a ∈ as := List.mem_cons.trans (or_iff_right (Ne.symm hc))
      rw [if_neg hc, List.idxOf_cons_ne as hc, List.findIdx_cons, List.findSome?_cons]
      simp only [hmem]
      cases hfc : f c with
      | some d => simp
      | none => simpa using ih

/-- **Whether one method more is found on a heap** than on another one: under its
name, for the values in whose order its table comes first. For every other value
and name the same is found. -/
def FindsEntered (h k : Heap) (hA : h.Acyclic) (t : ClassTable) (q : TableRef) (entry : String)
    (m : MethodRef) : Prop :=
  ∀ v name, k.method? t v name
    = if name = entry ∧ h.ComesFirst (h.tables hA t v) q name then some m
      else h.method? t v name

/-- **Whether a heap has one more entry** in one of its tables than another one. -/
structure Entered (h k : Heap) (q : TableRef) (entry : String) (m : MethodRef) : Prop
    extends h.SameOrder k where
  /-- Only that table is another one. -/
  table : ∀ p, k.table p = if p = q then (h.table q).set entry m else h.table p

/-- **A method that was entered into a table is found where the table comes
first**, and changes nothing else. -/
theorem Entered.finds {q : TableRef} {entry : String} {m : MethodRef}
    (hk : h.Entered k q entry m) (hA : h.Acyclic) (t : ClassTable) :
    h.FindsEntered k hA t q entry m := by
  intro v name
  have htable := hk.table
  rw [method?_eq (hk.acyclic hA), method?_eq hA, hk.toSameOrder.tables hA]
  by_cases hname : name = entry
  · have hfind (p : TableRef) : (k.table p).find? name
        = if p = q then some m else (h.table p).find? name := by
      rw [htable]
      split
      · rw [Bindings.find?_set, if_pos hname]
      · rfl
    simp only [hfind, findSome?_update]
    exact if_congr (and_iff_right hname).symm rfl rfl
  · have hfind (p : TableRef) : (k.table p).find? name = (h.table p).find? name := by
      rw [htable]
      split
      · next hpq => rw [Bindings.find?_set, if_neg hname, hpq]
      · rfl
    simp only [hfind]
    rw [if_neg fun hand => hname hand.1]

/-! ## Entering -/

/-- **The heap with a method entered into a table.** -/
def enter (h : Heap) (q : TableRef) (m : MethodRef) : Heap :=
  match q with
  | .ofObject r => h.defineObjectMethod r m
  | .ofClass r => h.defineClassMethod r m
  | .ofInstances r => h.defineMethod r m

/-- **Whether a table is one of those on a heap.** -/
def Holds (h : Heap) : TableRef → Prop
  | .ofObject r => r.index < h.objects.size
  | .ofClass r | .ofInstances r => r.index < h.classes.size

instance (h : Heap) : (q : TableRef) → Decidable (h.Holds q)
  | .ofObject _ => inferInstanceAs (Decidable (_ < _))
  | .ofClass _ => inferInstanceAs (Decidable (_ < _))
  | .ofInstances _ => inferInstanceAs (Decidable (_ < _))

/-- A method that is defined in a class itself changes nothing else of a class. -/
theorem classAt_defineClassMethod {α : Type} (f : Class → α)
    (hf : ∀ (d : Class) methods, f { d with classMethods := methods } = f d) (h : Heap)
    (c r : ClassRef) (m : MethodRef) :
    f ((h.defineClassMethod c m).classAt r) = f (h.classAt r) := by
  unfold defineClassMethod
  rw [classAt_setClass]
  split
  · next hrc => rw [hf, hrc.1]
  · rfl

/-- A method that is defined in an object does not change the class of one. -/
theorem classRef_defineObjectMethod (h : Heap) (o r : ObjectRef) (m : MethodRef) :
    ((h.defineObjectMethod o m).object r).classRef = (h.object r).classRef := by
  unfold defineObjectMethod
  rw [object_setObject]
  split
  · next hro => rw [hro.1]
  · rfl

/-- The hierarchy is none of the things that entering a method changes. -/
theorem sameOrder_enter (q : TableRef) (m : MethodRef) : h.SameOrder (h.enter q m) := by
  cases q with
  | ofObject o =>
    exact ⟨fun _ => rfl, fun _ => rfl, fun r => classRef_defineObjectMethod h o r m⟩
  | ofClass c =>
    exact ⟨fun r => classAt_defineClassMethod Class.includes (fun _ _ => rfl) h c r m,
      fun r => classAt_defineClassMethod Class.superclass (fun _ _ => rfl) h c r m,
      fun _ => rfl⟩
  | ofInstances c =>
    exact ⟨fun r => classAt_defineMethod Class.includes (fun _ _ => rfl) h c r m,
      fun r => classAt_defineMethod Class.superclass (fun _ _ => rfl) h c r m,
      fun _ => rfl⟩

/-- Entering a method makes none and changes none. -/
theorem method_enter (q : TableRef) (m r : MethodRef) : (h.enter q m).method r = h.method r := by
  cases q with
  | ofObject o => rfl
  | ofClass c => rfl
  | ofInstances c => rfl

/-- **Entering changes one table**: the other ones are what they were. -/
theorem table_enter {q : TableRef} (hq : h.Holds q) (m : MethodRef) (p : TableRef) :
    (h.enter q m).table p
      = if p = q then (h.table q).set (h.method m).name m else h.table p := by
  by_cases hpq : p = q
  · rw [if_pos hpq, hpq]
    cases q with
    | ofObject o =>
      exact congrArg Object.methods ((object_setObject h o o _).trans (if_pos ⟨rfl, hq⟩))
    | ofClass c =>
      exact congrArg Class.classMethods ((classAt_setClass h c c _).trans (if_pos ⟨rfl, hq⟩))
    | ofInstances c =>
      exact congrArg Class.methods ((classAt_setClass h c c _).trans (if_pos ⟨rfl, hq⟩))
  · rw [if_neg hpq]
    -- tables of two kinds are never in one place
    cases q with
    | ofObject o =>
      cases p with
      | ofObject r =>
        exact congrArg Object.methods
          ((object_setObject h o r _).trans (if_neg fun hand => hpq (congrArg _ hand.1)))
      | ofClass r => rfl
      | ofInstances r => rfl
    | ofClass c =>
      cases p with
      | ofObject r => rfl
      | ofClass r =>
        exact congrArg Class.classMethods
          ((classAt_setClass h c r _).trans (if_neg fun hand => hpq (congrArg _ hand.1)))
      | ofInstances r =>
        exact classAt_defineClassMethod Class.methods (fun _ _ => rfl) h c r m
    | ofInstances c =>
      cases p with
      | ofObject r => rfl
      | ofClass r =>
        exact classAt_defineMethod Class.classMethods (fun _ _ => rfl) h c r m
      | ofInstances r =>
        exact congrArg Class.methods
          ((classAt_setClass h c r _).trans (if_neg fun hand => hpq (congrArg _ hand.1)))

/-- **Entering a method** enters it. -/
theorem entered_enter {q : TableRef} (hq : h.Holds q) (m : MethodRef) :
    h.Entered (h.enter q m) q (h.method m).name m :=
  { sameOrder_enter q m with table := table_enter hq m }

/-- A method that is made is in no table yet. -/
theorem Entered.of_newMethod {d : Method} {q : TableRef} {entry : String} {m : MethodRef}
    (hk : (h.newMethod d).2.Entered k q entry m) : h.Entered k q entry m where
  includes := hk.includes
  superclass := hk.superclass
  classRef := hk.classRef
  table p := by
    have htable (p : TableRef) : (h.newMethod d).2.table p = h.table p := by
      cases p with
      | ofObject r => rfl
      | ofClass r => rfl
      | ofInstances r => rfl
    rw [hk.table, htable, htable]

end Heap

/-! ## Definitions -/

namespace Interpreter

variable {s s' : Interpreter} {target : Value}

/-- **A definition enters a new method** into the table for the value. -/
theorem defineMethod_of_table {q : TableRef} (hq : target.table? = some q) (m : Method) :
    s.defineMethod target m
      = .ok ((s.heap.newMethod m).1,
          { s with heap := (s.heap.newMethod m).2.enter q (s.heap.newMethod m).1 }) := by
  cases target with
  | classValue c => cases hq; rfl
  | object o => cases hq; rfl
  | _ => cases hq

/-- **A value without a table** has nothing defined on it. -/
theorem defineMethod_of_none (hq : target.table? = none) (m : Method) :
    s.defineMethod target m = .error (.cannotDefine (s.className target)) := by
  cases target with
  | classValue c => cases hq
  | object o => cases hq
  | _ => rfl

/-- A definition that fails changes nothing. -/
theorem eq_of_define_error {name : String} {halt : Halt}
    (hs : define name s = .error halt s') : s' = s := by
  obtain ⟨κ, hκ⟩ | ⟨r, h, hnew, ⟨c, hc⟩ | ⟨o, ho⟩⟩ := define_cases name s
  · rw [hκ] at hs
    cases hs
    rfl
  · rw [hc] at hs
    cases hs
  · rw [ho] at hs
    cases hs

/-- **Methods are found in one order.** If no class is above itself, a method of
some name is searched for a value in one table after the other: those of an
object alone, or of a class and of those it extends, and then those for the
instances of each class in the search order of its class.

A method that is entered into a table is found from then on, under its name, for
the values in whose order this table comes no later than the first one that had
the name; all that is found otherwise is what was found before. Definitions
enter a new method into the table for the value, and fail and change nothing if
there is none. -/
theorem methods_are_found_in_one_order (s : Interpreter) (hA : s.heap.Acyclic) :
    (∀ v name, s.method? v name
      = (s.heap.tables hA s.classes v).findSome? fun q => (s.heap.table q).find? name) ∧
    (∀ q m, s.heap.Holds q →
      s.heap.FindsEntered (s.heap.enter q m) hA s.classes q (s.heap.method m).name m) ∧
    (∀ target m q, target.table? = some q → s.heap.Holds q →
      ∃ r s', s.defineMethod target m = .ok (r, s') ∧ s'.heap.method r = m ∧
        (∀ p, p ≠ r → s'.heap.method p = s.heap.method p) ∧ s'.classes = s.classes ∧
        s.heap.FindsEntered s'.heap hA s.classes q m.name r) ∧
    (∀ target m, target.table? = none →
      s.defineMethod target m = .error (.cannotDefine (s.className target))) ∧
    ∀ name halt s', define name s = .error halt s' → s' = s := by
  refine ⟨Heap.method?_eq hA s.classes, ?_, ?_, fun target m hq => defineMethod_of_none hq m,
    fun name halt s' => eq_of_define_error⟩
  · intro q m hq
    exact (Heap.entered_enter hq m).finds hA s.classes
  · intro target m q hq hholds
    have hmethod := s.heap.method_newMethod m
    have hmade : (s.heap.newMethod m).2.method (s.heap.newMethod m).1 = m :=
      (hmethod _).trans (if_pos rfl)
    have hentered := Heap.entered_enter (h := (s.heap.newMethod m).2) (q := q)
      (by cases q <;> exact hholds) (s.heap.newMethod m).1
    refine ⟨_, _, defineMethod_of_table hq m, ?_, fun p hp => ?_, rfl, ?_⟩
    · exact (Heap.method_enter q _ _).trans hmade
    · refine (Heap.method_enter q _ _).trans ((hmethod p).trans (if_neg fun hindex => hp ?_))
      exact congrArg MethodRef.mk hindex
    · rw [hmade] at hentered
      exact hentered.of_newMethod.finds hA s.classes

/-- **A diamond**: a class extends another one, and both include one module, in
which there is a method. There is one object of the class below. -/
def diamond : Interpreter where
  objects := .empty
  globals := .empty
  symbols := .empty
  heap :=
    { arrays := #[]
      objects := #[⟨⟨2⟩, none, .empty⟩]
      classes := #[⟨"Runner", none, [], Bindings.empty.set "run" ⟨0⟩, .empty, none⟩,
        ⟨"Base", none, [⟨0⟩], .empty, .empty, none⟩,
        ⟨"Derived", some ⟨1⟩, [⟨0⟩], .empty, .empty, none⟩]
      methods := #[⟨"run", .everyone, .doNothing⟩, ⟨"run", .everyone, .doNothing⟩]
      nextId := 0 }
  classes := ⟨.empty, ⟨1⟩, ⟨1⟩⟩
  stack := .empty
  unitName := "main.rb"
  main := .object ⟨0⟩
  printed := ""

/-- The module stands before the class above, so that its method is found and not
one that is entered into that class. -/
theorem module_hides_base :
    let found (q : TableRef) :=
      (diamond.heap.enter q ⟨1⟩).method? diamond.classes diamond.main "run"
    found (.ofInstances ⟨1⟩) = some ⟨0⟩ ∧ found (.ofInstances ⟨2⟩) = some ⟨1⟩ := by
  intro found
  have hA : diamond.heap.Acyclic := Heap.acyclic_of_lt (by decide)
  have hmodule : diamond.heap.searchOrder hA ⟨0⟩ = [⟨0⟩] := Heap.searchOrder_eq hA ⟨0⟩
  have hbase : diamond.heap.searchOrder hA ⟨1⟩ = [⟨1⟩, ⟨0⟩] := by
    refine (Heap.searchOrder_eq hA ⟨1⟩).trans (congrArg _ ?_)
    change [⟨0⟩].flatMap (diamond.heap.searchOrder hA) ++ [] = _
    rw [List.flatMap_singleton, hmodule]
    rfl
  have hderived : diamond.heap.searchOrder hA ⟨2⟩ = [⟨2⟩, ⟨0⟩, ⟨1⟩, ⟨0⟩] := by
    refine (Heap.searchOrder_eq hA ⟨2⟩).trans (congrArg _ ?_)
    change [⟨0⟩].flatMap (diamond.heap.searchOrder hA) ++ diamond.heap.searchOrder hA ⟨1⟩ = _
    rw [List.flatMap_singleton, hmodule, hbase]
    rfl
  have horder : diamond.heap.tables hA diamond.classes diamond.main
      = .ofObject ⟨0⟩ :: [⟨2⟩, ⟨0⟩, ⟨1⟩, ⟨0⟩].map .ofInstances :=
    congrArg (fun order => TableRef.ofObject ⟨0⟩ :: List.map TableRef.ofInstances order) hderived
  obtain ⟨-, hentered, -⟩ := methods_are_found_in_one_order diamond hA
  refine ⟨?_, ?_⟩
  · refine (hentered (.ofInstances ⟨1⟩) ⟨1⟩ (by decide) diamond.main "run").trans ?_
    rw [horder]
    decide
  · refine (hentered (.ofInstances ⟨2⟩) ⟨1⟩ (by decide) diamond.main "run").trans ?_
    rw [horder]
    decide

end Interpreter

end Garnet
