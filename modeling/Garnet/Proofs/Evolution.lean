import Garnet.Proofs.Tables

/-!
# What becomes of classes, objects and methods

In the course of an evaluation a heap **evolves** (`Heap.Evolves`). No class is
made, and nothing of a class changes but the table of methods for its
instances; an object keeps its class; a method stays what it is. What tables
of methods gain are private methods that do nothing, under names out of a set
that the evaluation determines. New objects are made of classes that make
objects, and have no methods at first.

A heap evolves with every effect, and with the definition of a method; what it
does over a longer time is a matter of transitivity.
-/

namespace Garnet

open Interpreter

/-- **What stays of a class**: everything but the methods of its instances. -/
def Class.fixedPart (c : Class) : Class :=
  { c with methods := .empty }

namespace Heap

/-- **A table of methods that has gained entries** as a heap `k` became `h`:
under some of the names in `N` stand methods that were made in the meantime and
do nothing. Every other entry is as it was. -/
def Gains (N : String → Prop) (k h : Heap) (before after : MethodTable) : Prop :=
  ∀ name, after.find? name = before.find? name ∨
    N name ∧ ∃ m, after.find? name = some m ∧ k.methods.size ≤ m.index ∧
      m.index < h.methods.size ∧ h.method m = ⟨name, .implicitReceiver, .doNothing⟩

/-- **A heap that has evolved from another one**, with methods defined under
names in `N`. -/
structure Evolves (N : String → Prop) (k h : Heap) : Prop where
  /-- There are the same classes. -/
  classCount : h.classes.size = k.classes.size
  /-- A class is what it was, apart from the methods of its instances. -/
  fixedPart : ∀ r, (h.classAt r).fixedPart = (k.classAt r).fixedPart
  /-- These are the ones that there were, and defined ones. -/
  instanceMethods : ∀ r, Gains N k h (k.classAt r).methods (h.classAt r).methods
  /-- No object has gone. -/
  objectCount : k.objects.size ≤ h.objects.size
  /-- An object has the class and the string form that it had. -/
  objects : ∀ r : ObjectRef, r.index < k.objects.size →
    (h.object r).classRef = (k.object r).classRef ∧ (h.object r).label = (k.object r).label
  /-- An object that was made is of a class that makes such objects. -/
  newObjects : ∀ r : ObjectRef, k.objects.size ≤ r.index → r.index < h.objects.size →
    (k.classAt (h.object r).classRef).factory = some (.object (h.object r).label)
  /-- The methods of an object are the ones that there were, and defined ones. -/
  objectMethods : ∀ r, Gains N k h (k.object r).methods (h.object r).methods
  /-- No method has gone. -/
  methodCount : k.methods.size ≤ h.methods.size
  /-- A method is what it was. -/
  methods : ∀ m : MethodRef, m.index < k.methods.size → h.method m = k.method m
  /-- A method that was made does nothing. -/
  newMethods : ∀ m : MethodRef, k.methods.size ≤ m.index → (h.method m).body = .doNothing

variable {N M : String → Prop} {k h j : Heap}

/-! ## Tables -/

theorem Gains.refl (N : String → Prop) (k h : Heap) (table : MethodTable) :
    Gains N k h table table :=
  fun _ => Or.inl rfl

theorem Gains.mono {before after : MethodTable} (hNM : ∀ name, N name → M name)
    (hg : Gains N k h before after) : Gains M k h before after :=
  fun name => (hg name).imp_right fun hnew => ⟨hNM name hnew.1, hnew.2⟩

/-- What was gained stays, unless it is replaced. -/
theorem Gains.trans {a b c : MethodTable} (hg : Gains N k h a b) (hg' : Gains N h j b c)
    (hkh : k.methods.size ≤ h.methods.size) (hhj : h.methods.size ≤ j.methods.size)
    (hkept : ∀ m : MethodRef, m.index < h.methods.size → j.method m = h.method m) :
    Gains N k j a c := by
  intro name
  obtain hsame | ⟨hN, m, hm, hle, hlt, hmethod⟩ := hg' name
  · obtain hfirst | ⟨hN, m, hm, hle, hlt, hmethod⟩ := hg name
    · exact Or.inl (hsame.trans hfirst)
    · refine Or.inr ⟨hN, m, hsame.trans hm, hle, Nat.lt_of_lt_of_le hlt hhj, ?_⟩
      rw [hkept m hlt]
      exact hmethod
  · exact Or.inr ⟨hN, m, hm, Nat.le_trans hkh hle, hlt, hmethod⟩

/-- **An entry that leads to an old method** was there before. -/
theorem Gains.find?_of_old {before after : MethodTable} (hg : Gains N k h before after)
    {name : String} {m : MethodRef} (hm : after.find? name = some m)
    (hold : m.index < k.methods.size) : before.find? name = some m := by
  obtain hsame | ⟨_, m', hm', hle, _, _⟩ := hg name
  · rw [← hsame]
    exact hm
  · rw [hm] at hm'
    cases hm'
    exact absurd hold (Nat.not_lt_of_le hle)

/-- What stands outside the row of methods does nothing. -/
theorem body_of_le {m : MethodRef} (hm : h.methods.size ≤ m.index) :
    (h.method m).body = .doNothing := by
  unfold method
  rw [Array.getElem?_eq_none hm]
  rfl

namespace Evolves

/-! ## Evolving step by step -/

/-- The classes, objects and methods stay where nothing happens to them. -/
theorem of_eq (hc : h.classes = k.classes) (ho : h.objects = k.objects)
    (hm : h.methods = k.methods) : Evolves N k h := by
  have hclass (r : ClassRef) : h.classAt r = k.classAt r := by
    unfold classAt
    rw [hc]
  have hobject (r : ObjectRef) : h.object r = k.object r := by
    unfold object
    rw [ho]
  refine ⟨congrArg Array.size hc, fun r => congrArg _ (hclass r), fun r => ?_,
    Nat.le_of_eq (congrArg Array.size ho.symm), fun r _ => ?_, fun r hle hlt => ?_, fun r => ?_,
    Nat.le_of_eq (congrArg Array.size hm.symm), fun m _ => ?_, fun m hle => ?_⟩
  · exact hclass r ▸ Gains.refl N k h _
  · exact hobject r ▸ ⟨rfl, rfl⟩
  · rw [ho] at hlt
    exact absurd hlt (Nat.not_lt_of_le hle)
  · exact hobject r ▸ Gains.refl N k h _
  · unfold method
    rw [hm]
  · rw [← hm] at hle
    exact body_of_le hle

theorem refl (N : String → Prop) (k : Heap) : Evolves N k k :=
  of_eq rfl rfl rfl

theorem mono (hNM : ∀ name, N name → M name) (hkh : Evolves N k h) : Evolves M k h :=
  { hkh with
    instanceMethods := fun r => (hkh.instanceMethods r).mono hNM
    objectMethods := fun r => (hkh.objectMethods r).mono hNM }

theorem factory (hkh : Evolves N k h) (r : ClassRef) :
    (h.classAt r).factory = (k.classAt r).factory := by
  have hfixed := congrArg Class.factory (hkh.fixedPart r)
  exact hfixed

theorem superclass (hkh : Evolves N k h) (r : ClassRef) :
    (h.classAt r).superclass = (k.classAt r).superclass := by
  have hfixed := congrArg Class.superclass (hkh.fixedPart r)
  exact hfixed

theorem includes (hkh : Evolves N k h) (r : ClassRef) :
    (h.classAt r).includes = (k.classAt r).includes := by
  have hfixed := congrArg Class.includes (hkh.fixedPart r)
  exact hfixed

theorem classMethods (hkh : Evolves N k h) (r : ClassRef) :
    (h.classAt r).classMethods = (k.classAt r).classMethods := by
  have hfixed := congrArg Class.classMethods (hkh.fixedPart r)
  exact hfixed

/-- **One evolution after another.** -/
theorem trans (hkh : Evolves N k h) (hhj : Evolves N h j) : Evolves N k j where
  classCount := hhj.classCount.trans hkh.classCount
  fixedPart r := (hhj.fixedPart r).trans (hkh.fixedPart r)
  instanceMethods r := (hkh.instanceMethods r).trans (hhj.instanceMethods r)
    hkh.methodCount hhj.methodCount hhj.methods
  objectCount := Nat.le_trans hkh.objectCount hhj.objectCount
  objects r hr := by
    obtain ⟨hclass, hlabel⟩ := hhj.objects r (Nat.lt_of_lt_of_le hr hkh.objectCount)
    exact ⟨hclass.trans (hkh.objects r hr).1, hlabel.trans (hkh.objects r hr).2⟩
  newObjects r hle hlt := by
    obtain hr | hr := Nat.lt_or_ge r.index h.objects.size
    -- made in the first part, or in the second one
    · obtain ⟨hclass, hlabel⟩ := hhj.objects r hr
      rw [hclass, hlabel]
      exact hkh.newObjects r hle hr
    · rw [← hkh.factory]
      exact hhj.newObjects r hr hlt
  objectMethods r := (hkh.objectMethods r).trans (hhj.objectMethods r)
    hkh.methodCount hhj.methodCount hhj.methods
  methodCount := Nat.le_trans hkh.methodCount hhj.methodCount
  methods m hm :=
    (hhj.methods m (Nat.lt_of_lt_of_le hm hkh.methodCount)).trans (hkh.methods m hm)
  newMethods m hle := by
    obtain hm | hm := Nat.lt_or_ge m.index h.methods.size
    · rw [hhj.methods m hm]
      exact hkh.newMethods m hle
    · exact hhj.newMethods m hm

/-- **A method that does something** is an old one. -/
theorem old_of_body (hkh : Evolves N k h) {m : MethodRef} (hm : (h.method m).body ≠ .doNothing) :
    m.index < k.methods.size :=
  Nat.lt_of_not_le fun hle => hm (hkh.newMethods m hle)

/-- **A new object**, of a class that makes such objects. -/
theorem newObject {r : ClassRef} {label : Option String}
    (made : (k.classAt r).factory = some (.object label)) :
    Evolves N k (k.newObject ⟨r, label, .empty⟩).2 := by
  have hsize : (k.newObject ⟨r, label, .empty⟩).2.objects.size = k.objects.size + 1 :=
    Array.size_push _
  refine { refl N k with
    objectCount := by omega
    objects := fun q hq => ?_
    newObjects := fun q hle hlt => ?_
    objectMethods := fun q => ?_ }
  · rw [object_newObject, if_neg (Nat.ne_of_lt hq)]
    exact ⟨rfl, rfl⟩
  · rw [object_newObject, if_pos (by omega)]
    exact made
  · rw [object_newObject]
    split
    -- outside the row of objects there were no methods either
    · next hq =>
      have hnone : k.objects[q.index]? = none := Array.getElem?_eq_none (Nat.le_of_eq hq.symm)
      have hempty : k.object q = ⟨⟨0⟩, none, .empty⟩ := by
        unfold object
        rw [hnone]
        rfl
      rw [hempty]
      exact Gains.refl N k _ _
    · exact Gains.refl N k _ _

/-- **Every effect lets a heap evolve.** -/
theorem of_effect {s t : Interpreter} (hst : Effect s t) : Evolves N s.heap t.heap := by
  cases hst with
  | fresh => exact of_eq rfl rfl rfl
  | interned => exact of_eq rfl rfl rfl
  | newArray => exact of_eq rfl rfl rfl
  | newObject r label made => exact newObject made
  | extended => exact of_eq rfl rfl rfl
  | printed => exact of_eq rfl rfl rfl

/-! ## The definition of a method -/

/-- Entering a method that was just made into a table. -/
theorem gains_set {name : String} (hN : N name) {r : MethodRef}
    (hnew : k.newMethod ⟨name, .implicitReceiver, .doNothing⟩ = (r, h)) {later : Heap}
    (hlater : later.methods = h.methods) (table : MethodTable) :
    Gains N k later table (table.set name r) := by
  cases hnew
  intro other
  rw [Bindings.find?_set]
  split
  · next hother =>
    subst hother
    refine Or.inr ⟨hN, _, rfl, Nat.le_refl _, ?_, ?_⟩
    · rw [hlater]
      exact Nat.lt_of_lt_of_eq (Nat.lt_succ_self _) (Array.size_push _).symm
    · unfold method
      rw [hlater]
      simp
  · exact Or.inl rfl

/-- A method that was just made has its name. -/
theorem name_newMethod {m : Method} {r : MethodRef} (hnew : k.newMethod m = (r, h)) :
    h.method r = m := by
  have hr : (k.newMethod m).1 = r := congrArg Prod.fst hnew
  have hh : (k.newMethod m).2 = h := congrArg Prod.snd hnew
  rw [← hh, ← hr, method_newMethod]
  exact if_pos rfl

/-- The methods that there were are what they were. -/
theorem method_of_newMethod {m : Method} {r : MethodRef} (hnew : k.newMethod m = (r, h))
    {q : MethodRef} (hq : q.index < k.methods.size) : h.method q = k.method q := by
  have hh : (k.newMethod m).2 = h := congrArg Prod.snd hnew
  rw [← hh, method_newMethod, if_neg (Nat.ne_of_lt hq)]

section Definitions

variable {name : String} {r : MethodRef}

/-- A method that no table refers to yet. -/
theorem newMethod (hnew : k.newMethod ⟨name, .implicitReceiver, .doNothing⟩ = (r, h)) :
    Evolves N k h := by
  have hmethods (q : MethodRef) (hq : q.index < k.methods.size) : h.method q = k.method q :=
    method_of_newMethod hnew hq
  have hsize : h.methods.size = k.methods.size + 1 := by
    cases hnew
    exact Array.size_push _
  have hnewMethods (q : MethodRef) (hq : k.methods.size ≤ q.index) :
      (h.method q).body = .doNothing := by
    obtain hlt | heq := Nat.lt_or_eq_of_le hq
    · exact body_of_le (by omega)
    · have hr : r.index = k.methods.size := by
        cases hnew
        rfl
      obtain ⟨i⟩ := q
      obtain ⟨j⟩ := r
      obtain rfl : i = j := heq.symm.trans hr.symm
      rw [name_newMethod hnew]
  cases hnew
  exact { refl N k with
    instanceMethods := fun q => Gains.refl N k _ _
    objectMethods := fun q => Gains.refl N k _ _
    methodCount := Nat.le_trans (Nat.le_succ _) (Nat.le_of_eq hsize.symm)
    methods := hmethods
    newMethods := hnewMethods }

/-- **A method that is defined in a class.** -/
theorem defineMethod (hN : N name)
    (hnew : k.newMethod ⟨name, .implicitReceiver, .doNothing⟩ = (r, h)) (c : ClassRef) :
    Evolves N k (h.defineMethod c r) := by
  have hmade : Evolves N k h := newMethod hnew
  have hclasses : h.classes = k.classes := by
    cases hnew
    rfl
  have hclass (q : ClassRef) : h.classAt q = k.classAt q := by
    unfold classAt
    rw [hclasses]
  refine { hmade with
    classCount := ?_
    fixedPart := fun q => ?_
    instanceMethods := fun q => ?_ }
  · exact Array.size_setIfInBounds.trans (congrArg Array.size hclasses)
  · rw [classAt_defineMethod Class.fixedPart fun _ _ => rfl, hclass]
  · unfold Heap.defineMethod
    rw [classAt_setClass, name_newMethod hnew]
    split
    · next hq =>
      rw [hq.1, hclass]
      exact gains_set hN hnew rfl _
    · exact (hclass q).symm ▸ Gains.refl N k _ _

/-- **A method that is defined in an object.** -/
theorem defineObjectMethod (hN : N name)
    (hnew : k.newMethod ⟨name, .implicitReceiver, .doNothing⟩ = (r, h)) (o : ObjectRef) :
    Evolves N k (h.defineObjectMethod o r) := by
  have hmade : Evolves N k h := newMethod hnew
  have hobjects : h.objects = k.objects := by
    cases hnew
    rfl
  have hobject (q : ObjectRef) : h.object q = k.object q := by
    unfold object
    rw [hobjects]
  have hsize : (h.defineObjectMethod o r).objects.size = k.objects.size :=
    Array.size_setIfInBounds.trans (congrArg Array.size hobjects)
  refine { hmade with
    objectCount := Nat.le_of_eq hsize.symm
    objects := fun q hq => ?_
    newObjects := fun q hle hlt => absurd (hsize ▸ hlt) (Nat.not_lt_of_le hle)
    objectMethods := fun q => ?_ }
  · unfold Heap.defineObjectMethod
    rw [object_setObject]
    split
    · next hqo =>
      rw [hqo.1, hobject]
      exact ⟨rfl, rfl⟩
    · rw [hobject]
      exact ⟨rfl, rfl⟩
  · unfold Heap.defineObjectMethod
    rw [object_setObject, name_newMethod hnew]
    split
    · next hqo =>
      rw [hqo.1, hobject]
      exact gains_set hN hnew rfl _
    · exact (hobject q).symm ▸ Gains.refl N k _ _

end Definitions

/-- **What a method definition does to a heap.** -/
theorem define {name : String} (hN : N name) (s : Interpreter) :
    Evolves N s.heap (Outcome.state (define name s)).heap := by
  obtain ⟨e, he⟩ | ⟨r, h, hnew, ⟨c, hc⟩ | ⟨o, ho⟩⟩ := define_cases name s
  · rw [he]
    exact refl N s.heap
  · rw [hc]
    exact defineMethod hN hnew c
  · rw [ho]
    exact defineObjectMethod hN hnew o

/-- **Evolution from a heap is an invariant.** -/
theorem invariant (k : Heap) : Invariant (Evolves (fun _ => True) k) where
  arrays _ _ hk := hk.trans (of_eq rfl rfl rfl)
  object _ _ made hk := hk.trans (newObject made)
  classMethod c hk hnew := hk.trans (defineMethod trivial hnew c)
  objectMethod o hk hnew := hk.trans (defineObjectMethod trivial hnew o)

end Evolves

end Heap

end Garnet
