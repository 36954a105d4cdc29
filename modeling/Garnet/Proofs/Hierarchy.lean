import Garnet.Proofs.Invariants

/-!
# The hierarchy of classes

The search for a method goes from a class to the modules it includes and to
the class it extends, and from there on in the same way. The definition of the
search bounds its depth by the number of classes. This module shows that the
bound is never what ends it: at the start every class stands after those it
refers to (`Heap.Ranked`), and nothing that programs do makes a class, or
changes what a class extends or includes. So the search comes to an end by
itself wherever an evaluation comes to, and any greater bound gives the same
result.
-/

namespace Garnet

open Interpreter

namespace Heap

/-- **A hierarchy in which every class stands after those it refers to.** -/
structure Ranked (h : Heap) : Prop where
  /-- There are classes. -/
  pos : 0 < h.classes.size
  /-- What a class extends stands before it. -/
  superclass : ∀ r : ClassRef, ∀ q ∈ (h.classAt r).superclass, q.index < r.index
  /-- What a class includes stands before it. -/
  includes : ∀ r : ClassRef, ∀ q ∈ (h.classAt r).includes, q.index < r.index

variable {h : Heap}

/-! ## The bound of a search -/

/-- Outside the row of classes there is nothing to search. -/
theorem classAt_of_le {r : ClassRef} (hr : h.classes.size ≤ r.index) :
    h.classAt r = ⟨"", none, [], .empty, .empty, none⟩ := by
  unfold classAt
  rw [Array.getElem?_eq_none hr]
  rfl

/-- **What is true of the classes in the row**, and of a class with nothing in it, is
true of whatever a reference leads to. -/
theorem forall_classAt (p : ClassRef → Class → Prop)
    (hall : ∀ i < h.classes.size, p ⟨i⟩ (h.classAt ⟨i⟩))
    (hnone : ∀ r, p r ⟨"", none, [], .empty, .empty, none⟩) (r : ClassRef) :
    p r (h.classAt r) := by
  obtain hr | hr := Nat.lt_or_ge r.index h.classes.size
  · exact hall r.index hr
  · rw [classAt_of_le hr]
    exact hnone r

theorem instanceMethodWithin_of_le {r : ClassRef} (hr : h.classes.size ≤ r.index) (name : String)
    (room : Nat) : h.instanceMethodWithin name room r = none := by
  cases room with
  | zero => rfl
  | succ room =>
    unfold instanceMethodWithin
    rw [classAt_of_le hr]
    rfl

theorem lineageWithin_of_le {r : ClassRef} (hr : h.classes.size ≤ r.index) {room : Nat}
    (hroom : 0 < room) : h.lineageWithin room r = [r] := by
  cases room with
  | zero => exact absurd hroom (Nat.lt_irrefl 0)
  | succ room =>
    unfold lineageWithin
    rw [classAt_of_le hr]

/-- Two searches that agree on the members of a list find the same in it. -/
theorem findSome?_congr {α β : Type} {f g : α → Option β} {as : List α}
    (hfg : ∀ a ∈ as, f a = g a) : as.findSome? f = as.findSome? g := by
  induction as with
  | nil => rfl
  | cons a as ih =>
    rw [List.findSome?_cons, List.findSome?_cons, hfg a List.mem_cons_self,
      ih fun b hb => hfg b (List.mem_cons_of_mem a hb)]

/-- **Two bounds that are greater than the place of a class** give the same
search, because it only goes to earlier places. -/
theorem Ranked.instanceMethodWithin (hR : h.Ranked) (name : String) {m n : Nat} {r : ClassRef}
    (hm : r.index < m) (hn : r.index < n) :
    h.instanceMethodWithin name m r = h.instanceMethodWithin name n r := by
  induction m generalizing n r with
  | zero => exact absurd hm (Nat.not_lt_zero _)
  | succ m ih =>
    cases n with
    | zero => exact absurd hn (Nat.not_lt_zero _)
    | succ n =>
      have hbelow {q : ClassRef} (hq : q.index < r.index) :
          h.instanceMethodWithin name m q = h.instanceMethodWithin name n q :=
        ih (by omega) (by omega)
      have hincludes : (h.classAt r).includes.findSome? (h.instanceMethodWithin name m)
          = (h.classAt r).includes.findSome? (h.instanceMethodWithin name n) :=
        findSome?_congr fun q hq => hbelow (hR.includes r q hq)
      have hsuperclass : (h.classAt r).superclass.bind (h.instanceMethodWithin name m)
          = (h.classAt r).superclass.bind (h.instanceMethodWithin name n) :=
        Option.bind_congr fun q hq => hbelow (hR.superclass r q hq)
      rw [Heap.instanceMethodWithin, Heap.instanceMethodWithin, hincludes, hsuperclass]

/-- The same for the line of classes above a class. -/
theorem Ranked.lineageWithin (hR : h.Ranked) {m n : Nat} {r : ClassRef}
    (hm : r.index < m) (hn : r.index < n) : h.lineageWithin m r = h.lineageWithin n r := by
  induction m generalizing n r with
  | zero => exact absurd hm (Nat.not_lt_zero _)
  | succ m ih =>
    cases n with
    | zero => exact absurd hn (Nat.not_lt_zero _)
    | succ n =>
      rw [Heap.lineageWithin, Heap.lineageWithin]
      cases hs : (h.classAt r).superclass with
      | none => rfl
      | some q =>
        have hq : q.index < r.index := hR.superclass r q hs
        exact congrArg (r :: ·) (ih (by omega) (by omega))

/-- **The search for a method ends by itself.** -/
theorem Ranked.instanceMethod? (hR : h.Ranked) {room : Nat} (hroom : h.classes.size ≤ room)
    (r : ClassRef) (name : String) :
    h.instanceMethodWithin name room r = h.instanceMethod? r name := by
  obtain hr | hr := Nat.lt_or_ge r.index h.classes.size
  · exact hR.instanceMethodWithin name (Nat.lt_of_lt_of_le hr hroom) hr
  · rw [Heap.instanceMethod?, instanceMethodWithin_of_le hr, instanceMethodWithin_of_le hr]

/-- **The line of classes above a class ends by itself.** -/
theorem Ranked.lineage (hR : h.Ranked) {room : Nat} (hroom : h.classes.size ≤ room)
    (r : ClassRef) : h.lineageWithin room r = h.lineage r := by
  obtain hr | hr := Nat.lt_or_ge r.index h.classes.size
  · exact hR.lineageWithin (Nat.lt_of_lt_of_le hr hroom) hr
  · have hpos := Nat.lt_of_lt_of_le hR.pos hroom
    rw [Heap.lineage, lineageWithin_of_le hr hR.pos, lineageWithin_of_le hr hpos]

/-! ## Nothing changes the hierarchy -/

/-- A class after some class was changed. -/
theorem classAt_setClass (h : Heap) (c r : ClassRef) (d : Class) :
    (h.setClass c d).classAt r
      = if r = c ∧ c.index < h.classes.size then d else h.classAt r := by
  unfold setClass classAt
  simp only [getD_setIfInBounds, ClassRef.ext_iff]

/-- A method that is defined in a class changes nothing of a class but its
methods. -/
theorem classAt_defineMethod {α : Type} (f : Class → α)
    (hf : ∀ (d : Class) methods, f { d with methods := methods } = f d) (h : Heap)
    (c r : ClassRef) (m : MethodRef) :
    f ((h.defineMethod c m).classAt r) = f (h.classAt r) := by
  unfold defineMethod
  rw [classAt_setClass]
  split
  · next hrc => rw [hf, hrc.1]
  · rfl

/-- The hierarchy is a matter of the classes. -/
theorem Ranked.of_classes_eq {k : Heap} (hR : h.Ranked) (hk : k.classes = h.classes) :
    k.Ranked := by
  have hat (r : ClassRef) : k.classAt r = h.classAt r := by
    unfold classAt
    rw [hk]
  refine ⟨hk ▸ hR.pos, fun r => ?_, fun r => ?_⟩
  · rw [hat]
    exact hR.superclass r
  · rw [hat]
    exact hR.includes r

/-- **No evaluation changes the hierarchy.** -/
theorem Ranked.invariant : Invariant Ranked where
  arrays _ _ hR := hR.of_classes_eq rfl
  object _ _ _ hR := hR.of_classes_eq rfl
  classMethod c hR hnew := by
    cases hnew
    refine ⟨?_, fun r => ?_, fun r => ?_⟩
    · exact Nat.lt_of_lt_of_eq hR.pos Array.size_setIfInBounds.symm
    · rw [classAt_defineMethod Class.superclass fun _ _ => rfl]
      exact hR.superclass r
    · rw [classAt_defineMethod Class.includes fun _ _ => rfl]
      exact hR.includes r
  objectMethod o hR hnew := by
    cases hnew
    exact hR.of_classes_eq rfl

/-- **In a new interpreter** every class stands after those it refers to. -/
theorem Ranked.start (programName : String) (loadPath argv : List String) :
    (start programName loadPath argv).heap.Ranked := by
  let k := (Startup.mainObject Startup.classes.1 Startup.classes.2).2
  have hall : ∀ i < k.classes.size, (∀ q ∈ (k.classAt ⟨i⟩).superclass, q.index < i) ∧
      ∀ q ∈ (k.classAt ⟨i⟩).includes, q.index < i := by
    decide +kernel
  have hat := k.forall_classAt (fun r c => (∀ q ∈ c.superclass, q.index < r.index) ∧
    ∀ q ∈ c.includes, q.index < r.index) hall
    -- outside the row of classes nothing refers to anything
    fun _ => ⟨fun _ hq => absurd hq (Option.not_mem_none _), fun _ hq => absurd hq List.not_mem_nil⟩
  exact Ranked.invariant.start
    ⟨by decide +kernel, fun r => (hat r).1, fun r => (hat r).2⟩ programName loadPath argv

end Heap

end Garnet
