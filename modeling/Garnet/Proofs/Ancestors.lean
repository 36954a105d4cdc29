import Mathlib.Logic.Relation
import Garnet.Proofs.Hosting

/-!
# The ancestors of a class

To tell the ancestors of a class is to walk up the classes that it extends, and
to name after each of them the modules that it includes. A search goes the same
way, and further: after a module it looks at what the module itself includes and
extends. Classes of this kind lie **beyond** the ancestors (`Heap.IsBeyond`). No
program makes any, because in the hierarchy of a new interpreter every module
stands alone (`Heap.Flat`), but a host can.

As long as no class beyond the ancestors has a method of some name, what a search
for this name finds is what the first ancestor has that has it at all.
-/

namespace Garnet

open Interpreter

namespace Heap

variable {h k : Heap} {q r : ClassRef}

/-- **Whether a class lies beyond the ancestors of another one**: it is above a
module which that one or a class above it includes. -/
def IsBeyond (h : Heap) (q r : ClassRef) : Prop :=
  ∃ c ∈ h.lineage r, ∃ m ∈ (h.classAt c).includes, Relation.TransGen h.IsAbove q m

/-- What a class defines under a name for its instances. -/
def ownMethod? (h : Heap) (name : String) (c : ClassRef) : Option MethodRef :=
  (h.classAt c).methods.find? name

/-! ## What a search order consists of -/

theorem searchOrder_eq_cons (hA : h.Acyclic) (r : ClassRef) :
    h.searchOrder hA r = r :: (h.searchOrder hA r).tail := by
  rw [searchOrder_eq, List.tail_cons]

/-- After a class there follow the search orders of the classes directly above
it. -/
theorem mem_tail_searchOrder (hA : h.Acyclic) :
    q ∈ (h.searchOrder hA r).tail ↔ ∃ c, h.IsAbove c r ∧ q ∈ h.searchOrder hA c := by
  rw [searchOrder_eq, List.tail_cons, List.mem_append, List.mem_flatMap]
  constructor
  · rintro (⟨c, hc, hq⟩ | hq)
    · exact ⟨c, Or.inl hc, hq⟩
    · cases hs : (h.classAt r).superclass with
      | none =>
        rw [hs] at hq
        cases hq
      | some c =>
        rw [hs] at hq
        exact ⟨c, Or.inr hs, hq⟩
  · rintro ⟨c, hc | hs, hq⟩
    · exact Or.inl ⟨c, hc, hq⟩
    · rw [hs]
      exact Or.inr hq

/-- **The search order of a class** is that class and all that is above it. -/
theorem mem_searchOrder (hA : h.Acyclic) :
    q ∈ h.searchOrder hA r ↔ Relation.ReflTransGen h.IsAbove q r := by
  induction r using Heap.searchOrder.induct h hA with
  | case1 r hincludes hsuper =>
    have habove {c : ClassRef} (hc : h.IsAbove c r) :
        q ∈ h.searchOrder hA c ↔ Relation.ReflTransGen h.IsAbove q c :=
      hc.elim (fun hmem => hincludes ⟨c, hmem⟩) (hsuper c)
    rw [searchOrder_eq_cons, List.mem_cons, mem_tail_searchOrder,
      Relation.ReflTransGen.cases_tail_iff, eq_comm (a := r)]
    exact or_congr_right (exists_congr fun c => and_comm.trans (and_congr_left habove))

/-- What comes after a class in its search order is above it. -/
theorem isAbove_of_mem_tail (hA : h.Acyclic) (hq : q ∈ (h.searchOrder hA r).tail) :
    Relation.TransGen h.IsAbove q r := by
  obtain ⟨c, hc, hq⟩ := (mem_tail_searchOrder hA).mp hq
  exact .tail' ((mem_searchOrder hA).mp hq) hc

/-- **The search order goes up one class after the other**: it consists of these
classes, each followed by the search orders of the modules it includes. -/
theorem searchOrder_eq_flatMap (hA : h.Acyclic) (r : ClassRef) :
    h.searchOrder hA r = (h.superclasses hA r).flatMap fun c =>
      c :: (h.classAt c).includes.flatMap (h.searchOrder hA) := by
  induction r using Heap.superclasses.induct h hA with
  | case1 r hsuper =>
    rw [searchOrder_eq, superclasses_eq, List.flatMap_cons, List.cons_append]
    cases hs : (h.classAt r).superclass with
    | none => rfl
    | some q => exact congrArg (fun above => r :: (_ ++ above)) (hsuper q hs)

/-- The classes on the walk up are above the one where it starts. -/
theorem above_of_mem_lineageWithin {c : ClassRef} {room : Nat}
    (hc : c ∈ h.lineageWithin room r) : Relation.ReflTransGen h.IsAbove c r := by
  induction room generalizing r with
  | zero => cases hc
  | succ room ih =>
    rw [lineageWithin] at hc
    obtain rfl | hc := List.mem_cons.mp hc
    · exact .refl
    · cases hs : (h.classAt r).superclass with
      | none =>
        rw [hs] at hc
        cases hc
      | some q =>
        rw [hs] at hc
        exact (ih hc).tail (Or.inr hs)

/-- **The ancestors are searched**, and the classes beyond them as well. -/
theorem mem_searchOrder_of_ancestor (hA : h.Acyclic) (hq : q ∈ h.ancestors r ∨ h.IsBeyond q r) :
    q ∈ h.searchOrder hA r := by
  rw [mem_searchOrder]
  obtain hq | ⟨c, hc, m, hm, hq⟩ := hq
  · obtain ⟨c, hc, hq⟩ := List.mem_flatMap.mp hq
    have hcr := above_of_mem_lineageWithin hc
    obtain rfl | hq := List.mem_cons.mp hq
    · exact hcr
    · exact .head (Or.inl hq) hcr
  · exact hq.to_reflTransGen.trans (.head (Or.inl hm) (above_of_mem_lineageWithin hc))

/-! ## What a search finds -/

/-- **Two walks through a list** that find the same in each of its members, unless
the first one finds something of a kind there. -/
theorem findSome?_eq_or {α β : Type} {f g : α → Option β} {P : β → Prop} {as : List α}
    (hfg : ∀ a ∈ as, f a = g a ∨ ∃ b, f a = some b ∧ P b) :
    as.findSome? f = as.findSome? g ∨ ∃ b, as.findSome? f = some b ∧ P b := by
  induction as with
  | nil => exact Or.inl rfl
  | cons a as ih =>
    rw [List.findSome?_cons, List.findSome?_cons]
    obtain heq | ⟨b, hb, hP⟩ := hfg a List.mem_cons_self
    · rw [heq]
      cases g a with
      | some b => exact Or.inl rfl
      | none => exact ih fun c hc => hfg c (List.mem_cons_of_mem a hc)
    · rw [hb]
      exact Or.inr ⟨b, rfl, hP⟩

/-- **A search finds what the first ancestor has that has the name**, or else what
a class beyond the ancestors has. -/
theorem Acyclic.instanceMethod?_eq_or (hA : h.Acyclic) (r : ClassRef) (name : String) :
    h.instanceMethod? r name = (h.ancestors r).findSome? (h.ownMethod? name) ∨
      ∃ m, h.instanceMethod? r name = some m ∧
        ∃ q, h.IsBeyond q r ∧ h.ownMethod? name q = some m := by
  have hsearch : h.instanceMethod? r name = (h.lineage r).findSome? fun c =>
      (c :: (h.classAt c).includes.flatMap (h.searchOrder hA)).findSome? (h.ownMethod? name) := by
    rw [hA.instanceMethod?, searchOrder_eq_flatMap, findSome?_flatMap, hA.lineage]
    · rfl
    · intro c hc
      rw [List.findSome?_cons, ownMethod?, classAt_of_le hc]
      rfl
  rw [hsearch, ancestors, findSome?_flatMap]
  -- the two walks differ only after a module
  refine findSome?_eq_or fun c hc => ?_
  rw [List.findSome?_cons, List.findSome?_cons, findSome?_flatMap]
  cases h.ownMethod? name c with
  | some m => exact Or.inl rfl
  | none =>
    refine findSome?_eq_or fun q hq => ?_
    rw [searchOrder_eq_cons, List.findSome?_cons]
    cases h.ownMethod? name q with
    | some m => exact Or.inl rfl
    | none =>
      cases hm : (h.searchOrder hA q).tail.findSome? (h.ownMethod? name) with
      | none => exact Or.inl rfl
      | some m =>
        obtain ⟨p, hp, hfound⟩ := List.exists_of_findSome?_eq_some hm
        exact Or.inr ⟨m, rfl, p, ⟨c, hc, q, hq, isAbove_of_mem_tail hA hp⟩, hfound⟩

/-- **Nothing is found** exactly if neither an ancestor nor a class beyond has the
name. -/
theorem Acyclic.instanceMethod?_eq_none (hA : h.Acyclic) (r : ClassRef) (name : String) :
    h.instanceMethod? r name = none ↔ (∀ c ∈ h.ancestors r, h.ownMethod? name c = none) ∧
      ∀ q, h.IsBeyond q r → h.ownMethod? name q = none := by
  constructor
  · intro hnone
    rw [hA.instanceMethod?, List.findSome?_eq_none_iff] at hnone
    exact ⟨fun c hc => hnone c (mem_searchOrder_of_ancestor hA (Or.inl hc)),
      fun q hq => hnone q (mem_searchOrder_of_ancestor hA (Or.inr hq))⟩
  · rintro ⟨hancestors, hbeyond⟩
    obtain heq | ⟨m, -, q, hq, hm⟩ := hA.instanceMethod?_eq_or r name
    · rw [heq]
      exact List.findSome?_eq_none_iff.mpr hancestors
    · rw [hbeyond q hq] at hm
      cases hm

/-! ## Modules that stand alone -/

/-- Where all modules on the way up include and extend nothing, no class lies
beyond the ancestors. -/
theorem not_isBeyond (halone : ∀ c ∈ h.lineage r, ∀ m ∈ (h.classAt c).includes,
    (h.classAt m).includes = [] ∧ (h.classAt m).superclass = none) (q : ClassRef) :
    ¬h.IsBeyond q r := by
  rintro ⟨c, hc, m, hm, hq⟩
  obtain ⟨hincludes, hsuper⟩ := halone c hc m hm
  obtain ⟨p, -, hp | hp⟩ := Relation.TransGen.tail'_iff.mp hq
  · rw [hincludes] at hp
    cases hp
  · rw [hsuper] at hp
    cases hp

/-- **A hierarchy whose modules stand alone**: they include and extend nothing. -/
def Flat (h : Heap) : Prop :=
  ∀ r, ∀ m ∈ (h.classAt r).includes,
    (h.classAt m).includes = [] ∧ (h.classAt m).superclass = none

theorem Flat.not_isBeyond (hF : h.Flat) (q r : ClassRef) : ¬h.IsBeyond q r :=
  Heap.not_isBeyond (fun c _ => hF c) q

/-- It is a matter of what classes include and extend. -/
theorem Flat.congr (hF : h.Flat)
    (hincludes : ∀ r, (k.classAt r).includes = (h.classAt r).includes)
    (hsuper : ∀ r, (k.classAt r).superclass = (h.classAt r).superclass) : k.Flat := by
  intro r m hm
  rw [hincludes] at hm ⊢
  rw [hsuper]
  exact hF r m hm

/-- **No program makes a module include or extend anything.** -/
theorem Flat.invariant : Invariant Flat where
  arrays _ _ hF := hF.congr (fun _ => rfl) fun _ => rfl
  object _ _ _ hF := hF.congr (fun _ => rfl) fun _ => rfl
  classMethod c hF hnew := by
    cases hnew
    exact hF.congr (fun r => classAt_defineMethod Class.includes (fun _ _ => rfl) _ c r _)
      fun r => classAt_defineMethod Class.superclass (fun _ _ => rfl) _ c r _
  objectMethod o hF hnew := by
    cases hnew
    exact hF.congr (fun _ => rfl) fun _ => rfl

/-- **In a new interpreter** the modules stand alone. -/
theorem Flat.start (programName : String) (loadPath argv : List String) :
    (start programName loadPath argv).heap.Flat := by
  let k := (Startup.mainObject Startup.classes.1 Startup.classes.2).2
  have hall : ∀ i < k.classes.size, ∀ m ∈ (k.classAt ⟨i⟩).includes,
      (k.classAt m).includes = [] ∧ (k.classAt m).superclass = none := by
    decide +kernel
  have hat := k.forall_classAt (fun _ c => ∀ m ∈ c.includes,
    (k.classAt m).includes = [] ∧ (k.classAt m).superclass = none) hall
    fun _ m hm => absurd hm List.not_mem_nil
  exact Flat.invariant.start hat programName loadPath argv

end Heap

/-! ## What a class tells of its ancestors -/

/-- A new array has the elements that it was made with. -/
theorem Heap.elements_made (h : Heap) (vs : List Value) :
    (h.newArray vs).2.elements (h.newArray vs).1 = vs := by
  unfold newArray elements
  rw [Array.getElem?_push_size]
  rfl

/-- **Searches go through the ancestors of a class.** A class tells its ancestors as
an array. If no class is above itself, a search for the instances of a class
finds

* what the first of its ancestors has that has the name, and nothing exactly if
  none of them has it, as long as no class beyond them has it;
* whenever it is something else, what one of the classes beyond them has;
* nothing, exactly if neither an ancestor nor a class beyond them has the name.

Where all modules stand alone there are no classes beyond the ancestors, and
requests do not change that. -/
theorem searches_go_through_ancestors (s : Interpreter) (hA : s.heap.Acyclic) (r : ClassRef) :
    (∃ a t, ClassMethod.ancestors.call (.classValue r) [] s = .ok (.array a) t ∧
      t.heap.elements a = (s.heap.ancestors r).map .classValue) ∧
    (∀ name, (∀ q, s.heap.IsBeyond q r → s.heap.ownMethod? name q = none) →
      s.heap.instanceMethod? r name
        = (s.heap.ancestors r).findSome? (s.heap.ownMethod? name) ∧
      (s.heap.instanceMethod? r name = none ↔
        ∀ c ∈ s.heap.ancestors r, s.heap.ownMethod? name c = none)) ∧
    (∀ name,
      s.heap.instanceMethod? r name ≠ (s.heap.ancestors r).findSome? (s.heap.ownMethod? name) →
      ∃ q m, s.heap.IsBeyond q r ∧ s.heap.ownMethod? name q = some m ∧
        s.heap.instanceMethod? r name = some m) ∧
    (∀ name, s.heap.instanceMethod? r name = none ↔
      (∀ c ∈ s.heap.ancestors r, s.heap.ownMethod? name c = none) ∧
        ∀ q, s.heap.IsBeyond q r → s.heap.ownMethod? name q = none) ∧
    (s.heap.Flat → (∀ q, ¬s.heap.IsBeyond q r) ∧
      ∀ host depth (request : Request),
        (Outcome.state (request.eval host depth s)).heap.Flat) := by
  refine ⟨⟨_, _, rfl, s.heap.elements_made _⟩, fun name hbeyond => ?_, fun name hne => ?_,
    hA.instanceMethod?_eq_none r, fun hF => ⟨fun q => hF.not_isBeyond q r, ?_⟩⟩
  · have hnone := hA.instanceMethod?_eq_none r name
    refine ⟨?_, hnone.trans (and_iff_left hbeyond)⟩
    refine (hA.instanceMethod?_eq_or r name).resolve_right ?_
    rintro ⟨m, -, q, hq, hm⟩
    rw [hbeyond q hq] at hm
    cases hm
  · obtain ⟨m, hm, q, hq, hown⟩ := (hA.instanceMethod?_eq_or r name).resolve_left hne
    exact ⟨q, m, hq, hown, hm⟩
  · intro host depth request
    have hinvariant := Interpreter.Invariant.of_heap Heap.Flat.invariant
    exact (hinvariant.composes.request host depth request hF).1

/-- **A module in a module**: three more classes, of which each includes the one
before it, and the first one has a method. -/
def Heap.nested (h : Heap) : Heap :=
  let deep := h.newClass (.bare "Deep" none none)
  let dig := deep.2.newMethod ⟨"dig", .everyone, .doNothing⟩
  let mid := (dig.2.enter (.ofInstances deep.1) dig.1).newClass (.bare "Mid" none none)
  let leaf := (mid.2.includeModule mid.1 deep.1).newClass (.bare "Leaf" none none)
  leaf.2.includeModule leaf.1 mid.1

/-- A host can make such classes. -/
theorem Heap.edits_nested (h : Heap) : Relation.ReflTransGen Edit h h.nested := by
  have hroot {k : Heap} (name : String) : k.Edit (k.newClass (.bare name none none)).2 :=
    .newClass name none none fun _ hq => absurd hq (Option.not_mem_none _)
  refine .tail (.tail (.tail (.tail (.tail (.tail (.tail .refl (hroot "Deep")) (.newMethod _))
    (.enter _ _ (lt_size_newMethod _ _))) (hroot "Mid")) (.includeModule _ _ ?_))
    (hroot "Leaf")) (.includeModule _ _ ?_)
  · simp only [newClass, newMethod, enter, defineMethod, setClass, Array.size_push,
      Array.size_setIfInBounds]
    omega
  · simp only [newClass, newMethod, enter, defineMethod, includeModule, setClass, Array.size_push,
      Array.size_setIfInBounds]
    omega

/-- **The module in the middle is searched as its ancestors tell**: the method is
found in the module that it includes. -/
theorem middle_module_tells_what_is_searched :
    let s := start "main.rb" [] []
    let t := { s with heap := s.heap.nested }
    t.heap.Acyclic ∧
      (t.heap.ancestors ⟨25⟩).map (fun c => (t.heap.classAt c).name) = ["Mid", "Deep"] ∧
      t.heap.instanceMethod? ⟨25⟩ "dig"
        = (t.heap.ancestors ⟨25⟩).findSome? (t.heap.ownMethod? "dig") ∧
      (t.heap.instanceMethod? ⟨25⟩ "dig").isSome = true := by
  intro s t
  have hA : t.heap.Acyclic := Heap.acyclic_of_lt (by decide +kernel)
  have hbeyond := Heap.not_isBeyond (h := t.heap) (r := ⟨25⟩) (by decide +kernel)
  obtain ⟨-, hfound, -⟩ := searches_go_through_ancestors t hA ⟨25⟩
  exact ⟨hA, by decide +kernel, (hfound "dig" fun q hq => absurd hq (hbeyond q)).1,
    by decide +kernel⟩

/-- **A search can find what no ancestor has**: what the module in the middle
includes is searched for the class that includes the module, but is not among its
ancestors. -/
theorem inner_module_is_no_ancestor :
    ∃ s, Hosted s ∧ s.heap.Acyclic ∧ ∃ r name m, s.heap.instanceMethod? r name = some m ∧
      ∀ c ∈ s.heap.ancestors r, s.heap.ownMethod? name c = none := by
  let s := start "main.rb" [] []
  refine ⟨_, (Hosted.start "main.rb" [] []).edits s.heap.edits_nested, ?_, ⟨26⟩, "dig", ⟨57⟩,
    ?_, ?_⟩
  · exact Heap.acyclic_of_lt (by decide +kernel)
  · decide +kernel
  · decide +kernel

end Garnet
