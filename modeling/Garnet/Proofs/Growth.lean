import Garnet.Proofs.Closure

/-!
# The list of loaded units only grows

The units that were loaded are kept in an array that a program can get hold of
and put elements into, but take none out of. An interpreter has **grown** into
another one (`Interpreter.Grows`) if the global for the array is still bound
as it was and no array has lost an element or had its elements reordered.
Every effect lets an interpreter grow; so does a method definition, an
assignment to anything but the global itself, and noting that a unit is
loaded.

Taking back the note for a unit is not growth by itself. But it is growth when
seen from before the note was made (`Interpreter.Grows.unmarkLoaded`), because
the elements that it removes were not there then.
-/

namespace Garnet

namespace Interpreter

/-- The elements of the array that lists the loaded units. -/
def features (s : Interpreter) : List Value :=
  s.globalElements "LOADED_FEATURES"

/-- **An interpreter that can list loaded units**: the global for them leads
to an array that exists. -/
def Ready (s : Interpreter) : Prop :=
  ∃ r, s.globals.find? "LOADED_FEATURES" = some (.array r) ∧ r.index < s.heap.arrays.size

/-- **An interpreter that another one has grown into.** -/
structure Grows (s t : Interpreter) : Prop where
  /-- The loaded units are listed where they were. -/
  binding : t.globals.find? "LOADED_FEATURES" = s.globals.find? "LOADED_FEATURES"
  /-- No array has gone. -/
  size : s.heap.arrays.size ≤ t.heap.arrays.size
  /-- No array has lost an element. -/
  elements : ∀ r : ArrayRef, r.index < s.heap.arrays.size →
    (s.heap.elements r).Sublist (t.heap.elements r)

end Interpreter

/-! ## Arrays of the heap -/

namespace Heap

/-- What an array has after the elements of some array were set. -/
theorem elements_setElements (h : Heap) (r q : ArrayRef) (vs : List Value) :
    (h.setElements r vs).elements q
      = if q = r ∧ r.index < h.arrays.size then vs else h.elements q := by
  unfold setElements elements
  simp only [getD_setIfInBounds, ArrayRef.ext_iff]

theorem size_setElements (h : Heap) (r : ArrayRef) (vs : List Value) :
    (h.setElements r vs).arrays.size = h.arrays.size :=
  Array.size_setIfInBounds

/-- A new array leaves the others alone. -/
theorem elements_newArray (h : Heap) (vs : List Value) {q : ArrayRef}
    (hq : q.index < h.arrays.size) : (h.newArray vs).2.elements q = h.elements q := by
  unfold newArray elements
  rw [Array.getElem?_push_lt hq, Array.getElem?_eq_getElem hq]

end Heap

namespace Interpreter

variable {s t u : Interpreter}

theorem features_eq (s : Interpreter) {r : ArrayRef}
    (h : s.globals.find? "LOADED_FEATURES" = some (.array r)) :
    s.features = s.heap.elements r := by
  unfold features globalElements globalArray?
  rw [h]

/-- An array in a global is what the global is bound to. -/
theorem find?_of_globalArray? {name : String} {r : ArrayRef} (h : s.globalArray? name = some r) :
    s.globals.find? name = some (.array r) := by
  unfold globalArray? at h
  split at h
  · next hr =>
    cases h
    exact hr
  · cases h

theorem isLoaded_eq (s : Interpreter) (p : String) : s.isLoaded p = s.features.any (isText p) :=
  rfl

namespace Grows

theorem refl (s : Interpreter) : Grows s s :=
  ⟨rfl, Nat.le_refl _, fun _ _ => List.Sublist.refl _⟩

theorem trans (h : Grows s t) (k : Grows t u) : Grows s u where
  binding := k.binding.trans h.binding
  size := Nat.le_trans h.size k.size
  elements r hr := (h.elements r hr).trans (k.elements r (Nat.lt_of_lt_of_le hr h.size))

/-- Growth is a matter of the globals and of the arrays. -/
theorem of_arrays_eq (hg : t.globals = s.globals) (ha : t.heap.arrays = s.heap.arrays) :
    Grows s t where
  binding := by rw [hg]
  size := Nat.le_of_eq (congrArg Array.size ha.symm)
  elements r _ := by
    have hr : t.heap.elements r = s.heap.elements r := by
      unfold Heap.elements
      rw [ha]
    exact hr ▸ List.Sublist.refl _

/-- Setting the elements of an array is growth if it keeps those that were
there. -/
theorem setElements {r : ArrayRef} {vs : List Value} (h : (s.heap.elements r).Sublist vs) :
    Grows s { s with heap := s.heap.setElements r vs } where
  binding := rfl
  size := Nat.le_of_eq (Heap.size_setElements s.heap r vs).symm
  elements q _ := by
    rw [Heap.elements_setElements]
    by_cases hq : q = r ∧ r.index < s.heap.arrays.size
    · rw [if_pos hq, hq.1]
      exact h
    · exact (if_neg hq).symm ▸ List.Sublist.refl _

/-- **Every effect is growth.** -/
theorem of_effect (h : Effect s t) : Grows s t := by
  cases h with
  | fresh => exact of_arrays_eq rfl rfl
  | interned => exact of_arrays_eq rfl rfl
  | newObject => exact of_arrays_eq rfl rfl
  | printed => exact of_arrays_eq rfl rfl
  | newArray vs =>
    refine ⟨rfl, ?_, fun r hr => ?_⟩
    · exact Nat.le_of_lt (by simp [Heap.newArray])
    · have hkept := Heap.elements_newArray s.heap vs hr
      exact hkept.symm ▸ List.Sublist.refl _
  | extended r front back =>
    refine setElements ?_
    rw [List.append_assoc]
    exact (List.sublist_append_left _ back).trans (List.sublist_append_right front _)

theorem of_effects (h : Effects s t) : Grows s t := by
  induction h with
  | refl => exact refl s
  | tail _ h ih => exact ih.trans (of_effect h)

/-- A method definition is growth. -/
theorem define (name : String) (s : Interpreter) : Grows s (Outcome.state (define name s)) := by
  obtain ⟨e, hs⟩ | ⟨r, h, ha, _, hs⟩ := define_eq name s
  · rw [hs]
    exact refl s
  · rw [hs]
    exact of_arrays_eq rfl ha

/-- **An assignment is growth**, unless it binds the global that lists the
loaded units. -/
theorem assign {lhs : Node} (h : lhs ≠ .globalVariable "LOADED_FEATURES") (v : Value)
    (s : Interpreter) : Grows s (Outcome.state (assign lhs v s)) := by
  cases lhs with
  | bareReference name => exact of_arrays_eq rfl rfl
  | globalVariable name =>
    refine ⟨?_, Nat.le_refl _, fun _ _ => List.Sublist.refl _⟩
    show (s.globals.set name v).find? "LOADED_FEATURES" = _
    have hname : "LOADED_FEATURES" ≠ name := fun heq => h (congrArg Node.globalVariable heq.symm)
    rw [Bindings.find?_set, if_neg hname]
  | _ => exact refl s

theorem ready (h : Grows s t) (hs : s.Ready) : t.Ready := by
  obtain ⟨r, hr, hsize⟩ := hs
  exact ⟨r, h.binding.trans hr, Nat.lt_of_lt_of_le hsize h.size⟩

/-- **The list of loaded units keeps its elements** as an interpreter grows,
and their order. -/
theorem features (h : Grows s t) (hs : s.Ready) : s.features.Sublist t.features := by
  obtain ⟨r, hr, hsize⟩ := hs
  rw [features_eq s hr, features_eq t (h.binding.trans hr)]
  exact h.elements r hsize

theorem isLoaded (h : Grows s t) (hs : s.Ready) {p : String} (hp : s.isLoaded p = true) :
    t.isLoaded p = true := by
  rw [isLoaded_eq, List.any_eq_true] at hp ⊢
  obtain ⟨v, hv, hvp⟩ := hp
  exact ⟨v, (h.features hs).subset hv, hvp⟩

/-- A unit that is not loaded later was not loaded before. -/
theorem not_isLoaded (h : Grows s t) (hs : s.Ready) {p : String} (hp : t.isLoaded p = false) :
    s.isLoaded p = false := by
  cases hsp : s.isLoaded p with
  | false => rfl
  | true => exact absurd (h.isLoaded hs hsp) (by rw [hp]; exact Bool.false_ne_true)

end Grows

/-! ## Noting that a unit is loaded, and taking the note back -/

/-- **Noting that a unit is loaded** is growth, and then it is loaded. -/
theorem Ready.markLoaded (hs : s.Ready) (p : String) :
    ∃ t, markLoaded p s = .ok () t ∧ s.Grows t ∧ t.isLoaded p = true := by
  obtain ⟨r, hr, hsize⟩ := hs
  let v : Value := .string s.heap.nextId p
  let s' : Interpreter := { s with heap := s.heap.freshId.2 }
  let t : Interpreter :=
    { s' with heap := s'.heap.setElements r (s'.heap.elements r ++ [v]) }
  have hmark : Interpreter.markLoaded p s = .ok () t := by
    have hga : s.globalArray? "LOADED_FEATURES" = some r := by
      unfold globalArray?
      rw [hr]
    unfold Interpreter.markLoaded
    rw [Outcome.get_bind, hga]
    rfl
  have hgrows : s'.Grows t := Grows.setElements (List.sublist_append_left _ _)
  refine ⟨t, hmark, (Grows.of_effect (Effect.fresh s)).trans hgrows, ?_⟩
  have hv : t.features = s'.heap.elements r ++ [v] := by
    rw [features_eq t hr]
    show (s'.heap.setElements r _).elements r = _
    rw [Heap.elements_setElements, if_pos ⟨rfl, hsize⟩]
  rw [isLoaded_eq, hv, List.any_append]
  simp [v, isText, text?]

/-- Taking back a note changes the one array that lists the loaded units. -/
theorem unmarkLoaded_eq {r : ArrayRef}
    (hr : s.globals.find? "LOADED_FEATURES" = some (.array r)) (p : String) :
    unmarkLoaded p s
      = { s with heap := s.heap.setElements r ((s.heap.elements r).filter (!isText p ·)) } := by
  unfold unmarkLoaded globalArray?
  rw [hr]

/-- What is listed after the note for a unit was taken back. -/
theorem features_unmarkLoaded (hs : s.Ready) (p : String) :
    (unmarkLoaded p s).features = s.features.filter (!isText p ·) := by
  obtain ⟨r, hr, hsize⟩ := hs
  let t : Interpreter :=
    { s with heap := s.heap.setElements r ((s.heap.elements r).filter (!isText p ·)) }
  have ht : t.features = t.heap.elements r := features_eq t hr
  rw [unmarkLoaded_eq hr, features_eq s hr]
  refine ht.trans ?_
  show (s.heap.setElements r _).elements r = _
  rw [Heap.elements_setElements, if_pos ⟨rfl, hsize⟩]

/-- **Taking back a note** makes the unit, and no other one, not loaded. -/
theorem isLoaded_unmarkLoaded (hs : s.Ready) (p q : String) :
    (unmarkLoaded p s).isLoaded q = (s.isLoaded q && q != p) := by
  rw [isLoaded_eq, isLoaded_eq, features_unmarkLoaded hs, List.any_filter]
  by_cases hqp : q = p
  · subst hqp
    simp
  · have hne : (q != p) = true := bne_iff_ne.mpr hqp
    rw [hne, Bool.and_true]
    refine List.any_congr rfl fun v => ?_
    unfold isText
    cases htv : text? v with
    | none => rfl
    | some x =>
      by_cases hx : x = q
      · subst hx
        simp [hqp]
      · simp [hx]

/-- **Taking back a note is growth when seen from before it was made.** The
elements that are removed say that the unit is loaded, and nothing did so
then. -/
theorem Grows.unmarkLoaded {p : String} (h : Grows s t) (hp : s.isLoaded p = false) :
    s.Grows (unmarkLoaded p t) := by
  cases hr : t.globalArray? "LOADED_FEATURES" with
  | none =>
    unfold Interpreter.unmarkLoaded
    rw [hr]
    exact h
  | some r =>
    have hbound : s.globals.find? "LOADED_FEATURES" = some (.array r) := by
      rw [← h.binding]
      exact find?_of_globalArray? hr
    rw [isLoaded_eq, features_eq s hbound, List.any_eq_false] at hp
    -- none of the elements that were there before is removed
    have hall : (s.heap.elements r).filter (!isText p ·) = s.heap.elements r :=
      List.filter_eq_self.mpr fun v hv => by simpa using hp v hv
    rw [unmarkLoaded_eq (h.binding.trans hbound)]
    refine ⟨h.binding, ?_, fun q hq => ?_⟩
    · exact Nat.le_trans h.size (Nat.le_of_eq (Heap.size_setElements _ _ _).symm)
    · show (s.heap.elements q).Sublist ((t.heap.setElements r _).elements q)
      rw [Heap.elements_setElements]
      by_cases hqr : q = r ∧ r.index < t.heap.arrays.size
      · rw [if_pos hqr, hqr.1, ← hall]
        exact (h.elements r (hqr.1 ▸ hq)).filter _
      · rw [if_neg hqr]
        exact h.elements q hq

end Interpreter

end Garnet
