import Garnet.Proofs.Evolution
import Garnet.Proofs.LoadOnce

/-!
# What an evaluation writes

All that an evaluation can change of an interpreter is said by its journal. A
name or a global is bound anew by an assignment to it, and by nothing else. A
table of methods gains what was defined. Arrays gain elements, and lose
none; symbols are made, and lines are printed.

This is the **footprint** of a stretch of a journal (`Footprint`). It is
proved for one step at a time and put together along the journal. The one thing
that takes something back is the failure of a required unit, and what it takes
back was put there in the same stretch; the only assumption is that the
global `$LOADED_FEATURES`, which leads to the array concerned, is not bound
anew.

Nothing is assumed of how an evaluation ends, nor of the interpreter where it
starts.
-/

namespace Garnet

open Interpreter

/-- **Whether an assignment took place** that gave a target a value. -/
def Binds (es : List Episode) (target : Node) (v : Value) : Prop :=
  ∃ e ∈ es, ∃ self rhs t,
    e.activity = .node self (.assignment target rhs) ∧ e.outcome = .ok v t

/-- **Whether a method was defined** under a name. -/
def Defines (es : List Episode) (name : String) : Prop :=
  ∃ e ∈ es, ∃ self params body, e.activity = .node self (.funcDecl name params body)

/-- **The footprint of a stretch of a journal** on the interpreters at its
ends. -/
structure Footprint (s : Interpreter) (es : List Episode) (t : Interpreter) : Prop where
  /-- A name is bound as it was, or to the value of an assignment to it. -/
  names : ∀ name, t.objects.find? name = s.objects.find? name ∨
    ∃ v, t.objects.find? name = some v ∧ Binds es (.bareReference name) v
  /-- So is a global. -/
  globals : ∀ name, t.globals.find? name = s.globals.find? name ∨
    ∃ v, t.globals.find? name = some v ∧ Binds es (.globalVariable name) v
  /-- The class table is the same. -/
  classTable : t.classes = s.classes
  /-- Classes and objects gain methods that were defined. -/
  heap : s.heap.Evolves (Defines es) t.heap
  /-- No array loses an element, or has its elements reordered. -/
  arrays : s.Grows t
  /-- Symbols stay. -/
  symbols : ∀ name id, s.symbols.find? name = some id → t.symbols.find? name = some id
  /-- What was printed stays printed. -/
  printed : ∃ more, t.printed = s.printed ++ more

section Episodes

variable {es fs : List Episode} {target : Node} {v : Value} {name : String}

theorem Binds.mono (h : Binds es target v) (hsub : es ⊆ fs) : Binds fs target v := by
  obtain ⟨e, he, hrest⟩ := h
  exact ⟨e, hsub he, hrest⟩

theorem Defines.mono (h : Defines es name) (hsub : es ⊆ fs) : Defines fs name := by
  obtain ⟨e, he, hrest⟩ := h
  exact ⟨e, hsub he, hrest⟩

end Episodes

namespace Footprint

variable {s t u : Interpreter} {es fs : List Episode}

/-- An interpreter in which only arrays have changed. -/
theorem of_arrays (arrays : Array (List Value)) (nextId : Nat)
    (h : s.Grows { s with heap := { s.heap with arrays := arrays, nextId := nextId } }) :
    Footprint s es { s with heap := { s.heap with arrays := arrays, nextId := nextId } } where
  names _ := Or.inl rfl
  globals _ := Or.inl rfl
  classTable := rfl
  heap := Heap.Evolves.of_eq rfl rfl rfl
  arrays := h
  symbols _ _ h := h
  printed := ⟨"", (String.append_empty).symm⟩

theorem refl (s : Interpreter) (es : List Episode) : Footprint s es s :=
  of_arrays s.heap.arrays s.heap.nextId (Grows.refl s)

/-- A longer journal tells more. -/
theorem mono (h : Footprint s es t) (hsub : es ⊆ fs) : Footprint s fs t :=
  { h with
    names := fun name => (h.names name).imp_right fun ⟨v, hv, hbinds⟩ => ⟨v, hv, hbinds.mono hsub⟩
    globals := fun name =>
      (h.globals name).imp_right fun ⟨v, hv, hbinds⟩ => ⟨v, hv, hbinds.mono hsub⟩
    heap := h.heap.mono fun _ hname => hname.mono hsub }

/-- **One stretch after another.** What the second one leaves alone is as the
first one left it. -/
theorem trans (h : Footprint s es t) (k : Footprint t es u) : Footprint s es u where
  names name := by
    obtain hsame | hbound := k.names name
    · rw [hsame]
      exact h.names name
    · exact Or.inr hbound
  globals name := by
    obtain hsame | hbound := k.globals name
    · rw [hsame]
      exact h.globals name
    · exact Or.inr hbound
  classTable := k.classTable.trans h.classTable
  heap := h.heap.trans k.heap
  arrays := h.arrays.trans k.arrays
  symbols name id hid := k.symbols name id (h.symbols name id hid)
  printed := by
    obtain ⟨a, ha⟩ := h.printed
    obtain ⟨b, hb⟩ := k.printed
    exact ⟨a ++ b, by rw [hb, ha, String.append_assoc]⟩

theorem append (h : Footprint s es t) (k : Footprint t fs u) : Footprint s (es ++ fs) u :=
  (h.mono (List.subset_append_left es fs)).trans (k.mono (List.subset_append_right es fs))

/-! ## The steps -/

/-- **Every effect** leaves names and globals alone. -/
theorem of_effect (h : Effect s t) : Footprint s es t := by
  have hgrows : s.Grows t := Grows.of_effect h
  have hheap : s.heap.Evolves (Defines es) t.heap := Heap.Evolves.of_effect h
  cases h with
  | fresh => exact of_arrays _ _ hgrows
  | newArray => exact of_arrays _ _ hgrows
  | extended => exact of_arrays _ _ hgrows
  | newObject => exact { refl s es with heap := hheap, arrays := hgrows }
  | interned name absent =>
    refine { refl s es with heap := hheap, arrays := hgrows, symbols := fun other id hid => ?_ }
    -- a symbol is made under a name that had none
    have hother : other ≠ name := by
      intro heq
      rw [heq, absent] at hid
      cases hid
    show (s.symbols.set name _).find? other = some id
    rw [Bindings.find?_set, if_neg hother]
    exact hid
  | printed line =>
    refine { refl s es with heap := hheap, arrays := hgrows, printed := ⟨line ++ "\n", ?_⟩ }
    exact String.append_assoc

theorem of_effects (h : Effects s t) : Footprint s es t := by
  induction h with
  | refl => exact refl s es
  | tail _ h ih => exact ih.trans (of_effect h)

/-- **The definition of a method** changes the heap alone. -/
theorem define {name : String} (hname : Defines es name) (s : Interpreter) :
    Footprint s es (Outcome.state (define name s)) := by
  have hheap : s.heap.Evolves (Defines es) (Outcome.state (Interpreter.define name s)).heap :=
    Heap.Evolves.define hname s
  have hgrows : s.Grows (Outcome.state (Interpreter.define name s)) := Grows.define name s
  obtain ⟨e, hs⟩ | ⟨r, h, _, _, hs⟩ := define_eq name s
  · rw [hs]
    exact refl s es
  · rw [hs] at hheap hgrows ⊢
    exact { refl s es with heap := hheap, arrays := hgrows }

/-- **An assignment** binds what stands on its left, and nothing else. -/
theorem assign {lhs : Node} {v : Value} (hlhs : lhs ≠ .globalVariable "LOADED_FEATURES")
    (hbinds : lhs.isAssignable → Binds es lhs v) (s : Interpreter) :
    Footprint s es (Outcome.state (assign lhs v s)) := by
  have hgrows : s.Grows (Outcome.state (Interpreter.assign lhs v s)) := Grows.assign hlhs v s
  cases lhs with
  | bareReference name =>
    refine { refl s es with arrays := hgrows, names := fun other => ?_ }
    show (s.objects.set name v).find? other = _ ∨ ∃ w, (s.objects.set name v).find? other = _ ∧ _
    rw [Bindings.find?_set]
    split
    · next hother => exact Or.inr ⟨v, rfl, hother ▸ hbinds rfl⟩
    · exact Or.inl rfl
  | globalVariable name =>
    refine { refl s es with arrays := hgrows, globals := fun other => ?_ }
    show (s.globals.set name v).find? other = _ ∨ ∃ w, (s.globals.set name v).find? other = _ ∧ _
    rw [Bindings.find?_set]
    split
    · next hother => exact Or.inr ⟨v, rfl, hother ▸ hbinds rfl⟩
    · exact Or.inl rfl
  | _ => exact refl s es

/-- **Taking back a note** for a unit that was not loaded before. -/
theorem unmarked {p : String} (h : Footprint s es t) (hp : s.isLoaded p = false) :
    Footprint s es (unmarkLoaded p t) := by
  have hgrows : s.Grows (unmarkLoaded p t) := h.arrays.unmarkLoaded hp
  unfold unmarkLoaded at hgrows ⊢
  cases hr : t.globalArray? "LOADED_FEATURES" with
  | none => exact h
  | some r =>
    rw [hr] at hgrows
    exact { h with heap := h.heap.trans (Heap.Evolves.of_eq rfl rfl rfl), arrays := hgrows }

/-! ## Along the journal -/

/-- **Footprints compose**, as long as nothing binds the global for the loaded
units anew. -/
theorem composes :
    Composes (fun _ => True) fun s es t =>
      (∀ e ∈ es, e.rebinds = false) → Footprint s es t where
  after _ _ := trivial
  effects _ h _ := of_effects h
  append _ h k hq := by
    have hfirst := h fun e he => hq e (List.mem_append_left _ he)
    exact hfirst.append (k fun e he => hq e (List.mem_append_right _ he))
  start _ _ _ := trivial
  scopes _ _ _ _ _ h hq := by
    have hinside := h hq
    exact ⟨hinside.names, hinside.globals, hinside.classTable, hinside.heap,
      ⟨hinside.arrays.binding, hinside.arrays.size, hinside.arrays.elements⟩, hinside.symbols,
      hinside.printed⟩
  ended _ _ h hq := (h fun e he => hq e (List.mem_append_left _ he)).mono
    (List.subset_append_left _ _)
  define {self name params body s} _ _ :=
    define ⟨_, List.mem_singleton_self _, self, params, body, rfl⟩ s
  assignment {self v lhs rhs s t es} _ h := by
    intro o hq
    have hinside := h fun e he => hq e (List.mem_append_left _ he)
    have hlast := hq _ (List.mem_append_right _ (List.mem_singleton_self _))
    have hstate : Outcome.state o = Outcome.state (Interpreter.assign lhs v t) := by
      cases lhs <;> rfl
    have hlhs : lhs ≠ .globalVariable "LOADED_FEATURES" := by
      rintro rfl
      cases hlast
    rw [hstate]
    refine (hinside.mono (List.subset_append_left _ _)).trans (assign hlhs (fun hl => ?_) t)
    refine ⟨_, List.mem_append_right _ (List.mem_singleton_self _), self, rhs, Outcome.state o,
      rfl, ?_⟩
    cases lhs with
    | bareReference name => rfl
    | globalVariable name => rfl
    | _ => cases hl
  unmarked _ hp h hq := (h hq).unmarked hp

end Footprint

/-- **What a request writes**, however it ends, if nothing in it binds the global
`$LOADED_FEATURES` anew:

* a name or a global is bound as before, or to the value of an assignment to
  it that took place; so no binding is removed, and names and globals do not
  get in each other's way;
* the class table is the same, and all of a class but the methods of its
  instances; these, and the methods of objects, are as before, apart from
  private methods that do nothing and were defined in the meantime;
* an array still has its elements, in their order;
* symbols stay, and so does what was printed. -/
theorem footprint_of_request (host : Host) (depth : Nat) (r : Request) (s : Interpreter)
    (hq : ∀ e ∈ (r.watched host depth).journal s, e.rebinds = false) :
    let es := (r.watched host depth).journal s
    let t := Outcome.state (r.eval host depth s)
    ((∀ name, t.objects.find? name = s.objects.find? name ∨
        ∃ v, t.objects.find? name = some v ∧ Binds es (.bareReference name) v) ∧
      ∀ name, t.globals.find? name = s.globals.find? name ∨
        ∃ v, t.globals.find? name = some v ∧ Binds es (.globalVariable name) v) ∧
    (t.classes = s.classes ∧ t.heap.classes.size = s.heap.classes.size ∧
      (∀ c, (t.heap.classAt c).fixedPart = (s.heap.classAt c).fixedPart ∧
        Heap.Gains (Defines es) s.heap t.heap (s.heap.classAt c).methods
          (t.heap.classAt c).methods) ∧
      (∀ o, Heap.Gains (Defines es) s.heap t.heap (s.heap.object o).methods
        (t.heap.object o).methods) ∧
      ∀ m : MethodRef, m.index < s.heap.methods.size → t.heap.method m = s.heap.method m) ∧
    (∀ a : ArrayRef, a.index < s.heap.arrays.size →
      (s.heap.elements a).Sublist (t.heap.elements a)) ∧
    (∀ name id, s.symbols.find? name = some id → t.symbols.find? name = some id) ∧
    ∃ more, t.printed = s.printed ++ more := by
  intro es t
  have h : Footprint s es t := Footprint.composes.request host depth r trivial hq
  exact ⟨⟨h.names, h.globals⟩,
    ⟨h.classTable, h.heap.classCount, fun c => ⟨h.heap.fixedPart c, h.heap.instanceMethods c⟩,
      h.heap.objectMethods, h.heap.methods⟩,
    h.arrays.elements, h.symbols, h.printed⟩

/-- A program that assigns, defines, and requires a unit that assigns a global:
the name that it binds for the first time is bound by its assignment. -/
theorem assigned_name_is_bound :
    let r := Request.run "x = 1\ndef f\nend\nrequire('cycle')"
    let s := start "main.rb" ["/"] []
    let es := (r.watched hostOfCycle 3).journal s
    (∀ e ∈ es, e.rebinds = false) ∧
    ∃ v, (Outcome.state (r.eval hostOfCycle 3 s)).objects.find? "x" = some v ∧
      Binds es (.bareReference "x") v := by
  intro r s es
  have hq : ∀ e ∈ es, e.rebinds = false := by
    have hall : es.all (!·.rebinds) = true := by decide +kernel
    exact fun e he => Bool.not_eq_true' _ |>.mp (List.all_eq_true.mp hall e he)
  refine ⟨hq, ?_⟩
  have hbefore : (s.objects.find? "x").isSome = false := by decide +kernel
  have hafter : ((Outcome.state (r.eval hostOfCycle 3 s)).objects.find? "x").isSome = true := by
    decide +kernel
  obtain hsame | hbound := (footprint_of_request hostOfCycle 3 r s hq).1.1 "x"
  · rw [hsame, hbefore] at hafter
    cases hafter
  · exact hbound

end Garnet
