import Garnet.Proofs.Stretches

/-!
# Invariants

A property of interpreters that no step of an evaluation breaks is an
**invariant** (`Interpreter.Invariant`). It holds wherever an evaluation comes
to, if it holds where the evaluation starts: before and after every episode of
a session (`Session.keeps`), and wherever a method is searched for a call.

Most invariants are about the heap (`Heap.Invariant`). What an evaluation does
to the objects, classes and methods there is little: it makes objects without
methods of their own, and it enters methods that do nothing into tables of
methods. The class table and the top-level receiver are not touched at all
(`Interpreter.Invariant.of_fixed`).
-/

namespace Garnet

open Interpreter

/-- **A property of heaps that no evaluation can break.** -/
structure Heap.Invariant (Q : Heap → Prop) : Prop where
  /-- It is no matter of the arrays, nor of the numbers that were taken. -/
  arrays : ∀ {h : Heap} (arrays : Array (List Value)) (nextId : Nat), Q h →
    Q { h with arrays := arrays, nextId := nextId }
  /-- A new object of a class that makes such objects does not break it. -/
  object : ∀ {h : Heap} (r : ClassRef) (label : Option String),
    (h.classAt r).factory = some (.object label) → Q h → Q (h.newObject ⟨r, label, .empty⟩).2
  /-- Neither does a method that is defined in a class. -/
  classMethod : ∀ {h k : Heap} {r : MethodRef} {name : String} (c : ClassRef), Q h →
    h.newMethod ⟨name, .implicitReceiver, .doNothing⟩ = (r, k) → Q (k.defineMethod c r)
  /-- Nor one that is defined in an object. -/
  objectMethod : ∀ {h k : Heap} {r : MethodRef} {name : String} (o : ObjectRef), Q h →
    h.newMethod ⟨name, .implicitReceiver, .doNothing⟩ = (r, k) → Q (k.defineObjectMethod o r)

namespace Heap

/-- A method after one was made. -/
theorem method_newMethod (h : Heap) (m : Method) (r : MethodRef) :
    (h.newMethod m).2.method r = if r.index = h.methods.size then m else h.method r := by
  unfold newMethod method
  rw [Array.getElem?_push]
  split
  · rfl
  · rfl

end Heap

/-- Assignments bind names and globals, which are not on the heap. -/
theorem Interpreter.heap_assign (lhs : Node) (v : Value) (s : Interpreter) :
    (Outcome.state (assign lhs v s)).heap = s.heap := by
  cases lhs <;> rfl

namespace Heap.Invariant

variable {Q : Heap → Prop} {s t : Interpreter}

theorem of_effect (hQ : Invariant Q) (h : Effect s t) (hs : Q s.heap) : Q t.heap := by
  cases h with
  | fresh => exact hQ.arrays _ _ hs
  | interned => exact hQ.arrays _ _ hs
  | newArray => exact hQ.arrays _ _ hs
  | newObject r label made => exact hQ.object r label made hs
  | extended => exact hQ.arrays _ _ hs
  | printed => exact hs

theorem of_effects (hQ : Invariant Q) (h : Effects s t) (hs : Q s.heap) : Q t.heap := by
  induction h with
  | refl => exact hs
  | tail _ h ih => exact hQ.of_effect h ih

theorem define (hQ : Invariant Q) (name : String) (hs : Q s.heap) :
    Q (Outcome.state (define name s)).heap := by
  obtain ⟨e, he⟩ | ⟨r, h, hnew, ⟨c, hc⟩ | ⟨o, ho⟩⟩ := define_cases name s
  · rw [he]
    exact hs
  · rw [hc]
    exact hQ.classMethod c hs hnew
  · rw [ho]
    exact hQ.objectMethod o hs hnew

/-- Taking back the note for a unit changes an array. -/
theorem unmarkLoaded (hQ : Invariant Q) (feature : String) (hs : Q s.heap) :
    Q (unmarkLoaded feature s).heap := by
  unfold Interpreter.unmarkLoaded
  split
  · exact hQ.arrays _ _ hs
  · exact hs

/-- **An invariant of the heap with the classes** holds in a new interpreter,
which has further arrays there and nothing else. -/
theorem start (hQ : Invariant Q) (h : Q (Startup.mainObject Startup.classes.1 Startup.classes.2).2)
    (programName : String) (loadPath argv : List String) :
    Q (start programName loadPath argv).heap := by
  obtain ⟨arrays, nextId, hstart⟩ := heap_start programName loadPath argv
  rw [hstart]
  exact hQ.arrays _ _ h

end Heap.Invariant

/-! ## Properties of interpreters -/

/-- **A property of interpreters that no evaluation can break.** -/
structure Interpreter.Invariant (I : Interpreter → Prop) : Prop where
  /-- No effect breaks it. -/
  effect : ∀ {s t : Interpreter}, Effect s t → I s → I t
  /-- Neither does the definition of a method. -/
  define : ∀ {s : Interpreter} (name : String), I s → I (Outcome.state (define name s))
  /-- Nor an assignment. -/
  assign : ∀ {s : Interpreter} (lhs : Node) (v : Value), I s → I (Outcome.state (assign lhs v s))
  /-- Nor taking back the note for a unit. -/
  unmarkLoaded : ∀ {s : Interpreter} (feature : String), I s → I (unmarkLoaded feature s)
  /-- It is no matter of the active calls, nor of the present unit. -/
  scopes : ∀ {s : Interpreter} (stack : CallStack) (unitName : String), I s →
    I { s with stack := stack, unitName := unitName }

/-- **An episode that keeps a property**; if it is the call of a method, that
was found where the property holds. -/
structure Episode.Keeps (I : Interpreter → Prop) (e : Episode) : Prop where
  /-- The property holds before. -/
  before : I e.before
  /-- It holds afterwards. -/
  after : I e.after
  /-- It held where the method was found that is called. -/
  call : e.IsCall I

namespace Interpreter.Invariant

variable {I J : Interpreter → Prop} {s : Interpreter}

theorem of_effects (hI : Invariant I) {t : Interpreter} (h : Effects s t) (hs : I s) : I t := by
  induction h with
  | refl => exact hs
  | tail _ h ih => exact hI.effect h ih

/-- An invariant of heaps is one of interpreters. -/
theorem of_heap {Q : Heap → Prop} (hQ : Heap.Invariant Q) : Invariant fun s => Q s.heap where
  effect h hs := hQ.of_effect h hs
  define name hs := hQ.define name hs
  assign lhs v hs := (heap_assign lhs v _).symm ▸ hs
  unmarkLoaded feature hs := hQ.unmarkLoaded feature hs
  scopes _ _ hs := hs

/-- Two invariants together. -/
theorem and (hI : Invariant I) (hJ : Invariant J) : Invariant fun s => I s ∧ J s where
  effect h hs := ⟨hI.effect h hs.1, hJ.effect h hs.2⟩
  define name hs := ⟨hI.define name hs.1, hJ.define name hs.2⟩
  assign lhs v hs := ⟨hI.assign lhs v hs.1, hJ.assign lhs v hs.2⟩
  unmarkLoaded feature hs := ⟨hI.unmarkLoaded feature hs.1, hJ.unmarkLoaded feature hs.2⟩
  scopes stack unitName hs := ⟨hI.scopes stack unitName hs.1, hJ.scopes stack unitName hs.2⟩

/-- **Nothing touches the class table and the top-level receiver**: whatever is
true of them stays so. -/
theorem of_fixed (J : ClassTable → Value → Prop) : Invariant fun s => J s.classes s.main where
  effect h hs := by cases h <;> exact hs
  define {s} name hs := by
    obtain ⟨e, he⟩ | ⟨r, h, _, _, he⟩ := define_eq name s
    · exact he ▸ hs
    · exact he ▸ hs
  assign lhs v hs := by cases lhs <;> exact hs
  unmarkLoaded feature hs := by
    unfold Interpreter.unmarkLoaded
    split <;> exact hs
  scopes _ _ hs := hs

/-- **No evaluation breaks an invariant**, and so no stretch of a journal
does. -/
theorem composes (hI : Invariant I) :
    Composes I fun _ es t => I t ∧ ∀ e ∈ es, e.Keeps I where
  after _ h := h.1
  effects hs h := ⟨hI.of_effects h hs, fun _ he => absurd he List.not_mem_nil⟩
  append _ h k := ⟨k.1, fun e he => (List.mem_append.mp he).elim (h.2 e) (k.2 e)⟩
  start stack unitName hs := hI.scopes stack unitName hs
  scopes _ stack' _ unitName' _ h := ⟨hI.scopes stack' unitName' h.1, h.2⟩
  ended {a s o es} hs ha h := by
    refine ⟨h.1, fun e he => (List.mem_append.mp he).elim (h.2 e) fun he => ?_⟩
    rw [List.mem_singleton.mp he]
    exact ⟨hs, h.1, ha⟩
  define {self name params body s} hs := by
    have hdefined := hI.define name hs
    refine ⟨hdefined, fun e he => ?_⟩
    rw [List.mem_singleton.mp he]
    exact ⟨hs, hdefined, fun _ _ _ => Activity.noConfusion⟩
  assignment {self v lhs rhs s t es} hs h := by
    intro o
    have hassigned : I (Outcome.state o) := by
      have hstate : Outcome.state o = Outcome.state (Interpreter.assign lhs v t) := by
        cases lhs <;> rfl
      exact hstate ▸ hI.assign lhs v h.1
    refine ⟨hassigned, fun e he => (List.mem_append.mp he).elim (h.2 e) fun he => ?_⟩
    rw [List.mem_singleton.mp he]
    exact ⟨hs, hassigned, fun _ _ _ => Activity.noConfusion⟩
  unmarked _ _ h := ⟨hI.unmarkLoaded _ h.1, h.2⟩

/-- **An invariant that holds where a session starts** holds throughout it. -/
theorem session (hI : Invariant I) (host : Host) (depth : Nat) (rs : List Request) (hs : I s) :
    ∀ e ∈ Session.journal host depth rs s, e.Keeps I := by
  obtain ⟨_, _, hes⟩ := hI.composes.session host depth rs hs
  exact hes

end Interpreter.Invariant

/-- **An invariant of heaps that holds where a session starts** holds before
and after everything that takes place in it. -/
theorem Session.keeps {Q : Heap → Prop} (hQ : Heap.Invariant Q) (host : Host) (depth : Nat)
    (rs : List Request) {s : Interpreter} (hs : Q s.heap) :
    ∀ e ∈ journal host depth rs s, Q e.before.heap ∧ Q e.after.heap := by
  intro e he
  have hkeeps := (Interpreter.Invariant.of_heap hQ).session host depth rs hs e he
  exact ⟨hkeeps.before, hkeeps.after⟩

end Garnet
