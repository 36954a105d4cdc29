import Garnet.Interpreter.Start
import Garnet.Proofs.Closure

/-!
# Sessions

An interpreter is used by asking it for one thing after another: to run a
source text, to run a file, to require or to load one. A **session** is a
sequence of such requests. Each request finds the interpreter as the one
before left it, also if that one failed.

The outcomes of a session are what the evaluator answers; its journal lists
what took place in it, as the watched evaluator notes it.
-/

namespace Garnet

open Interpreter

/-- **What an interpreter can be asked for.** -/
inductive Request where
  /-- To run a source text. -/
  | run (source : String)
  /-- To run the file at a path as a program. -/
  | runFile (path : String)
  /-- To evaluate a unit that was not loaded before. -/
  | require (name : String)
  /-- To evaluate the file at a path. -/
  | load (path : String)

namespace Request

variable (host : Host) (depth : Nat)

/-- What a request evaluates; programs can be nested `depth` deep. -/
def eval : Request → Eval Value
  | .run source => Interpreter.run host depth source
  | .runFile path => Interpreter.runFile host.files (Interpreter.run host depth) path
  | .require name => Interpreter.require host.files (Interpreter.run host depth) name
  | .load path => Interpreter.load host.files (Interpreter.run host depth) path

/-- What a request evaluates, watched. -/
def watched : Request → Watched Value
  | .run source => Watched.run host depth source
  | .runFile path => Watched.runFile host.files (Watched.run host depth) path
  | .require name => Watched.require host.files (Watched.run host depth) name
  | .load path => Watched.load host.files (Watched.run host depth) path

/-- Watching a request does not change its outcome. -/
theorem eval_watched (r : Request) : (r.watched host depth).eval = r.eval host depth := by
  have hrun := Watched.eval_run host depth
  cases r with
  | run source => exact congrFun hrun source
  | runFile path => rw [watched, eval, Watched.eval_runFile, hrun]
  | require name => rw [watched, eval, Watched.eval_require, hrun]
  | load path => rw [watched, eval, Watched.eval_load, hrun]

/-- What is closed under evaluation and holds of programs holds of every
request. -/
theorem of_closed {host : Host} {depth : Nat} {D : Watched.Domain}
    {Φ : ∀ {α : Type}, Watched α → Prop} (h : Watched.Closed host D Φ)
    (hrun : ∀ source, D.sources source → Φ (Watched.run host depth source)) {r : Request}
    (hr : ∀ source, r = .run source → D.sources source) : Φ (r.watched host depth) := by
  cases r with
  | run source => exact hrun source (hr source rfl)
  | runFile path => exact h.runFile hrun path
  | require name => exact h.require hrun name
  | load path => exact h.load hrun path

end Request

namespace Session

variable (host : Host) (depth : Nat)

/-- **The outcomes of a session**, one for each request. -/
def outcomes : List Request → Interpreter → List (EStateM.Result Halt Interpreter Value)
  | [], _ => []
  | r :: rs, s =>
    r.eval host depth s :: outcomes rs (Outcome.state (r.eval host depth s))

/-- **The journal of a session.** -/
def journal : List Request → Interpreter → List Episode
  | [], _ => []
  | r :: rs, s =>
    (r.watched host depth).journal s ++ journal rs (Outcome.state (r.eval host depth s))

end Session

/-! ## New interpreters -/

/-- **What can be checked of every method of a heap** is true of every method that
is looked up; one outside the heap reads as one that does nothing. -/
theorem Heap.forall_method {h : Heap} {p : Method → Bool} (hall : h.methods.all p = true)
    (hnone : p ⟨"", .everyone, .doNothing⟩ = true) (r : MethodRef) : p (h.method r) = true := by
  unfold Heap.method
  cases hr : h.methods[r.index]? with
  | none => exact hnone
  | some m =>
    obtain ⟨i, hi, rfl⟩ := Array.getElem_of_mem (Array.mem_of_getElem? hr)
    exact Array.all_eq_true.mp hall i hi

namespace Interpreter

/-- Binding names leaves everything else alone. -/
theorem bindClasses_eq (s : Interpreter) :
    ∃ objects, bindClasses s = { s with objects := objects } := by
  unfold bindClasses
  generalize Startup.visibleClasses = names
  induction names generalizing s with
  | nil => exact ⟨s.objects, rfl⟩
  | cons name names ih =>
    rw [List.foldl_cons]
    split
    · obtain ⟨objects, hs⟩ := ih (s.bind name (.classValue _))
      exact ⟨objects, hs⟩
    · exact ih s

/-- Making strings takes a fresh number for each. -/
theorem mapM_newString (texts : List String) (s : Interpreter) :
    ∃ vs n, texts.mapM newString s = .ok vs { s with heap := { s.heap with nextId := n } } := by
  induction texts generalizing s with
  | nil => exact ⟨[], s.heap.nextId, rfl⟩
  | cons text texts ih =>
    let t : Interpreter := { s with heap := s.heap.freshId.2 }
    obtain ⟨vs, n, hrest⟩ := ih t
    refine ⟨.string s.heap.freshId.1 text :: vs, n, ?_⟩
    have htext : newString text s = .ok (.string s.heap.freshId.1 text) t := rfl
    rw [List.mapM_cons, Outcome.bind_of_ok htext, Outcome.bind_of_ok hrest]
    rfl

theorem newStrings_eq (texts : List String) (s : Interpreter) :
    ∃ vs n, newStrings texts s = .ok (.array ⟨s.heap.arrays.size⟩)
      { s with heap := { s.heap with arrays := s.heap.arrays.push vs, nextId := n } } := by
  obtain ⟨vs, n, hs⟩ := mapM_newString texts s
  exact ⟨vs, n, Outcome.bind_of_ok hs⟩

/-- **What an interpreter gets to know about its program**: three more arrays,
the last of them for the loaded units. -/
theorem bindProgram_eq (programName : String) (loadPath argv : List String) (s : Interpreter) :
    ∃ t, bindProgram programName loadPath argv s = .ok () t ∧
      t.globals.find? "LOADED_FEATURES" = some (.array ⟨s.heap.arrays.size + 2⟩) ∧
      t.heap.arrays.size = s.heap.arrays.size + 3 ∧
      (∃ arrays nextId, t.heap = { s.heap with arrays := arrays, nextId := nextId }) ∧
      t.classes = s.classes ∧ t.symbols = s.symbols := by
  obtain ⟨vs₁, n₁, hs₁⟩ := newStrings_eq argv s
  obtain ⟨vs₂, n₂, hs₂⟩ := newStrings_eq loadPath
    { s with heap := { s.heap with arrays := s.heap.arrays.push vs₁, nextId := n₁ } }
  refine ⟨_, (Outcome.bind_of_ok hs₁).trans ((Outcome.bind_of_ok hs₂).trans rfl), ?_, ?_,
    ⟨_, _, rfl⟩, rfl, rfl⟩
  · show ((((((_ : Bindings Value).set _ _).set _ _).set _ _).set _ _)).find? "LOADED_FEATURES" = _
    simp
  · show (((s.heap.arrays.push vs₁).push vs₂).push []).size = _
    simp

/-- A new interpreter is one that knows the classes, and then its program. -/
theorem start_eq (programName : String) (loadPath argv : List String) :
    ∃ s : Interpreter, (∃ objects, s = { bare programName with objects := objects }) ∧
      bindProgram programName loadPath argv s = .ok () (start programName loadPath argv) := by
  let s := bindClasses ((bare programName).bind "main" (bare programName).main)
  obtain ⟨objects, hs⟩ := bindClasses_eq ((bare programName).bind "main" (bare programName).main)
  obtain ⟨t, ht, _⟩ := bindProgram_eq programName loadPath argv s
  have hstart : start programName loadPath argv = t := by
    unfold start
    dsimp only
    rw [ht]
  exact ⟨s, ⟨objects, hs⟩, hstart ▸ ht⟩

/-- **What a new interpreter knows**: the classes, objects and methods of the
language, and the class table. -/
theorem heap_start (programName : String) (loadPath argv : List String) :
    ∃ arrays nextId, (start programName loadPath argv).heap
      = { (bare programName).heap with arrays := arrays, nextId := nextId } := by
  obtain ⟨s, ⟨objects, rfl⟩, hs⟩ := start_eq programName loadPath argv
  obtain ⟨t, ht, _, _, hgrown, _⟩ := bindProgram_eq programName loadPath argv
    { bare programName with objects := objects }
  rw [hs] at ht
  cases ht
  exact hgrown

theorem classes_start (programName : String) (loadPath argv : List String) :
    (start programName loadPath argv).classes = Startup.classes.2 := by
  obtain ⟨s, ⟨objects, rfl⟩, hs⟩ := start_eq programName loadPath argv
  obtain ⟨t, ht, _, _, _, hclasses, _⟩ := bindProgram_eq programName loadPath argv
    { bare programName with objects := objects }
  rw [hs] at ht
  cases ht
  exact hclasses

/-- There are no symbols yet. -/
theorem symbols_start (programName : String) (loadPath argv : List String) :
    (start programName loadPath argv).symbols = .empty := by
  obtain ⟨s, ⟨objects, rfl⟩, hs⟩ := start_eq programName loadPath argv
  obtain ⟨t, ht, _, _, _, _, hsymbols⟩ := bindProgram_eq programName loadPath argv
    { bare programName with objects := objects }
  rw [hs] at ht
  cases ht
  exact hsymbols

end Interpreter

end Garnet
