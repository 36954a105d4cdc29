import Garnet.Proofs.Journal

/-!
# One induction for all evaluations

A statement about everything that happens in an evaluation is proved by
induction over the nodes of a tree, over the methods that come back to the
evaluator, and over the nesting of programs. This module does that induction
once.

`Watched.Closed` lists what has to be checked of a property of watched
evaluations, and `Watched.Closed.evalNode` and `Watched.Closed.run` draw the
conclusion for whole trees and whole programs. A `Domain` restricts what is
considered: only trees all of whose parts are in a set, only interpreters with
a property, only source texts with a property. The checks may assume this of
the node, the interpreter and the text at hand.

`require` is checked as a whole, because what it does before a unit is
evaluated – noting that the unit is loaded – and what it does afterwards –
taking the note back – only make sense together. Most properties do not care
about the note, and for them `Watched.require_of_undoing` is that check.
-/

namespace Garnet

open Interpreter

/-! ## What evaluations are made of

Everything but the definition of methods and assignments is ordinary. -/

namespace Interpreter

variable {name : String} {s : Interpreter}

theorem valueOf_of_some {v : Value} (h : s.find? name = some v) : valueOf name s = .ok v s := by
  unfold valueOf
  rw [Outcome.get_bind, h]
  rfl

theorem valueOf_of_none (h : s.find? name = none) :
    ∃ κ, valueOf name s = .error (.raised ((Error.ofKind κ).raisedAt s.stack)) s := by
  unfold valueOf
  rw [Outcome.get_bind, h]
  exact ⟨_, rfl⟩

/-- **What a method definition does**: it fails where it stands, or makes a
method that does nothing and enters it under its name into the table of a
class or of an object. -/
theorem define_cases (name : String) (s : Interpreter) :
    (∃ κ, define name s = .error (.raised ((Error.ofKind κ).raisedAt s.stack)) s) ∨
      ∃ r h, s.heap.newMethod ⟨name, .implicitReceiver, .doNothing⟩ = (r, h) ∧
        ((∃ c, define name s = .ok (.method r) { s with heap := h.defineMethod c r }) ∨
          ∃ o, define name s = .ok (.method r) { s with heap := h.defineObjectMethod o r }) := by
  cases hk : s.find? "Kernel" with
  | none =>
    obtain ⟨κ, hκ⟩ := valueOf_of_none hk
    exact Or.inl ⟨κ, Outcome.bind_of_error hκ⟩
  | some kernel =>
    -- methods are defined in classes and objects only
    cases kernel with
    | classValue c =>
      refine Or.inr ⟨_, _, rfl, Or.inl ⟨c, ?_⟩⟩
      exact (Outcome.bind_of_ok (valueOf_of_some hk)).trans rfl
    | object o =>
      refine Or.inr ⟨_, _, rfl, Or.inr ⟨o, ?_⟩⟩
      exact (Outcome.bind_of_ok (valueOf_of_some hk)).trans rfl
    | _ => exact Or.inl ⟨_, (Outcome.bind_of_ok (valueOf_of_some hk)).trans rfl⟩

/-- A method definition leaves the arrays alone. -/
theorem define_eq (name : String) (s : Interpreter) :
    (∃ e, define name s = .error (.raised e) s) ∨
      ∃ r h, h.arrays = s.heap.arrays ∧
        h.methods = s.heap.methods.push ⟨name, .implicitReceiver, .doNothing⟩ ∧
        define name s = .ok (.method r) { s with heap := h } := by
  obtain ⟨κ, hκ⟩ | ⟨r, h, hnew, ⟨c, hc⟩ | ⟨o, ho⟩⟩ := define_cases name s
  · exact Or.inl ⟨_, hκ⟩
  · refine Or.inr ⟨r, h.defineMethod c r, ?_, ?_, hc⟩
    · exact congrArg (·.2.arrays) hnew.symm
    · exact congrArg (·.2.methods) hnew.symm
  · refine Or.inr ⟨r, h.defineObjectMethod o r, ?_, ?_, ho⟩
    · exact congrArg (·.2.arrays) hnew.symm
    · exact congrArg (·.2.methods) hnew.symm

/-- Text that was read is that of an entry of the file system. -/
theorem lookup_of_readText {files : FileSystem} {path source : String} {t : Interpreter}
    (h : readText files path s = .ok (.ok source) t) :
    ∃ place entry, files.lookup path = .found place entry ∧ entry.text = .ok source := by
  unfold readText at h
  cases hl : files.lookup path with
  | found place entry =>
    rw [hl] at h
    injection h with htext
    exact ⟨place, entry, rfl, htext⟩
  | failed e =>
    rw [hl] at h
    injection h with h
    cases h
  | unexplored place =>
    rw [hl] at h
    cases h

/-- What can be called was found under its name, in the interpreter as it
stands. -/
theorem method?_of_callable {receiver : Value} {func : String} {hasTarget : Bool} {m : Method}
    {t : Interpreter} (h : callable receiver func hasTarget s = .ok m t) :
    ∃ r, s.method? receiver func = some r ∧ m = s.heap.method r := by
  unfold callable at h
  split at h
  · cases h
  · rw [Outcome.get_bind] at h
    cases hm : s.method? receiver func with
    | none =>
      rw [hm] at h
      cases h
    | some r =>
      rw [hm] at h
      dsimp only at h
      split at h
      · cases h
      · cases h
        exact ⟨r, rfl, rfl⟩

end Interpreter

namespace Ordinary

variable {files : FileSystem}

theorem globalValue (name : String) : Ordinary files (globalValue name) :=
  bind get fun _ => pure _

theorem reference (self : Value) (name : String) :
    Ordinary files (reference self name) := by
  unfold Interpreter.reference
  refine ite (fun _ => pure _) fun _ => ?_
  refine ite (fun _ => pure _) fun _ => bind get fun s => ?_
  split
  · exact pure _
  · exact raise _

theorem callable (receiver : Value) (func : String)
    (hasTarget : Bool) : Ordinary files (callable receiver func hasTarget) := by
  unfold Interpreter.callable
  refine ite (fun _ => raise _) fun _ => bind get fun s => ?_
  split
  · exact raise _
  · exact ite (fun _ => raise _) fun _ => pure _

end Ordinary

namespace Watched

variable {α β : Type}

/-! ## The checks and the induction -/

/-- **What evaluations are considered.** -/
structure Domain where
  /-- The nodes that are evaluated. -/
  nodes : Node → Prop
  /-- The interpreters in which something is evaluated. -/
  interpreters : Interpreter → Prop
  /-- The source texts that are run. -/
  sources : String → Prop

/-- All evaluations. -/
def Domain.all : Domain :=
  ⟨fun _ => True, fun _ => True, fun _ => True⟩

/-- **Requiring a unit**, for a property that taking back the note for a unit
keeps: what is left is an ordinary search, and running the text that it
finds. -/
theorem require_of_undoing {files : FileSystem} {S : String → Prop}
    (Φ : ∀ {α : Type}, Watched α → Prop)
    (hordinary : ∀ {α : Type} {m : Eval α}, Ordinary files m → Φ (quietly m))
    (hbind : ∀ {α β : Type} {m : Watched α} {f : α → Watched β}, Φ m → (∀ a, Φ (f a)) →
      Φ (m >>= f))
    (hundoing : ∀ {p : String} {m : Watched Value}, Φ m → Φ (undoing (unmarkLoaded p) m))
    (hinUnit : ∀ {name : String} {m : Watched Value}, Φ m → Φ (inUnit name m))
    (hnoting : ∀ {name : String} {m : Watched Value}, Φ m → Φ (noting (.require name) m))
    (htexts : ∀ {path : String} {place : Place} {entry : Entry} {source : String},
      files.lookup path = .found place entry → entry.text = .ok source → S source)
    {run : String → Watched Value} (hrun : ∀ source, S source → Φ (run source)) (name : String) :
    Φ (require files run name) := by
  unfold Watched.require
  refine hnoting ?_
  split
  · exact hordinary (Ordinary.pure _)
  refine hbind (hordinary Ordinary.get) fun s => ?_
  cases hfound : search files (unitFile name) s.loadPath with
  | nothing => exact hordinary (Ordinary.raise _)
  | unexplored place => exact hordinary (Ordinary.throw (complete_eq_false_of_search hfound))
  | file path place bytes =>
    dsimp only
    split
    · exact hordinary (Ordinary.pure _)
    cases htext : (Entry.file bytes).text with
    | error e => exact hordinary (Ordinary.raise _)
    | ok source =>
      refine hbind (hordinary (Ordinary.markLoaded _)) fun _ => ?_
      refine hbind (hundoing (hinUnit (hrun source ?_))) fun _ => hordinary (Ordinary.pure _)
      exact htexts (lookup_of_search hfound) htext

/-- **A property that the evaluator cannot leave**, for the evaluations of a
domain: it holds of the steps an evaluation is made of, and composing
evaluations keeps it. -/
structure Closed (host : Host) (D : Domain) (Φ : ∀ {α : Type}, Watched α → Prop) : Prop where
  /-- The texts of files are in the domain. -/
  texts : ∀ {path : String} {place : Place} {entry : Entry} {source : String},
    host.files.lookup path = .found place entry → entry.text = .ok source → D.sources source
  /-- So are the texts that methods of interpreters in the domain run. -/
  methods : ∀ {s t : Interpreter} {receiver : Value} {func : String} {hasTarget : Bool}
    {m : Method} {source : String}, D.interpreters s →
    callable receiver func hasTarget s = .ok m t → m.body = .runProgram source → D.sources source
  /-- Computations that run no source text. -/
  ordinary : ∀ {α : Type} {m : Eval α}, Ordinary host.files m → Φ (quietly m)
  /-- One evaluation after another. -/
  bind : ∀ {α β : Type} {m : Watched α} {f : α → Watched β}, Φ m →
    (∀ a, (∃ s t, D.interpreters s ∧ m.eval s = .ok a t) → Φ (f a)) → Φ (m >>= f)
  /-- Handling errors. -/
  rescuing : ∀ {α : Type} {m : Watched α} {handler : Error → Watched α}, Φ m →
    (∀ e, Φ (handler e)) → Φ (rescuing m handler)
  /-- A further call. -/
  inFrame : ∀ {α : Type} {label : String} {m : Watched α}, Φ m → Φ (inFrame label m)
  /-- Another present unit. -/
  inUnit : ∀ {α : Type} {name : String} {m : Watched α}, Φ m → Φ (inUnit name m)
  /-- The body of a method that was found for a call. -/
  method : ∀ {run : String → Watched Value} {m : Method} {receiver : Value} {args : List Value},
    (∃ s func hasTarget t, D.interpreters s ∧ callable receiver func hasTarget s = .ok m t) →
    Φ (callBody host run m.body receiver args) →
    Φ (noting (.method m receiver args) (callBody host run m.body receiver args))
  /-- The evaluation of a file. -/
  file : ∀ {path : String} {m : Watched Value}, Φ m → Φ (noting (.file path) m)
  /-- The evaluation of a source text. -/
  program : ∀ {source : String} {m : Watched Value}, D.sources source → Φ m →
    Φ (noting (.program source) m)
  /-- The evaluation of a unit, as a whole. -/
  require : ∀ {run : String → Watched Value}, (∀ source, D.sources source → Φ (run source)) →
    ∀ name, Φ (require host.files run name)
  /-- The evaluation of a node that consists of other evaluations. -/
  node : ∀ {self : Value} {n : Node} {m : Watched Value}, D.nodes n → Φ m →
    Φ (noting (.node self n) m)
  /-- The definition of a method. -/
  define : ∀ {self : Value} {name : String} {params : List String} {body : List Node},
    D.nodes (.funcDecl name params body) →
    Φ (noting (.node self (.funcDecl name params body)) (quietly (define name)))
  /-- An assignment. -/
  assignment : ∀ {self : Value} {lhs rhs : Node} {m : Watched Value},
    D.nodes (.assignment lhs rhs) → Φ m → Φ (noting (.node self (.assignment lhs rhs)) do
      let v ← m
      quietly (assign lhs v)
      return v)
  /-- A node that has no meaning. -/
  notEvaluated : ∀ {self : Value} {n : Node}, D.nodes n → n.isEvaluable = false →
    Φ (noting (.node self n) (quietly (throw (.fault (.notEvaluated n.kindName)))))
  /-- Programs that are nested too deep. -/
  exhausted : Φ (quietly (throw .exhausted) : Watched Value)

namespace Closed

variable {host : Host} {D : Domain} {Φ : ∀ {α : Type}, Watched α → Prop}

theorem pure (h : Closed host D Φ) (a : α) : Φ (Pure.pure a : Watched α) :=
  h.ordinary (Ordinary.pure a)

/-- Text that was read from a file is in the domain. -/
theorem sources_of_readText (h : Closed host D Φ) {path source : String} {s t : Interpreter}
    (hs : readText host.files path s = .ok (.ok source) t) : D.sources source := by
  obtain ⟨place, entry, hl, htext⟩ := lookup_of_readText hs
  exact h.texts hl htext

section Sources

variable (h : Closed host D Φ) {run : String → Watched Value}
  (hrun : ∀ source, D.sources source → Φ (run source))

include h hrun

/-- The evaluation of a file. -/
theorem load (path : String) : Φ (load host.files run path) := by
  refine h.file (h.bind (h.ordinary (Ordinary.readText path)) fun r hr => ?_)
  cases r with
  | error e => exact h.ordinary (Ordinary.raise _)
  | ok source =>
    obtain ⟨s, t, _, hs⟩ := hr
    exact h.bind (h.inUnit (hrun source (h.sources_of_readText hs))) fun _ _ => h.pure _

/-- The evaluation of a file as a program. -/
theorem runFile (path : String) : Φ (runFile host.files run path) := by
  refine h.file (h.bind (h.ordinary (Ordinary.readText path)) fun r hr => ?_)
  cases r with
  | error e => exact h.ordinary (Ordinary.raise _)
  | ok source =>
    obtain ⟨s, t, _, hs⟩ := hr
    exact h.inUnit (hrun source (h.sources_of_readText hs))

/-- The body of every method that runs texts of the domain only. -/
theorem callBody {body : MethodBody} (hbody : ∀ source, body = .runProgram source →
    D.sources source) (receiver : Value) (args : List Value) :
    Φ (callBody host run body receiver args) := by
  cases hruns : body.runsText with
  | false =>
    rw [Watched.callBody_eq_quietly host run hruns]
    exact h.ordinary (Ordinary.method hruns host _ receiver args)
  | true =>
    obtain rfl | rfl | ⟨source, rfl⟩ := MethodBody.eq_of_runsText hruns
    · exact h.bind (h.ordinary (Ordinary.onlyText args)) fun name _ => h.require hrun name
    · exact h.bind (h.ordinary (Ordinary.onlyText args)) fun path _ => h.load hrun path
    · exact hrun _ (hbody _ rfl)

/-- **The call of a method that was found.** -/
theorem invoke {receiver : Value} {func : String} {hasTarget : Bool} {m : Method}
    (hm : ∃ s t, D.interpreters s ∧ callable receiver func hasTarget s = .ok m t)
    (args : List Value) : Φ (invoke host run func m receiver args) := by
  obtain ⟨s, t, hs, hm⟩ := hm
  have hbody := h.callBody hrun (fun _ => h.methods hs hm) receiver args
  exact h.inFrame (h.method ⟨s, func, hasTarget, t, hs, hm⟩ hbody)

end Sources

section Nodes

variable {run : String → Watched Value}

mutual

/-- **Every tree whose parts are in the domain.** -/
theorem evalNode (h : Closed host D Φ) (hrun : ∀ source, D.sources source → Φ (run source))
    (self : Value) : (n : Node) → (∀ k ∈ n.parts, D.nodes k) → Φ (evalNode host run self n)
  | .call none func args, hP => by
    rw [Watched.evalNode]
    refine h.node (hP _ (Node.mem_parts_self _)) ?_
    refine h.bind (h.ordinary (Ordinary.callable _ _ _)) fun m hm => ?_
    refine h.bind (h.evalEach hrun self args fun k hk => hP k ?_) fun vs _ => h.invoke hrun hm vs
    rw [Node.parts]
    exact List.mem_cons_of_mem _ hk
  | .call (some target) func args, hP => by
    rw [Watched.evalNode]
    refine h.node (hP _ (Node.mem_parts_self _)) ?_
    refine h.bind (h.evalNode hrun self target fun k hk => hP k ?_) fun receiver _ => ?_
    · rw [Node.parts]
      exact List.mem_cons_of_mem _ (List.mem_append_left _ hk)
    refine h.bind (h.ordinary (Ordinary.callable _ _ _)) fun m hm => ?_
    refine h.bind (h.evalEach hrun self args fun k hk => hP k ?_) fun vs _ => h.invoke hrun hm vs
    rw [Node.parts]
    exact List.mem_cons_of_mem _ (List.mem_append_right _ hk)
  | .assignment lhs rhs, hP => by
    rw [Watched.evalNode]
    -- the left side is no part of an assignment: it is never evaluated
    refine h.assignment (hP _ (Node.mem_parts_self _)) ?_
    refine h.evalNode hrun self rhs fun k hk => hP k ?_
    rw [Node.parts]
    exact List.mem_cons_of_mem _ hk
  | .ifBlock condition body orElse, hP => by
    rw [Watched.evalNode]
    rw [Node.parts] at hP
    refine h.node (hP _ List.mem_cons_self) ?_
    split
    · refine h.evalAll hrun self .nil body fun k hk => hP k ?_
      exact List.mem_cons_of_mem _ (List.mem_append_left _ hk)
    · refine h.evalAll hrun self .nil orElse fun k hk => hP k ?_
      exact List.mem_cons_of_mem _ (List.mem_append_right _ hk)
  | .beginBlock body rescues, hP => by
    rw [Watched.evalNode]
    rw [Node.parts] at hP
    refine h.node (hP _ List.mem_cons_self) (h.rescuing ?_ fun e => ?_)
    · refine h.evalAll hrun self .nil body fun k hk => hP k ?_
      exact List.mem_cons_of_mem _ (List.mem_append_left _ hk)
    · refine h.evalRescues hrun self e.kind.toS rescues (fun k hk => hP k ?_) e
      exact List.mem_cons_of_mem _ (List.mem_append_right _ hk)
  | .funcDecl name params body, hP => by
    rw [Watched.evalNode]
    exact h.define (hP _ (Node.mem_parts_self _))
  | .classDecl name superclass body, hP => by
    rw [Watched.evalNode]
    exact h.notEvaluated (hP _ (Node.mem_parts_self _)) rfl
  | .returnValue value, hP => by
    rw [Watched.evalNode]
    exact h.notEvaluated (hP _ (Node.mem_parts_self _)) rfl
  | .simpleString s, hP | .interpolatedString s, hP => by
    rw [Watched.evalNode]
    exact h.node (hP _ (Node.mem_parts_self _)) (h.ordinary (Ordinary.newString s))
  | .int _, hP | .float _, hP | .boolean _, hP => by
    rw [Watched.evalNode]
    exact h.node (hP _ (Node.mem_parts_self _)) (h.pure _)
  | .globalVariable name, hP => by
    rw [Watched.evalNode]
    exact h.node (hP _ (Node.mem_parts_self _)) (h.ordinary (Ordinary.globalValue name))
  | .symbol name, hP => by
    rw [Watched.evalNode]
    exact h.node (hP _ (Node.mem_parts_self _)) (h.ordinary (Ordinary.intern name))
  | .bareReference name, hP => by
    rw [Watched.evalNode]
    exact h.node (hP _ (Node.mem_parts_self _)) (h.ordinary (Ordinary.reference self name))
  | .fileName, hP => by
    rw [Watched.evalNode]
    refine h.node (hP _ (Node.mem_parts_self _)) (h.ordinary ?_)
    exact Ordinary.bind Ordinary.get fun s => Ordinary.newString _

/-- Every sequence of nodes whose parts are in the domain. -/
theorem evalAll (h : Closed host D Φ) (hrun : ∀ source, D.sources source → Φ (run source))
    (self last : Value) : (ns : List Node) → (∀ k ∈ Node.partsOfAll ns, D.nodes k) →
    Φ (evalAll host run self last ns)
  | [], _ => by
    rw [Watched.evalAll]
    exact h.pure last
  | n :: ns, hP => by
    rw [Watched.evalAll]
    rw [Node.partsOfAll] at hP
    refine h.bind (h.evalNode hrun self n fun k hk => hP k ?_) fun v _ => ?_
    · exact List.mem_append_left _ hk
    · exact h.evalAll hrun self v ns fun k hk => hP k (List.mem_append_right _ hk)

/-- Every list of arguments whose parts are in the domain. -/
theorem evalEach (h : Closed host D Φ) (hrun : ∀ source, D.sources source → Φ (run source))
    (self : Value) : (ns : List Node) → (∀ k ∈ Node.partsOfAll ns, D.nodes k) →
    Φ (evalEach host run self ns)
  | [], _ => by
    rw [Watched.evalEach]
    exact h.pure []
  | n :: ns, hP => by
    rw [Watched.evalEach]
    rw [Node.partsOfAll] at hP
    refine h.bind (h.evalNode hrun self n fun k hk => hP k ?_) fun v _ => ?_
    · exact List.mem_append_left _ hk
    refine h.bind (h.evalEach hrun self ns fun k hk => hP k ?_) fun vs _ => h.pure (v :: vs)
    exact List.mem_append_right _ hk

/-- Every list of clauses whose parts are in the domain. -/
theorem evalRescues (h : Closed host D Φ) (hrun : ∀ source, D.sources source → Φ (run source))
    (self : Value) (raised : String) : (rs : List RescueClause) →
    (∀ k ∈ Node.partsOfRescues rs, D.nodes k) → ∀ e, Φ (evalRescues host run self raised rs e)
  | [], _, e => by
    rw [Watched.evalRescues]
    exact h.ordinary (Ordinary.throw trivial)
  | .mk className body :: rest, hP, e => by
    rw [Watched.evalRescues]
    rw [Node.partsOfRescues] at hP
    have hrest := h.evalRescues hrun self raised rest fun k hk => hP k (List.mem_append_right _ hk)
    split
    · refine h.rescuing ?_ hrest
      exact h.evalAll hrun self .nil body fun k hk => hP k (List.mem_append_left _ hk)
    · exact hrest e

end

end Nodes

/-- **Every program**, for a property that does not restrict the nodes. -/
theorem run (h : Closed host D Φ) (hnodes : ∀ n, D.nodes n) (depth : Nat) (source : String)
    (hsource : D.sources source) : Φ (run host depth source) := by
  induction depth generalizing source with
  | zero => exact h.exhausted
  | succ depth ih =>
    rw [Watched.run]
    -- `ih` is about the texts that the nodes of this one run
    refine h.program hsource (h.bind (h.ordinary Ordinary.get) fun s _ => ?_)
    split
    · exact h.ordinary (Ordinary.raise _)
    · exact h.inFrame (h.evalAll ih s.main .nil _ fun n _ => hnodes n)

end Closed

end Watched

end Garnet
