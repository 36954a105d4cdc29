import Garnet.Proofs.Closure

/-!
# Scopes are left as they were entered

An evaluation that enters a call or a unit leaves it again, however the
evaluation ends: with a value, with an error, or with a fault in the middle of
it. So whatever is evaluated, the calls that are active afterwards are the
ones that were active before, and so is the present unit.

Nothing is assumed of the interpreter: not of its methods, which may run
further programs, and not of its names and globals.
-/

namespace Garnet

open Interpreter

/-- **Two interpreters in the same place**: the same calls are active in both,
and the same unit is being evaluated. -/
structure Interpreter.SameScopes (s t : Interpreter) : Prop where
  /-- The labels of the active calls are the same. -/
  stack : t.stack = s.stack
  /-- The present unit is the same. -/
  unitName : t.unitName = s.unitName

namespace Interpreter.SameScopes

variable {s t u : Interpreter}

theorem refl (s : Interpreter) : SameScopes s s :=
  ⟨rfl, rfl⟩

theorem trans (h : SameScopes s t) (k : SameScopes t u) : SameScopes s u :=
  ⟨k.stack.trans h.stack, k.unitName.trans h.unitName⟩

/-- No effect touches the scopes. -/
theorem of_effect (h : Effect s t) : SameScopes s t := by
  cases h with
  | fresh => exact ⟨rfl, rfl⟩
  | interned => exact ⟨rfl, rfl⟩
  | newArray => exact ⟨rfl, rfl⟩
  | newObject => exact ⟨rfl, rfl⟩
  | extended => exact ⟨rfl, rfl⟩
  | printed => exact ⟨rfl, rfl⟩

/-- No sequence of effects touches the scopes. -/
theorem of_effects (h : Effects s t) : SameScopes s t := by
  induction h with
  | refl => exact refl s
  | tail _ h ih => exact ih.trans (of_effect h)

end Interpreter.SameScopes

/-- **An evaluation that leaves the scopes as it found them**, however it
ends. -/
def KeepsScopes {α : Type} (m : Eval α) : Prop :=
  ∀ s : Interpreter, s.SameScopes (Outcome.state (m s))

namespace KeepsScopes

variable {α β : Type}

theorem ordinary (files : FileSystem) {m : Eval α} (h : Ordinary files m) : KeepsScopes m :=
  fun s => SameScopes.of_effects (h.effects s)

theorem throw (h : Halt) : KeepsScopes (throw h : Eval α) :=
  fun s => SameScopes.refl s

theorem bind {m : Eval α} {f : α → Eval β} (hm : KeepsScopes m)
    (hf : ∀ a, (∃ s t, m s = .ok a t) → KeepsScopes (f a)) : KeepsScopes (m >>= f) := by
  intro s
  have h := hm s
  cases hs : m s with
  | ok a s' =>
    rw [hs] at h
    rw [Outcome.bind_of_ok hs]
    exact h.trans (hf a ⟨s, s', hs⟩ s')
  | error e s' =>
    rw [hs] at h
    rw [Outcome.bind_of_error hs]
    exact h

/-- Handling an error starts from the scopes that the failure left, which are
those of the beginning. -/
theorem rescuing {m : Eval α} {handler : Error → Eval α} (hm : KeepsScopes m)
    (hh : ∀ e, KeepsScopes (handler e)) : KeepsScopes (rescuing m handler) := by
  intro s
  have h := hm s
  obtain ⟨e, t, hs⟩ | hs := Outcome.raised_or_not (m s)
  · rw [hs] at h
    rw [Outcome.rescuing_of_raised hs]
    exact h.trans (hh e t)
  · rw [Outcome.rescuing_of_not_raised hs]
    exact h

/-- What is undone after a failure must not touch the scopes itself. -/
theorem undoing {m : Eval α} {undo : Interpreter → Interpreter} (hm : KeepsScopes m)
    (hu : ∀ s : Interpreter, s.SameScopes (undo s)) : KeepsScopes (undoing undo m) := by
  intro s
  have h := hm s
  obtain ⟨e, t, hs⟩ | hs := Outcome.raised_or_not (m s)
  · rw [hs] at h
    rw [Outcome.undoing_of_raised hs]
    exact h.trans (hu t)
  · rw [Outcome.undoing_of_not_raised hs]
    exact h

/-- **A call is left as it was entered**: the innermost call that is removed
at the end is the one that was added. -/
theorem inFrame {label : String} {m : Eval α} (hm : KeepsScopes m) :
    KeepsScopes (inFrame label m) := by
  intro s
  have h := hm { s with stack := s.stack.push label }
  rw [Outcome.inFrame_eq, Outcome.state_mapState]
  -- removing the innermost call from the stack of the body gives back `s.stack`
  have hpop := (congrArg CallStack.pop h.stack).trans (CallStack.pop_push s.stack label)
  exact ⟨hpop, h.unitName⟩

/-- **A unit is left as it was entered.** -/
theorem inUnit {name : String} {m : Eval α} (hm : KeepsScopes m) :
    KeepsScopes (inUnit name m) := by
  intro s
  rw [Outcome.inUnit_eq, Outcome.state_mapState]
  exact ⟨(hm { s with unitName := name }).stack, rfl⟩

theorem assign (target : Node) (v : Value) : KeepsScopes (assign target v) := by
  cases target with
  | bareReference name => exact fun _ => ⟨rfl, rfl⟩
  | globalVariable name => exact fun _ => ⟨rfl, rfl⟩
  | _ => exact throw _

/-- A method definition changes the heap alone. -/
theorem define (name : String) : KeepsScopes (define name) := by
  intro s
  obtain ⟨e, hs⟩ | ⟨r, h, _, _, hs⟩ := define_eq name s
  · rw [hs]
    exact SameScopes.refl s
  · rw [hs]
    exact ⟨rfl, rfl⟩

/-- The note that a unit is loaded is taken back on the heap alone. -/
theorem of_unmarkLoaded (feature : String) (s : Interpreter) :
    s.SameScopes (unmarkLoaded feature s) := by
  unfold unmarkLoaded
  cases s.globalArray? "LOADED_FEATURES" with
  | some r => exact ⟨rfl, rfl⟩
  | none => exact SameScopes.refl s

/-- **No evaluation can change the scopes for good.** -/
theorem closed (host : Host) :
    Watched.Closed host Watched.Domain.all fun m => KeepsScopes m.eval where
  texts _ _ := trivial
  methods _ _ _ := trivial
  ordinary := ordinary host.files
  bind hm hf := bind hm fun a ⟨s, t, hs⟩ => hf a ⟨s, t, trivial, hs⟩
  rescuing := rescuing
  inFrame := inFrame
  inUnit := inUnit
  method _ h := h
  file h := h
  program _ h := h
  require :=
    Watched.require_of_undoing (fun m => KeepsScopes m.eval) (ordinary host.files)
      (fun hm hf => bind hm fun a _ => hf a) (fun hm => undoing hm (of_unmarkLoaded _)) inUnit
      (fun hm => hm) fun _ _ => trivial
  node _ h := h
  define _ := define _
  assignment _ h := by
    exact bind h fun v _ => bind (assign _ v) fun _ _ =>
      ordinary host.files (Ordinary.pure v)
  notEvaluated _ _ := throw _
  exhausted := throw _

end KeepsScopes

/-- Nodes leave the scopes as they find them. -/
theorem Interpreter.keepsScopes_evalAll (host : Host) (depth : Nat) (self last : Value)
    (ns : List Node) : KeepsScopes (evalAll host (run host depth) self last ns) := by
  have closed := KeepsScopes.closed host
  rw [← Watched.eval_run host depth, ← Watched.eval_evalAll]
  exact closed.evalAll (closed.run (fun _ => trivial) depth) self last ns fun _ _ => trivial

/-- **Guard balance**: however an evaluation ends – with a value, with an
error, or with a reason to halt that nothing in the program can catch – the
calls that are active afterwards are exactly those that were active before,
and the present unit is the same. This holds of programs, of files that are
run, required or loaded, and of single nodes and sequences of nodes, for every
receiver, however deeply calls, `begin` blocks and units are nested in them,
and whatever methods the interpreter has. -/
theorem scopes_are_restored (host : Host) (depth : Nat) :
    (∀ source, KeepsScopes (run host depth source)) ∧
    (∀ path, KeepsScopes (runFile host.files (run host depth) path)) ∧
    (∀ name, KeepsScopes (require host.files (run host depth) name)) ∧
    (∀ path, KeepsScopes (load host.files (run host depth) path)) ∧
    (∀ self last ns, KeepsScopes (evalAll host (run host depth) self last ns)) ∧
    (∀ self n, KeepsScopes (evalNode host (run host depth) self n)) := by
  have closed := KeepsScopes.closed host
  have hrun := closed.run (fun _ => trivial) depth
  rw [← Watched.eval_run host depth]
  refine ⟨fun source => hrun source trivial, fun path => ?_, fun name => ?_, fun path => ?_,
    fun self last ns => ?_, fun self n => ?_⟩
  · rw [← Watched.eval_runFile]
    exact closed.runFile hrun path
  · rw [← Watched.eval_require]
    exact closed.require hrun name
  · rw [← Watched.eval_load]
    exact closed.load hrun path
  · rw [← Watched.eval_evalAll]
    exact closed.evalAll hrun self last ns fun _ _ => trivial
  · rw [← Watched.eval_evalNode]
    exact closed.evalNode hrun self n fun _ _ => trivial

end Garnet
