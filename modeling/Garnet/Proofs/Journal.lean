import Garnet.Interpreter.Evaluation
import Garnet.Proofs.Effects
import Garnet.Proofs.Trees

/-!
# The journal of an evaluation

What a program computes does not tell which evaluations took place inside it:
which nodes were evaluated, which units were required, and what came out of
that. The **watched** evaluator of this module writes a journal of them. An
**episode** of the journal is an evaluation that took place, with the
interpreter before it, its outcome, and the episodes inside it; the journal of
an evaluation lists them in the order in which they ended.

Watching changes nothing: what the watched evaluator computes is what the
evaluator computes (`Watched.eval_evalNode`, `Watched.eval_run`).
-/

namespace Garnet

open Interpreter

/-- **What can be evaluated.** -/
inductive Activity where
  /-- A node, against a receiver. -/
  | node (self : Value) (n : Node)
  /-- The body of a method, inside its call. -/
  | method (m : Method) (receiver : Value) (args : List Value)
  /-- A source text. -/
  | program (source : String)
  /-- A unit that was not loaded before. -/
  | require (name : String)
  /-- The file at a path, whether it is loaded or run. -/
  | file (path : String)

/-- **An evaluation that took place.** -/
structure Episode where
  /-- What was evaluated. -/
  activity : Activity
  /-- The interpreter before. -/
  before : Interpreter
  /-- The outcome. -/
  outcome : EStateM.Result Halt Interpreter Value
  /-- The episodes inside this one, in the order in which they ended. -/
  parts : List Episode

/-- The interpreter after an episode. -/
def Episode.after (e : Episode) : Interpreter :=
  Outcome.state e.outcome

/-- **A watched evaluation**: an evaluation, and its journal from every
interpreter. -/
structure Watched (α : Type) where
  /-- The evaluation. -/
  eval : Eval α
  /-- What takes place in it. -/
  journal : Interpreter → List Episode

namespace Watched

variable {α β : Type}

/-! ## Composing watched evaluations -/

instance : Monad Watched where
  pure a := ⟨pure a, fun _ => []⟩
  bind m f :=
    ⟨m.eval >>= fun a => (f a).eval, fun s =>
      m.journal s ++ match m.eval s with
        | .ok a s' => (f a).journal s'
        | .error _ _ => []⟩

/-- An evaluation in which nothing happens that the journal notes. -/
def quietly (m : Eval α) : Watched α :=
  ⟨m, fun _ => []⟩

/-- An evaluation that the journal notes as an episode. -/
def noting (a : Activity) (m : Watched Value) : Watched Value :=
  ⟨m.eval, fun s => m.journal s ++ [⟨a, s, m.eval s, m.journal s⟩]⟩

/-- A watched evaluation inside a further call. -/
def inFrame (label : String) (m : Watched α) : Watched α :=
  ⟨Interpreter.inFrame label m.eval, fun s =>
    m.journal { s with stack := s.stack.push label }⟩

/-- A watched evaluation with another unit as the present one. -/
def inUnit (name : String) (m : Watched α) : Watched α :=
  ⟨Interpreter.inUnit name m.eval, fun s => m.journal { s with unitName := name }⟩

/-- A watched evaluation whose errors are handled. -/
def rescuing (m : Watched α) (handler : Error → Watched α) : Watched α :=
  ⟨Interpreter.rescuing m.eval fun e => (handler e).eval, fun s =>
    m.journal s ++ match m.eval s with
      | .error (.raised e) s' => (handler e).journal s'
      | _ => []⟩

/-- A watched evaluation whose failure changes the interpreter. -/
def undoing (undo : Interpreter → Interpreter) (m : Watched α) : Watched α :=
  ⟨Interpreter.undoing undo m.eval, m.journal⟩

@[simp] theorem eval_pure (a : α) : (pure a : Watched α).eval = pure a := rfl

@[simp] theorem eval_bind (m : Watched α) (f : α → Watched β) :
    (m >>= f).eval = m.eval >>= fun a => (f a).eval := rfl

@[simp] theorem eval_quietly (m : Eval α) : (quietly m).eval = m := rfl

@[simp] theorem eval_noting (a : Activity) (m : Watched Value) : (noting a m).eval = m.eval := rfl

@[simp] theorem eval_inFrame (label : String) (m : Watched α) :
    (inFrame label m).eval = Interpreter.inFrame label m.eval := rfl

@[simp] theorem eval_inUnit (name : String) (m : Watched α) :
    (inUnit name m).eval = Interpreter.inUnit name m.eval := rfl

@[simp] theorem eval_rescuing (m : Watched α) (handler : Error → Watched α) :
    (rescuing m handler).eval = Interpreter.rescuing m.eval fun e => (handler e).eval := rfl

@[simp] theorem eval_undoing (undo : Interpreter → Interpreter) (m : Watched α) :
    (undoing undo m).eval = Interpreter.undoing undo m.eval := rfl

/-- An episode stands after the episodes inside it. -/
theorem journal_noting (a : Activity) (m : Watched Value) (s : Interpreter) :
    (noting a m).journal s = m.journal s ++ [⟨a, s, m.eval s, m.journal s⟩] := rfl

section Stretches

variable {m : Watched α} {s t : Interpreter}

/-- What takes place up to a value, and after it. -/
theorem journal_bind_of_ok {f : α → Watched β} {a : α} (h : m.eval s = .ok a t) :
    (m >>= f).journal s = m.journal s ++ (f a).journal t := by
  show m.journal s ++ (match m.eval s with
    | .ok a s' => (f a).journal s'
    | .error _ _ => []) = _
  rw [h]

/-- Nothing takes place after an evaluation has halted. -/
theorem journal_bind_of_error {f : α → Watched β} {e : Halt} (h : m.eval s = .error e t) :
    (m >>= f).journal s = m.journal s := by
  show m.journal s ++ (match m.eval s with
    | .ok a s' => (f a).journal s'
    | .error _ _ => []) = _
  rw [h]
  exact List.append_nil _

/-- What takes place up to an error, and when it is handled. -/
theorem journal_rescuing_of_raised {handler : Error → Watched α} {e : Error}
    (h : m.eval s = .error (.raised e) t) :
    (rescuing m handler).journal s = m.journal s ++ (handler e).journal t := by
  show m.journal s ++ (match m.eval s with
    | .error (.raised e) s' => (handler e).journal s'
    | _ => []) = _
  rw [h]

/-- Where no error is raised, none is handled. -/
theorem journal_rescuing_of_not_raised {handler : Error → Watched α}
    (h : ∀ e t, m.eval s ≠ .error (.raised e) t) :
    (rescuing m handler).journal s = m.journal s := by
  show m.journal s ++ (match m.eval s with
    | .error (.raised e) s' => (handler e).journal s'
    | _ => []) = _
  split
  · next hm => exact absurd hm (h _ _)
  · exact List.append_nil _

end Stretches

/-! ## Watching the evaluator

Every definition below is the one of the evaluator with the same name, with
its episodes noted. -/

section Loading

variable (files : FileSystem) (run : String → Watched Value)

/-- Evaluates a unit that was not loaded before, watched. -/
def require (name : String) : Watched Value :=
  noting (.require name) do
    if name = builtinFeature then return .false
    let s ← quietly get
    match search files (unitFile name) s.loadPath with
    | .nothing => quietly (raise (.load name))
    | .unexplored place => quietly (throw (.unexplored place))
    | .file path place bytes =>
      if s.isLoaded place.path then return .false
      match (Entry.file bytes).text with
      | .error e => quietly (raise (.loadRead name e.message))
      | .ok source => do
        quietly (markLoaded place.path)
        let _ ← undoing (unmarkLoaded place.path) (inUnit path (run source))
        return .true

/-- Evaluates the file at a path, watched. -/
def load (path : String) : Watched Value :=
  noting (.file path) do
    match ← quietly (readText files path) with
    | .error _ => quietly (raise (.load path))
    | .ok source => do
      let _ ← inUnit path (run source)
      return .true

/-- Evaluates the file at a path as a program, watched. -/
def runFile (path : String) : Watched Value :=
  noting (.file path) do
    match ← quietly (readText files path) with
    | .error e => quietly (raise (.loadRead path e.message))
    | .ok source => inUnit path (run source)

theorem eval_require (name : String) :
    (require files run name).eval
      = Interpreter.require files (fun source => (run source).eval) name := by
  unfold require Interpreter.require
  rw [eval_noting]
  split
  · rfl
  · rw [eval_bind]
    refine congrArg _ (funext fun s => ?_)
    -- both sides look at the same outcome of the same search
    generalize search files (unitFile name) s.loadPath = found
    cases found with
    | nothing => rfl
    | unexplored place => rfl
    | file path place bytes =>
      dsimp only
      cases s.isLoaded place.path with
      | true => rfl
      | false =>
        generalize (Entry.file bytes).text = text
        cases text with
        | error e => rfl
        | ok source => rfl

theorem eval_load (path : String) :
    (load files run path).eval
      = Interpreter.load files (fun source => (run source).eval) path := by
  unfold load Interpreter.load
  rw [eval_noting, eval_bind]
  refine congrArg _ (funext fun r => ?_)
  cases r with
  | error e => rfl
  | ok source => rfl

theorem eval_runFile (path : String) :
    (runFile files run path).eval
      = Interpreter.runFile files (fun source => (run source).eval) path := by
  unfold runFile Interpreter.runFile
  rw [eval_noting, eval_bind]
  refine congrArg _ (funext fun r => ?_)
  cases r with
  | error e => rfl
  | ok source => rfl

end Loading

section Nodes

variable (host : Host) (run : String → Watched Value) (self : Value)

/-- What a method does, watched; only methods that run source texts come back
to the evaluator. -/
def callBody (body : MethodBody) (receiver : Value) (args : List Value) : Watched Value :=
  match body with
  | .builtin (.main .require) => do
    let name ← quietly (onlyText args)
    require host.files run name
  | .builtin (.main .load) => do
    let path ← quietly (onlyText args)
    load host.files run path
  | .runProgram source => run source
  | body => quietly (body.call host (fun source => (run source).eval) receiver args)

/-- The body of a method that runs no text is what the evaluator makes of it. -/
theorem callBody_eq_quietly {body : MethodBody} (hruns : body.runsText = false)
    (receiver : Value) (args : List Value) :
    callBody host run body receiver args
      = quietly (body.call host (fun source => (run source).eval) receiver args) := by
  unfold callBody
  split
  · cases hruns
  · cases hruns
  · cases hruns
  · rfl

/-- The call of a method under a label, watched. -/
def invoke (label : String) (m : Method) (receiver : Value) (args : List Value) : Watched Value :=
  inFrame label (noting (.method m receiver args) (callBody host run m.body receiver args))

mutual

/-- The value of a node, watched. -/
def evalNode (n : Node) : Watched Value :=
  noting (.node self n) <| match n with
    | .simpleString s => quietly (newString s)
    | .interpolatedString s => quietly (newString s)
    | .int n => return .int n
    | .float x => return .float x
    | .boolean b => return .ofBool b
    | .globalVariable name => quietly (globalValue name)
    | .symbol name => quietly (intern name)
    | .bareReference name => quietly (reference self name)
    | .fileName => quietly (do newString (← get).unitName)
    | .funcDecl name _ _ => quietly (define name)
    | .call none func args => do
      let m ← quietly (callable self func false)
      let vs ← evalEach args
      invoke host run func m self vs
    | .call (some target) func args => do
      let receiver ← evalNode target
      let m ← quietly (callable receiver func true)
      let vs ← evalEach args
      invoke host run func m receiver vs
    | .assignment lhs rhs => do
      let v ← evalNode rhs
      quietly (assign lhs v)
      return v
    | .ifBlock condition body orElse =>
      if condition.holds then evalAll .nil body else evalAll .nil orElse
    | .beginBlock body rescues =>
      rescuing (evalAll .nil body) fun e => evalRescues e.kind.toS rescues e
    | .classDecl .. => quietly (throw (.fault (.notEvaluated "ClassDecl")))
    | .returnValue _ => quietly (throw (.fault (.notEvaluated "Return")))

/-- The value of the last of some nodes, watched. -/
def evalAll (last : Value) : List Node → Watched Value
  | [] => return last
  | n :: ns => do
    let v ← evalNode n
    evalAll v ns

/-- The values of nodes, watched. -/
def evalEach : List Node → Watched (List Value)
  | [] => return []
  | n :: ns => do
    let v ← evalNode n
    let vs ← evalEach ns
    return v :: vs

/-- The value of the first clause for an error that succeeds, watched. -/
def evalRescues (raised : String) : List RescueClause → Error → Watched Value
  | [], e => quietly (throw (.raised e))
  | .mk className body :: rest, e =>
    if className = raised then rescuing (evalAll .nil body) (evalRescues raised rest)
    else evalRescues raised rest e

end

theorem eval_callBody (body : MethodBody) (receiver : Value) (args : List Value) :
    (callBody host run body receiver args).eval
      = body.call host (fun source => (run source).eval) receiver args := by
  unfold callBody
  split
  · rw [eval_bind]
    exact congrArg _ (funext fun name => eval_require host.files run name)
  · rw [eval_bind]
    exact congrArg _ (funext fun path => eval_load host.files run path)
  · rfl
  · rfl

theorem eval_invoke (label : String) (m : Method) (receiver : Value) (args : List Value) :
    (invoke host run label m receiver args).eval
      = Interpreter.inFrame label
          (m.body.call host (fun source => (run source).eval) receiver args) := by
  rw [invoke, eval_inFrame, eval_noting, eval_callBody]

mutual

/-- **Watching does not change the value of a node.** -/
theorem eval_evalNode : (n : Node) →
    (evalNode host run self n).eval
      = Interpreter.evalNode host (fun source => (run source).eval) self n
  | .call none func args => by
    rw [evalNode, Interpreter.evalNode, eval_noting]
    dsimp only [eval_bind, eval_quietly]
    rw [eval_evalEach args]
    simp only [eval_invoke]
  | .call (some target) func args => by
    rw [evalNode, Interpreter.evalNode, eval_noting]
    dsimp only [eval_bind, eval_quietly]
    rw [eval_evalNode target, eval_evalEach args]
    simp only [eval_invoke]
  | .assignment lhs rhs => by
    rw [evalNode, Interpreter.evalNode, eval_noting, eval_bind, eval_evalNode rhs]
    rfl
  | .ifBlock condition body orElse => by
    rw [evalNode, Interpreter.evalNode, eval_noting]
    -- the condition is looked at, not evaluated
    split
    · exact eval_evalAll .nil body
    · exact eval_evalAll .nil orElse
  | .beginBlock body rescues => by
    rw [evalNode, Interpreter.evalNode, eval_noting, eval_rescuing, eval_evalAll .nil body]
    exact congrArg _ (funext fun e => eval_evalRescues e.kind.toS rescues e)
  | .simpleString _ | .interpolatedString _ | .int _ | .float _ | .boolean _
  | .globalVariable _ | .symbol _ | .bareReference _ | .fileName | .funcDecl _ _ _
  | .classDecl _ _ _ | .returnValue _ => by
    rw [evalNode, Interpreter.evalNode]
    rfl

/-- Watching does not change the value of a sequence. -/
theorem eval_evalAll (last : Value) : (ns : List Node) →
    (evalAll host run self last ns).eval
      = Interpreter.evalAll host (fun source => (run source).eval) self last ns
  | [] => by
    rw [evalAll, Interpreter.evalAll]
    rfl
  | n :: ns => by
    rw [evalAll, Interpreter.evalAll, eval_bind, eval_evalNode n]
    exact congrArg _ (funext fun v => eval_evalAll v ns)

/-- Watching does not change the values of arguments. -/
theorem eval_evalEach : (ns : List Node) →
    (evalEach host run self ns).eval
      = Interpreter.evalEach host (fun source => (run source).eval) self ns
  | [] => by
    rw [evalEach, Interpreter.evalEach]
    rfl
  | n :: ns => by
    rw [evalEach, Interpreter.evalEach, eval_bind, eval_evalNode n]
    dsimp only [eval_bind, eval_pure]
    rw [eval_evalEach ns]

/-- Watching does not change what `rescue` clauses do. -/
theorem eval_evalRescues (raised : String) : (rs : List RescueClause) → (e : Error) →
    (evalRescues host run self raised rs e).eval
      = Interpreter.evalRescues host (fun source => (run source).eval) self raised rs e
  | [], e => by
    rw [evalRescues, Interpreter.evalRescues]
    rfl
  | .mk className body :: rest, e => by
    rw [evalRescues, Interpreter.evalRescues]
    split
    · rw [eval_rescuing, eval_evalAll .nil body]
      exact congrArg _ (funext fun e => eval_evalRescues raised rest e)
    · exact eval_evalRescues raised rest e

end

end Nodes

/-- Runs a source text, watched. -/
def run (host : Host) : Nat → String → Watched Value
  | 0, _ => quietly (throw .exhausted)
  | depth + 1, source =>
    noting (.program source) do
      let s ← quietly get
      match parse source with
      | .error e => quietly (raise (.parse s.unitName e.message))
      | .ok nodes => inFrame "main" (evalAll host (run host depth) s.main .nil nodes)

/-- **Watching does not change what running a source text does.** -/
theorem eval_run (host : Host) (depth : Nat) :
    (fun source => (run host depth source).eval) = Interpreter.run host depth := by
  induction depth with
  | zero => rfl
  | succ depth ih =>
    funext source
    rw [run, Interpreter.run, eval_noting, eval_bind]
    refine congrArg _ (funext fun s => ?_)
    generalize parse source = parsed
    cases parsed with
    | error e => rfl
    | ok nodes =>
      -- the nodes of a text run further texts one level deeper
      rw [← ih]
      exact congrArg (Interpreter.inFrame "main")
        (eval_evalAll host (run host depth) s.main .nil nodes)

end Watched

end Garnet
