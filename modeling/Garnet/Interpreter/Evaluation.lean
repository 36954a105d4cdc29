import Garnet.Interpreter.Call
import Garnet.Syntax.Parser

/-!
# Evaluation

The nodes of a program are evaluated in order, against a receiver that calls
without a target go to. The value of a sequence is that of its last node; the
first error ends it.

Evaluating a node needs to run a source text when the node loads a unit. How
that is done is a parameter of the evaluation of nodes, which is therefore a
recursion over the tree alone; running a program closes the circle with a
bound on how deeply programs can be nested in each other.
-/

namespace Garnet

/-- **Whether a condition holds.** A condition is not evaluated: `false` and
`nil` themselves do not hold, everything else does. -/
def Node.holds : Node → Bool
  | .boolean b => b
  | .bareReference name => name != "nil"
  | _ => true

namespace Interpreter

/-- The value of a name: `nil` and `self` are fixed, every other name has to
be bound. -/
def reference (self : Value) (name : String) : Eval Value := do
  if name = "nil" then return .nil
  if name = "self" then return self
  let s ← get
  match s.objects.find? name with
  | some v => return v
  | none => raise (.name name (s.toS self) (s.className self))

/-- The value of a global, `nil` if it is not bound. -/
def globalValue (name : String) : Eval Value := do
  return ((← get).globals.find? name).getD .nil

/-- **What a method definition does.** The body of the method is not kept: a
private method that does nothing is defined on the value of `Kernel`. -/
def define (name : String) : Eval Value := do
  let kernel ← valueOf "Kernel"
  let s ← get
  match s.defineMethod kernel ⟨name, .implicitReceiver, .doNothing⟩ with
  | .ok (r, s) => do
    set s
    return .method r
  | .error k => raise k

/-- **Binds what stands on the left of an assignment.** -/
def assign (target : Node) (v : Value) : Eval Unit :=
  match target with
  | .bareReference name => modify (·.bind name v)
  | .globalVariable name => modify (·.bindGlobal name v)
  | node => throw (.fault (.notAssignable node.kindName))

section Nodes

variable (host : Host) (run : String → Eval Value) (self : Value)

mutual

/-- **The value of a node.** -/
def evalNode : Node → Eval Value
  | .simpleString s => newString s
  | .interpolatedString s => newString s
  | .int n => return .int n
  | .float x => return .float x
  | .boolean b => return .ofBool b
  | .globalVariable name => globalValue name
  | .symbol name => intern name
  | .bareReference name => reference self name
  | .fileName => do newString (← get).unitName
  | .funcDecl name _ _ => define name
  | .call none func args => do
    let m ← callable self func false
    let vs ← evalEach args
    inFrame func (m.body.call host run self vs)
  | .call (some target) func args => do
    let receiver ← evalNode target
    let m ← callable receiver func true
    let vs ← evalEach args
    inFrame func (m.body.call host run receiver vs)
  | .assignment lhs rhs => do
    let v ← evalNode rhs
    assign lhs v
    return v
  | .ifBlock condition body orElse =>
    if condition.holds then evalAll .nil body else evalAll .nil orElse
  | .beginBlock body rescues =>
    rescuing (evalAll .nil body) fun e => evalRescues e.kind.toS rescues e
  | .classDecl .. => throw (.fault (.notEvaluated "ClassDecl"))
  | .returnValue _ => throw (.fault (.notEvaluated "Return"))

/-- The value of the last of some nodes, or the value before them if there
are none. -/
def evalAll (last : Value) : List Node → Eval Value
  | [] => return last
  | n :: ns => do
    let v ← evalNode n
    evalAll v ns

/-- The values of nodes, from left to right. -/
def evalEach : List Node → Eval (List Value)
  | [] => return []
  | n :: ns => do
    let v ← evalNode n
    let vs ← evalEach ns
    return v :: vs

/-- The value of the first clause for an error that succeeds. The error that
remains is that of the last clause that failed, and `e` if there is none. -/
def evalRescues (raised : String) : List RescueClause → Error → Eval Value
  | [], e => throw (.raised e)
  | .mk className body :: rest, e =>
    if className = raised then rescuing (evalAll .nil body) (evalRescues raised rest)
    else evalRescues raised rest e

end

end Nodes

/-- **Runs a source text**: parses it, and evaluates it in a call of its own.
Programs can be nested `depth` deep in each other. -/
def run (host : Host) : Nat → String → Eval Value
  | 0, _ => throw .exhausted
  | depth + 1, source => do
    let s ← get
    match parse source with
    | .error e => raise (.parse s.unitName e.message)
    | .ok nodes => inFrame "main" (evalAll host (run host depth) s.main .nil nodes)

end Interpreter

end Garnet
