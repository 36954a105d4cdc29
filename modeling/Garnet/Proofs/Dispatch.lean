import Garnet.Interpreter.Start
import Garnet.Proofs.Journal

/-!
# What is decided about a call

A call is decided before its arguments are evaluated. Its receiver is known by
then, and whether there is a method of the name for that receiver, and who may
call it. If the call **gets past** that (`Interpreter.Admits`), the method that
was found is the one that is called, whatever the arguments do; if it does not,
nothing more takes place, and there is an error for each reason to refuse a call
(`Interpreter.Refuses`).

For a call that names its receiver this is what `respond_to?` answers: the two
look for the method in the same way.
-/

namespace Garnet

open Interpreter

namespace Interpreter

variable {s : Interpreter} {receiver : Value} {func : String} {hasTarget : Bool}

/-! ## Admitted and refused calls -/

/-- **Whether a call gets past the search for its method**: never on `nil`; on
everything else if the receiver responds to the name, or, in a call that does not
name its receiver, if there is a method of the name at all. -/
def Admits (s : Interpreter) (receiver : Value) (func : String) (hasTarget : Bool) : Prop :=
  receiver.isNil = false ∧
    if hasTarget then s.respondsTo receiver func = true
    else (s.method? receiver func).isSome = true

instance : Decidable (s.Admits receiver func hasTarget) :=
  inferInstanceAs (Decidable (_ ∧ ite _ _ _))

/-- **The reasons to refuse a call**, and the errors for them. -/
inductive Refuses (s : Interpreter) (receiver : Value) (func : String) (hasTarget : Bool) :
    ErrorKind → Prop where
  /-- Nothing can be called on `nil`. -/
  | onNil (hnil : receiver.isNil = true) :
    s.Refuses receiver func hasTarget (.noMethod func "nil" "NilClass")
  /-- There is no method of the name. -/
  | missing (hnil : receiver.isNil = false) (hm : s.method? receiver func = none) :
    s.Refuses receiver func hasTarget (.name func (s.toS receiver) (s.className receiver))
  /-- The method is private, and the call names its receiver. -/
  | hidden (hnil : receiver.isNil = false) (r : MethodRef)
    (hm : s.method? receiver func = some r)
    (hprivate : (s.heap.method r).visibility = .implicitReceiver) (htarget : hasTarget = true) :
    s.Refuses receiver func hasTarget (.privateCall func (s.toS receiver) (s.className receiver))

/-- **A value responds to a name** if there is a method of the name that is for
everyone. -/
theorem respondsTo_eq (s : Interpreter) (receiver : Value) (func : String) :
    s.respondsTo receiver func
      = (s.method? receiver func).any fun r => (s.heap.method r).visibility == .everyone := by
  unfold respondsTo Heap.respondsTo Interpreter.method?
  cases s.heap.method? s.classes receiver func with
  | none => rfl
  | some r => rfl

/-- A call that there is a reason to refuse is not admitted. -/
theorem not_admits_of_refuses {κ : ErrorKind} (hκ : s.Refuses receiver func hasTarget κ) :
    ¬s.Admits receiver func hasTarget := by
  rintro ⟨hnil, hfound⟩
  cases hκ with
  | onNil hnil' =>
    rw [hnil] at hnil'
    cases hnil'
  | missing _ hm =>
    rw [respondsTo_eq, hm] at hfound
    split at hfound
    · cases hfound
    · cases hfound
  | hidden _ r hm hprivate htarget =>
    rw [if_pos htarget, respondsTo_eq, hm, Option.any_some, hprivate] at hfound
    cases hfound

/-- **The search for the method of a call** ends in one of two ways: it finds a
method that may be called, or there is a reason to refuse the call. It changes
nothing. -/
theorem callable_cases (s : Interpreter) (receiver : Value) (func : String) (hasTarget : Bool) :
    (s.Admits receiver func hasTarget ∧ ∃ r, s.method? receiver func = some r ∧
      callable receiver func hasTarget s = .ok (s.heap.method r) s) ∨
    ∃ κ, s.Refuses receiver func hasTarget κ ∧
      callable receiver func hasTarget s
        = .error (.raised ((Error.ofKind κ).raisedAt s.stack)) s := by
  unfold callable
  cases hnil : receiver.isNil with
  | true => exact Or.inr ⟨_, .onNil hnil, rfl⟩
  | false =>
    rw [if_neg Bool.false_ne_true, Outcome.get_bind]
    cases hm : s.method? receiver func with
    | none => exact Or.inr ⟨_, .missing hnil hm, rfl⟩
    | some r =>
      dsimp only
      cases hv : (s.heap.method r).visibility with
      | everyone =>
        refine Or.inl ⟨⟨hnil, ?_⟩, r, rfl, rfl⟩
        split
        · rw [respondsTo_eq, hm, Option.any_some, hv]
          rfl
        · rw [hm]
          rfl
      | implicitReceiver =>
        cases hasTarget with
        | false => exact Or.inl ⟨⟨hnil, by rw [hm]; rfl⟩, r, rfl, rfl⟩
        | true => exact Or.inr ⟨_, .hidden hnil r hm hv rfl, rfl⟩

/-- **`respond_to?` answers** whether everyone may call the method of a name, and
changes nothing. -/
theorem respondTo_answers {v : Value} (hv : nameArgument v s = .ok func s) :
    ObjectMethod.respondTo.call receiver [v] s
      = .ok (.ofBool (s.respondsTo receiver func)) s := by
  unfold ObjectMethod.call
  exact Outcome.bind_of_ok hv

end Interpreter

namespace Watched

variable (host : Host) (run : String → Watched Value) (self : Value)

/-! ## The parts of a call -/

/-- **The receiver of a call**: the value of its target, or the receiver of the
node where the call stands. -/
def receiverOf : Option Node → Watched Value
  | none => pure self
  | some target => evalNode host run self target

/-- **What is left of a call** when its method has been found: the arguments are
evaluated, and the method is called. -/
def applying (func : String) (args : List Node) (m : Method) (receiver : Value) :
    Watched Value := do
  let vs ← evalEach host run self args
  invoke host run func m receiver vs

/-- **What is left of a call** when its receiver is known. -/
def dispatching (func : String) (hasTarget : Bool) (args : List Node) (receiver : Value) :
    Watched Value := do
  let m ← quietly (callable receiver func hasTarget)
  applying host run self func args m receiver

/-- A call is its receiver and what is left of it then. -/
theorem evalNode_call (target : Option Node) (func : String) (args : List Node) :
    evalNode host run self (.call target func args)
      = noting (.node self (.call target func args))
          (receiverOf host run self target >>=
            dispatching host run self func target.isSome args) := by
  cases target with
  | none =>
    rw [evalNode]
    rfl
  | some target =>
    rw [evalNode]
    rfl

/-- Every evaluation of a node is noted. -/
theorem journal_evalNode_ne_nil (n : Node) (s : Interpreter) :
    (evalNode host run self n).journal s ≠ [] := by
  rw [evalNode.eq_def, journal_noting]
  exact List.append_ne_nil_of_right_ne_nil _ (List.cons_ne_nil _ _)

variable (func : String) (args : List Node) (m : Method) (receiver : Value) {s t : Interpreter}

/-- **What is left of a call when its arguments are known** is the method that was
found, which is called with them. -/
theorem applying_of_ok {vs : List Value} (hargs : (evalEach host run self args).eval s = .ok vs t) :
    (applying host run self func args m receiver).eval s
        = Interpreter.inFrame func
          (m.body.call host (fun source => (run source).eval) receiver vs) t ∧
      ∃ e, (applying host run self func args m receiver).journal s
          = (evalEach host run self args).journal s ++ e.parts ++ [e] ∧
        e.activity = .method m receiver vs ∧
        e.before = { t with stack := t.stack.push func } := by
  refine ⟨(Outcome.bind_of_ok hargs).trans (congrFun (eval_invoke ..) t), ?_⟩
  -- the call of the method is the last thing that is noted
  let u : Interpreter := { t with stack := t.stack.push func }
  let body := callBody host run m.body receiver vs
  refine ⟨⟨.method m receiver vs, u, body.eval u, body.journal u⟩, ?_, rfl, rfl⟩
  rw [List.append_assoc]
  exact journal_bind_of_ok hargs

/-- Something of a call is left when its method has been found. -/
theorem journal_applying_ne_nil :
    (applying host run self func args m receiver).journal s ≠ [] := by
  cases args with
  | nil =>
    have hargs : (evalEach host run self []).eval s = .ok [] s := by
      rw [evalEach]
      rfl
    obtain ⟨-, e, he, -⟩ := applying_of_ok host run self func [] m receiver hargs
    rw [he]
    exact List.append_ne_nil_of_right_ne_nil _ (List.cons_ne_nil _ _)
  | cons n ns =>
    rw [applying, evalEach]
    exact fun hnil => journal_evalNode_ne_nil host run self n s
      (List.append_eq_nil_iff.mp (List.append_eq_nil_iff.mp hnil).1).1

/-- **What is left of a call that is admitted** starts where the call was admitted. -/
theorem dispatching_of_ok {hasTarget : Bool}
    (hm : callable receiver func hasTarget s = .ok m s) :
    (dispatching host run self func hasTarget args receiver).eval s
        = (applying host run self func args m receiver).eval s ∧
      (dispatching host run self func hasTarget args receiver).journal s
        = (applying host run self func args m receiver).journal s :=
  ⟨Outcome.bind_of_ok hm, journal_bind_of_ok (m := quietly _) hm⟩

/-- **Nothing is left of a call that is refused** but its error. -/
theorem dispatching_of_error {hasTarget : Bool} {halt : Halt}
    (hm : callable receiver func hasTarget s = .error halt s) :
    (dispatching host run self func hasTarget args receiver).eval s = .error halt s ∧
      (dispatching host run self func hasTarget args receiver).journal s = [] :=
  ⟨Outcome.bind_of_error hm, journal_bind_of_error (m := quietly _) hm⟩

/-- **What takes place in a call**: what takes place until the receiver is known,
and what is left then. -/
theorem journal_call {target : Option Node}
    (hreceiver : (receiverOf host run self target).eval s = .ok receiver t) :
    let call := Node.call target func args
    let before := (receiverOf host run self target).journal s
    let rest := dispatching host run self func target.isSome args receiver
    (evalNode host run self call).eval s = rest.eval t ∧
      (evalNode host run self call).journal s
        = before ++ rest.journal t
          ++ [⟨.node self call, s, rest.eval t, before ++ rest.journal t⟩] := by
  intro call before rest
  have heval : (receiverOf host run self target >>=
      dispatching host run self func target.isSome args).eval s = rest.eval t :=
    Outcome.bind_of_ok hreceiver
  have hjournal : (receiverOf host run self target >>=
      dispatching host run self func target.isSome args).journal s = before ++ rest.journal t :=
    journal_bind_of_ok hreceiver
  rw [evalNode_call, eval_noting, journal_noting, heval, hjournal]
  exact ⟨rfl, rfl⟩

end Watched

/-- **Calls are decided by their receivers.** Let the receiver of a call be known,
in whatever interpreter that is. Then something more takes place in the call
exactly if it is admitted there.

If it is not, the interpreter stays as it is, and the error tells the reason. If
it is, there is a method of the name; what takes place then is that the arguments
are evaluated, and the outcome is theirs or that of this method, which is called
with their values and is the one that was found before them.

Of a call that names its receiver, `respond_to?` tells whether it is admitted, if
the receiver is not `nil`. -/
theorem calls_are_decided_by_their_receivers (host : Host) (run : String → Watched Value)
    (self : Value) (target : Option Node) (func : String) (args : List Node)
    {s s₁ : Interpreter} {receiver : Value}
    (hreceiver : (Watched.receiverOf host run self target).eval s = .ok receiver s₁) :
    let call := Node.call target func args
    let before := (Watched.receiverOf host run self target).journal s
    let outcome := evalNode host (fun source => (run source).eval) self call s
    (∃ parts,
      (Watched.evalNode host run self call).journal s
        = before ++ parts ++ [⟨.node self call, s, outcome, before ++ parts⟩] ∧
      (parts ≠ [] ↔ s₁.Admits receiver func target.isSome) ∧
      (parts = [] → ∃ κ, s₁.Refuses receiver func target.isSome κ ∧
        outcome = .error (.raised ((Error.ofKind κ).raisedAt s₁.stack)) s₁) ∧
      (parts ≠ [] → ∃ r, s₁.method? receiver func = some r ∧
        let m := s₁.heap.method r
        let rest := Watched.applying host run self func args m receiver
        outcome = rest.eval s₁ ∧ parts = rest.journal s₁ ∧
        ∀ vs s₂, (Watched.evalEach host run self args).eval s₁ = .ok vs s₂ →
          outcome = inFrame func
            (m.body.call host (fun source => (run source).eval) receiver vs) s₂ ∧
          ∃ e, parts = (Watched.evalEach host run self args).journal s₁ ++ e.parts ++ [e] ∧
            e.activity = .method m receiver vs ∧
            e.before = { s₂ with stack := s₂.stack.push func })) ∧
    ∀ name, nameArgument name s₁ = .ok func s₁ →
      ObjectMethod.respondTo.call receiver [name] s₁
        = .ok (.ofBool (s₁.respondsTo receiver func)) s₁ := by
  intro call before outcome
  refine ⟨⟨(Watched.dispatching host run self func target.isSome args receiver).journal s₁, ?_⟩,
    fun name hname => respondTo_answers hname⟩
  have houtcome : outcome = (Watched.evalNode host run self call).eval s :=
    (congrFun (Watched.eval_evalNode host run self call) s).symm
  obtain ⟨heval, hjournal⟩ := Watched.journal_call host run self func args receiver hreceiver
  rw [houtcome, heval]
  refine ⟨hjournal, ?_⟩
  obtain ⟨hadmits, r, hr, hm⟩ | ⟨κ, hκ, hm⟩ := callable_cases s₁ receiver func target.isSome
  · obtain ⟨heval, hjournal⟩ := Watched.dispatching_of_ok host run self func args _ receiver hm
    rw [heval, hjournal]
    have hparts := Watched.journal_applying_ne_nil host run self func args (s₁.heap.method r)
      receiver (s := s₁)
    exact ⟨iff_of_true hparts hadmits, fun hnil => absurd hnil hparts,
      fun _ => ⟨r, hr, rfl, rfl, fun vs s₂ => Watched.applying_of_ok host run self func args _ _⟩⟩
  · obtain ⟨heval, hjournal⟩ := Watched.dispatching_of_error host run self func args receiver hm
    rw [heval, hjournal]
    exact ⟨iff_of_false (fun hne => hne rfl) (not_admits_of_refuses hκ), fun _ => ⟨κ, hκ, rfl⟩,
      fun hne => absurd rfl hne⟩

/-- An argument may define a method of the name that is called: another one is
found from then on, but the one that was found before is called. -/
theorem redefined_method_is_called_once_more :
    let host : Host := ⟨FileSystem.empty [], none, 1⟩
    let s := start "main.rb" [] []
    let call := Node.call none "equal?" [.funcDecl "equal?" [] []]
    ∃ r e, e ∈ (Watched.evalNode host (Watched.run host 1) s.main call).journal s ∧
      s.method? s.main "equal?" = some r ∧
      (∃ vs, e.activity = .method (s.heap.method r) s.main vs) ∧
      e.before.method? s.main "equal?" ≠ some r := by
  intro host s call
  let args := Watched.evalEach host (Watched.run host 1) s.main [.funcDecl "equal?" [] []]
  obtain ⟨⟨parts, hjournal, hadmits, -, hpast⟩, -⟩ :=
    calls_are_decided_by_their_receivers host (Watched.run host 1) s.main none "equal?"
      [.funcDecl "equal?" [] []] (s := s) rfl
  have hargs : (Outcome.result? (args.eval s)).isSome = true := by decide +kernel
  have hother : (Outcome.state (args.eval s)).method? s.main "equal?"
      ≠ s.method? s.main "equal?" := by
    decide +kernel
  obtain ⟨vs, hvs⟩ := Option.isSome_iff_exists.mp hargs
  obtain ⟨s₂, hs₂⟩ := Outcome.ok_of_result? hvs
  obtain ⟨r, hr, -, -, hcalled⟩ := hpast (hadmits.mpr (by decide +kernel))
  obtain ⟨-, e, hparts, hactivity, hbefore⟩ := hcalled vs s₂ hs₂
  refine ⟨r, e, ?_, hr, ⟨vs, hactivity⟩, ?_⟩
  · rw [hjournal, hparts]
    simp
  · rw [hs₂, hr] at hother
    rw [hbefore]
    exact hother

end Garnet
