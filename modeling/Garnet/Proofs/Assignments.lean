import Mathlib.Logic.Relation
import Garnet.Interpreter.Evaluation
import Garnet.Interpreter.Start
import Garnet.Proofs.Bisimilarity
import Garnet.Proofs.Effects
import Garnet.Proofs.Targets

/-!
# Reading what was assigned

An assignment binds a name or a global to the value of its right side. If the name
is read afterwards, it has this value, and every other name reads as it did before
the binding (`assigned_names_are_read_back`).

Two names can be assigned to and still not be bound to anything by that: `nil` and
`self` are fixed. They read as `nil` and as the receiver, whatever is assigned to
them (`assigned_nil_is_not_read_back`).
-/

namespace Garnet

open Interpreter

/-! ## Nodes in nodes -/

namespace Node

/-- **The nodes that a node is made of**, one level down, whether or not they are
ever evaluated. -/
def children : Node → List Node
  | .funcDecl _ _ body => body
  | .call none _ args => args
  | .call (some target) _ args => target :: args
  | .assignment lhs rhs => [lhs, rhs]
  | .ifBlock condition body orElse => condition :: (body ++ orElse)
  | .beginBlock body rescues => body ++ rescues.flatMap RescueClause.body
  | .classDecl _ _ body => body
  | .returnValue (some value) => [value]
  | _ => []

/-- **Whether a node stands in another one**, which may be that node itself. -/
def StandsIn (k n : Node) : Prop :=
  Relation.ReflTransGen (fun n m : Node => m ∈ n.children) n k

/-- What a well-assigned node is made of is well assigned. -/
theorem wellAssigned_of_mem_children {n k : Node} (h : n.wellAssigned = true)
    (hk : k ∈ n.children) : k.wellAssigned = true := by
  cases n with
  | funcDecl name params body =>
    rw [wellAssigned] at h
    exact allWellAssigned_eq_true.mp h k hk
  | call target func args =>
    cases target with
    | none =>
      rw [wellAssigned] at h
      exact allWellAssigned_eq_true.mp h k hk
    | some target =>
      rw [wellAssigned, Bool.and_eq_true] at h
      obtain rfl | hk := List.mem_cons.mp hk
      · exact h.1
      · exact allWellAssigned_eq_true.mp h.2 k hk
  | assignment lhs rhs =>
    rw [wellAssigned, Bool.and_eq_true] at h
    obtain rfl | hk := List.mem_cons.mp hk
    · exact wellAssigned_of_isAssignable h.1
    · rw [List.mem_singleton.mp hk]
      exact h.2
  | ifBlock condition body orElse =>
    rw [wellAssigned, Bool.and_eq_true, Bool.and_eq_true] at h
    obtain rfl | hk := List.mem_cons.mp hk
    · exact h.1
    · obtain hk | hk := List.mem_append.mp hk
      · exact allWellAssigned_eq_true.mp h.2.1 k hk
      · exact allWellAssigned_eq_true.mp h.2.2 k hk
  | beginBlock body rescues =>
    rw [wellAssigned, Bool.and_eq_true] at h
    obtain hk | hk := List.mem_append.mp hk
    · exact allWellAssigned_eq_true.mp h.1 k hk
    · obtain ⟨clause, hclause, hk⟩ := List.mem_flatMap.mp hk
      exact allWellAssigned_eq_true.mp (rescuesWellAssigned_eq_true.mp h.2 clause hclause) k hk
  | classDecl name superclass body =>
    rw [wellAssigned] at h
    exact allWellAssigned_eq_true.mp h k hk
  | returnValue value =>
    cases value with
    | none => exact absurd hk List.not_mem_nil
    | some value =>
      rw [wellAssigned] at h
      rw [List.mem_singleton.mp hk]
      exact h
  | _ => exact absurd hk List.not_mem_nil

/-- **What stands in a well-assigned node** is well assigned. -/
theorem StandsIn.wellAssigned {n k : Node} (hk : k.StandsIn n) (h : n.wellAssigned = true) :
    k.wellAssigned = true := by
  induction hk with
  | refl => exact h
  | tail _ hchild ih => exact wellAssigned_of_mem_children ih hchild

/-- **In a program, assignments are made** to names and globals only. -/
theorem StandsIn.isAssignable {source : String} {nodes : List Node}
    (hparse : parse source = .ok nodes) {n lhs rhs : Node} (hn : n ∈ nodes)
    (hk : (Node.assignment lhs rhs).StandsIn n) : lhs.isAssignable = true :=
  isAssignable_of_wellAssigned
    (hk.wellAssigned (allWellAssigned_eq_true.mp (allWellAssigned_of_parse hparse) n hn))

end Node

section Nodes

variable (host : Host) (run : String → Eval Value) (self : Value)

/-! ## Reading names -/

/-- **Whether a node reads alike in two interpreters**: as the same value or with the
same error, and without changing either of them. -/
def ReadsAlike (n : Node) (s t : Interpreter) : Prop :=
  (∃ v, evalNode host run self n s = .ok v s ∧ evalNode host run self n t = .ok v t) ∨
    ∃ e, evalNode host run self n s = .error (.raised e) s ∧
      evalNode host run self n t = .error (.raised e) t

variable {host run self}

/-- **What a bare name reads as** that is not fixed: what it is bound to, or an error
if it is not bound. -/
theorem reference_eq {name : String} (hnil : name ≠ "nil") (hself : name ≠ "self")
    (s : Interpreter) : reference self name s = match s.objects.find? name with
      | some v => .ok v s
      | none => .error (.raised
          ((Error.ofKind (.name name (s.toS self) (s.className self))).raisedAt s.stack)) s := by
  unfold reference
  rw [if_neg hnil, if_neg hself]
  show (match s.objects.find? name with
    | some v => pure v
    | none => raise _ : Eval Value) s = _
  cases s.objects.find? name with
  | some v => rfl
  | none => rfl

/-- **A bare name reads alike** where it is bound alike, and where nothing else is
different that an error would tell. -/
theorem readsAlike_bareReference {name : String} {s t : Interpreter}
    (hname : t.objects.find? name = s.objects.find? name) (hheap : t.heap = s.heap)
    (hstack : t.stack = s.stack) : ReadsAlike host run self (.bareReference name) s t := by
  unfold ReadsAlike
  rw [evalNode]
  by_cases hnil : name = "nil"
  · subst hnil
    exact Or.inl ⟨.nil, rfl, rfl⟩
  by_cases hself : name = "self"
  · subst hself
    exact Or.inl ⟨self, rfl, rfl⟩
  rw [reference_eq hnil hself, reference_eq hnil hself, hname]
  cases hv : s.objects.find? name with
  | some v => exact Or.inl ⟨v, rfl, rfl⟩
  | none =>
    refine Or.inr ⟨_, rfl, ?_⟩
    unfold Interpreter.toS Interpreter.className
    rw [hheap, hstack]

/-- A global reads alike where it is bound alike. -/
theorem readsAlike_globalVariable {name : String} {s t : Interpreter}
    (hname : t.globals.find? name = s.globals.find? name) :
    ReadsAlike host run self (.globalVariable name) s t := by
  refine Or.inl ⟨(s.globals.find? name).getD .nil, ?_, ?_⟩
  · rw [evalNode]
    rfl
  · rw [evalNode, ← hname]
    rfl

/-! ## Assigning -/

/-- **An assignment with a value** is the evaluation of its right side, and then the
binding. -/
theorem ok_of_assignment {lhs rhs : Node} {s t : Interpreter} {v : Value}
    (h : evalNode host run self (.assignment lhs rhs) s = .ok v t) :
    ∃ u, evalNode host run self rhs s = .ok v u ∧ assign lhs v u = .ok () t := by
  rw [evalNode] at h
  obtain ⟨w, u, hrhs, hrest⟩ := Outcome.ok_of_bind h
  obtain ⟨⟨⟩, t', hassign, hreturn⟩ := Outcome.ok_of_bind hrest
  cases hreturn
  exact ⟨u, hrhs, hassign⟩

/-- **What was assigned is read back**, unless the name is a fixed one. -/
theorem evalNode_of_assign {lhs : Node} (hlhs : lhs.isAssignable = true)
    (hnil : lhs ≠ .bareReference "nil") (hself : lhs ≠ .bareReference "self")
    {u t : Interpreter} {v : Value} (h : assign lhs v u = .ok () t) :
    evalNode host run self lhs t = .ok v t := by
  cases lhs with
  | bareReference name =>
    cases h
    have hbound : (u.objects.set name v).find? name = some v := by
      rw [Bindings.find?_set, if_pos rfl]
    rw [evalNode, reference_eq (fun hn => hnil (congrArg _ hn)) fun hn => hself (congrArg _ hn)]
    show (match (u.objects.set name v).find? name with
      | some v => EStateM.Result.ok v _
      | none => _) = _
    rw [hbound]
  | globalVariable name =>
    cases h
    have hbound : ((u.globals.set name v).find? name).getD .nil = v := by
      rw [Bindings.find?_set, if_pos rfl, Option.getD_some]
    rw [evalNode]
    exact congrArg (EStateM.Result.ok · _) hbound
  | _ => cases hlhs

/-- **Every other name reads as it did.** -/
theorem readsAlike_of_assign {lhs n : Node} (hn : n.isAssignable = true) (hne : n ≠ lhs)
    {u t : Interpreter} {v : Value} (h : assign lhs v u = .ok () t) :
    ReadsAlike host run self n u t := by
  cases lhs with
  | bareReference name =>
    cases h
    cases n with
    | bareReference other =>
      refine readsAlike_bareReference ?_ rfl rfl
      exact (Bindings.find?_set ..).trans (if_neg fun hother => hne (congrArg _ hother))
    | globalVariable other => exact readsAlike_globalVariable rfl
    | _ => cases hn
  | globalVariable name =>
    cases h
    cases n with
    | bareReference other => exact readsAlike_bareReference rfl rfl rfl
    | globalVariable other =>
      refine readsAlike_globalVariable ?_
      exact (Bindings.find?_set ..).trans (if_neg fun hother => hne (congrArg _ hother))
    | _ => cases hn
  | _ => cases h

variable (host run self)

/-- **Assigned names are read back.** If an assignment in a program has a value, its
left side has this very value afterwards, unless it is one of the two names that are
fixed; these read as they always do. Every other name and global reads as it did when
the right side had been evaluated. -/
theorem assigned_names_are_read_back {source : String} {nodes : List Node}
    (hparse : parse source = .ok nodes) {n lhs rhs : Node} (hn : n ∈ nodes)
    (hin : (Node.assignment lhs rhs).StandsIn n) {s t : Interpreter} {v : Value}
    (h : evalNode host run self (.assignment lhs rhs) s = .ok v t) :
    (lhs ≠ .bareReference "nil" → lhs ≠ .bareReference "self" →
      evalNode host run self lhs t = .ok v t ∧ v.same v = true) ∧
    (lhs = .bareReference "nil" → evalNode host run self lhs t = .ok .nil t) ∧
    (lhs = .bareReference "self" → evalNode host run self lhs t = .ok self t) ∧
    ∃ u, evalNode host run self rhs s = .ok v u ∧
      ∀ name : Node, name.isAssignable = true → name ≠ lhs →
        ReadsAlike host run self name u t := by
  obtain ⟨u, hrhs, hassign⟩ := ok_of_assignment h
  refine ⟨fun hnil hself => ⟨?_, Value.same_iff.mpr rfl⟩, ?_, ?_, u, hrhs, fun name => ?_⟩
  · exact evalNode_of_assign (hin.isAssignable hparse hn) hnil hself hassign
  · rintro rfl
    rw [evalNode]
    rfl
  · rintro rfl
    rw [evalNode]
    rfl
  · exact fun hname hne => readsAlike_of_assign hname hne hassign

end Nodes

/-- The right side may be an assignment itself. -/
theorem chained_assignment_is_read_back :
    let host : Host := ⟨FileSystem.empty [], none, 1⟩
    let s := start "main.rb" [] []
    let chained := Node.assignment (.globalVariable "y") (.simpleString "a")
    let whole := Node.assignment (.bareReference "x") chained
    let eval := evalNode host (run host 0) s.main
    parse "x = $y = 'a'" = .ok [whole] ∧ ∃ v t, eval whole s = .ok v t ∧
      eval (.bareReference "x") t = .ok v t ∧
      ∃ u, eval chained s = .ok v u ∧
        ReadsAlike host (run host 0) s.main (.globalVariable "y") u t := by
  intro host s chained whole eval
  have hparse : parse "x = $y = 'a'" = .ok [whole] := by with_unfolding_all rfl
  have hvalue : (Outcome.result? (eval whole s)).isSome = true := by decide +kernel
  obtain ⟨v, hv⟩ := Option.isSome_iff_exists.mp hvalue
  obtain ⟨t, ht⟩ := Outcome.ok_of_result? hv
  obtain ⟨hread, -, -, u, hu, hothers⟩ := assigned_names_are_read_back host (run host 0) s.main
    hparse (List.mem_singleton.mpr rfl) .refl ht
  refine ⟨hparse, v, t, ht, (hread ?_ ?_).1, u, hu, hothers _ rfl ?_⟩
  · exact fun hname => absurd (Node.bareReference.inj hname) (by decide)
  · exact fun hname => absurd (Node.bareReference.inj hname) (by decide)
  · exact Node.noConfusion

/-- **What is assigned to `nil` is not read back**: the program is accepted and the
assignment has a value, but `nil` is still `nil`. -/
theorem assigned_nil_is_not_read_back :
    ¬ ∀ (source : String) (nodes : List Node), parse source = .ok nodes →
      ∀ n ∈ nodes, ∀ lhs rhs, (Node.assignment lhs rhs).StandsIn n →
        ∀ (host : Host) (run : String → Eval Value) (self : Value) (s t : Interpreter) (v : Value),
          evalNode host run self (.assignment lhs rhs) s = .ok v t →
            ∃ w u, evalNode host run self lhs t = .ok w u ∧ w.same v = true := by
  intro h
  have hparse : parse "nil = 1" = .ok [.assignment (.bareReference "nil") (.int 1)] := by
    with_unfolding_all rfl
  let host : Host := ⟨FileSystem.empty [], none, 1⟩
  let s := start "-" [] []
  obtain ⟨w, u, hread, hsame⟩ := h _ _ hparse _ (List.mem_singleton.mpr rfl) _ _ .refl host
    (run host 0) s.main s (s.bind "nil" (.int 1)) (.int 1) (by rw [evalNode, evalNode]; rfl)
  rw [evalNode] at hread
  cases hread
  cases hsame

end Garnet
