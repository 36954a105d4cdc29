import Garnet.Syntax

/-!
# Parts of syntax trees

Two views of a tree that later statements need.

The **parts** of a node (`Node.parts`) are the nodes that evaluating it can
come to: the node itself and, one level after the other, what stands in it,
except what is never evaluated – the bodies of method definitions, the
conditions of `if` blocks, and the left sides of assignments. Declarations of
classes and `return` have no meaning to an evaluation, so nothing beneath them
is reached either.

A tree is **well assigned** (`Node.wellAssigned`) if every assignment in it,
wherever it stands, has a name or a global on its left. An evaluation of a
well-assigned tree only comes to well-assigned nodes
(`Node.wellAssigned_of_mem_parts`).
-/

namespace Garnet

namespace Node

mutual

/-- **The nodes that evaluating a node can come to**, itself included. -/
def parts : Node → List Node
  | .call none func args => .call none func args :: partsOfAll args
  | .call (some target) func args =>
    .call (some target) func args :: (target.parts ++ partsOfAll args)
  | .assignment lhs rhs => .assignment lhs rhs :: rhs.parts
  | .ifBlock condition body orElse =>
    .ifBlock condition body orElse :: (partsOfAll body ++ partsOfAll orElse)
  | .beginBlock body rescues =>
    .beginBlock body rescues :: (partsOfAll body ++ partsOfRescues rescues)
  | n => [n]

/-- The nodes that evaluating a sequence of nodes can come to. -/
def partsOfAll : List Node → List Node
  | [] => []
  | n :: ns => n.parts ++ partsOfAll ns

/-- The nodes that evaluating `rescue` clauses can come to. -/
def partsOfRescues : List RescueClause → List Node
  | [] => []
  | .mk _ body :: rest => partsOfAll body ++ partsOfRescues rest

end

/-- A node is a part of itself. -/
theorem mem_parts_self (n : Node) : n ∈ n.parts := by
  cases n with
  | call target func args =>
    cases target with
    | none => exact List.mem_cons_self
    | some target => exact List.mem_cons_self
  | _ => exact List.mem_cons_self

/-- **Whether a node has a meaning** to an evaluation: declarations of classes
and `return` have none. -/
def isEvaluable : Node → Bool
  | .classDecl .. | .returnValue _ => false
  | _ => true

mutual

/-- **Whether every assignment in a tree has a name or a global on its
left**, wherever in the tree it stands. -/
def wellAssigned : Node → Bool
  | .funcDecl _ _ body => allWellAssigned body
  | .call none _ args => allWellAssigned args
  | .call (some target) _ args => target.wellAssigned && allWellAssigned args
  | .assignment lhs rhs => lhs.isAssignable && rhs.wellAssigned
  | .ifBlock condition body orElse =>
    condition.wellAssigned && (allWellAssigned body && allWellAssigned orElse)
  | .beginBlock body rescues => allWellAssigned body && rescuesWellAssigned rescues
  | .classDecl _ _ body => allWellAssigned body
  | .returnValue (some value) => value.wellAssigned
  | _ => true

/-- Whether a sequence of nodes is well assigned. -/
def allWellAssigned : List Node → Bool
  | [] => true
  | n :: ns => n.wellAssigned && allWellAssigned ns

/-- Whether the bodies of `rescue` clauses are well assigned. -/
def rescuesWellAssigned : List RescueClause → Bool
  | [] => true
  | .mk _ body :: rest => allWellAssigned body && rescuesWellAssigned rest

end

/-- A sequence is well assigned if each of its nodes is. -/
theorem allWellAssigned_eq_true {ns : List Node} :
    allWellAssigned ns = true ↔ ∀ n ∈ ns, n.wellAssigned = true := by
  induction ns with
  | nil => simp [allWellAssigned]
  | cons n ns ih => rw [allWellAssigned, Bool.and_eq_true, ih, List.forall_mem_cons]

/-- Clauses are well assigned if each of their bodies is. -/
theorem rescuesWellAssigned_eq_true {rs : List RescueClause} :
    rescuesWellAssigned rs = true ↔ ∀ r ∈ rs, allWellAssigned r.body = true := by
  induction rs with
  | nil => simp [rescuesWellAssigned]
  | cons r rs ih =>
    obtain ⟨className, body⟩ := r
    rw [rescuesWellAssigned, Bool.and_eq_true, ih, List.forall_mem_cons]
    rfl

mutual

/-- **The parts of a well-assigned node are well assigned.** -/
theorem wellAssigned_of_mem_parts : (n : Node) → n.wellAssigned = true →
    ∀ k ∈ n.parts, k.wellAssigned = true
  | .call none func args, h, k, hk => by
    rw [parts, List.mem_cons] at hk
    obtain rfl | hk := hk
    · exact h
    · rw [wellAssigned] at h
      exact wellAssigned_of_mem_partsOfAll args h k hk
  | .call (some target) func args, h, k, hk => by
    rw [parts, List.mem_cons, List.mem_append] at hk
    obtain rfl | hk := hk
    · exact h
    · rw [wellAssigned, Bool.and_eq_true] at h
      obtain hk | hk := hk
      · exact wellAssigned_of_mem_parts target h.1 k hk
      · exact wellAssigned_of_mem_partsOfAll args h.2 k hk
  | .assignment lhs rhs, h, k, hk => by
    rw [parts, List.mem_cons] at hk
    obtain rfl | hk := hk
    · exact h
    · rw [wellAssigned, Bool.and_eq_true] at h
      exact wellAssigned_of_mem_parts rhs h.2 k hk
  | .ifBlock condition body orElse, h, k, hk => by
    rw [parts, List.mem_cons, List.mem_append] at hk
    obtain rfl | hk := hk
    · exact h
    · rw [wellAssigned, Bool.and_eq_true, Bool.and_eq_true] at h
      obtain hk | hk := hk
      · exact wellAssigned_of_mem_partsOfAll body h.2.1 k hk
      · exact wellAssigned_of_mem_partsOfAll orElse h.2.2 k hk
  | .beginBlock body rescues, h, k, hk => by
    rw [parts, List.mem_cons, List.mem_append] at hk
    obtain rfl | hk := hk
    · exact h
    · rw [wellAssigned, Bool.and_eq_true] at h
      obtain hk | hk := hk
      · exact wellAssigned_of_mem_partsOfAll body h.1 k hk
      · exact wellAssigned_of_mem_partsOfRescues rescues h.2 k hk
  | .simpleString _, h, k, hk | .interpolatedString _, h, k, hk | .int _, h, k, hk
  | .float _, h, k, hk | .boolean _, h, k, hk | .globalVariable _, h, k, hk
  | .symbol _, h, k, hk | .bareReference _, h, k, hk | .fileName, h, k, hk
  | .funcDecl _ _ _, h, k, hk | .classDecl _ _ _, h, k, hk | .returnValue _, h, k, hk =>
    List.mem_singleton.mp hk ▸ h

/-- The parts of a well-assigned sequence are well assigned. -/
theorem wellAssigned_of_mem_partsOfAll : (ns : List Node) → allWellAssigned ns = true →
    ∀ k ∈ partsOfAll ns, k.wellAssigned = true
  | [], _, _, hk => by cases hk
  | n :: ns, h, k, hk => by
    rw [partsOfAll, List.mem_append] at hk
    rw [allWellAssigned, Bool.and_eq_true] at h
    obtain hk | hk := hk
    · exact wellAssigned_of_mem_parts n h.1 k hk
    · exact wellAssigned_of_mem_partsOfAll ns h.2 k hk

/-- The parts of well-assigned clauses are well assigned. -/
theorem wellAssigned_of_mem_partsOfRescues : (rs : List RescueClause) →
    rescuesWellAssigned rs = true → ∀ k ∈ partsOfRescues rs, k.wellAssigned = true
  | [], _, _, hk => by cases hk
  | .mk _ body :: rest, h, k, hk => by
    rw [partsOfRescues, List.mem_append] at hk
    rw [rescuesWellAssigned, Bool.and_eq_true] at h
    obtain hk | hk := hk
    · exact wellAssigned_of_mem_partsOfAll body h.1 k hk
    · exact wellAssigned_of_mem_partsOfRescues rest h.2 k hk

end

/-- What stands on the left of a well-assigned assignment can be assigned
to. -/
theorem isAssignable_of_wellAssigned {lhs rhs : Node}
    (h : (Node.assignment lhs rhs).wellAssigned = true) : lhs.isAssignable = true := by
  rw [wellAssigned, Bool.and_eq_true] at h
  exact h.1

/-- What can be assigned to has no assignment in it. -/
theorem wellAssigned_of_isAssignable {n : Node} (h : n.isAssignable = true) :
    n.wellAssigned = true := by
  cases n with
  | bareReference => rfl
  | globalVariable => rfl
  | _ => cases h

end Node

end Garnet
