import Garnet.Proofs.Outcomes
import Garnet.Proofs.Trees
import Garnet.Syntax.Parser

/-!
# What programs assign to

A reader of expressions makes an assignment in one place, and only after it
has looked at what stands on the left. All other constructs put together what
was read before. So every tree that is read from a stream of tokens is well
assigned (`allWellAssigned_of_parse`), whatever the tokens are.

Each lemma below is about the reader of one construct, given any reader for
the expressions nested in it.
-/

namespace Garnet

namespace Parser

open Node

/-- Reading fails in any case. -/
theorem yields_unexpected {α : Type} {P : α → Prop} (expected : String) (context : SyntaxContext) :
    Yields (unexpected (α := α) expected context) P :=
  Yields.after fun _ => Yields.of_throw _

section Lists

variable {α : Type} {item : Parser α} {P : α → Prop}

theorem yields_itemsWithin (h : Yields item P) (n : Nat) :
    Yields (itemsWithin item n) fun as => ∀ a ∈ as, P a := by
  induction n with
  | zero => exact Yields.of_throw _
  | succ n ih =>
    unfold itemsWithin
    refine Yields.after fun closed => Yields.ite (fun _ => Yields.pure ?_) fun _ => ?_
    · exact fun a ha => absurd ha List.not_mem_nil
    refine Yields.bind h fun a ha => Yields.after fun _ => Yields.after fun comma => ?_
    refine Yields.ite (fun _ => ?_) fun _ => Yields.pure ?_
    · refine Yields.after fun _ => Yields.bind ih fun as has => Yields.pure ?_
      exact List.forall_mem_cons.mpr ⟨ha, has⟩
    · exact List.forall_mem_cons.mpr ⟨ha, fun b hb => absurd hb List.not_mem_nil⟩

theorem yields_parenthesized (h : Yields item P) (context : SyntaxContext) :
    Yields (parenthesized item context) fun as => ∀ a ∈ as, P a := by
  unfold parenthesized
  refine Yields.after fun _ => Yields.after fun n => ?_
  refine Yields.bind (yields_itemsWithin h n) fun as has => Yields.after fun _ => ?_
  exact Yields.pure has

end Lists

section Expressions

variable {expr : Parser Node} (h : Yields expr fun n => n.wellAssigned = true)

include h

theorem yields_commandArgumentsWithin (n : Nat) :
    Yields (commandArgumentsWithin expr n) fun ns => allWellAssigned ns = true := by
  induction n with
  | zero => exact Yields.of_throw _
  | succ n ih =>
    unfold commandArgumentsWithin
    refine Yields.bind h fun a ha => Yields.after fun comma => ?_
    refine Yields.ite (fun _ => ?_) fun _ => Yields.pure ?_
    · refine Yields.after fun _ => Yields.bind ih fun as has => Yields.pure ?_
      rw [allWellAssigned, ha, has]
      rfl
    · rw [allWellAssigned, ha]
      rfl

/-- The arguments of a call, with or without parentheses. -/
theorem yields_arguments? :
    Yields (arguments? expr) fun o => ∀ args ∈ o, allWellAssigned args = true := by
  unfold arguments?
  refine Yields.after fun _ => Yields.ite (fun _ => ?_) fun _ => Yields.after fun c => ?_
  · refine Yields.bind (yields_parenthesized h .arguments) fun as has => Yields.pure ?_
    intro args hargs
    cases hargs
    exact allWellAssigned_eq_true.mpr has
  refine Yields.ite (fun _ => Yields.after fun n => ?_) fun _ => Yields.pure ?_
  · refine Yields.bind (yields_commandArgumentsWithin h n) fun as has => Yields.pure ?_
    intro args hargs
    cases hargs
    exact has
  · intro args hargs
    cases hargs

theorem yields_statementsWithin (context : SyntaxContext) (n : Nat) :
    Yields (statementsWithin expr context n) fun ns => allWellAssigned ns = true := by
  induction n with
  | zero => exact Yields.of_throw _
  | succ n ih =>
    unfold statementsWithin
    refine Yields.after fun c => Yields.ite (fun _ => Yields.pure rfl) fun _ => ?_
    refine Yields.bind h fun a ha => Yields.after fun _ => Yields.bind ih fun as has => ?_
    refine Yields.pure ?_
    rw [allWellAssigned, ha, has]
    rfl

theorem yields_statements (context : SyntaxContext) :
    Yields (statements expr context) fun ns => allWellAssigned ns = true :=
  Yields.after fun _ => Yields.after fun n => yields_statementsWithin h context n

/-! ## Constructs -/

theorem yields_definition : Yields (definition expr) fun n => n.wellAssigned = true := by
  unfold definition
  refine Yields.after fun func => Yields.after fun params => ?_
  refine Yields.bind (yields_statements h _) fun body hbody => Yields.after fun _ => ?_
  exact Yields.pure hbody

theorem yields_elseBranch : Yields (elseBranch expr) fun ns => allWellAssigned ns = true :=
  Yields.after fun _ => Yields.ite (fun _ => yields_statements h _) fun _ => Yields.pure rfl

theorem yields_branchesWithin (n : Nat) :
    Yields (branchesWithin expr n) fun n => n.wellAssigned = true := by
  induction n with
  | zero => exact Yields.of_throw _
  | succ n ih =>
    unfold branchesWithin
    refine Yields.bind h fun condition hcondition => Yields.after fun _ => ?_
    refine Yields.bind (yields_statements h _) fun body hbody => Yields.after fun _ => ?_
    refine Yields.ite (fun _ => ?_) fun _ => ?_
    · refine Yields.bind ih fun branch hbranch => Yields.pure ?_
      rw [wellAssigned, hcondition, hbody, allWellAssigned, hbranch]
      rfl
    · refine Yields.bind (yields_elseBranch h) fun orElse horElse => Yields.pure ?_
      rw [wellAssigned, hcondition, hbody, horElse]
      rfl

theorem yields_conditional : Yields (conditional expr) fun n => n.wellAssigned = true := by
  unfold conditional
  refine Yields.after fun n => Yields.bind (yields_branchesWithin h n) fun node hnode => ?_
  exact Yields.after fun _ => Yields.pure hnode

theorem yields_rescuesWithin (n : Nat) :
    Yields (rescuesWithin expr n) fun rs => rescuesWellAssigned rs = true := by
  induction n with
  | zero => exact Yields.of_throw _
  | succ n ih =>
    unfold rescuesWithin
    refine Yields.after fun _ => Yields.ite (fun _ => ?_) fun _ => Yields.pure rfl
    refine Yields.after fun className => ?_
    refine Yields.bind (yields_statements h _) fun body hbody => ?_
    refine Yields.bind ih fun rest hrest => Yields.pure ?_
    rw [rescuesWellAssigned, hbody, hrest]
    rfl

theorem yields_beginBlock : Yields (beginBlock expr) fun n => n.wellAssigned = true := by
  unfold beginBlock
  refine Yields.bind (yields_statements h _) fun body hbody => Yields.after fun n => ?_
  refine Yields.bind (yields_rescuesWithin h n) fun rescues hrescues => Yields.after fun _ => ?_
  refine Yields.pure ?_
  rw [wellAssigned, hbody, hrescues]
  rfl

theorem yields_classDefinition :
    Yields (classDefinition expr) fun n => n.wellAssigned = true := by
  unfold classDefinition
  refine Yields.after fun className => Yields.after fun superclass => ?_
  refine Yields.bind (yields_statements h _) fun body hbody => Yields.after fun _ => ?_
  exact Yields.pure hbody

theorem yields_returnValue : Yields (returnValue expr) fun n => n.wellAssigned = true := by
  unfold returnValue
  refine Yields.after fun c => Yields.ite (fun _ => Yields.pure rfl) fun _ => ?_
  exact Yields.bind h fun value hvalue => Yields.pure hvalue

/-! ## Expressions -/

theorem yields_grouped : Yields (grouped expr) fun n => n.wellAssigned = true := by
  unfold grouped
  refine Yields.after fun _ => Yields.bind h fun inner hinner => ?_
  exact Yields.after fun _ => Yields.after fun _ => Yields.pure hinner

theorem yields_identifier (s : String) :
    Yields (identifier expr s) fun n => n.wellAssigned = true := by
  unfold identifier
  refine Yields.after fun _ => Yields.bind (yields_arguments? h) fun o ho => ?_
  cases o with
  | none => exact Yields.pure rfl
  | some args => exact Yields.pure (ho args rfl)

theorem yields_constant (s : String) :
    Yields (constant expr s) fun n => n.wellAssigned = true := by
  unfold constant
  refine Yields.after fun _ => Yields.after fun _ => ?_
  refine Yields.ite (fun _ => ?_) fun _ => Yields.pure rfl
  refine Yields.bind (yields_parenthesized h .arguments) fun args hargs => Yields.pure ?_
  exact allWellAssigned_eq_true.mpr hargs

omit h in
theorem yields_literal {n : Node} (hn : n.wellAssigned = true) :
    Yields (literal n) fun n => n.wellAssigned = true :=
  Yields.after fun _ => Yields.pure hn

theorem yields_primary : Yields (primary expr) fun n => n.wellAssigned = true := by
  unfold primary
  refine Yields.after fun k => ?_
  cases k with
  | int | float | string | interpolated | symbol | global => exact yields_literal rfl
  | ident s => exact yields_identifier h s
  | constant s => exact yields_constant h s
  | keyword w =>
    cases w with
    | trueKw | falseKw | fileKw => exact yields_literal rfl
    | defKw => exact Yields.after fun _ => yields_definition h
    | ifKw => exact Yields.after fun _ => yields_conditional h
    | beginKw => exact Yields.after fun _ => yields_beginBlock h
    | classKw => exact Yields.after fun _ => yields_classDefinition h
    | returnKw => exact Yields.after fun _ => yields_returnValue h
    | _ => exact yields_unexpected _ _
  | mark m =>
    cases m with
    | leftParen => exact Yields.after fun _ => yields_grouped h
    | _ => exact yields_unexpected _ _
  | newline | error | eof => exact yields_unexpected _ _

theorem yields_callsWithin (n : Nat) {target : Node} (ht : target.wellAssigned = true) :
    Yields (callsWithin expr n target) fun n => n.wellAssigned = true := by
  induction n generalizing target with
  | zero => exact Yields.of_throw _
  | succ n ih =>
    unfold callsWithin
    refine Yields.after fun _ => Yields.ite (fun _ => ?_) fun _ => Yields.pure ht
    refine Yields.after fun _ => Yields.after fun func => ?_
    refine Yields.bind (yields_arguments? h) fun o ho => ih ?_
    rw [wellAssigned, ht, Bool.true_and]
    cases o with
    | none => rfl
    | some args => exact ho args rfl

theorem yields_operand : Yields (operand expr) fun n => n.wellAssigned = true := by
  unfold operand
  refine Yields.bind (yields_primary h) fun node hnode => Yields.after fun n => ?_
  exact yields_callsWithin h n hnode

theorem yields_shiftsWithin (n : Nat) {left : Node} (hl : left.wellAssigned = true) :
    Yields (shiftsWithin expr n left) fun n => n.wellAssigned = true := by
  induction n generalizing left with
  | zero => exact Yields.of_throw _
  | succ n ih =>
    unfold shiftsWithin
    refine Yields.after fun _ => Yields.ite (fun _ => ?_) fun _ => Yields.pure hl
    refine Yields.after fun _ => Yields.bind (yields_operand h) fun right hright => ih ?_
    rw [wellAssigned, hl, allWellAssigned, hright]
    rfl

theorem yields_shift : Yields (shift expr) fun n => n.wellAssigned = true := by
  unfold shift
  refine Yields.bind (yields_operand h) fun node hnode => Yields.after fun n => ?_
  exact yields_shiftsWithin h n hnode

/-- **An assignment is made only to what can be assigned to.** -/
theorem yields_expressionWith : Yields (expressionWith expr) fun n => n.wellAssigned = true := by
  unfold expressionWith
  refine Yields.after fun c => Yields.bind (yields_shift h) fun left hleft => ?_
  refine Yields.after fun _ => Yields.ite (fun _ => ?_) fun _ => Yields.pure hleft
  refine Yields.after fun _ => Yields.ite (fun hassignable => ?_) fun _ => Yields.of_throw _
  refine Yields.bind h fun right hright => Yields.pure ?_
  rw [wellAssigned, hassignable, hright]
  rfl

end Expressions

/-- Every expression is well assigned. -/
theorem yields_expression (depth : Nat) :
    Yields (expression depth) fun n => n.wellAssigned = true := by
  induction depth with
  | zero => exact Yields.of_throw _
  | succ depth ih => exact yields_expressionWith ih

/-- Every program is well assigned. -/
theorem yields_program (depth : Nat) :
    Yields (program depth) fun ns => allWellAssigned ns = true := by
  unfold program
  refine Yields.bind (yields_statements (yields_expression depth) _) fun ns hns => ?_
  exact Yields.after fun c => Yields.ite (fun _ => Yields.pure hns) fun _ => yields_unexpected _ _

end Parser

/-- **What is read from tokens is well assigned.** -/
theorem allWellAssigned_of_parseTokens {tokens : List Token} {nodes : List Node}
    (h : parseTokens tokens = .ok nodes) : Node.allWellAssigned nodes = true := by
  unfold parseTokens at h
  cases hp : (Parser.program (tokens.length + 1)).run (Cursor.start tokens) with
  | ok ns c =>
    rw [hp] at h
    cases h
    exact Parser.yields_program _ _ _ _ hp
  | error e c =>
    rw [hp] at h
    cases e <;> cases h

/-- What is read from a source is well assigned. -/
theorem allWellAssigned_of_parse {source : String} {nodes : List Node}
    (h : parse source = .ok nodes) : Node.allWellAssigned nodes = true :=
  allWellAssigned_of_parseTokens h

end Garnet
