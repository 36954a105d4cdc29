import Garnet.Proofs.Reading

/-!
# The canonical spelling of trees

A tree can be spelled in many ways. The **canonical spelling** of a tree puts
parentheses around every expression that stands inside another one, with a
newline before the closing one, and a semicolon after every header and every
statement. Nothing that follows such an expression can be taken for a part of
it, and a name or a `return` always stands before something that ends it.

A spelling starts with a token that starts a statement
(`Node.exists_spelling_cons`), is longer than those of the trees in it, and
does not have the end of the source in it (`Node.eof_notMem_spelling`).
-/

namespace Garnet

open Garnet.Parser Token

namespace Node

/-! ## Spelling a tree -/

/-- An expression between parentheses. -/
def between (ks : List Kind) : List Kind :=
  .mark .leftParen :: (ks ++ [.newline, .mark .rightParen])

/-- The names of parameters, between parentheses. -/
def parametersSpelling (params : List String) : List Kind :=
  separated (fun p => [.ident p]) (.mark .comma) params ++ [.mark .rightParen]

/-- The class that a class extends. -/
def superclassSpelling : Option String → List Kind
  | some name => [.mark .less, .constant name]
  | none => []

mutual

/-- **The canonical spelling of a node.** -/
def spelling : Node → List Kind
  | .simpleString s => [.string s]
  | .interpolatedString s => [.interpolated s]
  | .int n => [.int n]
  | .float x => [.float x]
  | .boolean b => [.keyword (if b then .trueKw else .falseKw)]
  | .globalVariable name => [.global name]
  | .symbol name => [.symbol name]
  | .bareReference name => [.ident name]
  | .fileName => [.keyword .fileKw]
  | .funcDecl name params body =>
    .keyword .defKw :: .ident name :: .mark .leftParen :: (parametersSpelling params
      ++ (.mark .semicolon :: (statementsSpelling body ++ [.keyword .endKw])))
  | .call none func args =>
    .ident func :: .mark .leftParen :: (argumentsSpelling args ++ [.mark .rightParen])
  | .call (some target) func args =>
    between target.spelling ++ (.mark .dot :: .ident func :: .mark .leftParen ::
      (argumentsSpelling args ++ [.mark .rightParen]))
  | .assignment lhs rhs => between lhs.spelling ++ (.mark .equals :: between rhs.spelling)
  | .ifBlock condition body orElse =>
    .keyword .ifKw :: ((between condition.spelling
      ++ (.mark .semicolon :: (statementsSpelling body
        ++ (.keyword .elseKw :: .mark .semicolon :: statementsSpelling orElse))))
      ++ [.keyword .endKw])
  | .beginBlock body rescues =>
    .keyword .beginKw :: .mark .semicolon :: (statementsSpelling body
      ++ (rescuesSpelling rescues ++ [.keyword .endKw]))
  | .classDecl name superclass body =>
    .keyword .classKw :: .constant name :: (superclassSpelling superclass
      ++ (.mark .semicolon :: (statementsSpelling body ++ [.keyword .endKw])))
  | .returnValue none => [.keyword .returnKw]
  | .returnValue (some value) => .keyword .returnKw :: between value.spelling

/-- Statements, with a semicolon after each. -/
def statementsSpelling : List Node → List Kind
  | [] => []
  | n :: ns => n.spelling ++ (.mark .semicolon :: statementsSpelling ns)

/-- Arguments, with a comma after each. -/
def argumentsSpelling : List Node → List Kind
  | [] => []
  | n :: ns => between n.spelling ++ (.mark .comma :: argumentsSpelling ns)

/-- `rescue` clauses. -/
def rescuesSpelling : List RescueClause → List Kind
  | [] => []
  | .mk className body :: rest =>
    .keyword .rescueKw :: .constant className :: .mark .semicolon ::
      (statementsSpelling body ++ rescuesSpelling rest)

end

/-! ## Sequences, beginnings and lengths -/

theorem statementsSpelling_eq (ns : List Node) :
    statementsSpelling ns = separated spelling (.mark .semicolon) ns := by
  induction ns with
  | nil => rfl
  | cons n ns ih => rw [statementsSpelling, separated_cons, ih]

theorem argumentsSpelling_eq (ns : List Node) :
    argumentsSpelling ns = separated (fun n => between n.spelling) (.mark .comma) ns := by
  induction ns with
  | nil => rfl
  | cons n ns ih => rw [argumentsSpelling, separated_cons, ih]

/-- **What a spelling starts with** starts a statement. -/
theorem exists_spelling_cons (n : Node) :
    ∃ k ks, n.spelling = k :: ks ∧ startsStatement k = true := by
  cases n with
  | boolean b => cases b <;> exact ⟨_, _, by rw [spelling], rfl⟩
  | call target func args =>
    cases target with
    | none => exact ⟨_, _, by rw [spelling], rfl⟩
    | some target => exact ⟨_, _, by rw [spelling]; rfl, rfl⟩
  | assignment lhs rhs => exact ⟨_, _, by rw [spelling]; rfl, rfl⟩
  | returnValue value => cases value <;> exact ⟨_, _, by rw [spelling], rfl⟩
  | _ => exact ⟨_, _, by rw [spelling], rfl⟩

theorem length_between (ks : List Kind) : (between ks).length = ks.length + 3 := by
  rw [between, List.length_cons, List.length_append]
  rfl

/-- There are at least as many tokens as `rescue` clauses. -/
theorem length_le_length_rescuesSpelling (rs : List RescueClause) :
    rs.length ≤ (rescuesSpelling rs).length := by
  induction rs with
  | nil => exact Nat.le_refl _
  | cons r rs ih =>
    obtain ⟨className, body⟩ := r
    rw [rescuesSpelling, List.length_cons, List.length_cons, List.length_cons,
      List.length_cons, List.length_append]
    omega

/-- There are more tokens in `rescue` clauses than in the body of one of
them. -/
theorem length_statementsSpelling_lt {r : RescueClause} {rs : List RescueClause} (h : r ∈ rs) :
    (statementsSpelling r.body).length + 2 < (rescuesSpelling rs).length := by
  induction rs with
  | nil => cases h
  | cons s rs ih =>
    obtain ⟨className, body⟩ := s
    simp only [rescuesSpelling, List.length_cons, List.length_append]
    obtain rfl | h := List.mem_cons.mp h
    · show (statementsSpelling body).length + 2 < _
      omega
    · have := ih h
      omega

/-! ## The end of the source is no part of a spelling -/

theorem eof_notMem_between {ks : List Kind} (h : .eof ∉ ks) : .eof ∉ between ks := by
  simp [between, h]

theorem eof_notMem_parametersSpelling (params : List String) :
    .eof ∉ parametersSpelling params := by
  simp [parametersSpelling, separated]

theorem eof_notMem_superclassSpelling (superclass : Option String) :
    .eof ∉ superclassSpelling superclass := by
  cases superclass <;> simp [superclassSpelling]

mutual

/-- **No node is spelled with the end of the source.** -/
theorem eof_notMem_spelling : (n : Node) → .eof ∉ n.spelling
  | .simpleString _ | .interpolatedString _ | .int _ | .float _ | .boolean _ | .globalVariable _
  | .symbol _ | .bareReference _ | .fileName | .returnValue none => by
    simp [spelling]
  | .funcDecl _ params body => by
    have hparams := eof_notMem_parametersSpelling params
    have hbody := eof_notMem_statementsSpelling body
    simp [spelling, hparams, hbody]
  | .call none _ args => by
    have hargs := eof_notMem_argumentsSpelling args
    simp [spelling, hargs]
  | .call (some target) _ args => by
    have htarget := eof_notMem_between (eof_notMem_spelling target)
    have hargs := eof_notMem_argumentsSpelling args
    simp [spelling, htarget, hargs]
  | .assignment lhs rhs => by
    have hlhs := eof_notMem_between (eof_notMem_spelling lhs)
    have hrhs := eof_notMem_between (eof_notMem_spelling rhs)
    simp [spelling, hlhs, hrhs]
  | .ifBlock condition body orElse => by
    have hcondition := eof_notMem_between (eof_notMem_spelling condition)
    have hbody := eof_notMem_statementsSpelling body
    have horElse := eof_notMem_statementsSpelling orElse
    simp [spelling, hcondition, hbody, horElse]
  | .beginBlock body rescues => by
    have hbody := eof_notMem_statementsSpelling body
    have hrescues := eof_notMem_rescuesSpelling rescues
    simp [spelling, hbody, hrescues]
  | .classDecl _ superclass body => by
    have hsuperclass := eof_notMem_superclassSpelling superclass
    have hbody := eof_notMem_statementsSpelling body
    simp [spelling, hsuperclass, hbody]
  | .returnValue (some value) => by
    have hvalue := eof_notMem_between (eof_notMem_spelling value)
    simp [spelling, hvalue]

theorem eof_notMem_statementsSpelling : (ns : List Node) → .eof ∉ statementsSpelling ns
  | [] => List.not_mem_nil
  | n :: ns => by
    have hn := eof_notMem_spelling n
    have hns := eof_notMem_statementsSpelling ns
    simp [statementsSpelling, hn, hns]

theorem eof_notMem_argumentsSpelling : (ns : List Node) → .eof ∉ argumentsSpelling ns
  | [] => List.not_mem_nil
  | n :: ns => by
    have hn := eof_notMem_between (eof_notMem_spelling n)
    have hns := eof_notMem_argumentsSpelling ns
    simp [argumentsSpelling, hn, hns]

theorem eof_notMem_rescuesSpelling : (rs : List RescueClause) → .eof ∉ rescuesSpelling rs
  | [] => List.not_mem_nil
  | .mk _ body :: rs => by
    have hbody := eof_notMem_statementsSpelling body
    have hrs := eof_notMem_rescuesSpelling rs
    simp [rescuesSpelling, hbody, hrs]

end

end Node

end Garnet
