import Garnet.Proofs.Spelling
import Garnet.Proofs.Targets

/-!
# Every well-assigned tree is spelled by some tokens

The canonical spelling of a well-assigned tree reads as that tree
(`Node.reads_expression`), whatever its shape, its depth, and its names and
numbers. Together with the fact that only well-assigned trees are read, this
says what trees the parser can make: exactly the well-assigned ones
(`parser_image_is_well_assigned`).

As in the parser, each construct is read given a reader of the expressions
nested in it. What is needed of that reader is that it reads these expressions
as statements, and between parentheses (`Reads.Inner`).
-/

namespace Garnet

open Garnet.Parser Token

namespace Reads

variable {expr : Parser Node} {n : Node} {first follow : Kind → Bool} {ks : List Kind}

/-! ## From primary expressions to expressions -/

/-- Whether an expression between parentheses ends before a token. -/
def endsOperand (k : Kind) : Bool :=
  unlike (.mark .dot) k && (unlike (.mark .shiftLeft) k && unlike (.mark .equals) k)

/-- Statements end with a newline or a semicolon. -/
theorem eq_or_eq_of_isTerminator {k : Kind} (h : k.isTerminator = true) :
    k = .newline ∨ k = .mark .semicolon := by
  cases k with
  | newline => exact Or.inl rfl
  | mark m =>
    cases m with
    | semicolon => exact Or.inr rfl
    | _ => cases h
  | _ => cases h

theorem endsOperand_of_isTerminator {k : Kind} (h : k.isTerminator = true) :
    endsOperand k = true := by
  rcases eq_or_eq_of_isTerminator h with rfl | rfl <;> rfl

/-- No call with a dot follows. -/
theorem callsWithin_none {m : Nat} (hm : 0 < m) :
    Reads (callsWithin expr m n) (unlike (.mark .dot)) [] n := by
  cases m with
  | zero => cases hm
  | succ m => exact (eat_miss (.mark .dot)).stay (pure n) fun _ h => h

/-- No further operand follows. -/
theorem shiftsWithin_none {m : Nat} (hm : 0 < m) :
    Reads (shiftsWithin expr m n) (unlike (.mark .shiftLeft)) [] n := by
  cases m with
  | zero => cases hm
  | succ m => exact (eat_miss (.mark .shiftLeft)).stay (pure n) fun _ h => h

/-- **The beginning of an operand.** In front of what `first` allows, the reader of
operands goes on after some tokens with the calls on an expression. -/
def Leads (expr : Parser Node) (first : Kind → Bool) (ks : List Kind) (n : Node) : Prop :=
  ∀ (follow : Kind → Bool) (ls : List Kind) (r : Node), Admits first follow ls →
    (∀ m, ls.length < m → Reads (callsWithin expr m n) follow ls r) →
      Reads (operand expr) follow (ks ++ ls) r

/-- An operand begins with a primary expression. -/
theorem leads_of_primary (h : Reads (primary expr) first ks n) : Leads expr first ks n :=
  fun _ _ _ hadmits hcalls => h.bind (room hcalls) hadmits

/-- Less can follow an operand. -/
theorem Leads.restrict (h : Leads expr follow ks n)
    (hfirst : ∀ k, first k = true → follow k = true) : Leads expr first ks n := by
  intro follow' ls r hadmits
  refine h follow' ls r ?_
  cases ls with
  | nil => exact fun k hk => hfirst k (hadmits k hk)
  | cons => exact hfirst _ hadmits

/-- **One more call with a dot.** -/
theorem Leads.call {func : String} {args : List Node} {k : Kind} {ls : List Kind}
    (h : Leads expr first ks n) (hdot : first (.mark .dot) = true) (hk : (k != .newline) = true)
    (hname : Reads methodName anyKind [k] func)
    (hargs : Reads (arguments? expr) anyKind ls (some args)) :
    Leads expr anyKind (ks ++ (.mark .dot :: k :: ls)) (.call (some n) func args) := by
  intro follow more r _ hcalls
  rw [List.append_assoc]
  refine h follow _ r hdot fun m hm => ?_
  cases m with
  | zero => cases hm
  | succ m =>
    refine (eat_hit rfl).step (skipNewlines_none.stay (hname.step ?_) hk)
    refine hargs.bind (hcalls m ?_) ?_
    · simp only [List.cons_append, List.length_cons, List.length_append] at hm
      omega
    · cases more with
      | nil => exact fun _ _ => rfl
      | cons => exact rfl

/-- An operand ends where no other call follows. -/
theorem Leads.operand (h : Leads expr first ks n)
    (hfirst : ∀ k, follow k = true → first k = true)
    (hfollow : ∀ k, follow k = true → unlike (.mark .dot) k = true) :
    Reads (operand expr) follow ks n := by
  have hnone := h follow [] n hfirst fun m hm => (callsWithin_none hm).restrict hfollow
  rwa [List.append_nil] at hnone

theorem operand_of_primary (h : Reads (primary expr) first ks n)
    (hfirst : ∀ k, follow k = true → first k = true)
    (hfollow : ∀ k, follow k = true → unlike (.mark .dot) k = true) :
    Reads (operand expr) follow ks n :=
  (leads_of_primary h).operand hfirst hfollow

theorem shift_of_operand (h : Reads (operand expr) follow ks n)
    (hfollow : ∀ k, follow k = true → unlike (.mark .shiftLeft) k = true) :
    Reads (shift expr) follow ks n :=
  h.last (room fun _ hm => (shiftsWithin_none hm).restrict hfollow) fun _ hk => hk

theorem expressionWith_of_shift (h : Reads (shift expr) follow ks n)
    (hfollow : ∀ k, follow k = true → unlike (.mark .equals) k = true) :
    Reads (expressionWith expr) follow ks n := by
  refine get_any fun c => h.last ?_ fun _ hk => hk
  exact (eat_miss (.mark .equals)).stay (pure n) hfollow

/-- An operand is an expression, in front of what ends it. -/
theorem expressionWith_of_operand (h : Reads (operand expr) follow ks n)
    (hfollow : ∀ k, follow k = true → endsOperand k = true) :
    Reads (expressionWith expr) follow ks n := by
  have hends {k : Kind} (hk : follow k = true) := Bool.and_eq_true_iff.mp (hfollow k hk)
  have hshift := shift_of_operand h fun k hk => (Bool.and_eq_true_iff.mp (hends hk).2).1
  exact expressionWith_of_shift hshift fun k hk => (Bool.and_eq_true_iff.mp (hends hk).2).2

/-- **A primary expression is an expression**, in front of what ends it. -/
theorem expressionWith_of_primary (h : Reads (primary expr) first ks n)
    (hfirst : ∀ k, follow k = true → first k = true)
    (hfollow : ∀ k, follow k = true → endsOperand k = true) :
    Reads (expressionWith expr) follow ks n := by
  have hdot {k : Kind} (hk : follow k = true) : unlike (.mark .dot) k = true :=
    (Bool.and_eq_true_iff.mp (hfollow k hk)).1
  exact expressionWith_of_operand (operand_of_primary h hfirst fun _ => hdot) hfollow

/-! ## Expressions between parentheses -/

theorem grouped (h : Reads expr Kind.isTerminator n.spelling n) :
    Reads (primary expr) anyKind (Node.between n.spelling) n := by
  refine kind_cons ((advance _).step (skipNewlines_none.stay ?_ ?_))
  · refine h.bind ?_ rfl
    refine skipNewlines_one.bind ?_ rfl
    exact (expect rfl _ _).last (pure n) fun _ _ => rfl
  -- the expression does not start with a newline that would be skipped
  · obtain ⟨k, ks, hks, hk⟩ := n.exists_spelling_cons
    rw [hks]
    have hnot := (Bool.and_eq_true_iff.mp hk).2
    cases k with
    | newline => cases hnot
    | _ => rfl

/-- **An expression that stands inside another one**, as it is and between
parentheses. -/
structure Inner (expr : Parser Node) (n : Node) : Prop where
  /-- As a statement. -/
  statement : Reads expr Kind.isTerminator n.spelling n
  /-- Between parentheses. -/
  between : Reads expr endsOperand (Node.between n.spelling) n

/-! ## Arguments -/

/-- Whether a token after a name starts no arguments. -/
def endsName (k : Kind) : Bool :=
  unlike (.mark .leftParen) k && !(Cursor.atKinds [k]).startsArgument

theorem endsName_of_isTerminator {k : Kind} (h : k.isTerminator = true) : endsName k = true := by
  rcases eq_or_eq_of_isTerminator h with rfl | rfl <;> rfl

theorem arguments_none : Reads (arguments? expr) endsName [] none := by
  refine (eat_miss (.mark .leftParen)).stay (get_nil fun c hc => ?_)
    fun k hk => (Bool.and_eq_true_iff.mp hk).1
  have hstarts : (Cursor.atKinds [c.kind]).startsArgument = false := by
    simpa using (Bool.and_eq_true_iff.mp hc).2
  rw [show c.startsArgument = false from hstarts]
  exact pure none

/-- Arguments follow an opening parenthesis. -/
theorem arguments_of_parenthesized {args : List Node}
    (h : Reads (Parser.parenthesized expr .arguments) anyKind ks args) :
    Reads (arguments? expr) anyKind (.mark .leftParen :: ks) (some args) :=
  (eat_hit rfl).step (h.map some)

/-- The arguments of a call, between parentheses. -/
theorem arguments_some {args : List Node} (h : ∀ n ∈ args, Inner expr n) :
    Reads (arguments? expr) anyKind
      (.mark .leftParen :: (Node.argumentsSpelling args ++ [.mark .rightParen])) (some args) := by
  rw [Node.argumentsSpelling_eq]
  refine arguments_of_parenthesized ?_
  refine parenthesized (fun n hn => ?_) (fun n _ => ⟨_, _, rfl, rfl⟩) .arguments
  exact (h n hn).between.restrict fun k hk => by rw [eq_of_beq hk]; rfl

/-! ## Bodies -/

section Bodies

variable {body : List Node} (h : ∀ n ∈ body, Inner expr n)

include h

/-- The body of a construct, after its header. -/
theorem statements_body (context : SyntaxContext) :
    Reads (statements expr context) closesStatements
      (.mark .semicolon :: Node.statementsSpelling body) body := by
  rw [Node.statementsSpelling_eq]
  refine statements_after (fun n hn => ?_) (fun n _ => n.exists_spelling_cons) context
  exact (h n hn).statement

/-- The body of a construct, and the `end` after it. -/
theorem body_end (context : SyntaxContext) {f : List Node → Node} :
    Reads (do
        let ns ← statements expr context
        endKeyword context
        return f ns)
      anyKind (.mark .semicolon :: (Node.statementsSpelling body ++ [.keyword .endKw]))
      (f body) := by
  refine (statements_body h context).bind ?_ rfl
  exact (expect rfl _ _).last (pure (f body)) fun _ _ => rfl

end Bodies

/-! ## Definitions of methods and classes -/

theorem name_ident (s expected : String) (context : SyntaxContext) :
    Reads (name expected context) anyKind [.ident s] s :=
  kind_cons ((advance _).step (pure s))

theorem constantName_constant (s expected : String) (context : SyntaxContext) :
    Reads (constantName expected context) anyKind [.constant s] s :=
  kind_cons ((advance _).step (pure s))

theorem parameters (params : List String) :
    Reads parameters anyKind (.mark .leftParen :: Node.parametersSpelling params) params := by
  refine (eat_hit rfl).step ?_
  refine parenthesized (fun p _ => ?_) (fun p _ => ⟨_, _, rfl, rfl⟩) .methodDefinition
  exact (name_ident p _ _).restrict fun _ _ => rfl

theorem definition (func : String) (params : List String) {body : List Node}
    (h : ∀ n ∈ body, Inner expr n) :
    Reads (primary expr) anyKind (Node.funcDecl func params body).spelling
      (.funcDecl func params body) := by
  rw [Node.spelling]
  refine kind_cons ((advance _).step ((name_ident func _ _).step ?_))
  exact (parameters params).bind (body_end h .methodDefinition) rfl

theorem superclass_spelling (superclass : Option String) :
    Reads superclass? (unlike (.mark .less)) (Node.superclassSpelling superclass) superclass := by
  cases superclass with
  | none => exact (eat_miss (.mark .less)).stay (pure none) fun _ h => h
  | some s =>
    refine (eat_hit rfl).step ?_
    exact ((constantName_constant s _ _).restrict fun _ _ => rfl).map some

theorem classDefinition (className : String) (superclass : Option String) {body : List Node}
    (h : ∀ n ∈ body, Inner expr n) :
    Reads (primary expr) anyKind (Node.classDecl className superclass body).spelling
      (.classDecl className superclass body) := by
  rw [Node.spelling]
  refine kind_cons ((advance _).step ((constantName_constant className _ _).step ?_))
  exact (superclass_spelling superclass).bind (body_end h .classDefinition) rfl

/-! ## Blocks -/

section Blocks

variable {condition : Node} {body orElse : List Node} {rescues : List RescueClause}

theorem elseBranch (h : ∀ n ∈ orElse, Inner expr n) :
    Reads (elseBranch expr) closesStatements
      (.keyword .elseKw :: .mark .semicolon :: Node.statementsSpelling orElse) orElse :=
  (eat_hit rfl).step (statements_body h _)

theorem conditional (hcondition : Inner expr condition) (hbody : ∀ n ∈ body, Inner expr n)
    (horElse : ∀ n ∈ orElse, Inner expr n) :
    Reads (primary expr) anyKind (Node.ifBlock condition body orElse).spelling
      (.ifBlock condition body orElse) := by
  rw [Node.spelling]
  refine kind_cons ((advance _).step (room fun m hm => ?_))
  have hbranches : Reads (branchesWithin expr m) closesStatements
      (Node.between condition.spelling ++ (.mark .semicolon :: (Node.statementsSpelling body
        ++ (.keyword .elseKw :: .mark .semicolon :: Node.statementsSpelling orElse))))
      (.ifBlock condition body orElse) := by
    cases m with
    | zero => cases hm
    | succ m =>
      refine hcondition.between.bind ?_ rfl
      refine (eat_miss (.keyword .thenKw)).stay ?_ rfl
      refine (statements_body hbody _).bind ?_ rfl
      refine (eat_miss (.keyword .elsifKw)).stay ?_ rfl
      exact (elseBranch horElse).map (Node.ifBlock condition body)
  refine hbranches.bind ?_ rfl
  exact (expect rfl _ _).last (pure (Node.ifBlock condition body orElse)) fun _ _ => rfl

theorem rescueClass_constant (className : String) :
    Reads rescueClass anyKind [.constant className] className := by
  refine get_cons fun c hc => ?_
  have hcloses : c.closesStatements = false := by
    unfold Cursor.closesStatements
    rw [hc]
  rw [hc, hcloses]
  exact constantName_constant className _ _

theorem rescuesWithin (h : ∀ r ∈ rescues, ∀ n ∈ r.body, Inner expr n) {m : Nat}
    (hm : rescues.length < m) :
    Reads (rescuesWithin expr m) (· == .keyword .endKw) (Node.rescuesSpelling rescues) rescues := by
  induction rescues generalizing m with
  | nil =>
    cases m with
    | zero => cases hm
    | succ m =>
      refine (eat_miss (.keyword .rescueKw)).stay (pure []) fun k hk => ?_
      rw [eq_of_beq hk]
      rfl
  | cons r rest ih =>
    cases m with
    | zero => cases hm
    | succ m =>
      obtain ⟨className, body⟩ := r
      have hrest := ih (fun r hr => h r (List.mem_cons_of_mem _ hr)) (Nat.lt_of_succ_lt_succ hm)
      have hbody := statements_body (h _ List.mem_cons_self) .beginBlock
      rw [Node.rescuesSpelling]
      refine (eat_hit rfl).step ((rescueClass_constant className).step ?_)
      refine hbody.bind (hrest.map (RescueClause.mk className body :: ·)) ?_
      cases rest with
      | nil => exact fun k hk => by rw [eq_of_beq hk]; rfl
      | cons r rest => obtain ⟨c, b⟩ := r; exact rfl

theorem beginBlock (hbody : ∀ n ∈ body, Inner expr n)
    (hrescues : ∀ r ∈ rescues, ∀ n ∈ r.body, Inner expr n) :
    Reads (primary expr) anyKind (Node.beginBlock body rescues).spelling
      (.beginBlock body rescues) := by
  rw [Node.spelling]
  refine kind_cons ((advance _).step ((statements_body hbody _).bind (room fun m hm => ?_) ?_))
  · have hm : rescues.length < m := by
      rw [List.length_append] at hm
      have := Node.length_le_length_rescuesSpelling rescues
      omega
    refine (rescuesWithin hrescues hm).bind ?_ rfl
    exact (expect rfl _ _).last (pure (Node.beginBlock body rescues)) fun _ _ => rfl
  · cases rescues with
    | nil => exact rfl
    | cons r rest => obtain ⟨c, b⟩ := r; exact rfl

theorem returnValue_none :
    Reads (primary expr) Kind.isTerminator (Node.returnValue none).spelling
      (.returnValue none) := by
  refine kind_cons ((advance _).step (get_nil fun c hc => ?_))
  rw [hc]
  exact pure (Node.returnValue none)

theorem returnValue_some {value : Node} (h : Inner expr value) :
    Reads (primary expr) Kind.isTerminator (Node.returnValue (some value)).spelling
      (.returnValue (some value)) := by
  rw [Node.spelling]
  refine kind_cons ((advance _).step (get_cons fun c hc => ?_))
  have hcloses : c.closesStatements = false := by
    unfold Cursor.closesStatements
    rw [hc]
  rw [hc, hcloses]
  have hvalue := h.between.restrict fun k => endsOperand_of_isTerminator
  exact hvalue.map fun value => Node.returnValue (some value)

end Blocks

/-! ## Literals, names, calls and assignments -/

theorem literal (k : Kind) (n : Node) : Reads (literal n) anyKind [k] n :=
  (advance k).step (pure n)

/-- A name is a reference if nothing that follows can be an argument. -/
theorem reference (s : String) :
    Reads (primary expr) endsName [.ident s] (.bareReference s) := by
  refine kind_cons ((advance _).step ?_)
  exact arguments_none.last (pure (Node.bareReference s)) fun _ h => h

/-- A name with arguments is a call. -/
theorem call_ident (func : String) {args : List Node}
    (h : Reads (arguments? expr) anyKind ks (some args)) :
    Reads (primary expr) anyKind (.ident func :: ks) (.call none func args) := by
  refine kind_cons ((advance _).step ?_)
  exact h.last (pure (Node.call none func args)) fun _ _ => rfl

/-- What was found to be the name of a method is taken. -/
theorem found_name (k : Kind) (s : String) :
    Reads (Pure.pure s >>= fun found => Parser.advance >>= fun _ => Pure.pure found)
      anyKind [k] s := by
  have hfound : Reads (Pure.pure s) anyKind [] s := pure s
  exact hfound.stay ((advance k).step (pure s)) rfl

theorem methodName_ident (s : String) : Reads methodName anyKind [.ident s] s :=
  kind_cons (found_name (.ident s) s)

/-- A call with a dot, in front of no other one. -/
theorem call_some {target : Node} (func : String) {args : List Node} (htarget : Inner expr target)
    (h : ∀ n ∈ args, Inner expr n) :
    Reads (operand expr) (unlike (.mark .dot)) (Node.call (some target) func args).spelling
      (.call (some target) func args) := by
  rw [Node.spelling]
  have hleads := leads_of_primary (grouped htarget.statement)
  have hcall := hleads.call rfl rfl (methodName_ident func) (arguments_some h)
  exact hcall.operand (fun _ _ => rfl) fun _ hk => hk

/-- **An assignment** to an operand. -/
theorem assignment {lhs rhs : Node} {ls : List Kind} (hassignable : lhs.isAssignable = true)
    (hlhs : Reads (operand expr) (· == .mark .equals) ks lhs) (hrhs : Reads expr follow ls rhs)
    (hstart : Admits (· != .newline) follow ls) :
    Reads (expressionWith expr) follow (ks ++ (.mark .equals :: ls)) (.assignment lhs rhs) := by
  have hshift : Reads (shift expr) (· == .mark .equals) ks lhs := by
    refine shift_of_operand hlhs fun k hk => ?_
    rw [eq_of_beq hk]
    rfl
  refine get_any fun c => hshift.bind ((eat_hit rfl).step (skipNewlines_none.stay ?_ hstart)) rfl
  rw [hassignable]
  exact hrhs.map (Node.assignment lhs)

/-! ## All trees -/

section Trees

variable {d : Nat}
  (h : ∀ m : Node, m.wellAssigned = true → m.spelling.length + 3 < d → Inner expr m)

include h

/-- The statements of a body that is short enough. -/
theorem inner_of_statements {ns : List Node} (hns : Node.allWellAssigned ns = true)
    (hd : (Node.statementsSpelling ns).length + 2 < d) : ∀ n ∈ ns, Inner expr n := by
  intro n hn
  refine h n (Node.allWellAssigned_eq_true.mp hns n hn) ?_
  have hlength := length_lt_length_separated Node.spelling (.mark .semicolon) hn
  rw [← Node.statementsSpelling_eq] at hlength
  omega

/-- Arguments that are short enough. -/
theorem inner_of_arguments {ns : List Node} (hns : Node.allWellAssigned ns = true)
    (hd : (Node.argumentsSpelling ns).length ≤ d) : ∀ n ∈ ns, Inner expr n := by
  intro n hn
  refine h n (Node.allWellAssigned_eq_true.mp hns n hn) ?_
  have hlength := length_lt_length_separated (fun n => Node.between n.spelling) (.mark .comma) hn
  rw [← Node.argumentsSpelling_eq, Node.length_between] at hlength
  omega

/-- The statements of `rescue` clauses that are short enough. -/
theorem inner_of_rescues {rs : List RescueClause} (hrs : Node.rescuesWellAssigned rs = true)
    (hd : (Node.rescuesSpelling rs).length ≤ d) : ∀ r ∈ rs, ∀ n ∈ r.body, Inner expr n := by
  intro r hr
  refine inner_of_statements h (Node.rescuesWellAssigned_eq_true.mp hrs r hr) ?_
  have hlength := Node.length_statementsSpelling_lt hr
  omega

/-- **Every expression is read** by a reader that is given a reader of the
expressions nested in it. -/
theorem expressionWith_spelling (hn : n.wellAssigned = true) (hd : n.spelling.length ≤ d) :
    Reads (expressionWith expr) Kind.isTerminator n.spelling n := by
  have hprimary (hn : Reads (primary expr) anyKind n.spelling n) :
      Reads (expressionWith expr) Kind.isTerminator n.spelling n :=
    expressionWith_of_primary hn (fun _ _ => rfl) fun _ => endsOperand_of_isTerminator
  -- a name or a `return` that stands last needs the separator to end it
  have hstatement (hn : Reads (primary expr) Kind.isTerminator n.spelling n) :
      Reads (expressionWith expr) Kind.isTerminator n.spelling n :=
    expressionWith_of_primary hn (fun _ hk => hk) fun _ => endsOperand_of_isTerminator
  cases n with
  | simpleString | interpolatedString | int | float | globalVariable | symbol | fileName =>
    exact hprimary (kind_cons (literal _ _))
  | boolean b => cases b <;> exact hprimary (kind_cons (literal _ _))
  | bareReference s =>
    exact hstatement ((reference s).restrict fun _ => endsName_of_isTerminator)
  | funcDecl func params body =>
    refine hprimary (definition func params (inner_of_statements h hn ?_))
    simp only [Node.spelling, List.length_cons, List.length_append, List.length_nil] at hd
    omega
  | call target func args =>
    cases target with
    | none =>
      rw [Node.spelling]
      refine hprimary (call_ident func (arguments_some (inner_of_arguments h hn ?_)))
      simp only [Node.spelling, List.length_cons, List.length_append, List.length_nil] at hd
      omega
    | some target =>
      obtain ⟨htarget, hargs⟩ := Bool.and_eq_true_iff.mp hn
      simp only [Node.spelling, Node.length_between, List.length_cons, List.length_append,
        List.length_nil] at hd
      have hinner : Inner expr target := h target htarget (by omega)
      have hoperand := call_some func hinner (inner_of_arguments h hargs (by omega))
      refine expressionWith_of_operand (hoperand.restrict fun k hk => ?_)
        fun _ => endsOperand_of_isTerminator
      exact (Bool.and_eq_true_iff.mp (endsOperand_of_isTerminator hk)).1
  | assignment lhs rhs =>
    obtain ⟨hlhs, hrhs⟩ := Bool.and_eq_true_iff.mp hn
    simp only [Node.spelling, Node.length_between, List.length_cons, List.length_append] at hd
    have hinner : Inner expr lhs :=
      h lhs (Node.wellAssigned_of_isAssignable hlhs) (by omega)
    have hoperand : Reads (operand expr) (· == .mark .equals) (Node.between lhs.spelling) lhs := by
      refine operand_of_primary (grouped hinner.statement) (fun _ _ => rfl) fun k hk => ?_
      rw [eq_of_beq hk]
      rfl
    have hvalue := (h rhs hrhs (by omega)).between.restrict fun _ => endsOperand_of_isTerminator
    rw [Node.spelling]
    exact assignment hlhs hoperand hvalue rfl
  | ifBlock condition body orElse =>
    obtain ⟨hcondition, hbranches⟩ := Bool.and_eq_true_iff.mp hn
    obtain ⟨hbody, horElse⟩ := Bool.and_eq_true_iff.mp hbranches
    simp only [Node.spelling, Node.length_between, List.length_cons, List.length_append,
      List.length_nil] at hd
    exact hprimary (conditional (h condition hcondition (by omega))
      (inner_of_statements h hbody (by omega)) (inner_of_statements h horElse (by omega)))
  | beginBlock body rescues =>
    obtain ⟨hbody, hrescues⟩ := Bool.and_eq_true_iff.mp hn
    simp only [Node.spelling, List.length_cons, List.length_append, List.length_nil] at hd
    exact hprimary (beginBlock (inner_of_statements h hbody (by omega))
      (inner_of_rescues h hrescues (by omega)))
  | classDecl className superclass body =>
    refine hprimary (classDefinition className superclass (inner_of_statements h hn ?_))
    simp only [Node.spelling, List.length_cons, List.length_append, List.length_nil] at hd
    omega
  | returnValue value =>
    cases value with
    | none => exact hstatement returnValue_none
    | some value =>
      simp only [Node.spelling, Node.length_between, List.length_cons] at hd
      exact hstatement (returnValue_some (h value hn (by omega)))

end Trees

end Reads

/-- An expression between parentheses takes one more level of nesting. -/
theorem Node.reads_between {n : Node} {d : Nat}
    (h : Reads (expression d) Kind.isTerminator n.spelling n) :
    Reads (expression (d + 1)) Reads.endsOperand (between n.spelling) n :=
  Reads.expressionWith_of_primary (Reads.grouped h) (fun _ _ => rfl) fun _ hk => hk

/-- **The canonical spelling of a well-assigned tree reads as that tree**, if
nesting is bounded by the length of the spelling. -/
theorem Node.reads_expression {n : Node} {d : Nat} (hn : n.wellAssigned = true)
    (hd : n.spelling.length < d) : Reads (expression d) Kind.isTerminator n.spelling n := by
  induction d using Nat.strongRecOn generalizing n with
  | ind d ih =>
    cases d with
    | zero => cases hd
    | succ d =>
      refine Reads.expressionWith_spelling (fun m hm hmd => ?_) hn (Nat.le_of_lt_succ hd)
      -- what is nested stands one level deeper, and two between parentheses
      cases d with
      | zero => cases hmd
      | succ d =>
        refine ⟨ih (d + 1) (Nat.lt_succ_self _) hm (by omega), ?_⟩
        exact reads_between (ih d (by omega) hm (by omega))

/-! ## Programs -/

/-- Whether tokens are those of a whole source: its end is the last of them,
and only the last. -/
def Token.IsWhole (ts : List Token) : Prop :=
  ∃ (before : List Token) (last : Token),
    ts = before ++ [last] ∧ last.kind = .eof ∧ ∀ t ∈ before, t.kind ≠ .eof

/-- **The canonical spelling of a program**, up to the end of the source. -/
def canonicalTokens (nodes : List Node) : List Token :=
  (Node.statementsSpelling nodes ++ [Kind.eof]).map ofKind

theorem isWhole_canonicalTokens (nodes : List Node) : IsWhole (canonicalTokens nodes) := by
  refine ⟨(Node.statementsSpelling nodes).map ofKind, ofKind .eof, List.map_append, rfl, ?_⟩
  intro t ht
  obtain ⟨k, hk, rfl⟩ := List.mem_map.mp ht
  intro heof
  exact Node.eof_notMem_statementsSpelling nodes (heof ▸ hk)

/-- A program is read to the end of the source. -/
theorem Reads.program {nodes : List Node} {d : Nat} (h : Node.allWellAssigned nodes = true)
    (hd : (Node.statementsSpelling nodes).length ≤ d) :
    Reads (Parser.program d) (· == .eof) (Node.statementsSpelling nodes) nodes := by
  rw [Node.statementsSpelling_eq] at hd ⊢
  have hstatements : Reads (statements (expression d) .program) closesStatements
      (separated Node.spelling (.mark .semicolon) nodes) nodes := by
    refine statements_first (fun n hn => ?_) (fun n _ => n.exists_spelling_cons) .program
    have hlength := length_lt_length_separated Node.spelling (.mark .semicolon) hn
    exact Node.reads_expression (Node.allWellAssigned_eq_true.mp h n hn)
      (Nat.lt_of_lt_of_le hlength hd)
  refine hstatements.last (get_nil fun c hc => ?_) fun k hk => ?_
  · have hend : c.atEnd = true := by
      show c.kind.alike .eof = true
      rw [eq_of_beq hc]
      rfl
    rw [hend]
    exact pure nodes
  · rw [eq_of_beq hk]
    rfl

/-- **The canonical spelling of a well-assigned program reads as that
program.** -/
theorem parseTokens_canonicalTokens {nodes : List Node} (h : Node.allWellAssigned nodes = true) :
    parseTokens (canonicalTokens nodes) = .ok nodes := by
  have hd : (Node.statementsSpelling nodes).length ≤ (canonicalTokens nodes).length + 1 := by
    rw [canonicalTokens, List.length_map, List.length_append]
    omega
  have hprogram : (Parser.program ((canonicalTokens nodes).length + 1)).run
      (Cursor.start (canonicalTokens nodes)) = .ok nodes (Cursor.atKinds [.eof]) :=
    Reads.program h hd .eof [] rfl
  rw [parseTokens, hprogram]

/-- **The programs that can be read are the well-assigned ones.** Whatever the
tokens, each assignment in a tree that is read, wherever it stands, has a name
or a global on its left. Conversely, each sequence of trees like that is read
from the tokens of a whole source, its canonical spelling among them. -/
theorem parser_image_is_well_assigned (nodes : List Node) :
    (∀ tokens, parseTokens tokens = .ok nodes → Node.allWellAssigned nodes = true)
      ∧ (Node.allWellAssigned nodes = true → IsWhole (canonicalTokens nodes)
        ∧ parseTokens (canonicalTokens nodes) = .ok nodes) := by
  constructor
  · intro tokens h
    exact allWellAssigned_of_parseTokens h
  · intro h
    exact ⟨isWhole_canonicalTokens nodes, parseTokens_canonicalTokens h⟩

/-- An assignment in the branch of an `if`, whose right side is a call with a
`return` for its argument. -/
theorem nested_assignment_is_read :
    Node.allWellAssigned [.ifBlock (.globalVariable "debug")
        [.assignment (.bareReference "x") (.call none "f" [.returnValue none])] []] = true
      ∧ parseTokens (canonicalTokens [.ifBlock (.globalVariable "debug")
        [.assignment (.bareReference "x") (.call none "f" [.returnValue none])] []])
        = .ok [.ifBlock (.globalVariable "debug")
          [.assignment (.bareReference "x") (.call none "f" [.returnValue none])] []] := by
  have hassigned : Node.allWellAssigned [.ifBlock (.globalVariable "debug")
      [.assignment (.bareReference "x") (.call none "f" [.returnValue none])] []] = true := by
    decide
  have hread := ((parser_image_is_well_assigned _).2 hassigned).2
  exact ⟨(parser_image_is_well_assigned _).1 _ hread, hread⟩

end Garnet
