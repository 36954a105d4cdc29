import Garnet.Proofs.Completing
import Garnet.Proofs.Canonical

/-!
# Constructs can be completed

Every construct of the grammar can be completed from any point where its reader
stops because of the token there, and every construct can be started
(`Completable`). In the order of the grammar, from single tokens to programs
(`Completable.program`), this is put together from the rules for readers.

What completes a construct is as short as it can be: names and numbers of one
token, blocks without statements, lists without items. The token after it is a
semicolon, a closing parenthesis, an `end` or the end of the source, of which none
can be taken for a part of the construct. A `return` is given a value, because
without one it could not stand in front of a parenthesis.
-/

namespace Garnet

open Garnet.Parser Token

/-- Whether an expression that is completed ends before a token. -/
def closesExpression : Kind → Bool
  | .mark .rightParen | .mark .semicolon => true
  | _ => false

/-- What follows an expression that is completed. -/
theorem forall_closesExpression {b : Kind → Bool} {v : Bool} (hparen : b (.mark .rightParen) = v)
    (hsemicolon : b (.mark .semicolon) = v) : ∀ u, closesExpression u = true → b u = v := by
  intro u hu
  cases u with
  | mark w =>
    cases w with
    | rightParen => exact hparen
    | semicolon => exact hsemicolon
    | _ => cases hu
  | _ => cases hu

/-- One kind of token, and what it carries. -/
def only (t : Kind) : Kind → Bool :=
  (· == t)

theorem only_self (t : Kind) : only t t = true :=
  beq_self_eq_true t

/-- What comes first, or follows, if that is a single token. -/
theorem forall_only {t : Kind} {b : Kind → Bool} {v : Bool} (h : b t = v) :
    ∀ u, only t u = true → b u = v := by
  intro u hu
  rw [eq_of_beq hu]
  exact h

/-- The body of a branch, and the branches after it. -/
def Parser.branchesAfter (expr branches : Parser Node) (condition : Node) : Parser Node := do
  let body ← statements expr .ifExpression
  if ← eat (.keyword .elsifKw) then
    return .ifBlock condition body [← branches]
  else
    return .ifBlock condition body (← elseBranch expr)

namespace Completable

variable {α ι : Type} {size : ι → Nat} {i j k m : Nat}
  {first first' follow follow' : Kind → Bool} {p : Parser α} {q : ι → Parser α}

/-- Some tokens may stand before what is completed. -/
theorem sub (h : Completable size i k first follow p q) (n : Nat) :
    Completable (fun x => size x - n) i (k - n) first follow p q :=
  h.inside id (fun _ => Nat.sub_le _ n) (Nat.le_refl i) (Nat.sub_le k n)

/-- Fewer tokens may follow. -/
theorem before (h : Completable size i k first follow p q)
    (hfollow : ∀ u, follow' u = true → follow u = true) :
    Completable size i k first follow' p q :=
  h.mono (fun _ => Nat.le_refl _) (Nat.le_refl i) (Nat.le_refl k) (fun _ hu => hu) hfollow

theorem done (a : α) : Completable size 0 k follow follow (Pure.pure a) (fun _ => Pure.pure a) :=
  pure a fun _ hu => hu

/-- The span of the first token makes no difference. -/
theorem firstSpan {f : Span → Parser α} {g : ι → Span → Parser α}
    (hf : ∀ s s', Alike i k (f s) (f s'))
    (hfg : ∀ s, Completable (fun y : ι × Span => size y.1) i k first follow (f s)
      (fun y => g y.1 y.2)) :
    Completable size i k first follow (get >>= fun c => f c.current.span)
      (fun x => get >>= fun c => g x c.current.span) where
  self := Alike.parallel.first (l := false) fun s s' _ => hf s s'
  alike x := Alike.parallel.first (l := false) fun s s' _ => (hfg s).alike (x, s')
  start := by
    obtain ⟨more, a, hadmits, hi, hread⟩ := (hfg (Span.point 0)).start
    exact ⟨more, a, hadmits, hi, fun x hx => Reads.get_any fun c => hread (x, c.current.span) hx⟩
  reach ks hne hks hreach := by
    obtain ⟨c, d, used, hc, hkinds, hstop⟩ := hreach
    obtain ⟨more, a, hi, hread⟩ := (hfg c.current.span).reach ks hne hks
      ⟨c, d, used, hc, hkinds, hstop⟩
    exact ⟨more, a, hi, fun x hx => Reads.get_any fun c => hread (x, c.current.span) hx⟩

/-! ## Single tokens -/

/-- A token that has to be there. -/
theorem expect {t : Kind} (ht : t.isContent = true) (hlike : t.alike t = true) (expected : String)
    (context : SyntaxContext) :
    Completable size 1 k (only t) follow (Parser.expect t expected context)
      (fun _ => Parser.expect t expected context) := by
  rw [expect_eq]
  refine taking (fun u hu => ?_) (fun u => ?_) (only_self t) ?_ _ _
  · rw [Kind.alike_eq_false ht hu]
    exact ⟨rfl, fun _ => rfl⟩
  · cases u.alike t with
    | false => exact .inl ⟨rfl, fun _ => rfl⟩
    | true => exact .inr ⟨_, fun _ => _, rfl, fun _ => rfl, pure () fun _ _ => rfl⟩
  · rw [hlike]
    exact Option.some_ne_none _

/-- A token that has to be there, and carries what is read. -/
theorem word {next : Kind → Option (Parser String)}
    (hnext : ∀ t, next t = none ∨ t.isContent = true ∧ ∃ s, next t = some (Pure.pure s))
    {t : Kind} (ht : next t ≠ none) (expected : String) (context : SyntaxContext) :
    Completable size 1 k (only t) follow (Parser.taking next (unexpected expected context))
      (fun _ => Parser.taking next (unexpected expected context)) := by
  refine taking (fun u hu => ?_) (fun u => ?_) (only_self t) ht _ _
  · obtain hnone | ⟨hcontent, _⟩ := hnext u
    · exact ⟨hnone, fun _ => hnone⟩
    · rw [hu] at hcontent
      cases hcontent
  · obtain hnone | ⟨_, s, hs⟩ := hnext u
    · exact .inl ⟨hnone, fun _ => hnone⟩
    · exact .inr ⟨_, fun _ => _, hs, fun _ => hs, pure s fun _ _ => rfl⟩

theorem name (s expected : String) (context : SyntaxContext) :
    Completable size 1 k (only (.ident s)) follow (Parser.name expected context)
      (fun _ => Parser.name expected context) := by
  rw [name_eq]
  refine word (fun t => ?_) (Option.some_ne_none _) _ _
  cases t with
  | ident s | constant s => exact .inr ⟨rfl, s, rfl⟩
  | _ => exact .inl rfl

theorem constantName (s expected : String) (context : SyntaxContext) :
    Completable size 1 k (only (.constant s)) follow (Parser.constantName expected context)
      (fun _ => Parser.constantName expected context) := by
  rw [constantName_eq]
  refine word (fun t => ?_) (Option.some_ne_none _) _ _
  cases t with
  | constant s => exact .inr ⟨rfl, s, rfl⟩
  | _ => exact .inl rfl

theorem methodName (s : String) :
    Completable size 1 k (only (.ident s)) follow Parser.methodName
      (fun _ => Parser.methodName) := by
  rw [methodName_eq]
  refine word (fun t => ?_) (Option.some_ne_none _) _ _
  cases t with
  | ident s | constant s => exact .inr ⟨rfl, s, rfl⟩
  | keyword w =>
    cases w with
    | classKw | beginKw | endKw | thenKw => exact .inr ⟨rfl, _, rfl⟩
    | _ => exact .inl rfl
  | _ => exact .inl rfl

theorem endKeyword (context : SyntaxContext) :
    Completable size 1 k (only (.keyword .endKw)) follow (Parser.endKeyword context)
      (fun _ => Parser.endKeyword context) :=
  expect rfl rfl _ _

/-- Line ends. -/
theorem skipNewlines {t : Kind} (ht : (t == .newline) = false) :
    Completable size 0 k (only t) (only t) skipNewlines (fun _ => Parser.skipNewlines) :=
  skip rfl fun _ hu => eq_of_beq hu ▸ ht

/-! ## Lists -/

section Lists

variable {item : Parser α} {I : ι → Parser α}

/-- A list may be empty. -/
theorem starts_itemsWithin (I : ι → Parser α) :
    Starts (fun x : ι × Nat => min (size x.1) x.2) 0 (only (.mark .rightParen))
      (only (.mark .rightParen)) (fun x => Parser.itemsWithin (I x.1) x.2) := by
  refine ⟨[], [], fun _ h => h, Nat.le_refl 0, fun x hx => ?_⟩
  have hnil : Reads (Parser.itemsWithin (I x.1) x.2) (· == .mark .rightParen)
      (separated (fun _ => []) (.mark .comma) []) [] :=
    Reads.itemsWithin (List.forall_mem_nil _) (List.forall_mem_nil _)
      (Nat.lt_of_lt_of_le hx (Nat.min_le_right _ _))
  exact hnil

variable (hitem : Completable size 1 k first (only (.mark .rightParen)) item I)

include hitem

/-- Items of a list, up to the closing parenthesis. -/
theorem itemsWithin (m : Nat) :
    Completable (fun x : ι × Nat => min (size x.1) x.2) 0 (min k m) (only (.mark .rightParen))
      (only (.mark .rightParen)) (Parser.itemsWithin item m)
      (fun x => Parser.itemsWithin (I x.1) x.2) := by
  refine ⟨Completes.bounded (r := fun m (_ : Unit) => Parser.itemsWithin item m)
    (s := fun x n _ => Parser.itemsWithin (I x) n) (fun _ => rfl) (fun m ih _ => ?_) m (),
    starts_itemsWithin I⟩
  have hrec : Completable (fun x : ι × Nat => min (size x.1) x.2) 0 (min k m)
      (only (.mark .rightParen)) (only (.mark .rightParen)) (Parser.itemsWithin item m)
      (fun x => Parser.itemsWithin (I x.1) x.2) := ⟨ih (), starts_itemsWithin I⟩
  unfold Parser.itemsWithin
  refine Completes.look (f := fun t => if t.alike (.mark .rightParen) = true then _ else _)
    (g := fun x t => if t.alike (.mark .rightParen) = true then _ else _) fun t => ?_
  cases t.alike (.mark .rightParen) with
  | true => exact (done []).toCompletes
  | false =>
    have hitem' : Completable (fun x : ι × Nat => min (size x.1) (x.2 + 1)) 1 (min k (m + 1)) first
        (only (.mark .rightParen)) item (fun x => I x.1) :=
      hitem.inside Prod.fst (fun x => Nat.min_le_left _ _) (Nat.le_refl 1) (Nat.min_le_left _ _)
    refine (bind hitem' fun a => bind (skipNewlines rfl) fun _ => ?_).toCompletes
    refine eat rfl (done [a]) (forall_only rfl) ?_
    refine bind (skipNewlines (t := .mark .rightParen) rfl).anywhere fun _ => ?_
    refine bind (hrec.inside id (fun x => ?_) (Nat.le_refl 0) ?_) fun as => done (a :: as)
    · dsimp only [id]
      omega
    · omega

theorem parenthesized (context : SyntaxContext) :
    Completable size 1 k (only (.mark .rightParen)) anyKind (Parser.parenthesized item context)
      (fun x => Parser.parenthesized (I x) context) := by
  refine bind (skipNewlines rfl) fun _ => ?_
  have hself (m n : Nat) : Alike 0 (min k (min m n)) (Parser.itemsWithin item m)
      (Parser.itemsWithin item n) :=
    Alike.close.steps.itemsWithin (Alike.close.mono hitem.self (Nat.le_refl 1) (by omega))
      (by omega) (by omega)
  exact room_bind hself (itemsWithin hitem) fun as =>
    bind (expect rfl rfl _ _) fun _ => done as

end Lists

/-! ## Arguments -/

section Expressions

variable {expr : Parser Node} {E : ι → Parser Node}
  (h : Completable size 1 k (only (.int 1)) closesExpression expr E)

include h

/-- A single number is an argument. -/
theorem starts_commandArgumentsWithin :
    Starts (fun x : ι × Nat => min (size x.1) x.2) 1 (only (.int 1)) closesExpression
      (fun x => Parser.commandArgumentsWithin (E x.1) x.2) := by
  have hexpr : Starts (fun x : ι × Nat => min (size x.1) (x.2 + 1)) 1 (only (.int 1))
      closesExpression (fun x => E x.1) := h.start.inside Prod.fst fun _ => Nat.min_le_left _ _
  exact Starts.succ (s := fun x n => Parser.commandArgumentsWithin (E x) n)
    (hexpr.bind fun a => (Starts.done [a]).eat (forall_closesExpression rfl rfl))

/-- Arguments without parentheses. -/
theorem commandArgumentsWithin (m : Nat) :
    Completable (fun x : ι × Nat => min (size x.1) x.2) 1 (min k m) (only (.int 1))
      closesExpression (Parser.commandArgumentsWithin expr m)
      (fun x => Parser.commandArgumentsWithin (E x.1) x.2) := by
  refine ⟨Completes.bounded (r := fun m (_ : Unit) => Parser.commandArgumentsWithin expr m)
    (s := fun x n _ => Parser.commandArgumentsWithin (E x) n) (fun _ => rfl) (fun m ih _ => ?_) m
    (), starts_commandArgumentsWithin h⟩
  have hrec : Completable (fun x : ι × Nat => min (size x.1) x.2) 1 (min k m) (only (.int 1))
      closesExpression (Parser.commandArgumentsWithin expr m)
      (fun x => Parser.commandArgumentsWithin (E x.1) x.2) :=
    ⟨ih (), starts_commandArgumentsWithin h⟩
  have hexpr : Completable (fun x : ι × Nat => min (size x.1) (x.2 + 1)) 1 (min k (m + 1))
      (only (.int 1)) closesExpression expr (fun x => E x.1) :=
    h.inside Prod.fst (fun x => Nat.min_le_left _ _) (Nat.le_refl 1) (Nat.min_le_left _ _)
  unfold Parser.commandArgumentsWithin
  refine (bind hexpr fun a =>
    eat rfl (done [a]) (forall_closesExpression rfl rfl) ?_).toCompletes
  · refine bind (skipNewlines (t := .int 1) rfl).anywhere fun _ => ?_
    refine bind (hrec.inside id (fun x => ?_) (Nat.le_refl 1) ?_) fun as => done (a :: as)
    · dsimp only [id]
      omega
    · omega

/-- The arguments of a call, if there are any. -/
theorem arguments? : Completable size 0 k closesExpression closesExpression
    (Parser.arguments? expr) (fun x => Parser.arguments? (E x)) := by
  have hself (m n : Nat) : Alike 1 (min k (min m n)) (Parser.commandArgumentsWithin expr m)
      (Parser.commandArgumentsWithin expr n) :=
    Alike.close.steps.commandArgumentsWithin (l := false)
      (Alike.close.mono h.self (Nat.le_refl 1) (by omega)) (by omega) (by omega)
  have hargs : Completable size 0 k (only (.int 1)) closesExpression
      (Parser.room >>= fun n => Parser.commandArgumentsWithin expr n >>= fun as =>
        Pure.pure (some as))
      (fun x => Parser.room >>= fun n => Parser.commandArgumentsWithin (E x) n >>= fun as =>
        Pure.pure (some as)) :=
    room_bind hself (commandArgumentsWithin h) fun as => done (some as)
  have hnone : Completable size 0 k closesExpression closesExpression
      (Pure.pure (none : Option (List Node))) (fun _ => Pure.pure none) := done none
  unfold Parser.arguments?
  refine eat rfl (choose (b := startsArgument) (fun _ => rfl) false hargs.toCompletes
    hnone.toCompletes hnone.start (forall_closesExpression rfl rfl))
    (forall_closesExpression rfl rfl) ?_
  refine bind (parenthesized ((h.sub 1).before (forall_only rfl)) _).anywhere fun as => ?_
  exact pure (some as) fun _ _ => rfl

/-! ## Statements -/

omit h in
/-- Terminators, of which one is enough. -/
theorem skipTerminators (hfollow : ∀ u, follow u = true → u.isTerminator = false) :
    Completable size 0 k (only (.mark .semicolon)) follow skipTerminators
      (fun _ => Parser.skipTerminators) where
  toCompletes := (skip rfl hfollow).toCompletes
  start := by
    refine ⟨[.mark .semicolon], (), rfl, Nat.zero_le _, fun x _ => ?_⟩
    refine Reads.skipTerminators_one.restrict fun u hu => ?_
    rw [hfollow u hu]
    rfl

omit h in
/-- What closes statements separates none. -/
theorem not_isTerminator_of_closes (u : Kind) (hu : Garnet.closesStatements u = true) :
    u.isTerminator = false := by
  cases u with
  | mark w => cases hu
  | newline => cases hu
  | _ => rfl

omit h in
/-- What separates a statement from the next one. -/
theorem separator (context : SyntaxContext) :
    Completable size 0 k (only (.mark .semicolon)) closesStatements
      (Parser.separator context) (fun _ => Parser.separator context) := by
  have hskip : Completable size 0 k (only (.mark .semicolon)) closesStatements
      Parser.skipTerminators (fun _ => Parser.skipTerminators) :=
    skipTerminators not_isTerminator_of_closes
  rw [separator_eq]
  refine look (fun u => ?_) hskip.start fun x u hu => by rw [eq_of_beq hu]; rfl
  cases u.isTerminator with
  | true => exact hskip.toCompletes
  | false =>
    cases closesStatements u with
    | true => exact (done ()).toCompletes
    | false =>
      refine ⟨Alike.close.unexpected _ _, fun _ => Alike.close.unexpected _ _,
        fun ks hne _ hreach => absurd (hreach.eq_nil fun _ => rfl) hne⟩

omit h in
/-- There may be no statements. -/
theorem starts_statementsWithin (E : ι → Parser Node) (context : SyntaxContext) :
    Starts (fun x : ι × Nat => min (size x.1) x.2) 0 closesStatements closesStatements
      (fun x => Parser.statementsWithin (E x.1) context x.2) := by
  refine ⟨[], [], fun _ h => h, Nat.le_refl 0, fun x hx => ?_⟩
  have hnil : Reads (Parser.statementsWithin (E x.1) context x.2) closesStatements
      (separated (fun _ => []) (.mark .semicolon) []) [] :=
    Reads.statementsWithin (List.forall_mem_nil _) (List.forall_mem_nil _) context
      (Nat.lt_of_lt_of_le hx (Nat.min_le_right _ _))
  exact hnil

theorem statementsWithin (context : SyntaxContext) (m : Nat) :
    Completable (fun x : ι × Nat => min (size x.1) x.2) 0 (min k m) closesStatements
      closesStatements (Parser.statementsWithin expr context m)
      (fun x => Parser.statementsWithin (E x.1) context x.2) := by
  refine ⟨Completes.bounded (r := fun m (_ : Unit) => Parser.statementsWithin expr context m)
    (s := fun x n _ => Parser.statementsWithin (E x) context n) (fun _ => rfl) (fun m ih _ => ?_) m
    (), starts_statementsWithin E context⟩
  have hrec : Completable (fun x : ι × Nat => min (size x.1) x.2) 0 (min k m) closesStatements
      closesStatements (Parser.statementsWithin expr context m)
      (fun x => Parser.statementsWithin (E x.1) context x.2) :=
    ⟨ih (), starts_statementsWithin E context⟩
  have hexpr : Completable (fun x : ι × Nat => min (size x.1) (x.2 + 1)) 1 (min k (m + 1))
      (only (.int 1)) (only (.mark .semicolon)) expr (fun x => E x.1) :=
    (h.inside Prod.fst (fun x => Nat.min_le_left _ _) (Nat.le_refl 1)
      (Nat.min_le_left _ _)).before (forall_only rfl)
  refine Completes.look (f := fun t => if closesStatements t = true then _ else _)
    (g := fun x t => if closesStatements t = true then _ else _) fun t => ?_
  cases closesStatements t with
  | true => exact (done []).toCompletes
  | false =>
    refine (bind hexpr fun a => bind (separator context) fun _ => ?_).toCompletes
    refine bind (hrec.inside id (fun x => ?_) (Nat.le_refl 0) ?_) fun as => done (a :: as)
    · dsimp only [id]
      omega
    · omega

/-- **Statements**, after a semicolon if they are started. -/
theorem statements (context : SyntaxContext) :
    Completable size 0 k (only (.mark .semicolon)) closesStatements
      (Parser.statements expr context) (fun x => Parser.statements (E x) context) := by
  have hself (m n : Nat) : Alike 0 (min k (min m n)) (Parser.statementsWithin expr context m)
      (Parser.statementsWithin expr context n) :=
    Alike.close.statementsWithin (Alike.close.mono h.self (Nat.le_refl 1) (by omega)) context
      (by omega) (by omega)
  exact bind (skipTerminators not_isTerminator_of_closes) fun _ =>
    room hself (statementsWithin h context)

/-! ## Constructs that start with a keyword -/

omit h in
theorem parameters : Completable size 0 k (only (.mark .semicolon)) (only (.mark .semicolon))
    Parser.parameters (fun _ => Parser.parameters) := by
  have hnames : Completable (fun x => size x - 1) 1 (k - 1) (only (.mark .rightParen)) anyKind
      (Parser.parenthesized (Parser.name "a parameter name" .methodDefinition) .methodDefinition)
      (fun _ => Parser.parenthesized (Parser.name "a parameter name" .methodDefinition)
        .methodDefinition) := parenthesized (name "x" _ _) _
  refine eat rfl (done []) (forall_only rfl) ?_
  exact (hnames.anywhere.before fun _ _ => rfl).inside id (fun _ => Nat.le_refl _) (Nat.zero_le 1)
    (Nat.le_refl _)

theorem definition : Completable size 1 k anyKind anyKind (Parser.definition expr)
    (fun x => Parser.definition (E x)) := by
  unfold Parser.definition
  refine bind (name "f" _ _).anywhere fun func => bind parameters fun params => ?_
  refine bind (((h.sub 1).statements _).before (forall_only (t := .keyword .endKw) rfl))
    fun body => ?_
  exact bind (endKeyword _) fun _ => pure _ fun _ _ => rfl

/-- The other branch, in front of the `end`. -/
theorem elseBranch : Completable size 0 k (only (.keyword .endKw)) (only (.keyword .endKw))
    (Parser.elseBranch expr) (fun x => Parser.elseBranch (E x)) :=
  eat rfl (done []) (forall_only rfl) (((h.sub 1).statements _).anywhere.before (forall_only rfl))

/-- A condition and a semicolon make a branch. -/
theorem starts_branchesWithin :
    Starts (fun x : ι × Nat => min (size x.1) x.2) 1 (only (.int 1)) (only (.keyword .endKw))
      (fun x => Parser.branchesWithin (E x.1) x.2) := by
  have hexpr : Completable (fun x : ι × Nat => min (size x.1) (x.2 + 1)) 1 k (only (.int 1))
      closesExpression expr (fun x => E x.1) :=
    h.inside Prod.fst (fun _ => Nat.min_le_left _ _) (Nat.le_refl 1) (Nat.le_refl k)
  have hcondition := (hexpr.before (forall_only (t := .mark .semicolon) rfl)).start
  have hbody := (((hexpr.sub 1).statements .ifExpression).before
    (forall_only (t := .keyword .endKw) rfl)).start
  refine Starts.succ (s := fun x n => Parser.branchesWithin (E x) n)
    (hcondition.bind fun condition => Starts.eat ?_ (forall_only rfl))
  refine hbody.bind fun body => Starts.eat ?_ (forall_only rfl)
  exact ((hexpr.sub 1).elseBranch).start.bind fun orElse => Starts.done _

theorem branchesWithin (m : Nat) :
    Completable (fun x : ι × Nat => min (size x.1) x.2) 1 (min k m) (only (.int 1))
      (only (.keyword .endKw)) (Parser.branchesWithin expr m)
      (fun x => Parser.branchesWithin (E x.1) x.2) := by
  refine ⟨Completes.bounded (r := fun m (_ : Unit) => Parser.branchesWithin expr m)
    (s := fun x n _ => Parser.branchesWithin (E x) n) (fun _ => rfl) (fun m ih _ => ?_) m (),
    starts_branchesWithin h⟩
  have hrec : Completable (fun x : ι × Nat => min (size x.1) x.2) 1 (min k m) (only (.int 1))
      (only (.keyword .endKw)) (Parser.branchesWithin expr m)
      (fun x => Parser.branchesWithin (E x.1) x.2) := ⟨ih (), starts_branchesWithin h⟩
  have hexpr : Completable (fun x : ι × Nat => min (size x.1) (x.2 + 1)) 1 (min k (m + 1))
      (only (.int 1)) closesExpression expr (fun x => E x.1) :=
    h.inside Prod.fst (fun x => Nat.min_le_left _ _) (Nat.le_refl 1) (Nat.min_le_left _ _)
  unfold Parser.branchesWithin
  refine (bind (hexpr.before (forall_only (t := .mark .semicolon) rfl))
    fun condition => ?_).toCompletes
  have hrest : Completable (fun x : ι × Nat => min (size x.1) (x.2 + 1) - 1) 0 (min k (m + 1) - 1)
      (only (.mark .semicolon)) (only (.keyword .endKw))
      (branchesAfter expr (Parser.branchesWithin expr m) condition)
      (fun x => branchesAfter (E x.1) (Parser.branchesWithin (E x.1) x.2) condition) := by
    refine bind (((hexpr.sub 1).statements _).before (forall_only (t := .keyword .endKw) rfl))
      fun body => ?_
    refine eat rfl (bind ((hexpr.sub 1).elseBranch) fun orElse => done _) (forall_only rfl) ?_
    refine (bind (hrec.inside id (fun x => ?_) (Nat.zero_le 1) ?_) fun branch => done _).anywhere
    · dsimp only [id]
      omega
    · omega
  exact eat rfl hrest (forall_only rfl) (hrest.sub 1).anywhere

/-- An `if`, from its condition on. -/
theorem conditional : Completable size 1 k anyKind anyKind (Parser.conditional expr)
    (fun x => Parser.conditional (E x)) := by
  have hself (m n : Nat) : Alike 1 (min k (min m n)) (Parser.branchesWithin expr m)
      (Parser.branchesWithin expr n) :=
    Alike.close.steps.branchesWithin
      (Alike.close.mono h.self (Nat.le_refl 1) (by omega)) (by omega) (by omega)
  have hbranches : Completable size 1 k (only (.int 1)) anyKind (Parser.conditional expr)
      (fun x => Parser.conditional (E x)) :=
    room_bind hself (branchesWithin h) fun node =>
      bind (endKeyword _) fun _ => pure node fun _ _ => rfl
  exact hbranches.anywhere

omit h in
/-- A clause may be for no class in particular. -/
theorem rescueClass : Completable size 0 k (only (.mark .semicolon)) (only (.mark .semicolon))
    Parser.rescueClass (fun _ => Parser.rescueClass) := by
  have hdefault : Completable size 0 k (only (.mark .semicolon)) (only (.mark .semicolon))
      (Pure.pure defaultRescueClass) (fun _ => Pure.pure defaultRescueClass) := done _
  have hclass : Completable size 0 k (only (.constant "E")) (only (.mark .semicolon))
      (Parser.constantName "an exception class name" .beginBlock)
      (fun _ => Parser.constantName "an exception class name" .beginBlock) :=
    (constantName "E" _ _).inside id (fun _ => Nat.le_refl _) (Nat.zero_le 1) (Nat.le_refl k)
  exact choose (b := fun t => t.isTerminator || closesStatements t) (fun _ => rfl) true
    hdefault.toCompletes hclass.toCompletes hdefault.start (forall_only rfl)

omit h in
/-- There may be no clauses. -/
theorem starts_rescuesWithin (E : ι → Parser Node) :
    Starts (fun x : ι × Nat => min (size x.1) x.2) 0 (only (.keyword .endKw))
      (only (.keyword .endKw)) (fun x => Parser.rescuesWithin (E x.1) x.2) :=
  Starts.succ (s := fun x n => Parser.rescuesWithin (E x) n)
    ((Starts.done []).eat (forall_only rfl))

theorem rescuesWithin (m : Nat) :
    Completable (fun x : ι × Nat => min (size x.1) x.2) 0 (min k m) (only (.keyword .endKw))
      (only (.keyword .endKw)) (Parser.rescuesWithin expr m)
      (fun x => Parser.rescuesWithin (E x.1) x.2) := by
  refine ⟨Completes.bounded (r := fun m (_ : Unit) => Parser.rescuesWithin expr m)
    (s := fun x n _ => Parser.rescuesWithin (E x) n) (fun _ => rfl) (fun m ih _ => ?_) m (),
    starts_rescuesWithin E⟩
  have hrec : Completable (fun x : ι × Nat => min (size x.1) x.2) 0 (min k m)
      (only (.keyword .endKw)) (only (.keyword .endKw)) (Parser.rescuesWithin expr m)
      (fun x => Parser.rescuesWithin (E x.1) x.2) := ⟨ih (), starts_rescuesWithin E⟩
  have hexpr : Completable (fun x : ι × Nat => min (size x.1) (x.2 + 1)) 1 (min k (m + 1))
      (only (.int 1)) closesExpression expr (fun x => E x.1) :=
    h.inside Prod.fst (fun x => Nat.min_le_left _ _) (Nat.le_refl 1) (Nat.min_le_left _ _)
  unfold Parser.rescuesWithin
  refine (eat rfl (done []) (forall_only rfl) ?_).toCompletes
  refine bind rescueClass.anywhere fun className => ?_
  refine bind (((hexpr.sub 1).statements _).before (forall_only (t := .keyword .endKw) rfl))
    fun body => ?_
  refine bind (hrec.inside id (fun x => ?_) (Nat.le_refl 0) ?_) fun rest => done _
  · dsimp only [id]
    omega
  · omega

theorem beginBlock : Completable size 1 k anyKind anyKind (Parser.beginBlock expr)
    (fun x => Parser.beginBlock (E x)) := by
  have hself (m n : Nat) : Alike 0 (min k (min m n)) (Parser.rescuesWithin expr m)
      (Parser.rescuesWithin expr n) :=
    Alike.close.steps.rescuesWithin
      (Alike.close.mono h.self (Nat.le_refl 1) (by omega)) (by omega) (by omega)
  have hblock : Completable size 1 k (only (.mark .semicolon)) anyKind (Parser.beginBlock expr)
      (fun x => Parser.beginBlock (E x)) :=
    bind ((h.statements _).before (forall_only (t := .keyword .endKw) rfl)) fun body =>
      room_bind hself (rescuesWithin h) fun rescues =>
        bind (endKeyword _) fun _ => pure _ fun _ _ => rfl
  exact hblock.anywhere

omit h in
theorem superclass? : Completable size 0 k (only (.mark .semicolon)) (only (.mark .semicolon))
    Parser.superclass? (fun _ => Parser.superclass?) := by
  refine eat rfl (done none) (forall_only rfl) ?_
  have hname : Completable size 1 k (only (.constant "C")) (only (.mark .semicolon))
      (Parser.constantName "a superclass name" .classDefinition)
      (fun _ => Parser.constantName "a superclass name" .classDefinition) := constantName "C" _ _
  have hsmaller := hname.inside id (fun x => Nat.sub_le (size x) 1) (Nat.zero_le 1) (Nat.sub_le k 1)
  exact (bind hsmaller fun name => done (some name)).anywhere

theorem classDefinition : Completable size 1 k anyKind anyKind (Parser.classDefinition expr)
    (fun x => Parser.classDefinition (E x)) := by
  unfold Parser.classDefinition
  refine bind (constantName "C" _ _).anywhere fun className => bind superclass? fun superclass => ?_
  refine bind (((h.sub 1).statements _).before (forall_only (t := .keyword .endKw) rfl))
    fun body => ?_
  exact bind (endKeyword _) fun _ => pure _ fun _ _ => rfl

/-- A `return` has a value if it is completed. -/
theorem returnValue : Completable size 0 k (only (.int 1)) closesExpression
    (Parser.returnValue expr) (fun x => Parser.returnValue (E x)) := by
  have hsome : Completable size 0 k (only (.int 1)) closesExpression
      (expr >>= fun value => Pure.pure (Node.returnValue (some value)))
      (fun x => E x >>= fun value => Pure.pure (Node.returnValue (some value))) :=
    bind h fun value => done _
  have hnone : Completes size 0 k closesExpression (Pure.pure (Node.returnValue none))
      (fun _ => Pure.pure (Node.returnValue none)) := (done _).toCompletes
  exact choose (b := fun t => t.isTerminator || closesStatements t) (fun _ => rfl) false hnone
    hsome.toCompletes hsome.start (forall_only rfl)

/-! ## Expressions -/

theorem grouped : Completable size 1 k anyKind anyKind (Parser.grouped expr)
    (fun x => Parser.grouped (E x)) := by
  have hgrouped : Completable size 1 k (only (.int 1)) anyKind (Parser.grouped expr)
      (fun x => Parser.grouped (E x)) :=
    bind (skipNewlines rfl) fun _ =>
      bind (h.before (forall_only (t := .mark .rightParen) rfl)) fun inner =>
        bind (skipNewlines rfl) fun _ =>
          bind (expect rfl rfl _ _) fun _ => pure inner fun _ _ => rfl
  exact hgrouped.anywhere

/-- A constant may be a call. -/
theorem constant (s : String) : Completable size 0 k closesExpression closesExpression
    (do
      if ← Parser.eat (.mark .leftParen) then
        return Node.call none s (← Parser.parenthesized expr .arguments)
      else
        return Node.bareReference s)
    (fun x => do
      if ← Parser.eat (.mark .leftParen) then
        return Node.call none s (← Parser.parenthesized (E x) .arguments)
      else
        return Node.bareReference s) := by
  refine eat rfl (done _) (forall_closesExpression rfl rfl) ?_
  refine bind (parenthesized ((h.sub 1).before (forall_only rfl)) _).anywhere fun args => ?_
  exact pure _ fun _ _ => rfl

/-- How a primary expression goes on after its first token. -/
theorem primaryNext (t : Kind) :
    (Parser.primaryNext expr t = none ∧ ∀ x, Parser.primaryNext (E x) t = none) ∨
      ∃ r s, Parser.primaryNext expr t = some r ∧ (∀ x, Parser.primaryNext (E x) t = some (s x)) ∧
        Completable size 0 k anyKind closesExpression r s := by
  have hall {r : Parser Node} {s : ι → Parser Node}
      (hrs : Completable size 1 k anyKind anyKind r s) :
      Completable size 0 k anyKind closesExpression r s :=
    (hrs.before fun _ _ => rfl).inside id (fun _ => Nat.le_refl _) (Nat.zero_le 1) (Nat.le_refl k)
  have hdone (n : Node) : Completable size 0 k anyKind closesExpression (Pure.pure n)
      (fun _ => Pure.pure n) := pure n fun _ _ => rfl
  cases t with
  | int | float | string | interpolated | symbol | global =>
    exact .inr ⟨_, _, rfl, fun _ => rfl, hdone _⟩
  | ident s =>
    refine .inr ⟨_, _, rfl, fun _ => rfl, (bind h.arguments? fun args => ?_).anywhere⟩
    cases args with
    | none => exact done _
    | some args => exact done _
  | constant s =>
    exact .inr ⟨_, _, rfl, fun _ => rfl, (h.constant s).anywhere⟩
  | keyword w =>
    cases w with
    | trueKw | falseKw | fileKw => exact .inr ⟨_, _, rfl, fun _ => rfl, hdone _⟩
    | defKw => exact .inr ⟨_, _, rfl, fun _ => rfl, hall h.definition⟩
    | ifKw => exact .inr ⟨_, _, rfl, fun _ => rfl, hall h.conditional⟩
    | beginKw => exact .inr ⟨_, _, rfl, fun _ => rfl, hall h.beginBlock⟩
    | classKw => exact .inr ⟨_, _, rfl, fun _ => rfl, hall h.classDefinition⟩
    | returnKw => exact .inr ⟨_, _, rfl, fun _ => rfl, h.returnValue.anywhere⟩
    | _ => exact .inl ⟨rfl, fun _ => rfl⟩
  | mark m =>
    cases m with
    | leftParen => exact .inr ⟨_, _, rfl, fun _ => rfl, hall h.grouped⟩
    | _ => exact .inl ⟨rfl, fun _ => rfl⟩
  | newline | error | eof => exact .inl ⟨rfl, fun _ => rfl⟩

/-- **A primary expression**, whatever starts it. -/
theorem primary : Completable (fun x => size x + 1) 1 (k + 1) (only (.int 1)) closesExpression
    (Parser.primary expr) (fun x => Parser.primary (E x)) := by
  simp only [primary_eq]
  refine taking (fun t ht => ?_) h.primaryNext (only_self _) (Option.some_ne_none _) _ _
  cases t with
  | newline | error | eof => exact ⟨rfl, fun _ => rfl⟩
  | _ => cases ht

omit h in
/-- There may be no calls. -/
theorem starts_callsWithin (E : ι → Parser Node) (target : Node) :
    Starts (fun x : ι × Nat => min (size x.1) x.2) 0 closesExpression closesExpression
      (fun x => Parser.callsWithin (E x.1) x.2 target) :=
  Starts.succ (s := fun x n => Parser.callsWithin (E x) n target)
    ((Starts.done target).eat (forall_closesExpression rfl rfl))

theorem callsWithin (m : Nat) (target : Node) :
    Completable (fun x : ι × Nat => min (size x.1) x.2) 0 (min k m) closesExpression
      closesExpression (Parser.callsWithin expr m target)
      (fun x => Parser.callsWithin (E x.1) x.2 target) := by
  refine ⟨Completes.bounded (r := fun m target => Parser.callsWithin expr m target)
    (s := fun x n target => Parser.callsWithin (E x) n target) (fun _ => rfl)
    (fun m ih target => ?_) m target, starts_callsWithin E target⟩
  have hrec (target : Node) : Completable (fun x : ι × Nat => min (size x.1) x.2) 0 (min k m)
      closesExpression closesExpression (Parser.callsWithin expr m target)
      (fun x => Parser.callsWithin (E x.1) x.2 target) := ⟨ih target, starts_callsWithin E target⟩
  have hexpr : Completable (fun x : ι × Nat => min (size x.1) (x.2 + 1)) 1 (min k (m + 1))
      (only (.int 1)) closesExpression expr (fun x => E x.1) :=
    h.inside Prod.fst (fun x => Nat.min_le_left _ _) (Nat.le_refl 1) (Nat.min_le_left _ _)
  unfold Parser.callsWithin
  refine (eat rfl (done target) (forall_closesExpression rfl rfl) ?_).toCompletes
  refine bind (skipNewlines (t := .ident "f") rfl).anywhere fun _ => ?_
  refine bind (methodName "f") fun func => bind ((hexpr.sub 1).sub 1).arguments? fun args => ?_
  refine (hrec _).inside id (fun x => ?_) (Nat.le_refl 0) ?_
  · dsimp only [id]
    omega
  · omega

theorem operand : Completable (fun x => size x + 1) 1 (k + 1) (only (.int 1)) closesExpression
    (Parser.operand expr) (fun x => Parser.operand (E x)) := by
  have hself (target : Node) (m n : Nat) : Alike 0 (min k (min m n))
      (Parser.callsWithin expr m target) (Parser.callsWithin expr n target) :=
    Alike.close.steps.callsWithin (l := false)
      (Alike.close.mono h.self (Nat.le_refl 1) (by omega)) (by omega) (by omega) target
  exact bind h.primary fun target => room (hself target) fun m => h.callsWithin m target

omit h in
/-- There may be no further operands. -/
theorem starts_shiftsWithin (E : ι → Parser Node) (left : Node) :
    Starts (fun x : ι × Nat => min (size x.1) x.2) 0 closesExpression closesExpression
      (fun x => Parser.shiftsWithin (E x.1) x.2 left) :=
  Starts.succ (s := fun x n => Parser.shiftsWithin (E x) n left)
    ((Starts.done left).eat (forall_closesExpression rfl rfl))

theorem shiftsWithin (m : Nat) (left : Node) :
    Completable (fun x : ι × Nat => min (size x.1) x.2) 0 (min k m) closesExpression
      closesExpression (Parser.shiftsWithin expr m left)
      (fun x => Parser.shiftsWithin (E x.1) x.2 left) := by
  refine ⟨Completes.bounded (r := fun m left => Parser.shiftsWithin expr m left)
    (s := fun x n left => Parser.shiftsWithin (E x) n left) (fun _ => rfl) (fun m ih left => ?_) m
    left, starts_shiftsWithin E left⟩
  have hrec (left : Node) : Completable (fun x : ι × Nat => min (size x.1) x.2) 0 (min k m)
      closesExpression closesExpression (Parser.shiftsWithin expr m left)
      (fun x => Parser.shiftsWithin (E x.1) x.2 left) := ⟨ih left, starts_shiftsWithin E left⟩
  have hoperand : Completable (fun x : ι × Nat => min (size x.1) (x.2 + 1) - 1) 1
      (min k (m + 1) - 1) (only (.int 1)) closesExpression (Parser.operand expr)
      (fun x => Parser.operand (E x.1)) :=
    h.operand.inside Prod.fst (fun x => by omega) (Nat.le_refl 1) (by omega)
  unfold Parser.shiftsWithin
  refine (eat rfl (done left) (forall_closesExpression rfl rfl) ?_).toCompletes
  refine bind (skipNewlines (t := .int 1) rfl).anywhere fun _ => bind hoperand fun right => ?_
  refine (hrec _).inside id (fun x => ?_) (Nat.le_refl 0) ?_
  · dsimp only [id]
    omega
  · omega

theorem shift : Completable (fun x => size x + 1) 1 (k + 1) (only (.int 1)) closesExpression
    (Parser.shift expr) (fun x => Parser.shift (E x)) := by
  have hself (left : Node) (m n : Nat) : Alike 0 (min k (min m n))
      (Parser.shiftsWithin expr m left) (Parser.shiftsWithin expr n left) :=
    Alike.close.steps.shiftsWithin (l := false)
      (Alike.close.mono h.self (Nat.le_refl 1) (by omega)) (by omega) (by omega) left
  exact bind h.operand fun left => room (hself left) fun m => h.shiftsWithin m left

omit h in
/-- An assignment reads the same wherever its left side starts. -/
theorem alike_assignmentTo {expr expr' : Parser Node} (hexpr : Alike 1 k expr expr')
    (s s' : Span) (left : Node) :
    Alike 0 k (assignmentTo expr s left) (assignmentTo expr' s' left) := by
  unfold assignmentTo
  refine Alike.close.steps.eat (l := false) rfl ?_ (Alike.pure left)
  refine Alike.bind (Alike.skipWhile rfl) fun _ => ?_
  cases left.isAssignable with
  | true =>
    exact Alike.bind (Alike.close.mono hexpr (Nat.zero_le 1) (Nat.sub_le k 1)) fun _ =>
      Alike.pure _
  | false => exact Alike.fail _ _ (fun _ => rfl) (fun _ => rfl) fun _ _ _ => rfl

/-- What follows the left side of an assignment, wherever that starts. -/
theorem assignmentTo (s : Span) (left : Node) :
    Completable (fun x : ι × Span => size x.1) 0 k closesExpression closesExpression
      (Parser.assignmentTo expr s left) (fun x => Parser.assignmentTo (E x.1) x.2 left) := by
  cases hassignable : left.isAssignable with
  | true =>
    unfold Parser.assignmentTo
    refine eat rfl (done left) (forall_closesExpression rfl rfl) ?_
    rw [hassignable]
    have hexpr : Completable (fun x : ι × Span => size x.1 - 1) 1 (k - 1) (only (.int 1))
        closesExpression expr (fun x => E x.1) :=
      (h.sub 1).inside Prod.fst (fun _ => Nat.le_refl _) (Nat.le_refl 1) (Nat.le_refl _)
    exact bind (skipNewlines (t := .int 1) rfl).anywhere fun _ => bind hexpr fun rhs => done _
  | false =>
    refine ⟨⟨alike_assignmentTo h.self s s left,
      fun x => alike_assignmentTo (h.alike x.1) s x.2 left, fun ks hne _ hreach => ?_⟩,
      (Starts.done left).eat (forall_closesExpression rfl rfl)⟩
    cases ks with
    | nil => exact absurd rfl hne
    | cons u us =>
      cases hu : u.alike (.mark .equals) with
      | false =>
        have hdone : Reaches (Pure.pure left : Parser Node) (u :: us) :=
          hreach.of_kind fun c hc => eat_of_unlike (hc ▸ hu)
        exact absurd (hdone.eq_nil fun _ => rfl) hne
      | true =>
        -- what is wrong then is the target, and not the token where the reader stops
        obtain ⟨c, d, used, _, _, hstop⟩ :=
          hreach.of_advance fun c hc => eat_of_alike (hc ▸ hu)
        rw [hassignable] at hstop
        cases hstop with
        | wrong _ habout => cases habout

/-- An expression that starts at some token. -/
theorem expressionFrom (s : Span) :
    Completable (fun x : ι × Span => size x.1 + 1) 1 (k + 1) (only (.int 1)) closesExpression
      (Parser.expressionFrom expr s) (fun x => Parser.expressionFrom (E x.1) x.2) := by
  have hshift : Completable (fun x : ι × Span => size x.1 + 1) 1 (k + 1) (only (.int 1))
      closesExpression (Parser.shift expr) (fun x => Parser.shift (E x.1)) :=
    h.shift.inside Prod.fst (fun _ => Nat.le_refl _) (Nat.le_refl 1) (Nat.le_refl _)
  exact bind hshift fun left => h.assignmentTo s left

/-- **An assignment, or what can stand on its left.** -/
theorem expressionWith :
    Completable (fun x => size x + 1) 1 (k + 1) (only (.int 1)) closesExpression
      (Parser.expressionWith expr) (fun x => Parser.expressionWith (E x)) := by
  simp only [expressionWith_eq]
  refine firstSpan (fun s s' => ?_) h.expressionFrom
  have hshift : Alike 1 (k + 1) (Parser.shift expr) (Parser.shift expr) :=
    Alike.close.steps.shift (l := false) h.self
  exact Alike.bind hshift fun left => alike_assignmentTo h.self s s' left

end Expressions

/-- There is an expression of one token. -/
theorem starts_expression :
    Starts (fun n : Nat => n) 1 (only (.int 1)) closesExpression Parser.expression := by
  refine ⟨[.int 1], .int 1, rfl, Nat.le_refl 1, fun n hn => ?_⟩
  obtain ⟨n, rfl⟩ := Nat.exists_eq_succ_of_ne_zero (Nat.ne_of_gt (Nat.lt_of_succ_lt hn))
  exact Reads.expressionWith_of_primary (Reads.kind_cons (Reads.literal _ _)) (fun _ _ => rfl)
    (forall_closesExpression rfl rfl)

/-- **Expressions.** Where one of them was begun, it is completed by all readers that
allow for enough nesting. -/
theorem expression (m : Nat) :
    Completable (fun n : Nat => n) 1 m (only (.int 1)) closesExpression (Parser.expression m)
      Parser.expression := by
  have hboth : Completes (fun x : Nat × Nat => min (id x.1) x.2) 1 (min m m) closesExpression
      (Parser.expression m) (fun x => Parser.expression x.2) := by
    refine Completes.bounded (r := fun m (_ : Unit) => Parser.expression m)
      (s := fun _ n _ => Parser.expression n) (fun _ => rfl) (fun m' ih _ => ?_) m ()
    have hexpr : Completable (fun x : Nat × Nat => min (id x.1) x.2) 1 (min m m') (only (.int 1))
        closesExpression (Parser.expression m') (fun x => Parser.expression x.2) :=
      ⟨ih (), starts_expression.inside Prod.snd fun _ => Nat.min_le_right _ _⟩
    exact hexpr.expressionWith.toCompletes.mono (fun x => by omega) (Nat.le_refl 1) (by omega)
      fun _ hu => hu
  rw [Nat.min_self] at hboth
  exact ⟨hboth.inside (fun n => (n, n)) (fun n => (Nat.min_self n).ge) (Nat.le_refl 1)
    (Nat.le_refl m), starts_expression⟩

/-- The end of a program. -/
theorem finish (nodes : List Node) :
    Completable size 0 k (only .eof) (only .eof) (Parser.finish nodes)
      (fun _ => Parser.finish nodes) := by
  have hdone : Completable size 0 k (only .eof) (only .eof) (Pure.pure nodes)
      (fun _ => Pure.pure nodes) := done nodes
  have hwrong : Completes size 0 k (only .eof)
      (Parser.unexpected "a statement" .program : Parser (List Node))
      (fun _ => Parser.unexpected "a statement" .program) :=
    ⟨Alike.close.unexpected _ _, fun _ => Alike.close.unexpected _ _,
      fun ks hne _ hreach => absurd (hreach.eq_nil fun _ => rfl) hne⟩
  exact choose (b := fun t => t.alike .eof) (fun _ => rfl) true hdone.toCompletes hwrong hdone.start
    (forall_only rfl)

/-- **Programs.** -/
theorem program (m : Nat) :
    Completable (fun n : Nat => n) 0 m (only (.mark .semicolon)) (only .eof) (Parser.program m)
      Parser.program := by
  simp only [program_eq]
  exact bind (((expression m).statements _).before (forall_only rfl)) finish

end Completable

end Garnet
