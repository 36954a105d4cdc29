import Garnet.Proofs.LineEnds

/-!
# The tokens of one program after those of another

A program ends with its statements. So where a line end and further tokens follow
the tokens of a program, its statements are read as before, and then the
statements that follow are read as those of a program that starts there
(`parseTokens_append`).

Up to the end of the first stream this is a matter of lockstep. Where a statement
reaches the end, the longer stream goes on with the line end, and no part of the
grammar reads a statement across it: a statement is not loose. Hence the statements
of the longer stream are those of the first one, in the same places, and what is
left starts after the line end (`passed_statementsWithin`). That it is read like a
program of its own is a matter of lockstep again, with other spans
(`answer_of_relocated`).
-/

namespace Garnet

open Garnet.Parser Token

/-! ## What is read from tokens -/

namespace Parser

variable {α : Type}

/-- **The answer of a reader**: what it has read, or why it has failed. -/
def answer : EStateM.Result Failure Cursor α → Except SyntaxError α
  | .ok a _ => .ok a
  | .error (.wrong e) _ => .error e
  | .error .tooDeep c => .error (.invalidToken c.current.span)

/-- A program ends where its statements end. -/
def finish (nodes : List Node) : Parser (List Node) := do
  if (← get).atEnd then return nodes
  else unexpected "a statement" .program

theorem program_eq (depth : Nat) :
    program depth = (statements (expression depth) .program >>= finish) := rfl

theorem parseTokens_eq (tokens : List Token) :
    parseTokens tokens = answer (program (tokens.length + 1) (Cursor.start tokens)) := by
  unfold parseTokens EStateM.run answer
  split <;> rename_i h <;> rw [h]

end Parser

section SameEnd

variable {move : Span → Span} {stop : Token} (hstop : stop.kind = .eof)

include hstop

/-- Both streams end with the end of the source. -/
theorem Ends.same : Ends move stop [stop.relocate move] :=
  ⟨hstop, .inl rfl⟩

theorem Lockstep.finish {k : Nat} (nodes : List Node) :
    Lockstep move stop [stop.relocate move] true 0 k (finish nodes) (finish nodes) := by
  intro c d hcd hk
  obtain hcurrent | ⟨hne, _⟩ := hcd.current (.same hstop)
  · have hsame : d.atEnd = c.atEnd :=
      congrArg (Kind.alike · .eof) (Beside.kind_of_current hcurrent)
    unfold Parser.finish
    rw [Outcome.get_bind, Outcome.get_bind, hsame]
    split
    · exact stay nodes (fun _ => rfl) (fun _ => rfl) c d hcd hk
    · exact unexpected (.same hstop) _ _ c d hcd hk
  · exact absurd rfl hne

/-- **Programs in lockstep.** -/
theorem Lockstep.program {k m m' : Nat} (hm : k ≤ m) (hm' : k ≤ m') :
    Lockstep move stop [stop.relocate move] true 0 k (program m) (program m') := by
  have hends : Ends move stop [stop.relocate move] := .same hstop
  have h := Lockstep.parallel hends
  rw [program_eq, program_eq]
  exact h.bind (h.statements _ (h.expression hm hm')) fun nodes => finish hstop nodes

omit hstop in
/-- Where both streams end with the end of the source, the answers are the
same. -/
theorem InStep.answer_eq {α : Type} {l : Bool} {i : Nat} {c : Cursor}
    {x y : EStateM.Result Failure Cursor α} (h : InStep move stop [stop.relocate move] l i c x y) :
    answer y = (answer x).mapError (SyntaxError.relocate move) := by
  cases x with
  | ok a d =>
    obtain ⟨_, ⟨d', rfl, _⟩ | ⟨_, hne, _⟩⟩ := h
    · rfl
    · exact absurd rfl hne
  | error e d =>
    cases e with
    | wrong e =>
      obtain ⟨d', rfl⟩ := h rfl
      rfl
    | tooDeep => exact h.elim

end SameEnd

/-- What stands at the end of the first stream has come to it. -/
theorem InStep.tokens_of_ok {move : Span → Span} {stop : Token} {tail : List Token} {α : Type}
    {l : Bool} {i : Nat} {c d : Cursor} {a : α} {y : EStateM.Result Failure Cursor α}
    (h : InStep move stop tail l i c (.ok a d) y) (hd : d.kind = .eof) : d.tokens = [stop] := by
  obtain ⟨_, ⟨d', _, hbeside⟩ | ⟨_, _, hstop⟩⟩ := h
  · exact (hbeside.of_eof hd).1
  · exact hstop

/-- **A program ends at the end of the source**, after its statements. -/
theorem Parser.statements_of_program {depth : Nat} {c d : Cursor} {nodes : List Node}
    (h : program depth c = .ok nodes d) :
    statements (expression depth) .program c = .ok nodes d ∧ d.kind = .eof := by
  rw [program_eq] at h
  cases hs : statements (expression depth) .program c with
  | error e t =>
    rw [Outcome.bind_of_error hs] at h
    cases h
  | ok ns t =>
    rw [Outcome.bind_of_ok hs, finish, Outcome.get_bind] at h
    split at h
    · next hend =>
      cases h
      refine ⟨rfl, ?_⟩
      change d.kind.alike .eof = true at hend
      cases hkind : d.kind <;> rw [hkind] at hend <;> first | rfl | cases hend
    · cases h

/-- The answer of a program that was read. -/
theorem Parser.program_of_answer {α : Type} {x : EStateM.Result Failure Cursor α} {a : α}
    (h : answer x = .ok a) : ∃ d, x = .ok a d := by
  cases x with
  | ok b d =>
    cases h
    exact ⟨d, rfl⟩
  | error e d => cases e <;> cases h

/-- **A program beside itself**, with other spans. -/
theorem inStep_program (move : Span → Span) {init : List Token} {stop : Token}
    (hstop : stop.kind = .eof) (hinit : ∀ t ∈ init, t.kind ≠ .eof) :
    InStep move stop [stop.relocate move] true 0 (Cursor.start (init ++ [stop]))
      (program ((init ++ [stop]).length + 1) (Cursor.start (init ++ [stop])))
      (program (((init ++ [stop]).map (Token.relocate move)).length + 1)
        (Cursor.start ((init ++ [stop]).map (Token.relocate move)))) := by
  have hbeside : Beside move stop [stop.relocate move] (init ++ [stop])
      (init.map (Token.relocate move) ++ [stop.relocate move]) := .append hinit
  rw [← Cursor.tokens_start_append init, ← Cursor.tokens_start_append (init.map _)] at hbeside
  have hroom : (Cursor.start (init ++ [stop])).room ≤ (init ++ [stop]).length + 1 := by
    rw [Cursor.room_eq_length, Cursor.tokens_start_append]
    exact Nat.le_succ _
  rw [List.length_map, List.map_append, List.map_singleton]
  exact Lockstep.program hstop (Nat.le_refl _) (Nat.le_refl _) _ _ hbeside hroom

/-- A stream stays one wherever its tokens stand. -/
theorem Token.IsStream.relocate {tokens : List Token} (h : IsStream tokens) (move : Span → Span) :
    IsStream (tokens.map (Token.relocate move)) := by
  obtain ⟨init, stop, rfl, hstop, hinit⟩ := h
  exact ⟨init.map (Token.relocate move), stop.relocate move, List.map_append, hstop,
    List.forall_mem_map.mpr hinit⟩

section Streams

variable {tokens : List Token} (h : IsStream tokens)

include h

/-- Tokens that stand elsewhere are read the same, up to where an error is. -/
theorem parseTokens_relocate (move : Span → Span) :
    parseTokens (tokens.map (Token.relocate move))
      = (parseTokens tokens).mapError (SyntaxError.relocate move) := by
  obtain ⟨init, stop, rfl, hstop, hinit⟩ := h
  rw [parseTokens_eq, parseTokens_eq]
  exact (inStep_program move hstop hinit).answer_eq

/-- **A program that was read** has taken all its tokens, and no error is among
them. -/
theorem not_error_of_parseTokens {nodes : List Node} (hok : parseTokens tokens = .ok nodes) :
    ∀ t ∈ tokens, t.kind ≠ .error := by
  obtain ⟨init, stop, rfl, hstop, hinit⟩ := h
  rw [parseTokens_eq] at hok
  obtain ⟨d, hd⟩ := program_of_answer hok
  have hstep := inStep_program id hstop hinit
  rw [hd] at hstep
  have hend := hstep.tokens_of_ok (statements_of_program hd).2
  obtain ⟨⟨used, hused, _, hne⟩, _⟩ := hstep
  rw [Cursor.tokens_start_append, hend] at hused
  rw [List.append_cancel_right hused]
  refine List.forall_mem_append.mpr ⟨hne, fun t ht heq => ?_⟩
  rw [List.mem_singleton.mp ht, hstop] at heq
  cases heq

end Streams

/-! ## Statements that go on -/

section GoesOn

variable {move : Span → Span} {stop : Token} {tail : List Token} (hends : Ends move stop tail)
  (hnewline : ∃ t ts, tail = t :: ts ∧ t.kind = .newline) {c d e : Cursor} {k : Nat}

/-- **Between statements** two streams stand beside each other, or the first one
has come to its end, and the second one to the next statement after that. -/
def Passed (move : Span → Span) (stop : Token) (tail : List Token) (c d : Cursor) : Prop :=
  (Beside move stop tail c.tokens d.tokens ∧ c.kind ≠ .eof) ∨
    c.tokens = [stop] ∧ d.tokens = Cursor.skipped Kind.isTerminator tail

include hends

theorem passed_skipTerminators (h : Beside move stop tail c.tokens d.tokens) :
    Passed move stop tail c.skipTerminators d.skipTerminators := by
  have hc := Cursor.tokens_skipWhile Kind.isTerminator c
  have hd := Cursor.tokens_skipWhile Kind.isTerminator d
  obtain ⟨hbeside, hne⟩ | ⟨hstop, htail⟩ := h.skipped hends (p := Kind.isTerminator)
  · refine .inl ⟨hc ▸ hd ▸ hbeside, hne _ ?_⟩
    rw [← hc]
    rfl
  · exact .inr ⟨hc.trans hstop, hd.trans htail⟩

include hnewline

/-- What separates two statements. -/
theorem passed_separator (context : SyntaxContext) (h : Beside move stop tail c.tokens d.tokens)
    (hc : separator context c = .ok () e) :
    ∃ f, separator context d = .ok () f ∧ Passed move stop tail e f ∧ e.room ≤ c.room ∧
      f.room ≤ d.room := by
  rw [Lockstep.separator_apply] at hc ⊢
  by_cases heof : c.kind = .eof
  · -- the first stream is closed, and a line end follows in the second one
    obtain ⟨hstop, htail⟩ := h.of_eof heof
    obtain ⟨t, ts, rfl, ht⟩ := hnewline
    have hdkind : d.kind = .newline := (Cursor.kind_of_tokens htail).trans ht
    rw [heof] at hc
    rw [hdkind]
    cases hc
    refine ⟨_, rfl, .inr ⟨hstop, ?_⟩, Nat.le_refl _, Cursor.room_skipWhile _ d⟩
    rw [← htail]
    exact Cursor.tokens_skipWhile _ d
  · rw [h.kind_eq hends heof]
    split at hc
    · next hterminator =>
      rw [if_pos hterminator]
      cases hc
      exact ⟨_, rfl, passed_skipTerminators hends h, Cursor.room_skipWhile _ c,
        Cursor.room_skipWhile _ d⟩
    · next hterminator =>
      rw [if_neg hterminator]
      split at hc
      · next hcloses =>
        rw [if_pos hcloses]
        cases hc
        exact ⟨d, rfl, .inl ⟨h, heof⟩, Nat.le_refl _, Nat.le_refl _⟩
      · cases hc

/-- **Statements that go on after the end of the first stream**: those of the first
stream, and then those that follow. -/
theorem passed_statementsWithin {expr expr' : Parser Node}
    (hexpr : Lockstep move stop tail false 1 k expr expr') (context : SyntaxContext) {m m' : Nat}
    {nodes : List Node} (hcd : Passed move stop tail c d) (hk : c.room ≤ k) (hm' : d.room ≤ m')
    (hc : statementsWithin expr context m c = .ok nodes e) (he : e.tokens = [stop]) :
    ∃ (b : Nat) (f : Cursor), f.tokens = Cursor.skipped Kind.isTerminator tail ∧ f.room ≤ b ∧
      statementsWithin expr' context m' d
        = (statementsWithin expr' context b >>= fun more => pure (nodes ++ more)) f := by
  induction m generalizing m' c d nodes with
  | zero => cases hc
  | succ m ih =>
    rw [statementsWithin, Outcome.get_bind] at hc
    obtain ⟨hbeside, hne⟩ | ⟨hstop, htail⟩ := hcd
    · split at hc
      · -- statements of the first stream are not closed before its end
        cases hc
        exact absurd ((Cursor.kind_of_tokens he).trans hends.last) hne
      · next hcloses =>
        obtain ⟨node, c₁, hnode, hc⟩ := Outcome.ok_of_bind hc
        obtain ⟨_, c₂, hseparator, hc⟩ := Outcome.ok_of_bind hc
        obtain ⟨rest, c₃, hrest, hc⟩ := Outcome.ok_of_bind hc
        cases hc
        have hstep := hexpr c d hbeside hk
        rw [hnode] at hstep
        -- a statement takes a token of both streams
        obtain ⟨d₁, hd₁, hbeside₁, hc₁, hroom₁⟩ := hstep.stays hbeside
        obtain ⟨d₂, hd₂, hpassed, hc₂, hroom₂⟩ :=
          passed_separator hends hnewline context hbeside₁ hseparator
        obtain ⟨m', rfl⟩ : ∃ b, m' = b + 1 := Nat.exists_eq_succ_of_ne_zero (by omega)
        have hm : d₂.room ≤ m' := by omega
        obtain ⟨b, f, hf, hb, hmore⟩ := ih hpassed (by omega) hm hrest
        refine ⟨b, f, hf, hb, ?_⟩
        have hkind : d.closesStatements = c.closesStatements :=
          congrArg closesStatements (hbeside.kind_eq hends hne)
        rw [statementsWithin, Outcome.get_bind, hkind, if_neg hcloses, Outcome.bind_of_ok hd₁,
          Outcome.bind_of_ok hd₂, Outcome.bind_congr_outcome hmore, bind_assoc]
        rfl
    · have hcloses : c.closesStatements = true := by
        show closesStatements c.kind = true
        rw [Cursor.kind_of_tokens hstop, hends.last]
        rfl
      rw [if_pos hcloses] at hc
      cases hc
      exact ⟨m', d, htail, hm', congrFun (bind_pure _).symm d⟩

end GoesOn

/-! ## Programs one after another -/

/-- What is read is put after something else. -/
theorem Parser.answer_after (p : Parser (List Node)) (nodes : List Node) (c : Cursor) :
    answer ((p >>= fun more => pure (nodes ++ more) >>= finish) c)
      = (answer ((p >>= finish) c)).map (nodes ++ ·) := by
  cases hp : p c with
  | error e d =>
    rw [Outcome.bind_of_error hp, Outcome.bind_of_error hp]
    cases e <;> rfl
  | ok more d =>
    rw [Outcome.bind_of_ok hp, Outcome.bind_of_ok hp, pure_bind, finish, finish, Outcome.get_bind,
      Outcome.get_bind]
    cases d.atEnd <;> rfl

/-- Statements are read from the first token that separates none. -/
theorem Parser.statements_apply (expr : Parser Node) (context : SyntaxContext) (c : Cursor) :
    statements expr context c
      = statementsWithin expr context c.skipTerminators.room c.skipTerminators := rfl

/-- **A program that goes on** with a line end: its statements, and then those that
follow. -/
theorem parseTokens_of_goes_on {init tail : List Token} {stop : Token}
    (hinit : ∀ u ∈ init, u.kind ≠ .eof) (hends : Ends id stop tail)
    (hnewline : ∃ t ts, tail = t :: ts ∧ t.kind = .newline) {nodes : List Node}
    (h : parseTokens (init ++ [stop]) = .ok nodes) :
    ∃ (b : Nat) (f : Cursor), f.tokens = Cursor.skipped Kind.isTerminator tail ∧ f.room ≤ b ∧
      parseTokens (init ++ tail) = answer ((statementsWithin
        (expression ((init ++ tail).length + 1)) .program b >>= fun more =>
          pure (nodes ++ more) >>= finish) f) := by
  have hc := Cursor.tokens_start_append init stop []
  have hd : (Cursor.start (init ++ tail)).tokens = init ++ tail := by
    obtain ⟨t, ts, rfl, _⟩ := hnewline
    exact Cursor.tokens_start_append init t ts
  have hbeside : Beside id stop tail (init ++ [stop]) (init.map (Token.relocate id) ++ tail) :=
    .append hinit
  have hlength := hbeside.length_le hends
  rw [Beside.map_relocate_id] at hbeside hlength
  rw [parseTokens_eq] at h
  obtain ⟨e, he⟩ := program_of_answer h
  obtain ⟨hstatements, heof⟩ := statements_of_program he
  have hexpr : Lockstep id stop tail false 1 (init ++ [stop]).length
      (expression ((init ++ [stop]).length + 1)) (expression ((init ++ tail).length + 1)) :=
    (Lockstep.parallel hends).expression (Nat.le_succ _) (Nat.le_succ_of_le hlength)
  rw [← hc, ← hd] at hbeside
  have hroom : (Cursor.start (init ++ [stop])).room ≤ (init ++ [stop]).length :=
    Nat.le_of_eq ((Cursor.room_eq_length _).trans (congrArg List.length hc))
  have hstep := (Lockstep.parallel hends).statements .program hexpr _ _ hbeside hroom
  rw [hstatements] at hstep
  have hstop := hstep.tokens_of_ok heof
  rw [statements_apply] at hstatements
  obtain ⟨b, f, hf, hb, hmore⟩ := passed_statementsWithin hends hnewline hexpr .program
    (passed_skipTerminators hends hbeside) (Nat.le_trans (Cursor.room_skipWhile _ _) hroom)
    (Nat.le_refl _) hstatements hstop
  refine ⟨b, f, hf, hb, ?_⟩
  rw [parseTokens_eq, program_eq]
  have hstart := (statements_apply _ _ (Cursor.start (init ++ tail))).trans hmore
  refine congrArg answer ((Outcome.bind_congr_outcome hstart).trans ?_)
  rw [bind_assoc]

/-- **A program that stands further on** is read as it is, up to where its error
is. -/
theorem answer_of_relocated {init : List Token} {stop : Token}
    (hinit : ∀ u ∈ init, u.kind ≠ .eof) (hstop : stop.kind = .eof) {move : Span → Span}
    {b depth : Nat} {f : Cursor}
    (hf : f.tokens = Cursor.skipped Kind.isTerminator ((init ++ [stop]).map (Token.relocate move)))
    (hb : f.room ≤ b) (hdepth : (init ++ [stop]).length ≤ depth) :
    answer ((statementsWithin (expression depth) .program b >>= finish) f)
      = (parseTokens (init ++ [stop])).mapError (SyntaxError.relocate move) := by
  have hends : Ends move stop [stop.relocate move] := .same hstop
  have hc := Cursor.tokens_start_append init stop []
  -- both programs start with their first statement, or have none
  have hbeside : Beside move stop [stop.relocate move]
      (Cursor.start (init ++ [stop])).skipTerminators.tokens f.tokens := by
    have htokens : (Cursor.start (init ++ [stop])).skipTerminators.tokens
        = Cursor.skipped Kind.isTerminator (init ++ [stop]) :=
      (Cursor.tokens_skipWhile _ _).trans (congrArg _ hc)
    rw [htokens, hf, List.map_append, List.map_singleton]
    obtain ⟨h, _⟩ | ⟨h, h'⟩ := (Beside.append hinit).skipped hends (p := Kind.isTerminator)
    · exact h
    · rw [h, h']
      exact .stop
  have hroom : (Cursor.start (init ++ [stop])).skipTerminators.room ≤ (init ++ [stop]).length := by
    rw [← congrArg List.length hc, ← Cursor.room_eq_length]
    exact Cursor.room_skipWhile _ _
  have hlength := hbeside.length_add
  rw [← Cursor.room_eq_length, ← Cursor.room_eq_length, List.length_singleton] at hlength
  have hexpr := (Lockstep.parallel hends).expression (Nat.le_succ (init ++ [stop]).length) hdepth
  have hstatements := Lockstep.statementsWithin hends
    (fun c d h hk => hexpr c d h (Nat.le_trans hk hroom)) .program (Nat.le_refl _)
    (Nat.le_trans (Nat.le_of_eq (Nat.succ.inj hlength.symm)) hb)
  have hstep := Lockstep.seq hends hstatements (fun nodes => Lockstep.finish hstop nodes)
    (fun _ => .inl rfl) (Nat.zero_le _) _ _ hbeside (Nat.le_refl _)
  rw [hstep.answer_eq, parseTokens_eq, program_eq]
  rfl

/-- **The tokens of two programs with a line end between them** are read as the
nodes of both, if the first one is a program; an error of the second one is
moved along with its tokens. -/
theorem parseTokens_append {tokens₁ tokens₂ : List Token} (h₁ : IsStream tokens₁)
    (h₂ : IsStream tokens₂) {t : Token} (ht : t.kind = .newline) {nodes : List Node}
    (h : parseTokens tokens₁ = .ok nodes) (move : Span → Span) :
    parseTokens (tokens₁.dropLast ++ t :: tokens₂.map (Token.relocate move))
      = ((parseTokens tokens₂).map (nodes ++ ·)).mapError (SyntaxError.relocate move) := by
  obtain ⟨init₁, stop₁, rfl, hstop₁, hinit₁⟩ := h₁
  obtain ⟨init₂, stop₂, rfl, hstop₂, hinit₂⟩ := h₂
  have hends : Ends id stop₁ (t :: (init₂ ++ [stop₂]).map (Token.relocate move)) :=
    ⟨hstop₁, .inr ⟨t, _, rfl, ht⟩⟩
  obtain ⟨b, f, hf, hb, hread⟩ := parseTokens_of_goes_on hinit₁ hends ⟨t, _, rfl, ht⟩ h
  -- the line end is no part of the statements that follow
  have hrest : f.tokens
      = Cursor.skipped Kind.isTerminator ((init₂ ++ [stop₂]).map (Token.relocate move)) := by
    have hne : (init₂ ++ [stop₂]).map (Token.relocate move) ≠ [] := by simp
    obtain ⟨u, us, hus⟩ := List.exists_cons_of_ne_nil hne
    rw [hf, hus, Cursor.skipped, ht]
    rfl
  rw [List.dropLast_concat, hread, answer_after,
    answer_of_relocated hinit₂ hstop₂ hrest hb (by simp; omega)]
  cases parseTokens (init₂ ++ [stop₂]) <;> rfl

end Garnet
