import Garnet.Proofs.Prefixes

/-!
# Where syntax errors point

A reader never goes back, and where it fails it blames a token of what it was
given (`Blames`): the token it stands at, if that is a wrong one or an error, or
the first token of what nothing can be assigned to. For the latter, an
expression was read from that token on, and an `=` stands after it
(`IsInvalidTarget`).

None of this needs a bound. It does need a stream whose last token belongs to no
construct, because the place after the last token is that token once more.
-/

namespace Garnet

open Garnet.Parser Token

/-! ## Blaming a token -/

/-- **What is blamed for an assignment that cannot be**: an expression that
starts at a token with the span `s`, was read as `target`, and has an `=` after
it. -/
def IsInvalidTarget (tokens : List Token) (target : Node) (s : Span) : Prop :=
  ∃ (before used : List Token) (depth : Nat) (c d : Cursor),
    tokens = before ++ c.tokens ∧ c.current.span = s ∧
    shift (expression depth) c = .ok target d ∧ c.tokens = used ++ d.tokens ∧ used ≠ [] ∧
    d.kind = .mark .equals ∧ (∀ name, target ≠ .bareReference name) ∧
    ∀ name, target ≠ .globalVariable name

/-- **Whether an error blames the right token**, where `tokens` are read and the
reader has stopped at `d`. -/
def Blames (tokens : List Token) (d : Cursor) : SyntaxError → Prop
  | .unexpectedToken found _ _ s => d.current = ⟨found, s⟩ ∧ found ≠ .error
  | .invalidToken s => d.current = ⟨.error, s⟩
  | .invalidTarget target s => IsInvalidTarget tokens target s

/-- A token that is blamed stays the one to blame if more stands before it. -/
theorem Blames.append {tokens : List Token} {d : Cursor} {e : SyntaxError}
    (h : Blames tokens d e) (before : List Token) : Blames (before ++ tokens) d e := by
  cases e with
  | unexpectedToken => exact h
  | invalidToken => exact h
  | invalidTarget target s =>
    obtain ⟨between, used, depth, c, f, rfl, hrest⟩ := h
    exact ⟨before ++ between, used, depth, c, f, (List.append_assoc _ _ _).symm, hrest⟩

/-- A wrong token is blamed where it stands. -/
theorem blames_unexpected (tokens : List Token) (c : Cursor) (expected : String)
    (context : SyntaxContext) : Blames tokens c (c.unexpected expected context) := by
  obtain ⟨⟨k, s⟩, ts, room, hroom⟩ := c
  cases k with
  | error => exact rfl
  | _ => exact ⟨rfl, fun h => by cases h⟩

/-! ## Readers that blame the right token -/

/-- Whether the last token from a place on belongs to no construct. -/
def Cursor.Stops (c : Cursor) : Prop :=
  ∀ t ∈ c.tokens.getLast?, t.kind.isContent = false

namespace Cursor.Stops

variable {c d : Cursor} {t : Token} {ts used : List Token}

/-- What comes later ends with the same token. -/
theorem of_append (h : c.Stops) (hd : c.tokens = used ++ d.tokens) : d.Stops := by
  intro t ht
  have hlast := List.getLast?_append_of_ne_nil used (List.cons_ne_nil d.current d.ahead)
  refine h t ?_
  rw [hd]
  exact hlast ▸ ht

/-- A token of a construct is not the last one. -/
theorem tokens_advance (h : c.Stops) (hc : c.kind.isContent = true) :
    c.tokens = [c.current] ++ c.advance.tokens := by
  have hne : c.ahead ≠ [] := by
    intro hnil
    have hlast := h c.current (by rw [tokens, hnil]; rfl)
    exact Bool.false_ne_true (hlast.symm.trans hc)
  rw [Cursor.tokens_advance rfl hne]
  rfl

end Cursor.Stops

variable {α β : Type}

/-- **What comes out of a reader at `c` that blames the right token**: it has
taken at least `i` tokens, or fails at one of those it was given. -/
def BlamesIn (i : Nat) (c : Cursor) : EStateM.Result Failure Cursor α → Prop
  | .ok _ d => ∃ used, c.tokens = used ++ d.tokens ∧ i ≤ used.length
  | .error x d => ∃ used, c.tokens = used ++ d.tokens ∧ ∀ e, x = .wrong e → Blames c.tokens d e

namespace BlamesIn

variable {c d : Cursor} {i j : Nat} {x : EStateM.Result Failure Cursor α}

/-- What was taken before is taken, too. -/
theorem after (h : BlamesIn j d x) {used : List Token} (hc : c.tokens = used ++ d.tokens)
    (hi : i ≤ used.length + j) : BlamesIn i c x := by
  cases x with
  | ok a f =>
    obtain ⟨more, hd, hj⟩ := h
    refine ⟨used ++ more, by rw [hc, hd, List.append_assoc], ?_⟩
    rw [List.length_append]
    omega
  | error y f =>
    obtain ⟨more, hd, hy⟩ := h
    refine ⟨used ++ more, by rw [hc, hd, List.append_assoc], fun e he => ?_⟩
    rw [hc]
    exact (hy e he).append used

theorem mono (h : BlamesIn i c x) (hj : j ≤ i) : BlamesIn j c x :=
  h.after (List.nil_append c.tokens).symm (by omega)

end BlamesIn

/-- **A reader that blames the right token** wherever it starts. -/
def Blaming (i : Nat) (p : Parser α) : Prop :=
  ∀ c : Cursor, c.Stops → BlamesIn i c (p c)

namespace Blaming

variable {i j n : Nat}

/-- A reader that ends where it starts. -/
theorem stay {p : Parser α} (a : α) (hp : ∀ c, p c = .ok a c) : Blaming 0 p := by
  intro c _
  rw [hp]
  exact ⟨[], rfl, Nat.le_refl 0⟩

theorem bind {p : Parser α} {f : α → Parser β} (hp : Blaming i p)
    (hf : ∀ a, Blaming (n - i) (f a)) : Blaming n (p >>= f) := by
  intro c hc
  have hpc := hp c hc
  cases hout : p c with
  | ok a d =>
    rw [hout] at hpc
    obtain ⟨used, hused, hi⟩ := hpc
    rw [Outcome.bind_of_ok hout]
    exact (hf a d (hc.of_append hused)).after hused (by omega)
  | error x d =>
    rw [hout] at hpc
    rw [Outcome.bind_of_error hout]
    exact hpc

theorem unexpected (expected : String) (context : SyntaxContext) :
    Blaming i (Parser.unexpected (α := α) expected context) := by
  intro c _
  refine ⟨[], rfl, fun e he => ?_⟩
  cases he
  exact blames_unexpected _ c expected context

theorem taking {next : Kind → Option (Parser α)} {p : Parser α}
    (hnone : ∀ t, t.isContent = false → next t = none)
    (hnext : ∀ t q, next t = some q → Blaming (i - 1) q) (hp : Blaming i p) :
    Blaming i (Parser.taking next p) := by
  intro c hc
  unfold Parser.taking
  rw [kind_bind]
  cases hq : next c.kind with
  | none => exact hp c hc
  | some q =>
    have hcontent : c.kind.isContent = true := by
      by_contra hnot
      rw [hnone _ (Bool.eq_false_iff.mpr hnot)] at hq
      cases hq
    have hadvance := hc.tokens_advance hcontent
    refine (hnext _ q hq c.advance (hc.of_append hadvance)).after hadvance ?_
    rw [List.length_singleton]
    omega

/-- The same of a reader beside another one. -/
def First (i _k : Nat) (p _q : Parser α) : Prop :=
  Blaming i p

/-- **What is checked of steps**, so that all readers below an assignment blame
the right token. -/
theorem close : Close (fun {α} => First (α := α)) where
  tooDeep c _ := ⟨[], rfl, fun e he => by cases he⟩
  other hp := hp
  mono hp hj _ c hc := (hp c hc).mono hj
  pure a := stay a fun _ => rfl
  bind := bind
  unexpected := unexpected
  taking hnone hnext hp := by
    refine taking (fun t ht => (hnone t ht).1) (fun t q hq => ?_) hp
    have hrel := hnext t
    rw [hq] at hrel
    obtain ⟨_, _, hblaming⟩ := exists_of_rel hrel
    exact hblaming
  look hf c hc := hf c.kind c hc
  skipWhile _ _ c _ := by
    obtain ⟨used, hused, _⟩ := Cursor.exists_skipped _ c.tokens
    exact ⟨used, by rw [Cursor.tokens_skipWhile]; exact hused, Nat.zero_le _⟩
  room hf c hc := hf c.room c.room c hc

/-- What is blamed for an assignment is its left side, if nothing can be assigned
to it. -/
theorem expressionFrom {depth : Nat} (hexpr : Blaming 1 (expression depth)) {c : Cursor}
    (hc : c.Stops) :
    BlamesIn 1 c (Parser.expressionFrom (expression depth) c.current.span c) := by
  have hexpr : First 1 0 (expression depth) (expression depth) := hexpr
  have hshift : First 1 1 (shift (expression depth)) (shift (expression depth)) :=
    close.steps.shift (l := false) hexpr
  have hleft := hshift c hc
  unfold Parser.expressionFrom
  cases hout : shift (expression depth) c with
  | error x d =>
    rw [hout] at hleft
    rw [Outcome.bind_of_error hout]
    exact hleft
  | ok left d =>
    rw [hout] at hleft
    obtain ⟨used, hused, hi⟩ := hleft
    rw [Outcome.bind_of_ok hout]
    cases hassignable : left.isAssignable with
    | true =>
      have hrest : First 0 0 (assignmentTo (expression depth) c.current.span left)
          (assignmentTo (expression depth) c.current.span left) := by
        refine close.steps.eat (l := false) rfl ?_ (close.pure left)
        rw [hassignable]
        have hsmaller := close.mono hexpr (Nat.zero_le 1) (Nat.le_refl 0)
        exact close.bind (close.skipWhile rfl rfl) fun _ => close.bind hsmaller
          fun rhs => close.pure _
      exact (hrest d (hc.of_append hused)).after hused (by omega)
    | false =>
      unfold assignmentTo
      cases hequals : d.kind.alike (.mark .equals) with
      | false =>
        rw [eat_of_unlike hequals]
        exact ⟨used, hused, hi⟩
      | true =>
        have hkind : d.kind = .mark .equals := Kind.eq_of_alike rfl hequals
        have hd := (hc.of_append hused).tokens_advance (hkind ▸ rfl)
        have hskipped := Cursor.exists_skipped (· == .newline) d.advance.tokens
        obtain ⟨newlines, hnewlines, _⟩ := hskipped
        rw [eat_of_alike hequals, hassignable]
        refine ⟨used ++ ([d.current] ++ newlines), ?_, fun e he => ?_⟩
        · rw [hused, hd, hnewlines, ← Cursor.tokens_skipWhile]
          simp only [List.append_assoc]
          rfl
        · cases he
          refine ⟨[], used, depth, c, d, rfl, rfl, hout, hused, List.ne_nil_of_length_pos hi, hkind,
            fun name hname => ?_, fun name hname => ?_⟩
          · rw [hname] at hassignable
            cases hassignable
          · rw [hname] at hassignable
            cases hassignable

theorem expression (depth : Nat) : Blaming 1 (Parser.expression depth) := by
  induction depth with
  | zero => exact fun c _ => ⟨[], rfl, fun e he => by cases he⟩
  | succ depth ih => exact fun c hc => expressionFrom ih hc

theorem program (depth : Nat) : Blaming 0 (Parser.program depth) := by
  have hexpr : First 1 0 (Parser.expression depth) (Parser.expression depth) := expression depth
  have hstatements : First 0 0 (statements (Parser.expression depth) .program)
    (statements (Parser.expression depth) .program) := close.steps.statements .program hexpr
  rw [program_eq]
  refine bind hstatements fun nodes => ?_
  have hfinish : First 0 0 (finish nodes) (finish nodes) := by
    refine close.look (f := fun t => if t.alike .eof = true then pure nodes else _)
      (g := fun t => if t.alike .eof = true then pure nodes else _) fun t => ?_
    cases t.alike .eof with
    | true => exact close.pure nodes
    | false => exact close.unexpected _ _
  exact hfinish

end Blaming

/-! ## Whole streams -/

/-- What comes of reading a program from some tokens. -/
def Parser.programOf (tokens : List Token) : EStateM.Result Failure Cursor (List Node) :=
  program (tokens.length + 1) (Cursor.start tokens)

/-- What is blamed is one of the tokens. -/
theorem Blames.exists_span {tokens used : List Token} {d : Cursor} {e : SyntaxError}
    (h : Blames tokens d e) (hd : tokens = used ++ d.tokens) : ∃ t ∈ tokens, t.span = e.span := by
  have hcurrent : d.current ∈ tokens := hd ▸ List.mem_append_right used List.mem_cons_self
  cases e with
  | unexpectedToken => exact ⟨d.current, hcurrent, congrArg Token.span h.1⟩
  | invalidToken => exact ⟨d.current, hcurrent, congrArg Token.span h⟩
  | invalidTarget target s =>
    obtain ⟨before, _, _, c, _, rfl, hs, _⟩ := h
    exact ⟨c.current, List.mem_append_right before List.mem_cons_self, hs⟩

/-- Two places after the same part of the same tokens. -/
theorem place_eq {tokens used used' left left' rest : List Token} {c d : Cursor}
    (split : tokens = used ++ left) (split' : tokens = used' ++ left')
    (kinds : left'.map Token.kind = left.map Token.kind) (place : c.tokens = left ++ rest)
    (place' : d.tokens = left' ++ []) : c.tokens = d.tokens ++ rest := by
  have hlength : left.length = left'.length := by
    simpa using (congrArg List.length kinds).symm
  rw [place, place', List.append_nil,
    List.append_inj_right' (split.symm.trans split') hlength]

section Streams

variable {tokens : List Token} (h : IsStream tokens)

include h

/-- A stream ends with a token that belongs to no construct. -/
theorem Token.IsStream.stops : (Cursor.start tokens).Stops := by
  obtain ⟨init, stop, rfl, hstop, _⟩ := h
  intro t ht
  rw [Cursor.tokens_start_append, List.getLast?_concat] at ht
  cases ht
  rw [hstop]
  rfl

/-- **What follows the end of the source is not looked at**: where there is more
of a stream, the same is read of it, up to the same place. -/
theorem programOf_append {rest : List Token} (hrest : rest ≠ []) :
    ((∃ nodes c d, programOf (tokens ++ rest) = .ok nodes c ∧ programOf tokens = .ok nodes d ∧
        c.tokens = d.tokens ++ rest) ∨
      ∃ e e' c d, programOf (tokens ++ rest) = .error (.wrong e) c ∧
        programOf tokens = .error (.wrong e') d ∧ e'.placeless = e.placeless ∧
        c.tokens = d.tokens ++ rest) := by
  have hlength : tokens.length ≤ (tokens ++ rest).length + 1 := by
    rw [List.length_append]
    omega
  have hc : (Cursor.start (tokens ++ rest)).tokens = tokens ++ rest :=
    Cursor.tokens_start (List.append_ne_nil_of_right_ne_nil tokens hrest)
  have hd : (Cursor.start tokens).tokens = tokens ++ [] := by
    rw [List.append_nil]
    exact Cursor.tokens_start h.ne_nil
  have halike := Alike.program hlength (Nat.le_succ tokens.length) hc hd rfl hrest (Nat.le_refl _)
  change Abreast tokens tokens rest [] 0 (programOf (tokens ++ rest)) (programOf tokens) at halike
  generalize programOf (tokens ++ rest) = x at halike
  generalize programOf tokens = y at halike
  cases halike with
  | ok split split' kinds _ _ _ place place' =>
    exact .inl ⟨_, _, _, rfl, rfl, place_eq split split' kinds place place'⟩
  | wrong split split' kinds _ same _ place place' =>
    exact .inr ⟨_, _, _, _, rfl, rfl, same, place_eq split split' kinds place place'⟩
  | gone eof =>
    obtain ⟨init, stop, rfl, hstop, _⟩ := h
    exact absurd hstop (eof stop (List.mem_append_right init List.mem_cons_self))

/-- No bound is met. -/
theorem programOf_ne_tooDeep (c : Cursor) : programOf tokens ≠ .error .tooDeep c := by
  intro htooDeep
  obtain ⟨_, _, _, _, hok, _⟩ | ⟨_, _, _, _, _, herror, _⟩ :=
    programOf_append h (List.cons_ne_nil (ofKind .eof) [])
  · rw [htooDeep] at hok
    cases hok
  · rw [htooDeep] at herror
    cases herror

/-- A program that is read leaves the end of the source only. -/
theorem tokens_of_programOf {nodes : List Node} {d : Cursor}
    (hok : programOf tokens = .ok nodes d) : ∃ stop, d.tokens = [stop] ∧ stop.kind = .eof := by
  obtain ⟨init, stop, rfl, hstop, hinit⟩ := h
  have hstep := inStep_program id hstop hinit
  change InStep id stop [stop.relocate id] true 0 _ (programOf (init ++ [stop])) _ at hstep
  rw [hok] at hstep
  exact ⟨stop, hstep.tokens_of_ok (statements_of_program hok).2, hstop⟩

/-- An error blames one of the tokens, and the right one. -/
theorem blames_of_programOf {e : SyntaxError} {d : Cursor}
    (herror : programOf tokens = .error (.wrong e) d) :
    Blames tokens d e ∧ ∃ t ∈ tokens, t.span = e.span := by
  have hblames := Blaming.program (tokens.length + 1) (Cursor.start tokens) h.stops
  change BlamesIn 0 (Cursor.start tokens) (programOf tokens) at hblames
  rw [herror] at hblames
  obtain ⟨used, hused, hwrong⟩ := hblames
  rw [Cursor.tokens_start h.ne_nil] at hused hwrong
  exact ⟨hwrong e rfl, (hwrong e rfl).exists_span hused⟩

/-- An error is a wrong token or target, and not a bound. -/
theorem programOf_of_error {e : SyntaxError} (herror : parseTokens tokens = .error e) :
    ∃ d, programOf tokens = .error (.wrong e) d := by
  rw [parseTokens_eq] at herror
  change answer (programOf tokens) = .error e at herror
  cases hx : programOf tokens with
  | ok nodes d =>
    rw [hx] at herror
    cases herror
  | error x d =>
    rw [hx] at herror
    cases x with
    | wrong e' =>
      cases herror
      exact ⟨d, rfl⟩
    | tooDeep => exact absurd hx (programOf_ne_tooDeep h d)

/-- The parser does not leave its tokens. -/
theorem suffix_of_programOf : (Outcome.state (programOf tokens)).tokens <:+ tokens := by
  have hplace := (Alike.program (Nat.zero_le _) (Nat.zero_le _)).place_of_nil
    (p := program (tokens.length + 1)) (q := program 0) (Cursor.start tokens)
  rw [Cursor.tokens_start h.ne_nil] at hplace
  exact hplace

/-- **The parser comes to an end in its stream.** It stops at one of its tokens,
and no bound is met. A program that is read has taken all tokens but the last
one, and no error is among them. Otherwise the error blames a token of the
stream, and the right one. Nothing past the end of the source makes a
difference: if more tokens follow, the parser stops at the same place, and says
the same. -/
theorem parser_ends_in_its_stream :
    (Outcome.state (programOf tokens)).tokens <:+ tokens ∧
      (∀ c, programOf tokens ≠ .error .tooDeep c) ∧
      (∀ nodes, parseTokens tokens = .ok nodes →
        (∃ stop, (Outcome.state (programOf tokens)).tokens = [stop] ∧ stop.kind = .eof) ∧
          ∀ t ∈ tokens, t.kind ≠ .error) ∧
      (∀ e, parseTokens tokens = .error e →
        Blames tokens (Outcome.state (programOf tokens)) e ∧ ∃ t ∈ tokens, t.span = e.span) ∧
      ∀ rest,
        (Outcome.state (programOf (tokens ++ rest))).tokens
            = (Outcome.state (programOf tokens)).tokens ++ rest ∧
          (parseTokens (tokens ++ rest)).mapError SyntaxError.placeless
            = (parseTokens tokens).mapError SyntaxError.placeless := by
  refine ⟨suffix_of_programOf h, programOf_ne_tooDeep h, fun nodes hok => ?_, fun e herror => ?_,
    fun rest => ?_⟩
  · obtain ⟨d, hd⟩ := program_of_answer ((parseTokens_eq tokens).symm.trans hok)
    change programOf tokens = .ok nodes d at hd
    rw [hd]
    exact ⟨tokens_of_programOf h hd, not_error_of_parseTokens h hok⟩
  · obtain ⟨d, hd⟩ := programOf_of_error h herror
    rw [hd]
    exact blames_of_programOf h hd
  · by_cases hrest : rest = []
    · rw [hrest, List.append_nil, List.append_nil]
      exact ⟨rfl, rfl⟩
    · rw [parseTokens_eq, parseTokens_eq]
      change _ ∧ (answer (programOf (tokens ++ rest))).mapError _
        = (answer (programOf tokens)).mapError _
      obtain ⟨nodes, c, d, hc, hd, htokens⟩ | ⟨e, e', c, d, hc, hd, hsame, htokens⟩ :=
        programOf_append h hrest
      · rw [hc, hd]
        exact ⟨htokens, rfl⟩
      · rw [hc, hd]
        exact ⟨htokens, congrArg Except.error hsame.symm⟩

end Streams

/-- The tokens of `a; 1 = 2`. -/
def literalAssignment : List Token :=
  [⟨.ident "a", Span.point 0⟩, ⟨.mark .semicolon, Span.point 1⟩, ⟨.int 1, Span.point 3⟩,
    ⟨.mark .equals, Span.point 5⟩, ⟨.int 2, Span.point 7⟩, ⟨.eof, Span.point 8⟩]

/-- The literal is blamed there, and not the name before it. -/
theorem literal_is_blamed : IsStream literalAssignment ∧
    IsInvalidTarget literalAssignment (.int 1) (Span.point 3) := by
  have hstream : IsStream literalAssignment := ⟨[_, _, _, _, _], _, rfl, rfl, by decide⟩
  obtain ⟨_, _, _, hblames, _⟩ := parser_ends_in_its_stream hstream
  exact ⟨hstream, (hblames (.invalidTarget (.int 1) (Span.point 3)) rfl).1⟩

end Garnet
