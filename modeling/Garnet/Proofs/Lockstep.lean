import Garnet.Proofs.Grammar

/-!
# Reading two streams in lockstep

Two streams of tokens stand **beside** each other (`Beside`) if the second one
has the tokens of the first one up to its end, with other spans, and either
ends there, too, or goes on with a line end. As long as the first stream has
not come to its end, a reader does the same on both (`Lockstep`): it takes the
same tokens and returns the same value, and where the streams are the same to
the end it also fails with the same error, whose span is moved as those of the
tokens are.

The same induction tells what a reader does on one stream: it is never stopped
by its bounds, and never takes a token that is an error.
-/

namespace Garnet

open Garnet.Parser Token

/-! ## Moving spans -/

/-- The token with its span moved. -/
def Token.relocate (move : Span → Span) (t : Token) : Token :=
  ⟨t.kind, move t.span⟩

/-- The error with its span moved. -/
def SyntaxError.relocate (move : Span → Span) : SyntaxError → SyntaxError
  | unexpectedToken found expected context s => unexpectedToken found expected context (move s)
  | invalidToken s => invalidToken (move s)
  | invalidTarget target s => invalidTarget target (move s)

/-! ## Cursors as lists of tokens -/

namespace Cursor

variable {c : Cursor} {t : Token} {ts : List Token} {p : Kind → Bool}

/-- The tokens from a place on. -/
def tokens (c : Cursor) : List Token :=
  c.current :: c.ahead

theorem room_eq_length (c : Cursor) : c.room = c.tokens.length :=
  c.room_eq

theorem current_of_tokens (h : c.tokens = t :: ts) : c.current = t :=
  (List.cons.inj h).1

theorem kind_of_tokens (h : c.tokens = t :: ts) : c.kind = t.kind :=
  congrArg Token.kind (current_of_tokens h)

/-- The start of a stream that is not empty. -/
theorem tokens_start (h : ts ≠ []) : (start ts).tokens = ts := by
  cases ts with
  | nil => exact absurd rfl h
  | cons t ts => rfl

theorem tokens_start_append (init : List Token) (t : Token) (ts : List Token) :
    (start (init ++ t :: ts)).tokens = init ++ t :: ts :=
  tokens_start (List.append_ne_nil_of_right_ne_nil init (List.cons_ne_nil t ts))

/-- The next place is one token on. -/
theorem tokens_advance (h : c.tokens = t :: ts) (hts : ts ≠ []) : c.advance.tokens = ts := by
  obtain ⟨u, us, room, hroom⟩ := c
  obtain ⟨rfl, rfl⟩ := List.cons.inj h
  cases us with
  | nil => exact absurd rfl hts
  | cons v vs => rfl

/-- The tokens that are left after those at the head that satisfy `p`; the last
one is always left. -/
def skipped (p : Kind → Bool) : List Token → List Token
  | t :: u :: us => if p t.kind then skipped p (u :: us) else t :: u :: us
  | ts => ts

theorem tokens_skipWhile (p : Kind → Bool) (c : Cursor) :
    (c.skipWhile p).tokens = skipped p c.tokens := by
  obtain ⟨t, ts, room, hroom⟩ := c
  show (skipFrom p t ts room hroom).tokens = skipped p (t :: ts)
  induction ts generalizing t room with
  | nil => rfl
  | cons u us ih =>
    rw [skipFrom, skipped]
    split
    · exact ih u (room - 1) _
    · rfl

/-- What is skipped satisfies `p`. -/
theorem exists_skipped (p : Kind → Bool) (ts : List Token) :
    ∃ used, ts = used ++ skipped p ts ∧ ∀ t ∈ used, p t.kind = true := by
  fun_induction skipped p ts with
  | case1 t u us hp ih =>
    obtain ⟨used, heq, hused⟩ := ih
    refine ⟨t :: used, congrArg (t :: ·) heq, List.forall_mem_cons.mpr ⟨hp, hused⟩⟩
  | case2 => exact ⟨[], rfl, List.forall_mem_nil _⟩
  | case3 => exact ⟨[], rfl, List.forall_mem_nil _⟩

/-- Skipping leaves no more than there is. -/
theorem room_skipWhile (p : Kind → Bool) (c : Cursor) : (c.skipWhile p).room ≤ c.room := by
  obtain ⟨used, hused, _⟩ := exists_skipped p c.tokens
  have hlength := congrArg List.length hused
  rw [List.length_append] at hlength
  rw [room_eq_length, room_eq_length, tokens_skipWhile]
  omega

end Cursor

/-! ## Streams beside each other -/

/-- **How two streams end**: with the end of the source in both, or with a line
end in the second one. -/
structure Ends (move : Span → Span) (stop : Token) (tail : List Token) : Prop where
  /-- The first stream ends with the end of the source. -/
  last : stop.kind = .eof
  /-- The second one does, too, or goes on. -/
  after : tail = [stop.relocate move] ∨ ∃ t ts, tail = t :: ts ∧ t.kind = .newline

/-- **Two streams beside each other**: the same tokens, moved in the second one,
up to the end of the first one. -/
inductive Beside (move : Span → Span) (stop : Token) (tail : List Token) :
    List Token → List Token → Prop
  /-- At the end of the first stream. -/
  | stop : Beside move stop tail [stop] tail
  /-- Before it. -/
  | token {t : Token} {ts us : List Token} (ne : t.kind ≠ .eof)
      (rest : Beside move stop tail ts us) : Beside move stop tail (t :: ts) (t.relocate move :: us)

/-- The streams of a list of tokens that does not contain the end of the
source. -/
theorem Beside.append {move : Span → Span} {stop : Token} {tail init : List Token}
    (h : ∀ t ∈ init, t.kind ≠ .eof) :
    Beside move stop tail (init ++ [stop]) (init.map (Token.relocate move) ++ tail) := by
  induction init with
  | nil => exact .stop
  | cons t init ih =>
    rw [List.forall_mem_cons] at h
    exact .token h.1 (ih h.2)

namespace Beside

/-- Tokens may stay where they are. -/
theorem map_relocate_id (ts : List Token) : ts.map (Token.relocate id) = ts :=
  List.map_id ts

variable {move : Span → Span} {stop : Token} {tail ts us : List Token} {p : Kind → Bool}
  {c d : Cursor}

/-- Something is left of the first stream. -/
theorem ne_nil (h : Beside move stop tail ts us) : ts ≠ [] := by
  cases h with
  | stop => exact List.cons_ne_nil _ _
  | token => exact List.cons_ne_nil _ _

variable (hends : Ends move stop tail)

include hends

/-- Something is left of the second stream. -/
theorem ne_nil' (h : Beside move stop tail ts us) : us ≠ [] := by
  cases h with
  | stop =>
    obtain rfl | ⟨t, ts, rfl, _⟩ := hends.after
    · exact List.cons_ne_nil _ _
    · exact List.cons_ne_nil _ _
  | token => exact List.cons_ne_nil _ _

omit hends in
/-- The second stream goes on by the same number of tokens everywhere. -/
theorem length_add (h : Beside move stop tail ts us) : us.length + 1 = ts.length + tail.length := by
  induction h with
  | stop => exact Nat.add_comm _ _
  | token _ _ ih =>
    simp only [List.length_cons]
    omega

/-- There is at least as much left of the second stream. -/
theorem length_le (h : Beside move stop tail ts us) : ts.length ≤ us.length := by
  have htail : tail ≠ [] := ne_nil' hends .stop
  have := h.length_add
  have := List.length_pos_iff.mpr htail
  omega

/-- **The current tokens** are the same, or the end of the source and a line
end. -/
theorem current (h : Beside move stop tail c.tokens d.tokens) :
    d.current = c.current.relocate move ∨
      tail ≠ [stop.relocate move] ∧ c.tokens = [stop] ∧ c.kind = .eof ∧ d.kind = .newline := by
  generalize hc : c.tokens = ts at h
  generalize hd : d.tokens = us at h
  cases h with
  | stop =>
    have hkind : c.kind = .eof := (Cursor.kind_of_tokens hc).trans hends.last
    obtain htail | ⟨t, ts, rfl, ht⟩ := hends.after
    · rw [htail] at hd
      rw [Cursor.current_of_tokens hc, Cursor.current_of_tokens hd]
      exact .inl rfl
    · have hdkind : d.kind = .newline := (Cursor.kind_of_tokens hd).trans ht
      refine .inr ⟨fun heq => ?_, rfl, hkind, hdkind⟩
      have hsame : t.kind = .eof := by
        rw [(List.cons.inj heq).1]
        exact hends.last
      rw [ht] at hsame
      cases hsame
  | token =>
    rw [Cursor.current_of_tokens hc, Cursor.current_of_tokens hd]
    exact .inl rfl

omit hends in
/-- The same token is of the same kind. -/
theorem kind_of_current (h : d.current = c.current.relocate move) : d.kind = c.kind := by
  unfold Cursor.kind
  rw [h]
  rfl

/-- What is no matter of the difference is the same of the current tokens. -/
theorem same_of_kind {b : Kind → Bool} (hb : b .eof = b .newline)
    (h : Beside move stop tail c.tokens d.tokens) : b c.kind = b d.kind := by
  obtain hsame | ⟨_, _, hc, hd⟩ := h.current hends
  · rw [kind_of_current hsame]
  · rw [hc, hd, hb]

/-- Before the end of the first stream, the current tokens are of one kind. -/
theorem kind_eq (h : Beside move stop tail c.tokens d.tokens) (hc : c.kind ≠ .eof) :
    d.kind = c.kind := by
  obtain hsame | ⟨_, _, heof, _⟩ := h.current hends
  · exact kind_of_current hsame
  · exact absurd heof hc

omit hends in
/-- At the end of the first stream. -/
theorem of_eof (h : Beside move stop tail c.tokens d.tokens) (hc : c.kind = .eof) :
    c.tokens = [stop] ∧ d.tokens = tail := by
  generalize hts : c.tokens = ts at h
  generalize d.tokens = us at h
  cases h with
  | stop => exact ⟨rfl, rfl⟩
  | token ne => exact absurd ((Cursor.kind_of_tokens hts).symm.trans hc) ne

/-- **Skipping tokens** goes on in both streams, or comes to the end of the first
one. -/
theorem skipped (h : Beside move stop tail ts us) :
    (Beside move stop tail (Cursor.skipped p ts) (Cursor.skipped p us) ∧
      ∀ t ∈ (Cursor.skipped p ts).head?, t.kind ≠ .eof) ∨
    Cursor.skipped p ts = [stop] ∧ Cursor.skipped p us = Cursor.skipped p tail := by
  induction h with
  | stop => exact .inr ⟨rfl, rfl⟩
  | @token t ts us ne rest ih =>
    obtain ⟨u, ts, rfl⟩ := List.exists_cons_of_ne_nil rest.ne_nil
    obtain ⟨v, us, rfl⟩ := List.exists_cons_of_ne_nil (rest.ne_nil' hends)
    rw [Cursor.skipped, Cursor.skipped]
    cases ht : p t.kind with
    | true =>
      rw [if_pos rfl, if_pos (show p (t.relocate move).kind = true from ht)]
      exact ih
    | false =>
      rw [if_neg Bool.false_ne_true,
        if_neg (show ¬p (t.relocate move).kind = true from Bool.eq_false_iff.mp ht)]
      refine .inl ⟨.token ne rest, fun w hw => ?_⟩
      cases hw
      exact ne

end Beside

/-! ## Readers in lockstep -/

variable {α β : Type}

/-- **What comes out of two readers in lockstep**, where the first one starts at
`c`. It has taken at least `i` tokens, none of them an error, and is never
stopped by a bound. The second one has done the same; only if `l` is true can
the first one have come to the end of its stream, while the second one went
on. -/
def InStep (move : Span → Span) (stop : Token) (tail : List Token) (l : Bool) (i : Nat)
    (c : Cursor) :
    EStateM.Result Failure Cursor α → EStateM.Result Failure Cursor α → Prop
  | .ok a d, r =>
    (∃ used, c.tokens = used ++ d.tokens ∧ i ≤ used.length ∧ ∀ t ∈ used, t.kind ≠ .error) ∧
    ((∃ d', r = .ok a d' ∧ Beside move stop tail d.tokens d'.tokens) ∨
      l = true ∧ tail ≠ [stop.relocate move] ∧ d.tokens = [stop])
  | .error (.wrong e) _, r =>
    tail = [stop.relocate move] → ∃ d', r = .error (.wrong (e.relocate move)) d'
  | .error .tooDeep _, _ => False

/-- **Two readers in lockstep**, where at most `k` tokens are left. -/
def Lockstep (move : Span → Span) (stop : Token) (tail : List Token) {α : Type} (l : Bool)
    (i k : Nat)
    (p q : Parser α) : Prop :=
  ∀ c d : Cursor, Beside move stop tail c.tokens d.tokens → c.room ≤ k →
    InStep move stop tail l i c (p c) (q d)

namespace InStep

variable {move : Span → Span} {stop : Token} {tail : List Token} {l l' : Bool} {i j : Nat}
  {c d : Cursor}
  {x y : EStateM.Result Failure Cursor α}

theorem mono (h : InStep move stop tail l i c x y) (hl : l = true → l' = true) (hj : j ≤ i) :
    InStep move stop tail l' j c x y := by
  cases x with
  | ok a d =>
    obtain ⟨⟨used, hc, hi, hused⟩, hrest⟩ := h
    exact ⟨⟨used, hc, Nat.le_trans hj hi, hused⟩, hrest.imp_right fun h => ⟨hl h.1, h.2⟩⟩
  | error e d =>
    cases e with
    | wrong e => exact h
    | tooDeep => exact h

/-- What was taken before is taken, too. -/
theorem after {used : List Token} (h : InStep move stop tail l j d x y)
    (hc : c.tokens = used ++ d.tokens) (hused : ∀ t ∈ used, t.kind ≠ .error)
    (hi : i ≤ used.length + j) : InStep move stop tail l i c x y := by
  cases x with
  | ok a e =>
    obtain ⟨⟨more, hd, hj, hmore⟩, hrest⟩ := h
    refine ⟨⟨used ++ more, ?_, ?_, List.forall_mem_append.mpr ⟨hused, hmore⟩⟩, hrest⟩
    · rw [hc, hd, List.append_assoc]
    · rw [List.length_append]
      omega
  | error e d =>
    cases e with
    | wrong e => exact h
    | tooDeep => exact h

/-- **A reader that is not loose** leaves the streams beside each other, and takes
as many tokens of both. -/
theorem stays {a : α} {e : Cursor} (h : InStep move stop tail false i c (.ok a e) y)
    (hcd : Beside move stop tail c.tokens d.tokens) :
    ∃ f, y = .ok a f ∧ Beside move stop tail e.tokens f.tokens ∧ e.room + i ≤ c.room ∧
      f.room + i ≤ d.room := by
  obtain ⟨⟨used, hused, hi, _⟩, ⟨f, hf, hef⟩ | ⟨hl, _⟩⟩ := h
  · have hlength := congrArg List.length hused
    have hbefore := hcd.length_add
    have hafter := hef.length_add
    rw [List.length_append] at hlength
    simp only [← Cursor.room_eq_length] at hlength hbefore hafter
    exact ⟨f, hf, hef, by omega, by omega⟩
  · cases hl

/-- **At the end of the first stream** nothing can be taken, and what the second
reader does is no matter any more. -/
theorem of_stop (h : InStep move stop tail l i c x y) (hc : c.tokens = [stop])
    (htail : tail ≠ [stop.relocate move]) (hl : l' = true ∨ 0 < i)
    (z : EStateM.Result Failure Cursor α) : InStep move stop tail l' i c x z := by
  cases x with
  | ok a d =>
    obtain ⟨⟨used, hused, hi, hne⟩, -⟩ := h
    have hnone : used = [] ∧ d.tokens = [stop] := by
      have hlength := congrArg List.length (hc.symm.trans hused)
      rw [List.length_append] at hlength
      have hd : d.tokens.length = d.ahead.length + 1 := rfl
      obtain rfl : used = [] := List.length_eq_zero_iff.mp (by simp at hlength; omega)
      exact ⟨rfl, hused.symm.trans hc⟩
    obtain ⟨rfl, hd⟩ := hnone
    refine ⟨⟨[], hused, hi, hne⟩, .inr ⟨hl.resolve_right fun hpos => ?_, htail, hd⟩⟩
    exact absurd hi (Nat.not_le_of_lt hpos)
  | error e d =>
    cases e with
    | wrong e => exact fun heq => absurd heq htail
    | tooDeep => exact h

end InStep

namespace Lockstep

variable {move : Span → Span} {stop : Token} {tail : List Token} (hends : Ends move stop tail)
  {l l' : Bool} {i j k m : Nat}

include hends

/-- **One reader after another.** The second one may find the first one at the
end of its stream. -/
theorem seq {p q : Parser α} {f g : α → Parser β} (hp : Lockstep move stop tail l' i k p q)
    (hf : ∀ a, Lockstep move stop tail l j (k - i) (f a) (g a))
    (hl : l' = true → l = true ∨ 0 < j) (hm : m ≤ i + j) :
    Lockstep move stop tail l m k (p >>= f) (q >>= g) := by
  intro c d hcd hk
  have hpq := hp c d hcd hk
  cases hpc : p c with
  | ok a e =>
    rw [hpc] at hpq
    obtain ⟨⟨used, hc, hi, hused⟩, hrest⟩ := hpq
    have hroom : e.room ≤ k - i := by
      rw [Cursor.room_eq_length] at hk ⊢
      rw [hc, List.length_append] at hk
      omega
    rw [Outcome.bind_of_ok hpc]
    obtain ⟨e', hq, hbeside⟩ | ⟨hlost, htail, he⟩ := hrest
    · rw [Outcome.bind_of_ok hq]
      exact (hf a e e' hbeside hroom).after hc hused (by omega)
    · -- somewhere the second reader goes on from the end of the first stream
      have hstop : Beside move stop tail e.tokens (Cursor.start tail).tokens := by
        rw [he, Cursor.tokens_start (Beside.ne_nil' hends .stop)]
        exact .stop
      have hfa := (hf a e _ hstop hroom).of_stop he htail (hl hlost) ((q >>= g) d)
      exact hfa.after hc hused (by omega)
  | error x e =>
    rw [hpc] at hpq
    rw [Outcome.bind_of_error hpc]
    cases x with
    | wrong x =>
      intro htail
      obtain ⟨d', hq⟩ := hpq htail
      exact ⟨d', Outcome.bind_of_error hq⟩
    | tooDeep => exact hpq

omit hends in
/-- A reader that ends where it starts. -/
theorem stay {p q : Parser α} (a : α) (hp : ∀ c, p c = .ok a c) (hq : ∀ c, q c = .ok a c) :
    Lockstep move stop tail l 0 k p q := by
  intro c d hcd _
  rw [hp, hq]
  exact ⟨⟨[], rfl, Nat.le_refl 0, List.forall_mem_nil _⟩, .inl ⟨d, rfl, hcd⟩⟩

/-- The wrong token is the same one. -/
theorem unexpected (expected : String) (context : SyntaxContext) :
    Lockstep move stop tail l i k (unexpected (α := α) expected context)
      (Parser.unexpected expected context) := by
  intro c d hcd _ htail
  obtain hcurrent | ⟨hne, _⟩ := hcd.current hends
  · refine ⟨d, congrArg (fun e => EStateM.Result.error (Failure.wrong e) d) ?_⟩
    unfold Cursor.unexpected Cursor.check Cursor.kind
    rw [hcurrent]
    show (if c.current.kind.alike .error = true then _ else _)
      = SyntaxError.relocate move (if c.current.kind.alike .error = true then _ else _)
    split
    · rfl
    · rfl
  · exact absurd htail hne

/-- Reading goes on after the same token. -/
theorem taking {next next' : Kind → Option (Parser α)} {p q : Parser α}
    (hnone : ∀ t, t.isContent = false → next t = none ∧ next' t = none)
    (hnext : ∀ t, Option.Rel (Lockstep move stop tail l (i - 1) (k - 1)) (next t) (next' t))
    (hpq : Lockstep move stop tail l i k p q) :
    Lockstep move stop tail l i k (taking next p) (Parser.taking next' q) := by
  intro c d hcd hk
  unfold Parser.taking
  rw [kind_bind, kind_bind]
  generalize hc : c.tokens = ts at hcd
  generalize hd : d.tokens = us at hcd
  cases hcd with
  | stop =>
    -- neither the end of the source nor a line end is taken
    have hends' := Beside.current hends (c := c) (d := d) (hc ▸ hd ▸ .stop)
    have hckind : c.kind = .eof := (Cursor.kind_of_tokens hc).trans hends.last
    have hdkind : d.kind.isContent = false := by
      obtain hsame | ⟨_, _, _, hnewline⟩ := hends'
      · show d.current.kind.isContent = false
        rw [hsame]
        show c.kind.isContent = false
        rw [hckind]
        rfl
      · rw [hnewline]
        rfl
    rw [(hnone c.kind (by rw [hckind]; rfl)).1, (hnone d.kind hdkind).2]
    exact hpq c d (hc ▸ hd ▸ .stop) hk
  | @token t ts us ne rest =>
    have hkinds : d.kind = c.kind := by
      rw [Cursor.kind_of_tokens hc, Cursor.kind_of_tokens hd]
      rfl
    rw [hkinds]
    have hbeside : Beside move stop tail c.tokens d.tokens := hc ▸ hd ▸ .token ne rest
    have hcontent := hnone c.kind
    have hrel := hnext c.kind
    generalize next c.kind = x at hcontent hrel ⊢
    generalize next' c.kind = y at hcontent hrel ⊢
    cases hrel with
    | none => exact hpq c d hbeside hk
    | some hxy =>
      have hcnext := Cursor.tokens_advance hc rest.ne_nil
      have hdnext := Cursor.tokens_advance hd (rest.ne_nil' hends)
      have hroom : c.advance.room ≤ k - 1 := by
        rw [Cursor.room_eq_length, hc, List.length_cons] at hk
        rw [Cursor.room_eq_length, hcnext]
        omega
      have htaken : c.tokens = [t] ++ c.advance.tokens := by
        rw [hc, hcnext]
        rfl
      have hstep := hxy c.advance d.advance (hcnext ▸ hdnext ▸ rest) hroom
      refine hstep.after htaken (fun u hu herror => ?_) ?_
      · rw [List.mem_singleton.mp hu] at herror
        cases (hcontent (by rw [Cursor.kind_of_tokens hc, herror]; rfl)).1
      · rw [List.length_singleton]
        omega

/-- The same choice is made. -/
theorem look (b : Kind → Bool) {f g : Bool → Parser α} (hb : b .eof = b .newline)
    (hfg : ∀ x, Lockstep move stop tail l i k (f x) (g x)) :
    Lockstep move stop tail l i k (kind >>= fun t => f (b t)) (kind >>= fun t => g (b t)) := by
  intro c d hcd hk
  rw [kind_bind, kind_bind, hcd.same_of_kind hends hb]
  exact hfg _ c d hcd hk

/-- **Skipping tokens** may go on in the second stream only. -/
theorem skipWhile {p : Kind → Bool} (hp : p .error = false) :
    Lockstep move stop tail true 0 k (modify (Cursor.skipWhile p))
      (modify (Cursor.skipWhile p)) := by
  intro c d hcd _
  obtain ⟨used, hused, hall⟩ := Cursor.exists_skipped p c.tokens
  refine ⟨⟨used, ?_, Nat.zero_le _, fun t ht herror => ?_⟩, ?_⟩
  · rw [Cursor.tokens_skipWhile]
    exact hused
  · have hpt := hall t ht
    rw [herror, hp] at hpt
    cases hpt
  · rw [Cursor.tokens_skipWhile]
    obtain ⟨hbeside, _⟩ | ⟨hstop, htail⟩ := hcd.skipped hends
    · refine .inl ⟨_, rfl, ?_⟩
      rw [Cursor.tokens_skipWhile]
      exact hbeside
    · by_cases hsame : tail = [stop.relocate move]
      · refine .inl ⟨_, rfl, ?_⟩
        rw [Cursor.tokens_skipWhile, hstop, htail, hsame]
        exact .stop
      · exact .inr ⟨rfl, hsame, hstop⟩

/-- There is at least as much left of the second stream. -/
theorem room {f g : Nat → Parser α}
    (hfg : ∀ m m', Lockstep move stop tail l i (min k (min m m')) (f m) (g m')) :
    Lockstep move stop tail l i k (room >>= f) (Parser.room >>= g) := by
  intro c d hcd hk
  refine hfg c.room d.room c d hcd ?_
  have := hcd.length_le hends
  rw [← Cursor.room_eq_length, ← Cursor.room_eq_length] at this
  omega

/-! ### Statements -/

/-- Statements may end in the first stream only. -/
theorem closing {p q : Parser α} (a : α) (hpq : Lockstep move stop tail true 0 k p q) :
    Lockstep move stop tail true 0 k
      (get >>= fun c => if c.closesStatements = true then pure a else p)
      (get >>= fun c => if c.closesStatements = true then pure a else q) := by
  intro c d hcd hk
  rw [Outcome.get_bind, Outcome.get_bind]
  obtain hcurrent | ⟨htail, hstop, hc, _⟩ := hcd.current hends
  · have hsame : d.closesStatements = c.closesStatements :=
      congrArg closesStatements (Beside.kind_of_current hcurrent)
    rw [hsame]
    split
    · exact stay a (fun _ => rfl) (fun _ => rfl) c d hcd hk
    · exact hpq c d hcd hk
  · have hcloses : c.closesStatements = true := by
      show closesStatements c.kind = true
      rw [hc]
      rfl
    rw [if_pos hcloses]
    exact ⟨⟨[], rfl, Nat.le_refl 0, List.forall_mem_nil _⟩, .inr ⟨rfl, htail, hstop⟩⟩

omit hends in
/-- What separates a statement from the next one depends on the current token. -/
theorem separator_apply (context : SyntaxContext) (c : Cursor) :
    Parser.separator context c
      = (if c.kind.isTerminator then skipTerminators else if closesStatements c.kind then pure ()
        else Parser.unexpected "end of line or `;`" context : Parser Unit) c :=
  congrFun (Parser.separator_eq context) c

theorem separator (context : SyntaxContext) :
    Lockstep move stop tail true 0 k (Parser.separator context) (Parser.separator context) := by
  intro c d hcd hk
  rw [separator_apply, separator_apply]
  obtain hcurrent | ⟨htail, hstop, hc, _⟩ := hcd.current hends
  · have hkind : d.kind = c.kind := Beside.kind_of_current hcurrent
    rw [hkind]
    split
    · exact skipWhile hends rfl c d hcd hk
    split
    · exact stay () (fun _ => rfl) (fun _ => rfl) c d hcd hk
    · exact unexpected hends _ _ c d hcd hk
  · rw [hc]
    exact ⟨⟨[], rfl, Nat.le_refl 0, List.forall_mem_nil _⟩, .inr ⟨rfl, htail, hstop⟩⟩

theorem statementsWithin {expr expr' : Parser Node}
    (hexpr : Lockstep move stop tail false 1 k expr expr') (context : SyntaxContext) {m'}
    (hm : k ≤ m) (hm' : k ≤ m') :
    Lockstep move stop tail true 0 k (Parser.statementsWithin expr context m)
      (Parser.statementsWithin expr' context m') := by
  induction m generalizing m' k with
  | zero =>
    intro c d _ hk
    rw [c.room_eq] at hk
    omega
  | succ m ih =>
    cases m' with
    | zero =>
      intro c d _ hk
      rw [c.room_eq] at hk
      omega
    | succ m' =>
      unfold Parser.statementsWithin
      refine closing hends [] ?_
      have hless : Lockstep move stop tail false 1 (k - 1 - 0) expr expr' :=
        fun c d hcd hk => hexpr c d hcd (by omega)
      refine seq hends hexpr (fun a => ?_) (fun hl => by cases hl) (Nat.zero_le (1 + 0))
      refine seq hends (separator hends context) (fun _ => ?_) (fun _ => .inl rfl)
        (Nat.zero_le (0 + 0))
      refine seq hends (ih hless (by omega) (by omega)) (fun as => ?_) (fun _ => .inl rfl)
        (Nat.zero_le (0 + 0))
      exact stay (a :: as) (fun _ => rfl) (fun _ => rfl)

/-- **What is checked of steps**, so that all readers of the grammar are in
lockstep. -/
theorem parallel :
    Parallel (fun s s' => tail = [stop.relocate move] → s' = move s) (Lockstep move stop tail) where
  tooDeep c d _ hk := by
    rw [c.room_eq] at hk
    omega
  other _ c d _ hk := by
    rw [c.room_eq] at hk
    omega
  mono h hl hj hm c d hcd hk := (h c d hcd (Nat.le_trans hk hm)).mono hl hj
  pure a := stay a (fun _ => rfl) (fun _ => rfl)
  bind hp hf := seq hends hp hf .inl (by omega)
  regain hp hf := seq hends hp hf (fun _ => .inr (Nat.succ_pos _)) (by omega)
  unexpected := unexpected hends
  taking := taking hends
  look := look hends
  first hfg c d hcd hk := by
    refine hfg _ _ (fun htail => ?_) c d hcd hk
    obtain hcurrent | ⟨hne, _⟩ := hcd.current hends
    · rw [hcurrent]
      rfl
    · exact absurd htail hne
  invalidTarget target hs c d hcd hk htail := ⟨d, by rw [hs htail]; rfl⟩
  skipNewlines := skipWhile hends rfl
  room := room hends
  statements context hexpr := by
    refine seq hends (skipWhile hends rfl) (fun _ => room hends fun m m' => ?_) (fun _ => .inl rfl)
      (Nat.zero_le (0 + 0))
    refine statementsWithin hends (fun c d hcd hk => hexpr c d hcd ?_) context ?_ ?_ <;> omega

end Lockstep

end Garnet
