import Garnet.Proofs.Concatenation
import Garnet.Proofs.Spacing

/-!
# Layout

Blanks, comments, continuations and further line ends are the layout of a text. Put
where they belong (`LaidOut`), they do not change what the text means
(`layout_keeps_meaning`).

In the tokens they change line ends at most, and those in two ways only (`Laid`): a
line end is repeated, or there is one more before the end of the source. The latter
is what a continuation becomes that is put after a comment.

No reader tells one line end from several, and none tells the end of the source from
a line end before it, so all readers do the same on both streams (`SameLayout`). They
do it one after the other: between two statements, and after them, line ends have been
skipped in both streams, so that the current tokens are the same again.
-/

namespace Garnet

open Computability Lexeme Token Garnet.Parser

/-! ## Line ends that are repeated -/

/-- **Kinds of token that differ by line ends**: the second stream repeats some of
those of the first one, and may have one more in front of the end of the source. -/
inductive Laid : List Kind → List Kind → Prop
  /-- Both streams come to their ends. -/
  | stop : Laid [.eof] [.eof]
  /-- The second one has a line end there. -/
  | trailing : Laid [.eof] [.newline, .eof]
  /-- The same token. -/
  | token {k : Kind} {ks ls : List Kind} (rest : Laid ks ls) : Laid (k :: ks) (k :: ls)
  /-- A line end that is repeated. -/
  | again {ks ls : List Kind} (rest : Laid (.newline :: ks) ls) :
      Laid (.newline :: ks) (.newline :: ls)

/-- The kinds of token that are left after those at the head that satisfy `p`; the
last one is always left. -/
def skippedKinds (p : Kind → Bool) : List Kind → List Kind
  | k :: l :: ks => if p k then skippedKinds p (l :: ks) else k :: l :: ks
  | ks => ks

section Kinds

variable {p : Kind → Bool} {k l : Kind} {ks ls : List Kind}

theorem skippedKinds_of (hk : p k = true) (hks : ks ≠ []) :
    skippedKinds p (k :: ks) = skippedKinds p ks := by
  cases ks with
  | nil => exact absurd rfl hks
  | cons l ks => exact if_pos hk

theorem skippedKinds_of_not (hk : p k = false) : skippedKinds p (k :: ks) = k :: ks := by
  cases ks with
  | nil => rfl
  | cons l ks => exact if_neg (Bool.eq_false_iff.mp hk)

namespace Laid

theorem ne_nil (h : Laid ks ls) : ks ≠ [] ∧ ls ≠ [] := by
  cases h <;> exact ⟨List.cons_ne_nil _ _, List.cons_ne_nil _ _⟩

/-- Nothing is left out. -/
theorem length_le (h : Laid ks ls) : ks.length ≤ ls.length := by
  induction h with
  | stop => exact Nat.le_refl 1
  | trailing => exact Nat.le_succ 1
  | token _ ih => exact Nat.succ_le_succ ih
  | again _ ih => exact Nat.le_succ_of_le ih

/-- The current tokens are the same, unless the first stream has come to its end. -/
theorem eq_or_eq (h : Laid (k :: ks) (l :: ls)) : l = k ∨ k = .eof ∧ l = .newline := by
  cases h with
  | trailing => exact .inr ⟨rfl, rfl⟩
  | _ => exact .inl rfl

/-- After a token of a construct, both streams go on. -/
theorem tail (h : Laid (k :: ks) (l :: ls)) (hk : k.isContent = true) : l = k ∧ Laid ks ls := by
  cases h with
  | token rest => exact ⟨rfl, rest⟩
  | _ => cases hk

/-- **Where line ends are skipped**, as many as there are. -/
theorem skipped (h : Laid ks ls) (hnewline : p .newline = true) :
    Laid (skippedKinds p ks) (skippedKinds p ls) ∧ (skippedKinds p ls).head? ≠ some .newline := by
  induction h with
  | stop => exact ⟨.stop, fun hhead => by cases hhead⟩
  | trailing =>
    rw [skippedKinds_of hnewline (List.cons_ne_nil _ _)]
    exact ⟨.stop, fun hhead => by cases hhead⟩
  | @token k ks ls rest ih =>
    cases hk : p k with
    | true =>
      rw [skippedKinds_of hk rest.ne_nil.1, skippedKinds_of hk rest.ne_nil.2]
      exact ih
    | false =>
      rw [skippedKinds_of_not hk, skippedKinds_of_not hk]
      refine ⟨.token rest, fun hhead => ?_⟩
      rw [Option.some.inj hhead, hnewline] at hk
      cases hk
  | again rest ih =>
    rw [skippedKinds_of hnewline rest.ne_nil.2]
    exact ih

/-- The same tokens stand in front. -/
theorem append (h : Laid ks ls) (init : List Kind) : Laid (init ++ ks) (init ++ ls) := by
  induction init with
  | nil => exact h
  | cons k init ih => exact .token ih

/-- A stream is laid out as it is. -/
theorem refl (init : List Kind) : Laid (init ++ [.eof]) (init ++ [.eof]) :=
  stop.append init

/-- No errors come in. -/
theorem not_error (h : Laid ks ls) (hks : .error ∉ ks) : .error ∉ ls := by
  induction h with
  | stop => exact hks
  | trailing => decide
  | token rest ih =>
    rw [List.mem_cons, not_or] at hks ⊢
    exact ⟨hks.1, ih hks.2⟩
  | again rest ih =>
    rw [List.mem_cons, not_or]
    exact ⟨by decide, ih hks⟩

end Laid

end Kinds

/-! ## Reading -/

namespace Cursor

/-- The kinds of the tokens from a place on. -/
def kinds (c : Cursor) : List Kind :=
  c.tokens.map Token.kind

variable {c : Cursor} {ks : List Kind}

theorem kinds_eq (c : Cursor) : c.kinds = c.kind :: c.ahead.map Token.kind := rfl

theorem room_eq_length_kinds (c : Cursor) : c.room = c.kinds.length := by
  rw [room_eq_length, kinds, List.length_map]

theorem kinds_advance (hks : c.ahead.map Token.kind ≠ []) :
    c.advance.kinds = c.ahead.map Token.kind := by
  rw [kinds, tokens_advance rfl fun hnil => hks (congrArg (List.map Token.kind) hnil)]

theorem kinds_skipWhile (p : Kind → Bool) (c : Cursor) :
    (c.skipWhile p).kinds = skippedKinds p c.kinds := by
  rw [kinds, tokens_skipWhile, kinds]
  fun_induction skipped p c.tokens with
  | case1 t u us hp ih => exact ih.trans (skippedKinds_of hp (List.cons_ne_nil _ _)).symm
  | case2 t u us hp => exact (skippedKinds_of_not (Bool.eq_false_iff.mpr hp)).symm
  | case3 ts hts =>
    cases ts with
    | nil => rfl
    | cons t ts =>
      cases ts with
      | nil => rfl
      | cons u us => exact absurd rfl (hts t u us)

end Cursor

variable {α β : Type}

/-- **Two places in streams that differ by line ends.** If the second one is
settled, it is not in front of a line end. -/
structure SidesOf (settled : Bool) (c d : Cursor) : Prop where
  /-- What is left differs by line ends. -/
  laid : Laid c.kinds d.kinds
  /-- Line ends have been skipped. -/
  here : settled = true → d.kind ≠ .newline

/-- **What comes out of two readers at such places**: the same value, or an error from
both of them. -/
inductive InLayout (settled : Bool) (i : Nat) (c : Cursor) :
    EStateM.Result Failure Cursor α → EStateM.Result Failure Cursor α → Prop
  /-- Both have taken something, the first one at least `i` tokens. -/
  | ok {a : α} {c' d' : Cursor} (sides : SidesOf settled c' d') (enough : c'.room + i ≤ c.room) :
      InLayout settled i c (.ok a c') (.ok a d')
  /-- Both have failed. -/
  | wrong {e e' : SyntaxError} {c' d' : Cursor} :
      InLayout settled i c (.error (.wrong e) c') (.error (.wrong e') d')

/-- **Readers that do the same whatever the layout is**, where at most `k` tokens are
left. They start at settled places if `s` is true, and end at such places if `t`
is. -/
def SameLayout (s t : Bool) (i k : Nat) (p q : Parser α) : Prop :=
  ∀ c d, SidesOf s c d → c.room ≤ k → InLayout t i c (p c) (q d)

namespace SidesOf

variable {s : Bool} {c d : Cursor}

/-- The current tokens are the same, unless the first stream has come to its end. -/
theorem kind_eq_or_eq (h : SidesOf s c d) :
    d.kind = c.kind ∨ c.kind = .eof ∧ d.kind = .newline := by
  have hlaid := h.laid
  rw [Cursor.kinds_eq, Cursor.kinds_eq] at hlaid
  exact hlaid.eq_or_eq

/-- At settled places the current tokens are the same. -/
theorem kind_eq (h : SidesOf true c d) : d.kind = c.kind :=
  h.kind_eq_or_eq.resolve_right fun hkinds => h.here rfl hkinds.2

/-- What is true of line ends and of the end of the source alike is the same on both
sides. -/
theorem same (h : SidesOf s c d) {b : Kind → Bool} (hb : b .eof = b .newline) :
    b d.kind = b c.kind := by
  obtain hkind | ⟨hc, hd⟩ := h.kind_eq_or_eq
  · rw [hkind]
  · rw [hc, hd, hb]

/-- After a token of a construct, both streams go on. -/
theorem advance (h : SidesOf s c d) (hc : c.kind.isContent = true) :
    d.kind = c.kind ∧ SidesOf false c.advance d.advance ∧ c.advance.room + 1 = c.room := by
  have hlaid := h.laid
  rw [Cursor.kinds_eq, Cursor.kinds_eq] at hlaid
  obtain ⟨hkind, hrest⟩ := hlaid.tail hc
  refine ⟨hkind, ⟨?_, fun hs => by cases hs⟩, ?_⟩
  · rw [Cursor.kinds_advance hrest.ne_nil.1, Cursor.kinds_advance hrest.ne_nil.2]
    exact hrest
  · rw [Cursor.room_eq_length_kinds, Cursor.kinds_advance hrest.ne_nil.1, List.length_map]
    exact c.room_eq.symm

/-- Where line ends are skipped, both sides are settled. -/
theorem skipWhile (h : SidesOf s c d) {p : Kind → Bool} (hnewline : p .newline = true) :
    SidesOf true (c.skipWhile p) (d.skipWhile p) := by
  obtain ⟨hlaid, hhead⟩ := h.laid.skipped hnewline
  rw [← Cursor.kinds_skipWhile, ← Cursor.kinds_skipWhile] at hlaid
  rw [← Cursor.kinds_skipWhile, Cursor.kinds_eq, List.head?_cons] at hhead
  exact ⟨hlaid, fun _ hkind => hhead (congrArg some hkind)⟩

end SidesOf

namespace SameLayout

variable {s t u : Bool} {i j k m n : Nat}

theorem mono {p q : Parser α} (h : SameLayout s t i k p q) (hj : j ≤ i) (hm : m ≤ k) :
    SameLayout s t j m p q := by
  intro c d hcd hk
  have hout := h c d hcd (Nat.le_trans hk hm)
  generalize p c = x, q d = y at hout ⊢
  cases hout with
  | ok sides enough => exact .ok sides (Nat.le_trans (Nat.add_le_add_left hj _) enough)
  | wrong => exact .wrong

/-- Less can be said of where the readers end. -/
theorem unsettle {p q : Parser α} (h : SameLayout s t i k p q) : SameLayout s false i k p q := by
  intro c d hcd hk
  have hout := h c d hcd hk
  generalize p c = x, q d = y at hout ⊢
  cases hout with
  | ok sides enough => exact .ok ⟨sides.laid, fun hs => by cases hs⟩ enough
  | wrong => exact .wrong

/-- More can be said of where the readers start. -/
theorem settle {p q : Parser α} (h : SameLayout false t i k p q) : SameLayout s t i k p q :=
  fun c d hcd hk => h c d ⟨hcd.laid, fun hs => by cases hs⟩ hk

theorem pure (a : α) : SameLayout s s 0 k (Pure.pure a : Parser α) (Pure.pure a) :=
  fun c _ hcd _ => .ok hcd (Nat.le_refl c.room)

theorem fail {p q : Parser α} (e e' : Cursor → SyntaxError)
    (hp : ∀ c, p c = .error (.wrong (e c)) c) (hq : ∀ d, q d = .error (.wrong (e' d)) d) :
    SameLayout s t i k p q := by
  intro c d _ _
  rw [hp, hq]
  exact .wrong

/-- **One reader after another.** -/
theorem bind {p q : Parser α} {f g : α → Parser β} (hpq : SameLayout s t i k p q)
    (hfg : ∀ a, SameLayout t u (n - i) (k - i) (f a) (g a)) :
    SameLayout s u n k (p >>= f) (q >>= g) := by
  intro c d hcd hk
  have hout := hpq c d hcd hk
  generalize hx : p c = x at hout
  generalize hy : q d = y at hout
  cases hout with
  | @ok a c' d' sides enough =>
    rw [Outcome.bind_of_ok hx, Outcome.bind_of_ok hy]
    have hrest := hfg a c' d' sides (by omega)
    generalize f a c' = x, g a d' = y at hrest ⊢
    cases hrest with
    | ok sides more => exact .ok sides (by omega)
    | wrong => exact .wrong
  | wrong =>
    rw [Outcome.bind_of_error hx, Outcome.bind_of_error hy]
    exact .wrong

/-- Reading goes on after the same token. -/
theorem taking {next next' : Kind → Option (Parser α)} {p q : Parser α}
    (hnone : ∀ t, t.isContent = false → next t = none ∧ next' t = none)
    (hnext : ∀ u, Option.Rel (SameLayout false t (i - 1) (k - 1)) (next u) (next' u))
    (hpq : SameLayout s t i k p q) :
    SameLayout s t i k (taking next p) (Parser.taking next' q) := by
  intro c d hcd hk
  cases hcontent : c.kind.isContent with
  | false =>
    -- a line end is no token of a construct either
    have hd : d.kind.isContent = false := (hcd.same rfl).trans hcontent
    rw [taking_of_none (hnone _ hcontent).1, taking_of_none (hnone _ hd).2]
    exact hpq c d hcd hk
  | true =>
    obtain ⟨hkind, hadvance, hroom⟩ := hcd.advance hcontent
    have hrel := hnext c.kind
    cases hp : next c.kind with
    | none =>
      rw [hp] at hrel
      rw [taking_of_none hp, taking_of_none (hkind ▸ eq_none_of_rel hrel)]
      exact hpq c d hcd hk
    | some r =>
      rw [hp] at hrel
      obtain ⟨r', hq, hrr⟩ := exists_of_rel hrel
      rw [taking_of_some hp, taking_of_some (hkind ▸ hq)]
      have hout := hrr _ _ hadvance (by omega)
      generalize r c.advance = x, r' d.advance = y at hout ⊢
      cases hout with
      | ok sides enough => exact .ok sides (by omega)
      | wrong => exact .wrong

theorem look (b : Kind → Bool) {f g : Bool → Parser α} (hb : b .eof = b .newline)
    (hfg : ∀ x, SameLayout s t i k (f x) (g x)) :
    SameLayout s t i k (kind >>= fun u => f (b u)) (kind >>= fun u => g (b u)) := by
  intro c d hcd hk
  rw [kind_bind, kind_bind, hcd.same hb]
  exact hfg _ c d hcd hk

/-- A settled token is the same on both sides. -/
theorem lookSettled {f g : Kind → Parser α} (hfg : ∀ u, SameLayout true t i k (f u) (g u)) :
    SameLayout true t i k (kind >>= f) (kind >>= g) := by
  intro c d hcd hk
  rw [kind_bind, kind_bind, hcd.kind_eq]
  exact hfg _ c d hcd hk

theorem skipWhile {p : Kind → Bool} (hnewline : p .newline = true) :
    SameLayout s true 0 k (modify (Cursor.skipWhile p)) (modify (Cursor.skipWhile p)) :=
  fun c _ hcd _ => .ok (hcd.skipWhile hnewline) (Cursor.room_skipWhile p c)

theorem room {f g : Nat → Parser α} (hfg : ∀ m n, SameLayout s t i (min k (min m n)) (f m) (g n)) :
    SameLayout s t i k (room >>= f) (Parser.room >>= g) := by
  intro c d hcd hk
  refine hfg c.room d.room c d hcd ?_
  have := hcd.laid.length_le
  rw [← Cursor.room_eq_length_kinds, ← Cursor.room_eq_length_kinds] at this
  omega

/-- What is read where nothing is left. -/
theorem nothing {p q : Parser α} : SameLayout s t i 0 p q := by
  intro c d _ hk
  rw [c.room_eq] at hk
  omega

/-! ### Statements -/

theorem unexpected (expected : String) (context : SyntaxContext) :
    SameLayout s t i k (Parser.unexpected expected context : Parser α)
      (Parser.unexpected expected context) :=
  fail (·.unexpected expected context) (·.unexpected expected context) (fun _ => rfl) fun _ => rfl

/-- **What separates statements** takes the line ends with it. -/
theorem separator (context : SyntaxContext) :
    SameLayout s true 0 k (Parser.separator context) (Parser.separator context) := by
  intro c d hcd hk
  obtain hkind | ⟨hc, hd⟩ := hcd.kind_eq_or_eq
  · rw [separator_eq, kind_bind, kind_bind, hkind]
    cases hterminator : c.kind.isTerminator with
    | true => exact skipWhile rfl c d hcd hk
    | false =>
      cases closesStatements c.kind with
      | true =>
        refine .ok ⟨hcd.laid, fun _ hnewline => ?_⟩ (Nat.le_refl c.room)
        rw [← hkind, hnewline] at hterminator
        cases hterminator
      | false => exact unexpected _ _ c d hcd hk
  · -- the first stream is at its end, where nothing is skipped
    rw [separator_eq, kind_bind, kind_bind, hc, hd]
    have hskip := hcd.skipWhile (p := Kind.isTerminator) rfl
    rw [Cursor.skipWhile_of_not (c := c) (hc ▸ rfl)] at hskip
    exact .ok hskip (Nat.le_refl c.room)

theorem statementsWithin {expr expr' : Parser Node} (hexpr : SameLayout false false 1 k expr expr')
    (context : SyntaxContext) (hm : k ≤ m) (hn : k ≤ n) :
    SameLayout true true 0 k (Parser.statementsWithin expr context m)
      (Parser.statementsWithin expr' context n) := by
  refine within_bounds (Φ := fun k => SameLayout true true 0 k)
    (r := fun m _ => Parser.statementsWithin expr context m)
    (s := fun n _ => Parser.statementsWithin expr' context n) (fun _ => nothing)
    (fun _ _ _ _ => nothing) (fun _ => rfl) (fun {j _ _} hk hm hn ih _ => ?_) hm hn ()
  refine lookSettled (f := fun t => if closesStatements t = true then _ else _)
    (g := fun t => if closesStatements t = true then _ else _) fun t => ?_
  cases closesStatements t with
  | true => exact pure []
  | false =>
    refine bind (hexpr.mono (Nat.le_refl 1) hk).settle fun a => bind (separator context) fun _ => ?_
    refine bind (ih (j - 1 - 0) () ?_ ?_ ?_) fun as => pure (a :: as) <;> omega

theorem statements {expr expr' : Parser Node} (hexpr : SameLayout false false 1 k expr expr')
    (context : SyntaxContext) :
    SameLayout s true 0 k (Parser.statements expr context) (Parser.statements expr' context) := by
  refine bind (skipWhile rfl) fun _ => room fun m n => ?_
  refine statementsWithin (hexpr.mono (Nat.le_refl 1) ?_) context ?_ ?_ <;> omega

/-- **What is checked of steps**, so that all readers of the grammar do the same
whatever the layout is. -/
theorem parallel :
    Parallel (fun _ _ => True) (fun {α} _ => SameLayout (α := α) false false) where
  tooDeep := nothing
  other _ := nothing
  mono h _ := h.mono
  pure := pure
  bind := bind
  regain hp hf := bind hp fun a => (hf a).mono (by omega) (Nat.le_refl _)
  unexpected := unexpected
  taking := taking
  look := look
  first hfg c d hcd hk := hfg _ _ trivial c d hcd hk
  invalidTarget _ _ := fail (fun _ => _) (fun _ => _) (fun _ => rfl) fun _ => rfl
  skipNewlines := (skipWhile rfl).unsettle
  room := room
  statements context hexpr := (statements hexpr context).unsettle

/-- **Programs** are the same whatever the layout is. -/
theorem program (hm : k ≤ m) (hn : k ≤ n) :
    SameLayout s true 0 k (Parser.program m) (Parser.program n) := by
  rw [program_eq, program_eq]
  refine bind (statements (parallel.expression hm hn) .program) fun nodes => ?_
  refine lookSettled (f := fun t => if t.alike .eof = true then Pure.pure nodes else _)
    (g := fun t => if t.alike .eof = true then Pure.pure nodes else _) fun t => ?_
  cases t.alike .eof with
  | true => exact pure nodes
  | false => exact unexpected _ _

end SameLayout

/-! ## Layout in a text -/

/-- **Where layout can be put**: at the start of a text, at its end, or after a
token. -/
inductive IsBreak : List Char → List Char → Prop
  /-- The start. -/
  | start {after : List Char} : IsBreak [] after
  /-- The end of a token. -/
  | token {before w after : List Char} {k : Kind} (reached : Reached before (w ++ after))
      (munch : Munch w after (some k)) : IsBreak (before ++ w) after
  /-- The end of the text. -/
  | stop {before : List Char} : IsBreak before []

/-- **Where a comment can be put**: before the line end that is a token, or at the end
of the text. -/
inductive IsLineEnd : List Char → List Char → Prop
  /-- A line end that the lexer comes to. -/
  | newline {before after : List Char} (reached : Reached before ('\n' :: after)) :
      IsLineEnd before ('\n' :: after)
  /-- The end of the text. -/
  | stop {before : List Char} : IsLineEnd before []

/-- **What is a change of layout**: the first text becomes the second one. -/
inductive LaidOut : List Char → List Char → Prop
  /-- A run of blanks is inserted. -/
  | blanks {before after b : List Char} (place : IsBreak before after)
      (hb : ∀ c ∈ b, isBlank c = true) : LaidOut (before ++ after) (before ++ (b ++ after))
  /-- A continuation is inserted. -/
  | continuation {before after w : List Char} (place : IsBreak before after)
      (hw : w ∈ Rule.continuation.language) : LaidOut (before ++ after) (before ++ (w ++ after))
  /-- A comment is inserted. -/
  | comment {before after w : List Char} (place : IsLineEnd before after)
      (hw : w ∈ Rule.comment.language) : LaidOut (before ++ after) (before ++ (w ++ after))
  /-- A line end is repeated. -/
  | newline {before after : List Char} (reached : Reached before ('\n' :: after)) :
      LaidOut (before ++ '\n' :: after) (before ++ '\n' :: '\n' :: after)

section Texts

variable {before after inserted u : List Char}

/-- The last token is the end of the source. -/
theorem exists_kinds_eq (text : List Char) : ∃ init, Token.kinds text = init ++ [.eof] := by
  obtain ⟨init, stop, heq, hstop, _⟩ := isStream_streamFrom 0 text
  refine ⟨init.map Token.kind, ?_⟩
  rw [Token.kinds, heq, List.map_append, List.map_singleton, hstop]

theorem Laid.of_eq {text edited : List Char} (h : Token.kinds edited = Token.kinds text) :
    Laid (Token.kinds text) (Token.kinds edited) := by
  obtain ⟨init, hinit⟩ := exists_kinds_eq text
  rw [h, hinit]
  exact .refl init

theorem kinds_newline (text : List Char) :
    Token.kinds ('\n' :: text) = .newline :: Token.kinds text := by
  have hread : read '\n' text = ⟨some .newline, 0⟩ := rfl
  rw [kinds_cons, hread]
  rfl

/-- **Text that makes no token**, put where layout can be put. After a comment, the line
end in it makes one. -/
theorem laid_of_break (place : IsBreak before after) (hinserted : inserted ≠ [])
    (hsep : ∀ x ∈ inserted.head?, Rule.isSeparator x = true)
    (hskip : ∀ text, Token.kinds (inserted ++ text) = Token.kinds text)
    (hu : ∀ c ∈ u, c ≠ '\n') (hlines : inserted = u ∨ inserted = u ++ ['\n'])
    (herror : .error ∉ Token.kinds (before ++ after)) :
    Laid (Token.kinds (before ++ after)) (Token.kinds (before ++ (inserted ++ after))) := by
  have hhead (text : List Char) : ∀ x ∈ (inserted ++ text).head?, Rule.isSeparator x = true := by
    cases inserted with
    | nil => exact absurd rfl hinserted
    | cons c cs => exact hsep
  cases place with
  | start => exact .of_eq (hskip after)
  | @token before w after k reached munch =>
    have hw : w ∉ Rule.comment.language := fun hw => by cases (munch.of_comment hw).1
    obtain ⟨ks, hks, hks'⟩ := reached.kinds_insert munch hw (hhead after) herror
    exact .of_eq (by rw [hks, hks', hskip])
  | stop =>
    have hstop : Reached before [] := Reached.start.stop
    obtain rfl | ⟨b, w, k, rfl, reached, munch⟩ := hstop.last
    · exact .of_eq (hskip [])
    by_cases hw : w ∈ Rule.comment.language
    · obtain rfl | rfl := hlines
      · obtain ⟨ks, hks, hks'⟩ := reached.kinds_comment munch hw (hhead []) hu
          (fun x hx => by cases hx) herror
        exact .of_eq (hks'.trans hks.symm)
      · have hsep' := hhead []
        rw [List.append_nil] at hsep'
        obtain ⟨ks, hks, hks'⟩ := reached.kinds_comment munch hw hsep' hu
          (fun x hx => (Option.some.inj hx).symm) herror
        rw [List.append_nil (u ++ ['\n']), hks, hks', kinds_newline, kinds_nil]
        exact Laid.trailing.append ks
    · obtain ⟨ks, hks, hks'⟩ := reached.kinds_insert munch hw (hhead []) herror
      exact .of_eq (by rw [hks, hks', hskip])

/-- **A comment** makes no token, and no other one goes on with it. -/
theorem laid_of_comment {w : List Char} (place : IsLineEnd before after)
    (hw : w ∈ Rule.comment.language) (herror : .error ∉ Token.kinds (before ++ after)) :
    Laid (Token.kinds (before ++ after)) (Token.kinds (before ++ (w ++ after))) := by
  have hplace : Reached before after ∧ ∀ x ∈ after.head?, x = '\n' := by
    cases place with
    | newline reached => exact ⟨reached, fun x hx => (Option.some.inj hx).symm⟩
    | stop => exact ⟨Reached.start.stop, fun x hx => by cases hx⟩
  obtain ⟨hreached, hafter⟩ := hplace
  have hskip : Token.kinds (w ++ after) = Token.kinds after :=
    kinds_append (munch_comment hw hafter)
  have hline := ne_newline_of_comment hw
  obtain ⟨v, _, rfl⟩ := mem_exactly_mul.mp hw
  have hsep : ∀ x ∈ ("#".toList ++ v ++ after).head?, Rule.isSeparator x = true :=
    fun x hx => Option.some.inj hx ▸ rfl
  obtain rfl | ⟨b, u, k, rfl, reached, munch⟩ := hreached.last
  · exact .of_eq hskip
  by_cases hu : u ∈ Rule.comment.language
  · obtain ⟨ks, hks, hks'⟩ := reached.kinds_comment munch hu hsep hline hafter herror
    exact .of_eq (hks'.trans hks.symm)
  · obtain ⟨ks, hks, hks'⟩ := reached.kinds_insert munch hu hsep herror
    exact .of_eq (by rw [hks, hks', hskip])

/-- **A line end** can be repeated. -/
theorem laid_of_newline (h : Reached before ('\n' :: after))
    (herror : .error ∉ Token.kinds (before ++ '\n' :: after)) :
    Laid (Token.kinds (before ++ '\n' :: after))
      (Token.kinds (before ++ '\n' :: '\n' :: after)) := by
  have hsep : ∀ x ∈ ('\n' :: after).head?, Rule.isSeparator x = true :=
    fun x hx => Option.some.inj hx ▸ rfl
  have htext : '\n' :: after = ['\n'] ++ after := rfl
  obtain ⟨ks, hks, hks'⟩ := h.exists_kinds htext hsep (.inl (List.cons_ne_nil _ _)) herror
  obtain ⟨init, hinit⟩ := exists_kinds_eq after
  have hkinds : Token.kinds (before ++ '\n' :: '\n' :: after)
      = ks ++ .newline :: .newline :: Token.kinds after := by
    rw [← kinds_newline, ← kinds_newline]
    exact hks'
  rw [hks, hkinds, kinds_newline, hinit]
  exact (Laid.again (Laid.refl (.newline :: init))).append ks

/-- **A change of layout** changes line ends only. -/
theorem LaidOut.laid {text edited : List Char} (h : LaidOut text edited)
    (herror : .error ∉ Token.kinds text) : Laid (Token.kinds text) (Token.kinds edited) := by
  cases h with
  | @blanks before after b place hb =>
    by_cases hnil : b = []
    · subst hnil
      exact .of_eq rfl
    refine laid_of_break (u := b) place hnil (fun x hx => ?_) (kinds_blanks hb) (fun c hc => ?_)
      (.inl rfl) herror
    · have hblank := hb x (List.mem_of_mem_head? hx)
      unfold Rule.isSeparator
      rw [hblank]
      rfl
    · rintro rfl
      cases hb _ hc
  | @continuation before after w place hw =>
    obtain ⟨u, hu, hline⟩ := Rule.exists_of_ends_line (.inl rfl) hw
    refine laid_of_break (u := u) place ?_ (fun x hx => ?_)
      (fun text => kinds_append (munch_continuation hw text)) (fun c hc => ?_) (.inr hu) herror
    · rw [hu]
      exact List.append_ne_nil_of_right_ne_nil u (List.cons_ne_nil _ _)
    · obtain ⟨v, _, rfl⟩ := mem_exactly_mul.mp hw
      exact Option.some.inj hx ▸ rfl
    · exact bne_iff_ne.mp (hline c hc)
  | comment place hw => exact laid_of_comment place hw herror
  | newline reached => exact laid_of_newline reached herror

end Texts

section Spans

variable {source : String} {before after : List Char} {t : Token}
  (hsize : source.utf8ByteSize ≤ Span.limit) (ht : t ∈ stream source)
  (htext : source.toList = before ++ after)

include hsize ht htext

/-- What the place of a token is in a text. -/
theorem exists_place : (t.kind = .eof ∧ t.span = Span.point (byteLength source.toList)) ∨
    ∃ b w rest, before ++ after = b ++ (w ++ rest) ∧ Reached b (w ++ rest) ∧
      Munch w rest (some t.kind) ∧ t.span = ⟨byteLength b, byteLength (b ++ w)⟩ := by
  have hmunched := ((stream_is_maximal_munch source hsize).1 _).mpr rfl
  by_cases hkind : t.kind = .eof
  · obtain ⟨init, hstream, hinit, _⟩ := hmunched.ordered
    rw [hstream] at ht
    obtain ht | ht := List.mem_append.mp ht
    · exact absurd hkind (hinit t ht).1
    · refine .inl ⟨hkind, ?_⟩
      rw [List.mem_singleton.mp ht, Nat.zero_add]
  · rw [← htext]
    exact .inr (hmunched.exists_reached .start rfl t ht hkind)

/-- **The end of a token** is a place for layout. -/
theorem isBreak_of_stop (hstop : t.span.stop = byteLength before) : IsBreak before after := by
  obtain ⟨_, hspan⟩ | ⟨b, w, rest, hplace, hreached, hmunch, hspan⟩ := exists_place hsize ht htext
  · rw [hspan] at hstop
    have hend := split_unique ((List.append_nil _).trans htext) hstop
    rw [← hend.2]
    exact .stop
  · rw [hspan] at hstop
    rw [← List.append_assoc] at hplace
    obtain ⟨rfl, rfl⟩ := split_unique hplace hstop.symm
    exact .token hreached hmunch

/-- **The start of a line end, or of the end of the source,** is a place for comments. -/
theorem isLineEnd_of_start (hkind : t.kind = .newline ∨ t.kind = .eof)
    (hstart : t.span.start = byteLength before) : IsLineEnd before after := by
  obtain ⟨_, hspan⟩ | ⟨b, w, rest, hplace, hreached, hmunch, hspan⟩ := exists_place hsize ht htext
  · rw [hspan] at hstart
    have hend := split_unique ((List.append_nil _).trans htext) hstart
    rw [← hend.2]
    exact .stop
  · rw [hspan] at hstart
    obtain ⟨rfl, rfl⟩ := split_unique hplace hstart.symm
    obtain rfl := hmunch.eq_newline (hkind.resolve_right hmunch.ne_eof)
    exact .newline hreached

end Spans

/-- **Layout does not change meaning.** Where no token of a source is an error, blanks and
continuations can be put at its start and after each of its tokens, comments at the ends
of its lines, and line ends can be repeated: a program is read as the same program, and
what is none stays none. No token becomes an error, so that more layout can be put in
afterwards. -/
theorem layout_keeps_meaning {source edited : String} (h : LaidOut source.toList edited.toList)
    (herror : ∀ t ∈ stream source, t.kind ≠ .error) :
    (∀ nodes, parse source = .ok nodes → parse edited = .ok nodes) ∧
      (∀ e, parse source = .error e → ∃ e', parse edited = .error e') ∧
      ∀ t ∈ stream edited, t.kind ≠ .error := by
  have hkinds : .error ∉ Token.kinds source.toList := by
    intro hmem
    obtain ⟨t, ht, hkind⟩ := List.mem_map.mp hmem
    exact herror t ht hkind
  have hlaid := h.laid hkinds
  have hstart (text : String) : (Cursor.start (stream text)).kinds = Token.kinds text.toList :=
    congrArg (List.map Token.kind) (Cursor.tokens_start (isStream_stream text).ne_nil)
  have hlength : (stream source).length ≤ (stream edited).length := by
    simpa [Token.kinds, stream] using hlaid.length_le
  have hsides : SidesOf false (Cursor.start (stream source)) (Cursor.start (stream edited)) :=
    ⟨by rw [hstart, hstart]; exact hlaid, fun hs => by cases hs⟩
  have hroom : (Cursor.start (stream source)).room ≤ (stream source).length := by
    rw [Cursor.room_eq_length, Cursor.tokens_start (isStream_stream source).ne_nil]
  have hout := SameLayout.program (Nat.le_succ _) (Nat.le_succ_of_le hlength) _ _ hsides hroom
  unfold parse
  rw [parseTokens_eq, parseTokens_eq]
  generalize program _ (Cursor.start (stream source)) = x,
    program _ (Cursor.start (stream edited)) = y at hout ⊢
  refine ⟨fun nodes hnodes => ?_, fun e he => ?_, fun t ht hkind => ?_⟩
  · cases hout with
    | ok => exact hnodes
    | wrong => cases hnodes
  · cases hout with
    | ok => cases he
    | wrong => exact ⟨_, rfl⟩
  · exact hlaid.not_error hkinds (hkind ▸ List.mem_map_of_mem ht)

/-- A comment inside the arguments of a call, where the line goes on. -/
theorem comment_between_arguments :
    LaidOut "f(1,\n2)".toList "f(1,# one\n2)".toList ∧
      parse "f(1,# one\n2)" = .ok [.call none "f" [.int 1, .int 2]] := by
  have htext : "f(1,\n2)".toList = "f(1,".toList ++ "\n2)".toList := rfl
  have hplace : IsLineEnd "f(1,".toList "\n2)".toList :=
    isLineEnd_of_start (t := ⟨.newline, ⟨4, 5⟩⟩) (by decide) (by decide +kernel) htext (.inl rfl)
      rfl
  have hcomment : "# one".toList ∈ Rule.comment.language :=
    mem_exactly_mul.mpr ⟨" one".toList, mem_oneOf_star.mpr (List.all_eq_true.mp (by decide)), rfl⟩
  have hlaidOut : LaidOut "f(1,\n2)".toList "f(1,# one\n2)".toList := .comment hplace hcomment
  have hparse : parse "f(1,\n2)" = .ok [.call none "f" [.int 1, .int 2]] := by
    with_unfolding_all rfl
  exact ⟨hlaidOut, (layout_keeps_meaning hlaidOut (by decide +kernel)).1 _ hparse⟩

end Garnet
