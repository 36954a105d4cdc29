import Garnet.Proofs.Outcomes
import Garnet.Syntax.Parser

/-!
# Reading a given sequence of tokens

A reader takes tokens from a stream and stops before the first one that is no
longer its own. Which token that may be matters: a name that is followed by an
opening parenthesis is a call, and no reference. A reader **reads** some kinds
of token, in front of others, as a value (`Reads`) if it returns the value at
the token after them, whatever stands further on.

The lemmas of this module follow the readers that all constructs are made of:
one reader after another, single tokens, separators, and lists.
-/

namespace Garnet

open Garnet.Parser Token

/-- A token of a kind that was not read from a source. -/
def Token.ofKind (k : Kind) : Token :=
  ⟨k, Span.point 0⟩

/-- The cursor at the first of some tokens. -/
def Cursor.atKinds (ks : List Kind) : Cursor :=
  Cursor.start (ks.map ofKind)

/-- **What a reader makes of a sequence of tokens** in front of one of a kind in
`follow`. -/
def Reads {α : Type} (p : Parser α) (follow : Kind → Bool) (ks : List Kind) (a : α) : Prop :=
  ∀ k rest, follow k = true →
    p (Cursor.atKinds (ks ++ k :: rest)) = .ok a (Cursor.atKinds (k :: rest))

/-- **Whether the token after some others is in `first`**, if what follows is
read up to a token in `follow`. -/
def Admits (first : Kind → Bool) (follow : Kind → Bool) : List Kind → Prop
  | [] => ∀ k, follow k = true → first k = true
  | k :: _ => first k = true

/-- What comes after some tokens, and after further ones. -/
theorem Admits.append {first between follow : Kind → Bool} {ks ls : List Kind}
    (h : Admits first between ks) (k : Admits between follow ls) :
    Admits first follow (ks ++ ls) := by
  cases ks with
  | nil =>
    cases ls with
    | nil => exact fun l hl => h l (k l hl)
    | cons l ls => exact h l k
  | cons l ks => exact h

/-- Every kind. -/
def anyKind : Kind → Bool :=
  fun _ => true

/-- Every kind that is not like another one. -/
def unlike (k : Kind) : Kind → Bool :=
  fun l => !l.alike k

/-! ## Cursors -/

namespace Cursor

variable (k l : Kind) (ks : List Kind)

@[simp] theorem kind_atKinds : (atKinds (k :: ks)).kind = k := rfl

@[simp] theorem check_atKinds : (atKinds (k :: ks)).check l = k.alike l := rfl

/-- There is room for as many items as there are tokens. -/
theorem room_atKinds : (atKinds (k :: ks)).room = ks.length + 1 :=
  congrArg (· + 1) (List.length_map _)

variable {p : Kind → Bool}

/-- Nothing is skipped where nothing has to be. -/
theorem skipWhile_of_not {c : Cursor} (h : p c.kind = false) : c.skipWhile p = c := by
  obtain ⟨t, ts, room, hroom⟩ := c
  cases ts with
  | nil => rfl
  | cons u us =>
    show (if p t.kind then _ else _) = _
    rw [show p t.kind = false from h]
    rfl

/-- One token is skipped after another. -/
theorem skipWhile_of (h : p k = true) :
    (atKinds (k :: l :: ks)).skipWhile p = (atKinds (l :: ks)).skipWhile p := by
  show (if p k then _ else _) = _
  rw [if_pos h]
  rfl

end Cursor

/-! ## Composition -/

namespace Reads

variable {α β : Type} {p : Parser α} {f : α → Parser β} {first follow : Kind → Bool}
  {ks ls : List Kind} {k : Kind} {a : α} {b : β}

theorem pure (a : α) : Reads (Pure.pure a) follow [] a :=
  fun _ _ _ => rfl

/-- **One reader after another.** -/
theorem bind (hp : Reads p first ks a) (hf : Reads (f a) follow ls b)
    (h : Admits first follow ls) : Reads (p >>= f) follow (ks ++ ls) b := by
  intro k rest hk
  rw [List.append_assoc]
  -- the first reader stops before the second one's tokens, or before what follows both
  cases ls with
  | nil => exact (Outcome.bind_of_ok (hp k rest (h k hk))).trans (hf k rest hk)
  | cons l ls => exact (Outcome.bind_of_ok (hp l (ls ++ k :: rest) h)).trans (hf k rest hk)

/-- A reader for one token, and others after it. -/
theorem step (hp : Reads p anyKind [k] a) (hf : Reads (f a) follow ls b) :
    Reads (p >>= f) follow (k :: ls) b := by
  refine hp.bind hf ?_
  cases ls with
  | nil => exact fun _ _ => rfl
  | cons l ls => exact rfl

/-- A reader that takes no token. -/
theorem stay (hp : Reads p first [] a) (hf : Reads (f a) follow ls b)
    (h : Admits first follow ls) : Reads (p >>= f) follow ls b :=
  hp.bind hf h

/-- What is done with the value of a reader takes no token. -/
theorem last (hp : Reads p first ks a) (hf : Reads (f a) follow [] b)
    (h : ∀ k, follow k = true → first k = true) : Reads (p >>= f) follow ks b :=
  fun k rest hk => (Outcome.bind_of_ok (hp k rest (h k hk))).trans (hf k rest hk)

/-- The value of a reader is changed afterwards. -/
theorem map (hp : Reads p follow ks a) (g : α → β) :
    Reads (p >>= fun a => Pure.pure (g a)) follow ks (g a) :=
  hp.last (pure (g a)) fun _ h => h

/-- Fewer tokens can follow. -/
theorem restrict (h : Reads p first ks a) (hfollow : ∀ k, follow k = true → first k = true) :
    Reads p follow ks a :=
  fun k rest hk => h k rest (hfollow k hk)

/-! ## Looking at the cursor -/

/-- A reader that looks at its first token. -/
theorem get_cons {f : Cursor → Parser β}
    (h : ∀ c : Cursor, c.kind = k → Reads (f c) follow (k :: ks) b) :
    Reads (get >>= f) follow (k :: ks) b :=
  fun l rest hl => h _ rfl l rest hl

/-- A reader that looks at the kind of its first token. -/
theorem kind_cons {f : Kind → Parser β} (h : Reads (f k) follow (k :: ks) b) :
    Reads (kind >>= f) follow (k :: ks) b :=
  fun l rest hl => h l rest hl

/-- A reader for which what it looks at does not matter. -/
theorem get_any {f : Cursor → Parser β} (h : ∀ c, Reads (f c) follow ks b) :
    Reads (get >>= f) follow ks b :=
  fun l rest hl => h _ l rest hl

/-- A reader that takes no token looks at the one after it. -/
theorem get_nil {f : Cursor → Parser β}
    (h : ∀ c : Cursor, follow c.kind = true → Reads (f c) follow [] b) :
    Reads (get >>= f) follow [] b :=
  fun l rest hl => h (Cursor.atKinds (l :: rest)) hl l rest hl

/-- A reader that looks at what is the first token in any case. -/
theorem get_admits (first : Kind → Bool) {f : Cursor → Parser β}
    (hadmits : Admits first follow ks)
    (h : ∀ c : Cursor, first c.kind = true → Reads (f c) follow ks b) :
    Reads (get >>= f) follow ks b := by
  cases ks with
  | nil => exact get_nil fun c hc => h c (hadmits _ hc)
  | cons k ks => exact get_cons fun c hc => h c (hc ▸ hadmits)

/-- **There is room** for more items than there are tokens to be read. -/
theorem room {f : Nat → Parser β} (h : ∀ n, ks.length < n → Reads (f n) follow ks b) :
    Reads (Parser.room >>= f) follow ks b := by
  intro l rest hl
  cases ks with
  | nil => exact h _ (Nat.succ_pos _) l rest hl
  | cons k ks =>
    refine h _ ?_ l rest hl
    rw [List.cons_append, Cursor.room_atKinds, List.length_append, List.length_cons,
      List.length_cons]
    omega

/-! ## Single tokens -/

theorem advance (k : Kind) : Reads advance anyKind [k] () :=
  fun _ _ _ => rfl

theorem check_hit (l : Kind) : Reads (check l) (·.alike l) [] true :=
  fun _ _ hk => congrArg (EStateM.Result.ok · _) hk

theorem check_miss (l : Kind) : Reads (check l) (unlike l) [] false :=
  fun _ _ hk => congrArg (EStateM.Result.ok · _) (by simpa [unlike] using hk)

theorem eat_hit {l : Kind} (h : k.alike l = true) : Reads (eat l) anyKind [k] true := by
  intro m rest _
  have hcheck : check l (Cursor.atKinds (k :: m :: rest))
      = .ok true (Cursor.atKinds (k :: m :: rest)) :=
    congrArg (EStateM.Result.ok · _) h
  exact (Outcome.bind_of_ok hcheck).trans rfl

theorem eat_miss (l : Kind) : Reads (eat l) (unlike l) [] false := by
  intro k rest hk
  have hcheck : check l (Cursor.atKinds (k :: rest)) = .ok false (Cursor.atKinds (k :: rest)) :=
    congrArg (EStateM.Result.ok · _) (by simpa [unlike] using hk)
  exact (Outcome.bind_of_ok hcheck).trans rfl

theorem expect {l : Kind} (h : k.alike l = true) (expected : String) (context : SyntaxContext) :
    Reads (expect l expected context) anyKind [k] () := by
  intro m rest _
  have hcheck : check l (Cursor.atKinds (k :: m :: rest))
      = .ok true (Cursor.atKinds (k :: m :: rest)) :=
    congrArg (EStateM.Result.ok · _) h
  exact (Outcome.bind_of_ok hcheck).trans rfl

/-! ## Separators -/

theorem skipNewlines_none : Reads skipNewlines (· != .newline) [] () := by
  intro k rest hk
  have hskip : (Cursor.atKinds (k :: rest)).skipNewlines = Cursor.atKinds (k :: rest) :=
    Cursor.skipWhile_of_not (by simpa using hk)
  exact congrArg (EStateM.Result.ok ()) hskip

theorem skipNewlines_one : Reads skipNewlines (· != .newline) [.newline] () := by
  intro k rest hk
  have hskip : (Cursor.atKinds (.newline :: k :: rest)).skipNewlines
      = Cursor.atKinds (k :: rest) :=
    (Cursor.skipWhile_of _ _ _ rfl).trans (Cursor.skipWhile_of_not (by simpa using hk))
  exact congrArg (EStateM.Result.ok ()) hskip

theorem skipTerminators_none : Reads skipTerminators (!·.isTerminator) [] () := by
  intro k rest hk
  have hskip : (Cursor.atKinds (k :: rest)).skipTerminators = Cursor.atKinds (k :: rest) :=
    Cursor.skipWhile_of_not (by simpa using hk)
  exact congrArg (EStateM.Result.ok ()) hskip

theorem skipTerminators_one : Reads skipTerminators (!·.isTerminator) [.mark .semicolon] () := by
  intro k rest hk
  have hskip : (Cursor.atKinds (.mark .semicolon :: k :: rest)).skipTerminators
      = Cursor.atKinds (k :: rest) :=
    (Cursor.skipWhile_of _ _ _ rfl).trans (Cursor.skipWhile_of_not (by simpa using hk))
  exact congrArg (EStateM.Result.ok ()) hskip

end Reads

/-! ## Lists -/

/-- Whether a list between parentheses goes on with an item. -/
def startsItem (k : Kind) : Bool :=
  k != .newline && !k.alike (.mark .rightParen)

/-- Whether a sequence of statements ends before a token. -/
def closesStatements (k : Kind) : Bool :=
  (Cursor.atKinds [k]).closesStatements

/-- Whether a sequence of statements goes on with a statement. -/
def startsStatement (k : Kind) : Bool :=
  !closesStatements k && !k.isTerminator

/-- **The tokens of some items**, with a token after each. -/
def separated {α : Type} (spelling : α → List Kind) (mark : Kind) (as : List α) : List Kind :=
  as.flatMap fun a => spelling a ++ [mark]

section Separated

variable {α : Type} {spelling : α → List Kind} {mark : Kind} {a : α} {as : List α}
  {first follow : Kind → Bool}

theorem separated_cons :
    separated spelling mark (a :: as) = spelling a ++ (mark :: separated spelling mark as) :=
  List.append_assoc (spelling a) [mark] _

/-- There are at least as many tokens as items. -/
theorem length_le_length_separated (spelling : α → List Kind) (mark : Kind) (as : List α) :
    as.length ≤ (separated spelling mark as).length := by
  induction as with
  | nil => exact Nat.le_refl _
  | cons a as ih =>
    rw [separated_cons, List.length_append, List.length_cons, List.length_cons]
    omega

/-- Each item has fewer tokens than all of them together. -/
theorem length_lt_length_separated (spelling : α → List Kind) (mark : Kind) (h : a ∈ as) :
    (spelling a).length < (separated spelling mark as).length := by
  induction as with
  | nil => cases h
  | cons b as ih =>
    rw [separated_cons, List.length_append, List.length_cons]
    obtain rfl | h := List.mem_cons.mp h
    · omega
    · have := ih h
      omega

/-- **What comes first** is a token of the first item, or what follows them
all. -/
theorem admits_separated (hspelling : ∀ a ∈ as, ∃ k ks, spelling a = k :: ks ∧ first k = true)
    (hfollow : ∀ k, follow k = true → first k = true) :
    Admits first follow (separated spelling mark as) := by
  cases as with
  | nil => exact hfollow
  | cons a as =>
    obtain ⟨k, ks, hks, hk⟩ := hspelling a List.mem_cons_self
    rw [separated_cons, hks]
    exact hk

end Separated

namespace Reads

section Items

variable {α : Type} {item : Parser α} {spelling : α → List Kind} {as : List α}

/-- No newline comes first. -/
theorem admits_items (hstart : ∀ a ∈ as, ∃ k ks, spelling a = k :: ks ∧ startsItem k = true) :
    Admits (· != .newline) (· == .mark .rightParen) (separated spelling (.mark .comma) as) := by
  refine admits_separated (fun a ha => ?_) fun k hk => ?_
  · obtain ⟨k, ks, hks, hk⟩ := hstart a ha
    exact ⟨k, ks, hks, (Bool.and_eq_true_iff.mp hk).1⟩
  · rw [eq_of_beq hk]
    rfl

/-- **Items between parentheses**, before the closing one. -/
theorem itemsWithin (hitem : ∀ a ∈ as, Reads item (· == .mark .comma) (spelling a) a)
    (hstart : ∀ a ∈ as, ∃ k ks, spelling a = k :: ks ∧ startsItem k = true) {n : Nat}
    (hn : as.length < n) :
    Reads (itemsWithin item n) (· == .mark .rightParen)
      (separated spelling (.mark .comma) as) as := by
  induction as generalizing n with
  | nil =>
    cases n with
    | zero => cases hn
    | succ n =>
      refine (check_hit (.mark .rightParen)).last (pure []) fun k hk => ?_
      rw [eq_of_beq hk]
      rfl
  | cons a as ih =>
    cases n with
    | zero => cases hn
    | succ n =>
      have hrest := ih (fun b hb => hitem b (List.mem_cons_of_mem _ hb))
        (fun b hb => hstart b (List.mem_cons_of_mem _ hb)) (Nat.lt_of_succ_lt_succ hn)
      obtain ⟨k, ks, hks, hk⟩ := hstart a List.mem_cons_self
      have hnewline : Admits (· != .newline) (· == .mark .rightParen)
          (separated spelling (.mark .comma) as) :=
        admits_items fun b hb => hstart b (List.mem_cons_of_mem _ hb)
      rw [separated_cons]
      refine (check_miss (.mark .rightParen)).stay ?_ ?_
      · refine (hitem a List.mem_cons_self).bind ?_ rfl
        refine skipNewlines_none.stay ?_ rfl
        refine (eat_hit rfl).step ?_
        exact skipNewlines_none.stay (hrest.map (a :: ·)) hnewline
      · rw [hks]
        exact (Bool.and_eq_true_iff.mp hk).2

/-- Items between parentheses, and the closing one. -/
theorem parenthesized (hitem : ∀ a ∈ as, Reads item (· == .mark .comma) (spelling a) a)
    (hstart : ∀ a ∈ as, ∃ k ks, spelling a = k :: ks ∧ startsItem k = true)
    (context : SyntaxContext) :
    Reads (parenthesized item context) anyKind
      (separated spelling (.mark .comma) as ++ [.mark .rightParen]) as := by
  refine skipNewlines_none.stay (room fun n hn => ?_) ?_
  · have hn : as.length < n := by
      rw [List.length_append] at hn
      have := length_le_length_separated spelling (.mark .comma) as
      omega
    refine (itemsWithin hitem hstart hn).bind ?_ rfl
    exact (expect rfl _ _).last (pure as) fun _ _ => rfl
  · exact (admits_items hstart).append rfl

end Items

section Statements

variable {expr : Parser Node} {spelling : Node → List Kind} {ns : List Node}

/-- What separates a statement from the next one. -/
theorem separator (context : SyntaxContext) :
    Reads (separator context) (!·.isTerminator) [.mark .semicolon] () := by
  refine get_cons fun c hc => ?_
  rw [hc]
  exact skipTerminators_one

/-- No separator comes first. -/
theorem admits_statements
    (hstart : ∀ n ∈ ns, ∃ k ks, spelling n = k :: ks ∧ startsStatement k = true) :
    Admits (!·.isTerminator) closesStatements (separated spelling (.mark .semicolon) ns) := by
  refine admits_separated (fun n hn => ?_) fun k hk => ?_
  · obtain ⟨k, ks, hks, hk⟩ := hstart n hn
    exact ⟨k, ks, hks, (Bool.and_eq_true_iff.mp hk).2⟩
  · cases k with
    | mark m => cases hk
    | newline => cases hk
    | _ => rfl

/-- Statements before the token that closes them. -/
theorem statementsWithin (hexpr : ∀ n ∈ ns, Reads expr Kind.isTerminator (spelling n) n)
    (hstart : ∀ n ∈ ns, ∃ k ks, spelling n = k :: ks ∧ startsStatement k = true)
    (context : SyntaxContext) {n : Nat} (hn : ns.length < n) :
    Reads (statementsWithin expr context n) closesStatements
      (separated spelling (.mark .semicolon) ns) ns := by
  induction ns generalizing n with
  | nil =>
    cases n with
    | zero => cases hn
    | succ n =>
      refine get_nil fun c hc => ?_
      rw [show c.closesStatements = true from hc]
      exact pure []
  | cons m ns ih =>
    cases n with
    | zero => cases hn
    | succ n =>
      have hrest := ih (fun b hb => hexpr b (List.mem_cons_of_mem _ hb))
        (fun b hb => hstart b (List.mem_cons_of_mem _ hb)) (Nat.lt_of_succ_lt_succ hn)
      obtain ⟨k, ks, hks, hk⟩ := hstart m List.mem_cons_self
      rw [separated_cons]
      refine get_admits startsStatement ?_ fun c hc => ?_
      · rw [hks]
        exact hk
      have hcloses : closesStatements c.kind = false := by
        simpa using (Bool.and_eq_true_iff.mp hc).1
      rw [show c.closesStatements = false from hcloses]
      refine (hexpr m List.mem_cons_self).bind ?_ rfl
      refine (separator context).bind (hrest.map (m :: ·)) ?_
      exact admits_statements fun b hb => hstart b (List.mem_cons_of_mem _ hb)

/-- **Statements after a semicolon.** -/
theorem statements_after (hexpr : ∀ n ∈ ns, Reads expr Kind.isTerminator (spelling n) n)
    (hstart : ∀ n ∈ ns, ∃ k ks, spelling n = k :: ks ∧ startsStatement k = true)
    (context : SyntaxContext) :
    Reads (statements expr context) closesStatements
      (.mark .semicolon :: separated spelling (.mark .semicolon) ns) ns := by
  refine skipTerminators_one.bind (room fun n hn => ?_) (admits_statements hstart)
  exact statementsWithin hexpr hstart context
    (Nat.lt_of_le_of_lt (length_le_length_separated _ _ _) hn)

/-- **Statements at the start of a source.** -/
theorem statements_first (hexpr : ∀ n ∈ ns, Reads expr Kind.isTerminator (spelling n) n)
    (hstart : ∀ n ∈ ns, ∃ k ks, spelling n = k :: ks ∧ startsStatement k = true)
    (context : SyntaxContext) :
    Reads (statements expr context) closesStatements
      (separated spelling (.mark .semicolon) ns) ns := by
  refine skipTerminators_none.stay (room fun n hn => ?_) (admits_statements hstart)
  exact statementsWithin hexpr hstart context
    (Nat.lt_of_le_of_lt (length_le_length_separated _ _ _) hn)

end Statements

end Reads

end Garnet
