import Garnet.Proofs.Concatenation

/-!
# What two streams have in common

A reader that goes from left to right and looks at the current token only does
the same on two streams as long as it stays in what they have in common
(`Alike`), whatever follows in either of them. Once it has left that, it cannot
come back to it.

All readers of the grammar are like that (`Alike.parallel`). They also never
take the end of the source, so that what follows it is not looked at.
-/

namespace Garnet

open Garnet.Parser Token

/-- An error wherever it is. -/
def SyntaxError.placeless (e : SyntaxError) : SyntaxError :=
  e.relocate fun _ => Span.point 0

namespace Cursor

variable {c : Cursor} {t : Token} {ts : List Token}

/-- The next place is not before this one. -/
theorem tokens_advance_suffix (c : Cursor) : c.advance.tokens <:+ c.tokens := by
  obtain ⟨t, ts, room, hroom⟩ := c
  cases ts with
  | nil => exact List.suffix_refl _
  | cons u us => exact List.suffix_cons t (u :: us)

/-- What is skipped is skipped one token after the other. -/
theorem skipWhile_of_skips {p : Kind → Bool} (h : p c.kind = true) :
    c.skipWhile p = c.advance.skipWhile p := by
  obtain ⟨t, ts, room, hroom⟩ := c
  cases ts with
  | nil => rfl
  | cons u us => exact if_pos h

/-- Skipping goes on to a later place. -/
theorem tokens_skipWhile_suffix (p : Kind → Bool) (c : Cursor) :
    (c.skipWhile p).tokens <:+ c.tokens := by
  obtain ⟨used, hused, _⟩ := exists_skipped p c.tokens
  rw [tokens_skipWhile]
  exact ⟨used, hused.symm⟩

end Cursor

variable {α β : Type}

/-- **What comes out of two readers of a common beginning.** The first stream is
`shared` and then `rest`, the second one has tokens of the same kinds, `shared'`,
and then `rest'`. -/
inductive Abreast (shared shared' rest rest' : List Token) (i : Nat) :
    EStateM.Result Failure Cursor α → EStateM.Result Failure Cursor α → Prop
  /-- Both have read the same, at least `i` tokens, and something is left of what
  is common. -/
  | ok {used used' left left' : List Token} {a : α} {c d : Cursor}
    (split : shared = used ++ left) (split' : shared' = used' ++ left')
    (kinds : left'.map Token.kind = left.map Token.kind) (inside : left ≠ [])
    (enough : i ≤ used.length) (eof : ∀ t ∈ used, t.kind ≠ .eof)
    (place : c.tokens = left ++ rest) (place' : d.tokens = left' ++ rest') :
    Abreast shared shared' rest rest' i (.ok a c) (.ok a d)
  /-- Both have failed at the same token. -/
  | wrong {used used' left left' : List Token} {e e' : SyntaxError} {c d : Cursor}
    (split : shared = used ++ left) (split' : shared' = used' ++ left')
    (kinds : left'.map Token.kind = left.map Token.kind) (inside : left ≠ [])
    (same : e'.placeless = e.placeless) (eof : ∀ t ∈ used, t.kind ≠ .eof)
    (place : c.tokens = left ++ rest) (place' : d.tokens = left' ++ rest') :
    Abreast shared shared' rest rest' i (.error (.wrong e) c) (.error (.wrong e') d)
  /-- The first one has left what is common. -/
  | gone {x y : EStateM.Result Failure Cursor α} (eof : ∀ t ∈ shared, t.kind ≠ .eof)
    (place : (Outcome.state x).tokens <:+ rest) : Abreast shared shared' rest rest' i x y

/-- **Readers that do the same** on what two streams have in common, where that
is at most `k` tokens. -/
def Alike (i k : Nat) (p q : Parser α) : Prop :=
  ∀ ⦃c d : Cursor⦄ ⦃shared shared' rest rest' : List Token⦄, c.tokens = shared ++ rest →
    d.tokens = shared' ++ rest' → shared'.map Token.kind = shared.map Token.kind → rest ≠ [] →
    shared.length ≤ k → Abreast shared shared' rest rest' i (p c) (q d)

namespace Abreast

variable {shared shared' rest rest' : List Token} {i j : Nat} {c d : Cursor}
  {x y : EStateM.Result Failure Cursor α}

/-- Both have read nothing yet. -/
theorem stay (a : α) (hshared : shared ≠ [])
    (hkinds : shared'.map Token.kind = shared.map Token.kind) (hc : c.tokens = shared ++ rest)
    (hd : d.tokens = shared' ++ rest') : Abreast shared shared' rest rest' 0 (.ok a c) (.ok a d) :=
  .ok (List.nil_append shared).symm (List.nil_append shared').symm hkinds hshared (Nat.le_refl 0)
    (List.forall_mem_nil _) hc hd

/-- Where nothing is common, that has been left already. -/
theorem place_of_nil (h : Abreast [] shared' rest rest' i x y) :
    (Outcome.state x).tokens <:+ rest := by
  cases h with
  | ok split _ _ inside => exact absurd (List.append_eq_nil_iff.mp split.symm).2 inside
  | wrong split _ _ inside => exact absurd (List.append_eq_nil_iff.mp split.symm).2 inside
  | gone _ place => exact place

/-- What was taken before is common, too. -/
theorem after (h : Abreast shared shared' rest rest' j x y) (used used' : List Token)
    (heof : ∀ t ∈ used, t.kind ≠ .eof) (hi : i ≤ used.length + j) :
    Abreast (used ++ shared) (used' ++ shared') rest rest' i x y := by
  cases h with
  | @ok more more' _ _ _ _ _ split split' kinds inside enough eof place place' =>
    have henough : i ≤ (used ++ more).length := by
      rw [List.length_append]
      omega
    exact .ok (by rw [split, List.append_assoc]) (by rw [split', List.append_assoc]) kinds inside
      henough (List.forall_mem_append.mpr ⟨heof, eof⟩) place place'
  | wrong split split' kinds inside same eof place place' =>
    exact .wrong (by rw [split, List.append_assoc]) (by rw [split', List.append_assoc]) kinds inside
      same (List.forall_mem_append.mpr ⟨heof, eof⟩) place place'
  | gone eof place => exact .gone (List.forall_mem_append.mpr ⟨heof, eof⟩) place

theorem mono (h : Abreast shared shared' rest rest' i x y) (hj : j ≤ i) :
    Abreast shared shared' rest rest' j x y :=
  h.after [] [] (List.forall_mem_nil _) (by omega)

end Abreast

namespace Alike

variable {i j k n : Nat}

/-- A reader that has left what is common goes on from there. -/
theorem place_of_nil {p q : Parser α} (h : Alike i k p q) (c : Cursor) :
    (Outcome.state (p c)).tokens <:+ c.tokens := by
  have hnil : Abreast [] [] c.tokens c.tokens i (p c) (q c) :=
    h rfl rfl rfl (List.cons_ne_nil c.current c.ahead) (Nat.zero_le k)
  exact hnil.place_of_nil

/-- Nothing is read. -/
theorem pure (a : α) : Alike 0 k (Pure.pure a : Parser α) (Pure.pure a) := by
  intro c d shared shared' rest rest' hc hd hkinds _ _
  cases shared with
  | nil => exact .gone (List.forall_mem_nil _) ⟨[], hc⟩
  | cons t ts =>
    exact .stay a (List.cons_ne_nil t ts) hkinds hc hd

/-- Both readers fail where they start. -/
theorem fail {p q : Parser α} (e e' : Cursor → SyntaxError)
    (hp : ∀ c, p c = .error (.wrong (e c)) c) (hq : ∀ d, q d = .error (.wrong (e' d)) d)
    (he : ∀ c d, d.kind = c.kind → (e' d).placeless = (e c).placeless) : Alike i k p q := by
  intro c d shared shared' rest rest' hc hd hkinds _ _
  rw [hp, hq]
  cases shared with
  | nil => exact .gone (List.forall_mem_nil _) ⟨[], hc⟩
  | cons t ts =>
    obtain ⟨u, us, rfl, hkind, _⟩ := List.map_eq_cons_iff.mp hkinds
    have hsame : d.kind = c.kind := by
      rw [Cursor.kind_of_tokens hc, Cursor.kind_of_tokens hd, hkind]
    exact .wrong (List.nil_append _).symm (List.nil_append _).symm hkinds (List.cons_ne_nil t ts)
      (he c d hsame) (List.forall_mem_nil _) hc hd

/-- **One reader after another.** -/
theorem bind {p q : Parser α} {f g : α → Parser β} (hpq : Alike i k p q)
    (hfg : ∀ a, Alike (n - i) (k - i) (f a) (g a)) : Alike n k (p >>= f) (q >>= g) := by
  intro c d shared shared' rest rest' hc hd hkinds hrest hk
  have hout := hpq hc hd hkinds hrest hk
  generalize hx : p c = x at hout
  generalize hy : q d = y at hout
  cases hout with
  | ok split split' kinds inside enough eof place place' =>
    rw [Outcome.bind_of_ok hx, Outcome.bind_of_ok hy, split, split']
    rw [split, List.length_append] at hk
    exact (hfg _ place place' kinds hrest (by omega)).after _ _ eof (by omega)
  | wrong split split' kinds inside same eof place place' =>
    rw [Outcome.bind_of_error hx, Outcome.bind_of_error hy]
    exact .wrong split split' kinds inside same eof place place'
  | gone eof place =>
    cases x with
    | error e c' =>
      rw [Outcome.bind_of_error hx]
      exact .gone eof place
    | ok a c' =>
      -- from there on nothing is common any more
      rw [Outcome.bind_of_ok hx]
      exact .gone eof (((hfg a).place_of_nil c').trans place)

/-- Reading goes on after the same token. -/
theorem taking {next next' : Kind → Option (Parser α)} {p q : Parser α}
    (hnone : ∀ t, t.isContent = false → next t = none ∧ next' t = none)
    (hnext : ∀ t, Option.Rel (Alike (i - 1) (k - 1)) (next t) (next' t)) (hpq : Alike i k p q) :
    Alike i k (taking next p) (Parser.taking next' q) := by
  intro c d shared shared' rest rest' hc hd hkinds hrest hk
  have hcontent := hnone c.kind
  have hrel := hnext c.kind
  cases hp : next c.kind with
  | none =>
    rw [taking_of_none hp]
    rw [hp] at hrel
    cases shared with
    | nil => exact .gone (List.forall_mem_nil _) ((hpq.place_of_nil c).trans ⟨[], hc⟩)
    | cons t ts =>
      obtain ⟨u, us, rfl, hkind, _⟩ := List.map_eq_cons_iff.mp hkinds
      have hsame : d.kind = c.kind := by
        rw [Cursor.kind_of_tokens hc, Cursor.kind_of_tokens hd, hkind]
      rw [taking_of_none ((congrArg next' hsame).trans (eq_none_of_rel hrel))]
      exact hpq hc hd hkinds hrest hk
  | some p' =>
    rw [taking_of_some hp]
    rw [hp] at hrel hcontent
    obtain ⟨q', hq, hpq'⟩ := exists_of_rel hrel
    have heof : c.kind ≠ .eof := fun h => by cases (hcontent (h ▸ rfl)).1
    have hgone := (hpq'.place_of_nil c.advance).trans (Cursor.tokens_advance_suffix c)
    cases shared with
    | nil => exact .gone (List.forall_mem_nil _) (hgone.trans ⟨[], hc⟩)
    | cons t ts =>
      obtain ⟨u, us, rfl, hkind, hkinds⟩ := List.map_eq_cons_iff.mp hkinds
      have hsame : d.kind = c.kind := by
        rw [Cursor.kind_of_tokens hc, Cursor.kind_of_tokens hd, hkind]
      rw [taking_of_some ((congrArg next' hsame).trans hq)]
      have ht : ∀ v ∈ [t], v.kind ≠ .eof := by
        rw [List.forall_mem_singleton, ← Cursor.kind_of_tokens hc]
        exact heof
      have hcnext : c.advance.tokens = ts ++ rest :=
        Cursor.tokens_advance hc (List.append_ne_nil_of_right_ne_nil ts hrest)
      cases ts with
      | nil =>
        refine .gone ht ?_
        rw [List.nil_append] at hcnext
        exact hcnext ▸ hpq'.place_of_nil c.advance
      | cons v vs =>
        obtain ⟨w, ws, rfl, _⟩ := List.map_eq_cons_iff.mp hkinds
        have hdnext : d.advance.tokens = w :: ws ++ rest' :=
          Cursor.tokens_advance hd (List.cons_ne_nil w (ws ++ rest'))
        refine (hpq' hcnext hdnext hkinds hrest ?_).after [t] [u] ht ?_
        · rw [List.length_cons] at hk
          omega
        · rw [List.length_singleton]
          omega

/-- What is skipped of two streams with a common beginning. -/
theorem skipWhile {b : Kind → Bool} (hb : b .eof = false) :
    Alike 0 k (modify (Cursor.skipWhile b)) (modify (Cursor.skipWhile b)) := by
  intro c d shared shared' rest rest' hc hd hkinds hrest hk
  show Abreast shared shared' rest rest' 0 (.ok () (c.skipWhile b)) (.ok () (d.skipWhile b))
  induction shared generalizing shared' c d with
  | nil => exact .gone (List.forall_mem_nil _) ((c.tokens_skipWhile_suffix b).trans ⟨[], hc⟩)
  | cons t ts ih =>
    obtain ⟨u, us, rfl, hkind, hrestKinds⟩ := List.map_eq_cons_iff.mp hkinds
    have hsame : d.kind = c.kind := by
      rw [Cursor.kind_of_tokens hc, Cursor.kind_of_tokens hd, hkind]
    cases hskips : b c.kind with
    | false =>
      rw [Cursor.skipWhile_of_not hskips, Cursor.skipWhile_of_not (hsame ▸ hskips)]
      exact .stay () (List.cons_ne_nil t ts) hkinds hc hd
    | true =>
      have ht : ∀ v ∈ [t], v.kind ≠ .eof := by
        rw [List.forall_mem_singleton, ← Cursor.kind_of_tokens hc]
        intro heof
        rw [heof, hb] at hskips
        cases hskips
      have hcnext : c.advance.tokens = ts ++ rest :=
        Cursor.tokens_advance hc (List.append_ne_nil_of_right_ne_nil ts hrest)
      have hskips' : b d.kind = true := hsame ▸ hskips
      rw [Cursor.skipWhile_of_skips hskips, Cursor.skipWhile_of_skips hskips']
      cases ts with
      | nil =>
        rw [List.nil_append] at hcnext
        exact .gone ht (hcnext ▸ Cursor.tokens_skipWhile_suffix b c.advance)
      | cons v vs =>
        obtain ⟨w, ws, rfl, _⟩ := List.map_eq_cons_iff.mp hrestKinds
        have hdnext : d.advance.tokens = w :: ws ++ rest' :=
          Cursor.tokens_advance hd (List.cons_ne_nil w (ws ++ rest'))
        exact (ih hcnext hdnext hrestKinds (Nat.le_of_succ_le hk)).after [t] [u] ht
          (Nat.zero_le _)

/-- The same token is looked at. -/
theorem look {f g : Kind → Parser α} (hfg : ∀ t, Alike i k (f t) (g t)) :
    Alike i k (kind >>= f) (kind >>= g) := by
  intro c d shared shared' rest rest' hc hd hkinds hrest hk
  rw [kind_bind, kind_bind]
  cases shared with
  | nil => exact .gone (List.forall_mem_nil _) (((hfg c.kind).place_of_nil c).trans ⟨[], hc⟩)
  | cons t ts =>
    obtain ⟨u, us, rfl, hkind, _⟩ := List.map_eq_cons_iff.mp hkinds
    have hsame : d.kind = c.kind := by
      rw [Cursor.kind_of_tokens hc, Cursor.kind_of_tokens hd, hkind]
    rw [hsame]
    exact hfg c.kind hc hd hkinds hrest hk

/-- There is at least as much left of each stream as they have in common. -/
theorem room {f g : Nat → Parser α} (hfg : ∀ m n, Alike i (min k (min m n)) (f m) (g n)) :
    Alike i k (room >>= f) (Parser.room >>= g) := by
  intro c d shared shared' rest rest' hc hd hkinds hrest hk
  refine hfg c.room d.room hc hd hkinds hrest ?_
  have hlength := congrArg List.length hkinds
  have hcroom := congrArg List.length hc
  have hdroom := congrArg List.length hd
  rw [List.length_map, List.length_map] at hlength
  rw [List.length_append, ← Cursor.room_eq_length] at hcroom hdroom
  omega

/-- **What is checked of steps**, so that all readers of the grammar are alike. -/
theorem close : Close (fun {α} => Alike (α := α)) where
  tooDeep := by
    intro _ _ _ c d shared shared' rest rest' hc _ _ _ hk
    obtain rfl := List.length_eq_zero_iff.mp (Nat.le_zero.mp hk)
    exact .gone (List.forall_mem_nil _) ⟨[], hc⟩
  other hpq := by
    intro c d shared shared' rest rest' hc _ _ _ hk
    obtain rfl := List.length_eq_zero_iff.mp (Nat.le_zero.mp hk)
    exact .gone (List.forall_mem_nil _) ((hpq.place_of_nil c).trans ⟨[], hc⟩)
  mono hpq hj hm := fun _ _ _ _ _ _ hc hd hkinds hrest hk =>
    (hpq hc hd hkinds hrest (Nat.le_trans hk hm)).mono hj
  pure := pure
  bind := bind
  unexpected expected context := by
    refine fail (·.unexpected expected context) (·.unexpected expected context) (fun _ => rfl)
      (fun _ => rfl) fun c d h => ?_
    unfold Cursor.unexpected Cursor.check
    rw [h]
    cases c.kind.alike .error <;> rfl
  taking := taking
  look := look
  skipWhile _ hb := skipWhile hb
  room := room

/-- Readers of expressions are alike, too. -/
theorem parallel : Parallel (fun _ _ => True) (fun {α} _ => Alike (α := α)) where
  toSteps := close.steps
  first hfg := fun c d _ _ _ _ hc hd => hfg c.current.span d.current.span trivial hc hd
  invalidTarget _ _ := fail (fun _ => _) (fun _ => _) (fun _ => rfl) (fun _ => rfl) fun _ _ _ => rfl

theorem finish (nodes : List Node) : Alike 0 k (Parser.finish nodes) (Parser.finish nodes) := by
  refine close.look (f := fun t => if t.alike .eof = true then Pure.pure nodes else _)
    (g := fun t => if t.alike .eof = true then Pure.pure nodes else _) fun t => ?_
  cases t.alike .eof with
  | true => exact pure nodes
  | false => exact close.unexpected _ _

/-- **Programs are alike**, where no more is common than the bounds on nesting. -/
theorem program {m n : Nat} (hm : k ≤ m) (hn : k ≤ n) :
    Alike 0 k (Parser.program m) (Parser.program n) := by
  rw [program_eq, program_eq]
  exact bind (parallel.statements .program (parallel.expression hm hn)) fun nodes => finish nodes

/-! ### Up to a token -/

section UpTo

variable {p q : Parser α} {c d e : Cursor} {t u : Token} {used used' rest rest' : List Token}

/-- Two streams with a common beginning up to a token. -/
theorem abreast_upTo (h : Alike i k p q) (hc : c.tokens = used ++ t :: rest) (hrest : rest ≠ [])
    (he : e.tokens = used' ++ u :: rest') (hkinds : used'.map Token.kind = used.map Token.kind)
    (hkind : u.kind = t.kind) (hk : used.length < k) :
    Abreast (used ++ [t]) (used' ++ [u]) rest rest' i (p c) (q e) := by
  refine h (by rw [hc, List.append_assoc]; rfl) (by rw [he, List.append_assoc]; rfl) ?_ hrest ?_
  · rw [List.map_append, List.map_append, hkinds, List.map_singleton, List.map_singleton, hkind]
  · rw [List.length_append, List.length_singleton]
    exact hk

/-- A token that has not been taken on one side has not been taken on the other
one. -/
theorem split_upTo {left left' more more' : List Token} (split : used ++ [t] = more ++ left)
    (split' : used' ++ [u] = more' ++ left') (kinds : left'.map Token.kind = left.map Token.kind)
    (place : d.tokens = left ++ rest) (hd : d.tokens = t :: rest) :
    used = more ∧ left' = [u] := by
  obtain rfl : left = [t] := List.append_cancel_right (place.symm.trans hd)
  have hlength : left'.length = 1 := by
    simpa using congrArg List.length kinds
  exact ⟨List.append_cancel_right split, (List.append_inj_right' split' hlength.symm).symm⟩

/-- **What is read in front of a token** is read in front of another one of the same
kind, whatever follows. -/
theorem ok_upTo (h : Alike i k p q) {a : α} (hp : p c = .ok a d) (hd : d.tokens = t :: rest)
    (hc : c.tokens = used ++ t :: rest) (hrest : rest ≠ []) (he : e.tokens = used' ++ u :: rest')
    (hkinds : used'.map Token.kind = used.map Token.kind) (hkind : u.kind = t.kind)
    (hk : used.length < k) :
    i ≤ used.length ∧ (∀ v ∈ used, v.kind ≠ .eof) ∧
      ∃ f, q e = .ok a f ∧ f.tokens = u :: rest' := by
  have hout := h.abreast_upTo hc hrest he hkinds hkind hk
  rw [hp] at hout
  generalize hy : q e = y at hout ⊢
  cases hout with
  | ok split split' kinds _ enough eof place place' =>
    obtain ⟨rfl, rfl⟩ := split_upTo split split' kinds place hd
    exact ⟨enough, eof, _, rfl, place'⟩
  | gone _ place =>
    have hlength := place.length_le
    change d.tokens.length ≤ rest.length at hlength
    rw [hd, List.length_cons] at hlength
    omega

/-- **What fails at a token** fails at another one of the same kind, whatever
follows. -/
theorem wrong_upTo (h : Alike i k p q) {x : SyntaxError} (hp : p c = .error (.wrong x) d)
    (hd : d.tokens = t :: rest) (hc : c.tokens = used ++ t :: rest) (hrest : rest ≠ [])
    (he : e.tokens = used' ++ u :: rest') (hkinds : used'.map Token.kind = used.map Token.kind)
    (hkind : u.kind = t.kind) (hk : used.length < k) :
    ∃ y f, q e = .error (.wrong y) f ∧ f.tokens = u :: rest' := by
  have hout := h.abreast_upTo hc hrest he hkinds hkind hk
  rw [hp] at hout
  generalize hy : q e = y at hout ⊢
  cases hout with
  | wrong split split' kinds _ _ _ place place' =>
    obtain ⟨rfl, rfl⟩ := split_upTo split split' kinds place hd
    exact ⟨_, _, rfl, place'⟩
  | gone _ place =>
    have hlength := place.length_le
    change d.tokens.length ≤ rest.length at hlength
    rw [hd, List.length_cons] at hlength
    omega

end UpTo

end Alike

end Garnet
