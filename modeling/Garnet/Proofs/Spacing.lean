import Garnet.Proofs.LineEnds
import Garnet.Proofs.Writing

/-!
# Text between tokens

Where the lexer has come to the end of a lexeme, text can be inserted without any
effect on the tokens before that place (`Reached.exists_kinds`): what is inserted
starts with a separator, and no match of a rule goes on with one. There is one
exception. A comment goes on to the end of its line, so that it takes in what is
inserted after it.
-/

namespace Garnet

open Computability Lexeme Token

/-- **Where the lexer comes to**: `before` is made of whole lexemes of the text
`before ++ after`. -/
inductive Reached : List Char → List Char → Prop
  /-- It starts where the text starts. -/
  | start {text : List Char} : Reached [] text
  /-- It goes on after a lexeme. -/
  | next {before w after : List Char} {k : Option Kind} (reached : Reached before (w ++ after))
      (munch : Munch w after k) : Reached (before ++ w) after

variable {before w after after' mid inserted text : List Char} {k : Option Kind} {c : Char}

/-! ## Lexemes -/

/-- There is a lexeme at the head of a text that is not empty. -/
theorem exists_munch (h : text ≠ []) : ∃ w rest k, text = w ++ rest ∧ Munch w rest k := by
  cases text with
  | nil => exact absurd rfl h
  | cons c cs =>
    cases hblank : isBlank c with
    | true => exact ⟨[c], cs, none, rfl, .of_isBlank hblank cs⟩
    | false => exact ⟨_, _, _, (lexeme_append c cs _).symm, munches_read c cs hblank⟩

/-- A comment has no line end. -/
theorem ne_newline_of_comment (hw : w ∈ Rule.comment.language) : ∀ c ∈ w, c ≠ '\n' := by
  rintro c hc rfl
  obtain h | h | h | h := Rule.of_newline_mem hw hc <;> cases h

/-- A comment that goes to the end of its line is skipped. -/
theorem munch_comment (hw : w ∈ Rule.comment.language) (hafter : ∀ x ∈ after.head?, x = '\n') :
    Munch w after none := by
  refine .matched ⟨Rule.mem_matched.mpr ⟨_, hw⟩, fun v hv hbegins => ?_⟩ ⟨hw, by simp⟩ .comment
  by_contra hlonger
  cases after with
  | nil => exact hlonger (by simpa using hbegins.length_le)
  | cons x after =>
    obtain rfl := hafter x rfl
    have hall : w ++ ['\n'] <+: v :=
      List.prefix_of_prefix_length_le ⟨after, by simp⟩ hbegins (by simp at hlonger ⊢; omega)
    obtain ⟨q, hq⟩ := Rule.mem_matched.mp hv
    have hwv : w <+: v := (List.prefix_append w ['\n']).trans hall
    obtain rfl := Rule.eq_of_group
      (Rule.group_eq_of_begins hw hq hwv (List.prefix_refl v)).symm (by simp)
    exact ne_newline_of_comment hq _ (hall.subset (List.mem_append_right w List.mem_cons_self)) rfl

/-- What is taken as a comment is skipped, and goes to the end of its line. -/
theorem Munch.of_comment (h : Munch w after k) (hw : w ∈ Rule.comment.language) :
    k = none ∧ ∀ x ∈ after.head?, x = '\n' := by
  have hmatched : w ∈ Rule.matched := Rule.mem_matched.mpr ⟨_, hw⟩
  have hafter : ∀ x ∈ after.head?, x = '\n' := by
    intro x hx
    cases h with
    | matched longest =>
      obtain hnil | hhead := comment_stops longest hw
      · rw [hnil] at hx
        cases hx
      · exact Option.some.inj (hx.symm.trans hhead)
    | blank unmatched => exact absurd (List.prefix_append w after) (unmatched w hmatched)
    | unmatched unmatched => exact absurd (List.prefix_append w after) (unmatched w hmatched)
  exact ⟨h.kind_unique (munch_comment hw hafter), hafter⟩

/-- What is taken where there is no error is no error. -/
theorem Munch.ne_error {ks : List Kind} (h : Munch w after k)
    (herror : .error ∉ ks ++ kinds (w ++ after)) : k ≠ some .error := by
  rintro rfl
  rw [kinds_append h] at herror
  exact herror (List.mem_append_right _ List.mem_cons_self)

/-- A continuation is skipped. -/
theorem munch_continuation (hw : w ∈ Rule.continuation.language) (after : List Char) :
    Munch w after none := by
  refine .matched ⟨Rule.mem_matched.mpr ⟨_, hw⟩, fun v hv hbegins => ?_⟩ ⟨hw, by simp⟩
    .continuation
  obtain ⟨q, hq⟩ := Rule.mem_matched.mp hv
  exact (Rule.length_eq_of_closed hq hw (.inl rfl) hbegins (List.prefix_append w after)).ge

/-- A comment goes on if there is no line end. -/
theorem comment_append {u : List Char} (hw : w ∈ Rule.comment.language)
    (hu : ∀ c ∈ u, c ≠ '\n') : w ++ u ∈ Rule.comment.language := by
  obtain ⟨v, hv, rfl⟩ := mem_exactly_mul.mp hw
  refine mem_exactly_mul.mpr ⟨v ++ u, mem_oneOf_star.mpr fun c hc => ?_, List.append_assoc _ _ _⟩
  obtain hc | hc := List.mem_append.mp hc
  · exact mem_oneOf_star.mp hv c hc
  · exact bne_iff_ne.mpr (hu c hc)

/-- Blanks make no token. -/
theorem kinds_blanks (h : ∀ c ∈ inserted, isBlank c = true) (text : List Char) :
    kinds (inserted ++ text) = kinds text := by
  induction inserted with
  | nil => rfl
  | cons c cs ih =>
    rw [List.forall_mem_cons] at h
    rw [List.cons_append, kinds_blank h.1, ih h.2]

/-! ## Places -/

namespace Reached

/-- The lexer comes to the end of a text. -/
theorem stop (h : Reached before text) : Reached (before ++ text) [] := by
  induction hn : text.length using Nat.strong_induction_on generalizing before text with
  | _ n ih =>
    by_cases htext : text = []
    · subst htext
      rw [List.append_nil]
      exact h
    · obtain ⟨w, rest, k, rfl, hmunch⟩ := exists_munch htext
      have hlength : rest.length < n := by
        rw [← hn, List.length_append]
        exact Nat.lt_add_of_pos_left (List.length_pos_of_ne_nil hmunch.ne_nil)
      rw [← List.append_assoc]
      exact ih rest.length hlength (h.next hmunch) rfl

/-- A place is the start, or comes after a lexeme. -/
theorem last (h : Reached before after) : before = [] ∨ ∃ b w k, before = b ++ w ∧
    Reached b (w ++ after) ∧ Munch w after k := by
  cases h with
  | start => exact .inl rfl
  | next reached munch => exact .inr ⟨_, _, _, rfl, reached, munch⟩

/-- **The tokens before a place** do not depend on what comes after it, if that
starts with a separator. After a comment this has to be a line end. -/
theorem exists_kinds (h : Reached before text) (htext : text = mid ++ after)
    (hsep : ∀ x ∈ after'.head?, Rule.isSeparator x = true)
    (hmid : mid ≠ [] ∨ ∀ x ∈ after'.head?, x = '\n')
    (herror : .error ∉ kinds (before ++ text)) :
    ∃ ks, kinds (before ++ text) = ks ++ kinds text ∧
      kinds (before ++ (mid ++ after')) = ks ++ kinds (mid ++ after') := by
  induction h generalizing mid with
  | start => exact ⟨[], rfl, rfl⟩
  | @next before w text k reached munch ih =>
    subst htext
    rw [List.append_assoc] at herror
    obtain ⟨ks, hks, hks'⟩ := ih (List.append_assoc w mid after).symm
      (.inl (List.append_ne_nil_of_left_ne_nil munch.ne_nil mid)) herror
    have hmunch' : Munch w (mid ++ after') k :=
      munch.before_separator (munch.ne_error (hks ▸ herror)) hsep fun _ => hmid
    refine ⟨ks ++ k.toList, ?_, ?_⟩
    · rw [List.append_assoc, hks, kinds_append munch, List.append_assoc]
    · rw [List.append_assoc, ← List.append_assoc w, hks', List.append_assoc w,
        kinds_append hmunch', List.append_assoc]

/-- **What comes after a lexeme**, unless that is a comment, does not change the tokens
before it. -/
theorem kinds_insert (h : Reached before (w ++ after)) (munch : Munch w after k)
    (hw : w ∉ Rule.comment.language) (hsep : ∀ x ∈ after'.head?, Rule.isSeparator x = true)
    (herror : .error ∉ kinds (before ++ w ++ after)) :
    ∃ ks, kinds (before ++ w ++ after) = ks ++ kinds after ∧
      kinds (before ++ w ++ after') = ks ++ kinds after' := by
  rw [List.append_assoc] at herror
  obtain ⟨ks, hks, hks'⟩ := h.exists_kinds rfl hsep (.inl munch.ne_nil) herror
  have hmunch : Munch w ([] ++ after) k := munch
  have hmunch' : Munch w ([] ++ after') k :=
    hmunch.before_separator (munch.ne_error (hks ▸ herror)) hsep fun hcomment => absurd hcomment hw
  rw [List.nil_append] at hmunch'
  refine ⟨ks ++ k.toList, ?_, ?_⟩
  · rw [List.append_assoc, hks, kinds_append munch, List.append_assoc]
  · rw [List.append_assoc, hks', kinds_append hmunch', List.append_assoc]

/-- **What comes after a comment** belongs to it up to the line end. -/
theorem kinds_comment (h : Reached before (w ++ after)) (munch : Munch w after k)
    (hw : w ∈ Rule.comment.language)
    (hsep : ∀ x ∈ (inserted ++ after').head?, Rule.isSeparator x = true)
    (hinserted : ∀ c ∈ inserted, c ≠ '\n') (hafter' : ∀ x ∈ after'.head?, x = '\n')
    (herror : .error ∉ kinds (before ++ w ++ after)) :
    ∃ ks, kinds (before ++ w ++ after) = ks ++ kinds after ∧
      kinds (before ++ w ++ (inserted ++ after')) = ks ++ kinds after' := by
  rw [List.append_assoc] at herror
  obtain ⟨ks, hks, hks'⟩ := h.exists_kinds rfl hsep (.inl munch.ne_nil) herror
  have hlonger := munch_comment (comment_append hw hinserted) hafter'
  refine ⟨ks, ?_, ?_⟩
  · rw [List.append_assoc, hks, kinds_append munch, (munch.of_comment hw).1]
    rfl
  · rw [List.append_assoc, hks', ← List.append_assoc w, kinds_append hlonger]
    rfl

end Reached

/-! ## Tokens -/

/-- A token for a line end is one. -/
theorem Munch.eq_newline {k : Kind} (h : Munch w after (some k))
    (hk : k = .newline) : w = ['\n'] := by
  subst hk
  generalize hl : some Kind.newline = l at h
  cases h with
  | matched _ decides makes =>
    cases makes with
    | newline => exact mem_exactly.mp decides.mem
    | _ => cases hl
  | _ => cases hl

/-- **The lexer comes to every token** of a text. -/
theorem Munched.exists_reached {offset : Nat} {tokens : List Token}
    (h : Munched offset text tokens) (hbefore : Reached before text)
    (hoffset : offset = byteLength before) : ∀ t ∈ tokens, t.kind ≠ .eof →
      ∃ b w rest, before ++ text = b ++ (w ++ rest) ∧ Reached b (w ++ rest) ∧
        Munch w rest (some t.kind) ∧ t.span = ⟨byteLength b, byteLength (b ++ w)⟩ := by
  induction h generalizing before with
  | done =>
    intro t ht hkind
    rw [List.mem_singleton.mp ht] at hkind
    exact absurd rfl hkind
  | @keep offset w rest k tokens munch tail ih =>
    subst hoffset
    have htail := ih (hbefore.next munch) byteLength_append.symm
    rw [List.append_assoc] at htail
    refine List.forall_mem_cons.mpr ⟨fun _ => ⟨before, w, rest, rfl, hbefore, munch, ?_⟩, htail⟩
    rw [byteLength_append]
  | @skip offset w rest tokens munch tail ih =>
    subst hoffset
    have htail := ih (hbefore.next munch) byteLength_append.symm
    rw [List.append_assoc] at htail
    exact htail

/-- A text is cut in one place at a byte offset. -/
theorem split_unique {a b : List Char} (h : a ++ after = b ++ after')
    (hlength : byteLength a = byteLength b) : a = b ∧ after = after' := by
  obtain ⟨m, hb, ha⟩ | ⟨m, ha, hb⟩ := List.append_eq_append_iff.mp h
  · cases m with
    | nil => exact ⟨by rw [hb, List.append_nil], ha⟩
    | cons c m =>
      have := byteLength_pos (List.cons_ne_nil c m)
      rw [hb, byteLength_append] at hlength
      omega
  · cases m with
    | nil => exact ⟨by rw [ha, List.append_nil], hb.symm⟩
    | cons c m =>
      have := byteLength_pos (List.cons_ne_nil c m)
      rw [ha, byteLength_append] at hlength
      omega

end Garnet
