import Garnet.Proofs.Munch
import Garnet.Token.Stream

/-!
# The tokens of a source

A source is cut into tokens by taking what there is to take from its head
(`Munch`), again and again, until nothing is left. `Munched` says so as a
relation between a text and its tokens, by the lexical rules alone. The stream
of tokens is the only list it relates to a source
(`stream_is_maximal_munch`).
-/

namespace Garnet

open Computability Lexeme Token

/-! ## Offsets -/

namespace Token

variable {v w : List Char}

theorem byteLength_append : byteLength (v ++ w) = byteLength v + byteLength w := by
  induction v with
  | nil => exact (Nat.zero_add _).symm
  | cons c v ih => rw [List.cons_append, byteLength, byteLength, ih, Nat.add_assoc]

/-- What is not empty takes bytes. -/
theorem byteLength_pos (h : w ≠ []) : 0 < byteLength w := by
  cases w with
  | nil => exact absurd rfl h
  | cons c w => exact Nat.add_pos_left c.utf8Size_pos _

theorem byteLength_eq_utf8ByteSize (w : List Char) :
    byteLength w = (String.ofList w).utf8ByteSize := by
  induction w with
  | nil => rfl
  | cons c w ih =>
    rw [String.ofList_cons, String.utf8ByteSize_append, String.utf8ByteSize_singleton, ← ih]
    rfl

theorem byteLength_toList (s : String) : byteLength s.toList = s.utf8ByteSize := by
  rw [byteLength_eq_utf8ByteSize, String.ofList_toList]

end Token

/-- **What a span covers** of a text that starts at a byte offset: the characters
`w`, which `rest` follows. -/
def Span.Covers (span : Span) (offset : Nat) (text w rest : List Char) : Prop :=
  ∃ before, text = before ++ (w ++ rest) ∧
    span = ⟨offset + byteLength before, offset + byteLength (before ++ w)⟩

/-- What a span covers of the end of a text, it covers of the text. -/
theorem Span.Covers.append {span : Span} {offset : Nat} {v text w rest : List Char}
    (h : span.Covers (offset + byteLength v) text w rest) :
    span.Covers offset (v ++ text) w rest := by
  obtain ⟨before, rfl, rfl⟩ := h
  refine ⟨v ++ before, (List.append_assoc _ _ _).symm, ?_⟩
  simp only [byteLength_append, Nat.add_assoc]

/-! ## What the tokens of a text are -/

/-- **The tokens of a text** that starts at a byte offset of its source: what is
taken from its head, and the tokens of the rest. -/
inductive Munched : Nat → List Char → List Token → Prop
  /-- The end of the source. -/
  | done {offset : Nat} : Munched offset [] [⟨.eof, Span.point offset⟩]
  /-- A token. -/
  | keep {offset : Nat} {w rest : List Char} {k : Kind} {tokens : List Token}
      (munch : Munch w rest (some k)) (tail : Munched (offset + byteLength w) rest tokens) :
      Munched offset (w ++ rest) (⟨k, ⟨offset, offset + byteLength w⟩⟩ :: tokens)
  /-- What is skipped. -/
  | skip {offset : Nat} {w rest : List Char} {tokens : List Token}
      (munch : Munch w rest none) (tail : Munched (offset + byteLength w) rest tokens) :
      Munched offset (w ++ rest) tokens

namespace Munched

variable {offset : Nat} {text : List Char} {tokens tokens' : List Token}

/-- **A text has one list of tokens.** -/
theorem unique (h : Munched offset text tokens) (h' : Munched offset text tokens') :
    tokens = tokens' := by
  induction h generalizing tokens' with
  | @done offset =>
    generalize htext : ([] : List Char) = text at h'
    cases h' with
    | done => rfl
    | keep munch | skip munch =>
      exact absurd (List.append_eq_nil_iff.mp htext.symm).1 munch.ne_nil
  | @keep offset w rest k tokens munch tail ih =>
    generalize htext : w ++ rest = text at h'
    cases h' with
    | done => exact absurd (List.append_eq_nil_iff.mp htext).1 munch.ne_nil
    | keep munch' tail' =>
      obtain ⟨rfl, rfl⟩ := munch.text_unique munch' htext
      obtain rfl := Option.some.inj (munch.kind_unique munch')
      rw [ih tail']
    | skip munch' =>
      obtain ⟨rfl, rfl⟩ := munch.text_unique munch' htext
      cases munch.kind_unique munch'
  | @skip offset w rest tokens munch tail ih =>
    generalize htext : w ++ rest = text at h'
    cases h' with
    | done => exact absurd (List.append_eq_nil_iff.mp htext).1 munch.ne_nil
    | keep munch' =>
      obtain ⟨rfl, rfl⟩ := munch.text_unique munch' htext
      cases munch.kind_unique munch'
    | skip munch' tail' =>
      obtain ⟨rfl, rfl⟩ := munch.text_unique munch' htext
      exact ih tail'

/-- A run of blanks is skipped. -/
theorem blanks {b : List Char} (hb : ∀ c ∈ b, isBlank c = true)
    (h : Munched (offset + byteLength b) text tokens) : Munched offset (b ++ text) tokens := by
  induction b generalizing offset with
  | nil => exact h
  | cons c b ih =>
    rw [List.forall_mem_cons] at hb
    refine skip (w := [c]) (.of_isBlank hb.1 (b ++ text)) (ih hb.2 ?_)
    rw [Nat.add_assoc, ← byteLength_append]
    exact h

/-- **What the tokens of a text cover**: each covers what is taken from the text
at its place. -/
theorem covers (h : Munched offset text tokens) :
    ∀ t ∈ tokens, t.kind ≠ .eof →
      ∃ w rest, t.span.Covers offset text w rest ∧ Munch w rest (some t.kind) := by
  induction h with
  | done =>
    intro t ht hkind
    rw [List.mem_singleton.mp ht] at hkind
    exact absurd rfl hkind
  | @keep offset w rest k tokens munch tail ih =>
    intro t ht hkind
    obtain rfl | ht := List.mem_cons.mp ht
    · exact ⟨w, rest, ⟨[], rfl, rfl⟩, munch⟩
    · obtain ⟨v, rest', hspan, hv⟩ := ih t ht hkind
      exact ⟨v, rest', hspan.append, hv⟩
  | @skip offset w rest tokens munch tail ih =>
    intro t ht hkind
    obtain ⟨v, rest', hspan, hv⟩ := ih t ht hkind
    exact ⟨v, rest', hspan.append, hv⟩

end Munched

/-! ## What is lexed -/

theorem Span.ofSource_eq {start stop : Nat} (h : start ≤ stop) (hstop : stop ≤ limit) :
    ofSource start stop = ⟨start, stop⟩ := by
  unfold ofSource ofRange
  rw [if_neg (by omega), if_neg (by omega)]

/-- A run of blanks is one lexeme. -/
theorem read_of_isBlank {c : Char} (h : isBlank c = true) (cs : List Char) :
    read c cs = ⟨none, (cs.takeWhile isBlank).length⟩ :=
  if_pos h

/-- **A lexeme that makes a token** is what is taken. -/
theorem munch_of_read {c : Char} {cs : List Char} {k : Kind} (h : (read c cs).kind = some k) :
    Munch (c :: cs.take (read c cs).more) (cs.drop (read c cs).more) (some k) := by
  have hblank : isBlank c = false := by
    refine Bool.eq_false_iff.mpr fun hc => ?_
    rw [read_of_isBlank hc] at h
    cases h
  exact h ▸ munches_read c cs hblank

/-- A text is its lexeme and what is left. -/
theorem lexeme_append (c : Char) (cs : List Char) (n : Nat) :
    (c :: cs.take n) ++ cs.drop n = c :: cs := by
  rw [List.cons_append, List.take_append_drop]

/-- **The lexer munches** a text that ends within the limit of offsets. -/
theorem munched_streamFrom (offset : Nat) (text : List Char)
    (h : offset + byteLength text ≤ Span.limit) :
    Munched offset text (streamFrom offset text) := by
  fun_induction streamFrom offset text with
  | case1 offset =>
    rw [Nat.min_eq_left (Nat.le_of_add_right_le h)]
    exact .done
  | case2 offset c cs lexeme stop rest kind hkind ih =>
    rw [← lexeme_append c cs lexeme.more, byteLength_append, ← Nat.add_assoc] at h
    rw [Span.ofSource_eq (Nat.le_add_right _ _) (Nat.le_of_add_right_le h)]
    exact lexeme_append c cs lexeme.more ▸ .keep (munch_of_read hkind) (ih h)
  | case3 offset c cs lexeme stop rest hkind ih =>
    rw [← lexeme_append c cs lexeme.more, byteLength_append, ← Nat.add_assoc] at h
    have htail := ih h
    rw [← lexeme_append c cs lexeme.more]
    cases hblank : isBlank c with
    | true =>
      refine Munched.blanks ?_ htail
      change ∀ d ∈ c :: cs.take (read c cs).more, isBlank d = true
      rw [read_of_isBlank hblank, take_length_takeWhile, List.forall_mem_cons]
      exact ⟨hblank, forall_takeWhile cs⟩
    | false =>
      have hmunch : Munch _ _ lexeme.kind := munches_read c cs hblank
      rw [hkind] at hmunch
      exact .skip hmunch htail

/-- **Lexing is maximal munch.** The stream is the list of tokens that the
lexical rules give a source: what is taken is the longest text that a rule
matches, with the token that this rule makes of it; comments and continuations
are skipped where they are that longest text, and blanks where no rule matches
anything. A token that is no error is that of its rule, and an error stands
where no rule matches anything or is exactly an integer literal out of range. -/
theorem stream_is_maximal_munch (source : String) (h : source.utf8ByteSize ≤ Span.limit) :
    (∀ tokens, Munched 0 source.toList tokens ↔ tokens = stream source) ∧
    ∀ t ∈ stream source, t.kind ≠ .eof → ∃ w rest, t.span.Covers 0 source.toList w rest ∧
      (t.kind ≠ .error →
        Longest Rule.matched w rest ∧ ∃ r : Rule, r.Decides w ∧ r.Makes w (some t.kind)) ∧
      (t.kind = .error → (∀ v ∈ Rule.matched, ¬ v <+: w ++ rest) ∨
        Longest Rule.matched w rest ∧ w ∈ Rule.int.language ∧
          ¬ (-9223372036854775808 ≤ denotedInt w ∧ denotedInt w ≤ 9223372036854775807)) := by
  have hmunched : Munched 0 source.toList (stream source) := by
    refine munched_streamFrom 0 source.toList ?_
    rw [Nat.zero_add, byteLength_toList]
    exact h
  refine ⟨fun tokens => ⟨fun htokens => htokens.unique hmunched, fun htokens => htokens ▸ hmunched⟩,
    fun t ht hkind => ?_⟩
  obtain ⟨w, rest, hcovers, hmunch⟩ := hmunched.covers t ht hkind
  refine ⟨w, rest, hcovers, fun hne => ?_, fun heq => ?_⟩
  · generalize hk : some t.kind = k at hmunch
    cases hmunch with
    | matched longest decides makes => exact ⟨longest, _, decides, makes⟩
    | blank => cases hk
    | unmatched => exact absurd (Option.some.inj hk) hne
  · rw [heq] at hmunch
    generalize hk : some Kind.error = k at hmunch
    cases hmunch with
    | matched longest decides makes =>
      cases makes with
      | outOfRange range => exact Or.inr ⟨longest, decides.mem, range⟩
      | _ => cases hk
    | blank => cases hk
    | unmatched unmatched => exact Or.inl unmatched

/-- Where matches overlap, run into errors or have to back up: a fraction before
a letter that starts no exponent, a shift, a name that starts like a keyword, an
integer literal out of range and a string without its end. -/
theorem overlapping_matches_are_munched :
    "1_0.5e+<<if2\t__FILE__?$:\\ \n-9223372036854775809'é".utf8ByteSize ≤ Span.limit ∧
    Munched 0 "1_0.5e+<<if2\t__FILE__?$:\\ \n-9223372036854775809'é".toList
      [⟨.float ⟨0x4025000000000000⟩, ⟨0, 5⟩⟩, ⟨.ident "e", ⟨5, 6⟩⟩, ⟨.error, ⟨6, 7⟩⟩,
        ⟨.mark .shiftLeft, ⟨7, 9⟩⟩, ⟨.ident "if2", ⟨9, 12⟩⟩, ⟨.ident "__FILE__?", ⟨13, 22⟩⟩,
        ⟨.global ":", ⟨22, 24⟩⟩, ⟨.error, ⟨27, 47⟩⟩, ⟨.error, ⟨47, 50⟩⟩, ⟨.eof, ⟨50, 50⟩⟩] :=
  ⟨by decide, ((stream_is_maximal_munch _ (by decide)).1 _).mpr (by decide +kernel)⟩

end Garnet
