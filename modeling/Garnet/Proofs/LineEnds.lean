import Garnet.Proofs.Lockstep
import Garnet.Proofs.Tiling

/-!
# What a line end does to the text before it

A line end and further lines after a text change nothing in how the text itself
is cut into tokens, as long as none of its tokens is an error: then the stream of
the longer text is that of the text without its last token, a token for the line
end, and the stream of what follows (`streamFrom_newline`).

A rule that can match a line end is that of line ends, of continuations or of
strings (`Rule.of_newline_mem`), and the texts of these rules say themselves
where they end (`Rule.length_eq_of_closed`). So a match does not get longer
by what comes after it (`Longest.before_separator`, for separators of any kind). What
could get longer is the beginning of a string or of a continuation, but it is an error
where it ends.

Where a text stands matters for the spans of its tokens only
(`streamFrom_add`).
-/

namespace Garnet

open Computability Lexeme Token

/-! ## Matches -/

namespace Rule

variable {r q : Rule} {w v text : List Char}

/-- **A match with a separator** is one of five rules. -/
theorem of_separator_mem {x : Char} (hw : w ∈ r.language) (hx : isSeparator x = true)
    (h : x ∈ w) : r = comment ∨ r = continuation ∨ r = newline ∨ r = singleQuoted ∨
      r = doubleQuoted := by
  cases r with
  | comment | continuation | newline | singleQuoted | doubleQuoted => simp
  | _ => exact absurd h (avoids_language hx (by simp) w hw)

/-- **A match with a line end** is one of four rules. -/
theorem of_newline_mem (hw : w ∈ r.language) (h : '\n' ∈ w) :
    r = continuation ∨ r = newline ∨ r = singleQuoted ∨ r = doubleQuoted := by
  refine (of_separator_mem hw rfl h).resolve_left fun hr => ?_
  subst hr
  obtain ⟨u, hu, rfl⟩ := mem_exactly_mul.mp hw
  obtain hc | hc := List.mem_append.mp h
  · exact absurd hc (by decide)
  · exact absurd (mem_oneOf_star.mp hu _ hc) (by decide)

/-- Continuations and line ends end with the first line end. -/
theorem exists_of_ends_line (hr : r = continuation ∨ r = newline) (hw : w ∈ r.language) :
    ∃ u, w = u ++ ['\n'] ∧ ∀ c ∈ u, (c != '\n') = true := by
  obtain rfl | rfl := hr
  · obtain ⟨_, hu, rfl⟩ := mem_exactly_mul.mp hw
    obtain ⟨b, hb, _, he, rfl⟩ := Language.mem_mul.mp hu
    obtain ⟨e, hreturn, _, rfl, rfl⟩ := Language.mem_mul.mp he
    refine ⟨'\\' :: (b ++ e), by simp, List.forall_mem_cons.mpr ⟨rfl, fun c hc => ?_⟩⟩
    obtain hc | hc := List.mem_append.mp hc
    · have hblank := mem_oneOf_star.mp hb c hc
      refine bne_iff_ne.mpr fun heq => ?_
      rw [heq] at hblank
      cases hblank
    · obtain rfl | rfl := hreturn
      · cases hc
      · rw [List.mem_singleton.mp hc]
        rfl
  · exact ⟨[], hw, List.forall_mem_nil _⟩

/-- **A match of these rules says itself where it ends**: no other match at the head
of the same text is shorter. -/
theorem length_eq_of_closed (hw : w ∈ r.language) (hv : v ∈ q.language)
    (hq : q = continuation ∨ q = newline ∨ q = singleQuoted ∨ q = doubleQuoted)
    (hwt : w <+: text) (hvt : v <+: text) : v.length = w.length := by
  have hgroup := group_eq_of_begins hw hv hwt hvt
  -- each of the rules is the only one of its group
  have hline (hq : q = continuation ∨ q = newline) (heq : r = q) : v.length = w.length := by
    obtain ⟨a, rfl, ha⟩ := exists_of_ends_line (heq ▸ hq) hw
    obtain ⟨b, rfl, hb⟩ := exists_of_ends_line hq hv
    have hruns := (takeWhile_of_begins hb (by decide) hvt).1.symm.trans
      (takeWhile_of_begins ha (by decide) hwt).1
    rw [hruns]
  obtain rfl | rfl | rfl | rfl := hq
  · exact hline (.inl rfl) (eq_of_group hgroup (by simp))
  · refine hline (.inr rfl) ?_
    cases r <;> first | rfl | cases hgroup
  · obtain rfl := eq_of_group hgroup (by simp)
    exact length_eq_of_quoted (by decide) hw hv hwt hvt
  · obtain rfl := eq_of_group hgroup (by simp)
    exact length_eq_of_quoted (by decide) hw hv hwt hvt

end Rule

section Separators

variable {w rest after after' : List Char} {k : Option Kind}

/-- **A match stays the longest one** if a separator comes after it, or later. For a
comment this has to be a line end, unless there is one already. -/
theorem Longest.before_separator (h : Longest Rule.matched w (rest ++ after))
    (hsep : ∀ x ∈ after'.head?, Rule.isSeparator x = true)
    (hcomment : w ∈ Rule.comment.language → rest ≠ [] ∨ ∀ x ∈ after'.head?, x = '\n') :
    Longest Rule.matched w (rest ++ after') where
  mem := h.mem
  le v hv hbegins := by
    rw [← List.append_assoc] at hbegins
    cases after' with
    | nil =>
      rw [List.append_nil] at hbegins
      exact h.le v hv (hbegins.trans ⟨after, List.append_assoc _ _ _⟩)
    | cons x after' =>
      by_cases hlong : v.length ≤ (w ++ rest).length
      · -- what has nothing of it stands before it
        have hbefore := List.prefix_of_prefix_length_le hbegins (List.prefix_append _ _) hlong
        exact h.le v hv (hbefore.trans ⟨after, List.append_assoc _ _ _⟩)
      · have hall : w ++ rest ++ [x] <+: v :=
          List.prefix_of_prefix_length_le ⟨after', by simp⟩ hbegins (by simp at hlong ⊢; omega)
        obtain ⟨r, hr⟩ := Rule.mem_matched.mp h.mem
        obtain ⟨q, hq⟩ := Rule.mem_matched.mp hv
        have hwv : w <+: v :=
          (List.prefix_append w (rest ++ [x])).trans ((List.append_assoc _ _ _).symm ▸ hall)
        have hx : x ∈ v := hall.subset (List.mem_append_right _ List.mem_cons_self)
        refine Nat.le_of_eq (Rule.length_eq_of_closed hr hq ?_ hwv (List.prefix_refl v))
        refine (Rule.of_separator_mem hq (hsep x rfl) hx).elim (fun hq' => ?_) id
        -- a comment has no line end
        subst hq'
        obtain rfl := Rule.eq_of_group (Rule.group_eq_of_begins hr hq hwv (List.prefix_refl v))
          (by simp)
        refine Rule.of_newline_mem hq ?_
        obtain hrest | hnewline := hcomment hr
        · obtain hnil | hhead := comment_stops h hr
          · exact absurd (List.append_eq_nil_iff.mp hnil).1 hrest
          · cases rest with
            | nil => exact absurd rfl hrest
            | cons c rest =>
              obtain rfl : c = '\n' := by simpa using hhead
              exact hall.subset (by simp)
        · exact hnewline x rfl ▸ hx

/-- **What is taken from a text** is taken if a separator comes after it, or later,
unless it is an error. -/
theorem Munch.before_separator (h : Munch w (rest ++ after) k) (hk : k ≠ some .error)
    (hsep : ∀ x ∈ after'.head?, Rule.isSeparator x = true)
    (hcomment : w ∈ Rule.comment.language → rest ≠ [] ∨ ∀ x ∈ after'.head?, x = '\n') :
    Munch w (rest ++ after') k := by
  cases h with
  | matched longest decides makes =>
    exact .matched (longest.before_separator hsep hcomment) decides makes
  | blank _ single isBlank =>
    subst single
    exact .of_isBlank isBlank _
  | unmatched => exact absurd rfl hk

/-- **What is taken from a text** stays so where a line end follows the text,
unless it is an error. -/
theorem Munch.before_newline (h : Munch w rest k) (hk : k ≠ some .error) (t : List Char) :
    Munch w (rest ++ '\n' :: t) k := by
  rw [← List.append_nil rest] at h
  refine h.before_separator hk (fun x hx => ?_) fun _ => .inr fun x hx => ?_
  · rw [← Option.some.inj hx]
    rfl
  · exact (Option.some.inj hx).symm

end Separators

/-! ## Lexemes -/

/-- **The lexeme at the head of a text** stays the same where a line end follows
the text, unless it is an error. -/
theorem Lexeme.read_before_newline {c : Char} {cs : List Char}
    (h : (read c cs).kind ≠ some .error) (t : List Char) :
    (read c (cs ++ '\n' :: t)).kind = (read c cs).kind ∧
      c :: (cs ++ '\n' :: t).take (read c (cs ++ '\n' :: t)).more
        = c :: cs.take (read c cs).more ∧
      (cs ++ '\n' :: t).drop (read c (cs ++ '\n' :: t)).more
        = cs.drop (read c cs).more ++ '\n' :: t := by
  cases hblank : isBlank c with
  | true =>
    have hrun : (cs ++ '\n' :: t).takeWhile isBlank = cs.takeWhile isBlank := by
      rw [List.takeWhile_append]
      split
      · next hall =>
        rw [List.takeWhile_cons_of_neg (by decide), List.append_nil]
        exact ((List.takeWhile_prefix _).eq_of_length hall).symm
      · rfl
    have hle : (cs.takeWhile isBlank).length ≤ cs.length := (List.takeWhile_prefix _).length_le
    rw [read_of_isBlank hblank, read_of_isBlank hblank, hrun]
    refine ⟨rfl, ?_, List.drop_append_of_le_length hle⟩
    rw [List.take_append_of_le_length hle]
  | false =>
    have hmunch : Munch _ _ (read c cs).kind := munches_read c cs hblank
    have hread : Munch _ _ (read c (cs ++ '\n' :: t)).kind :=
      munches_read c (cs ++ '\n' :: t) hblank
    have hbefore := hmunch.before_newline h t
    have htext := (lexeme_append c (cs ++ '\n' :: t) (read c (cs ++ '\n' :: t)).more).trans
      (congrArg (· ++ '\n' :: t) (lexeme_append c cs (read c cs).more).symm)
    rw [List.append_assoc] at htext
    obtain ⟨htake, hdrop⟩ := hread.text_unique hbefore htext
    rw [htake, hdrop] at hread
    exact ⟨hread.kind_unique hbefore, htake, hdrop⟩

/-! ## Streams -/

/-- **A stream**: its last token is the end of a source, and no other one is. -/
def Token.IsStream (tokens : List Token) : Prop :=
  ∃ init stop, tokens = init ++ [stop] ∧ stop.kind = .eof ∧ ∀ t ∈ init, t.kind ≠ .eof

namespace Token

theorem IsStream.cons {t : Token} {tokens : List Token} (ht : t.kind ≠ .eof)
    (h : IsStream tokens) : IsStream (t :: tokens) := by
  obtain ⟨init, stop, rfl, hstop, hinit⟩ := h
  exact ⟨t :: init, stop, rfl, hstop, List.forall_mem_cons.mpr ⟨ht, hinit⟩⟩

theorem IsStream.ne_nil {tokens : List Token} (h : IsStream tokens) : tokens ≠ [] := by
  obtain ⟨init, stop, rfl, _⟩ := h
  exact List.append_ne_nil_of_right_ne_nil init (List.cons_ne_nil _ _)

/-- Bytes of a text add up. -/
theorem byteLength_lexeme (c : Char) (cs : List Char) (n : Nat) :
    byteLength (c :: cs) = byteLength (c :: cs.take n) + byteLength (cs.drop n) := by
  rw [← byteLength_append, lexeme_append]

/-- **Induction on the lexemes of a text**, with the offset where each one
stands. -/
@[elab_as_elim]
theorem lexemes_induction {motive : Nat → List Char → Prop} (nil : ∀ offset, motive offset [])
    (cons : ∀ offset c cs, motive (offset + byteLength (c :: cs.take (read c cs).more))
      (cs.drop (read c cs).more) → motive offset (c :: cs)) (offset : Nat) (text : List Char) :
    motive offset text := by
  fun_induction streamFrom offset text with
  | case1 offset => exact nil offset
  | case2 offset c cs lexeme stop rest kind hkind ih => exact cons offset c cs ih
  | case3 offset c cs lexeme stop rest hkind ih => exact cons offset c cs ih

/-- **The first lexeme** makes a token or none, and the others follow. -/
theorem streamFrom_cons (offset : Nat) (c : Char) (cs : List Char) :
    streamFrom offset (c :: cs) =
      (read c cs).kind.toList.map (fun k =>
          ⟨k, Span.ofSource offset (offset + byteLength (c :: cs.take (read c cs).more))⟩)
        ++ streamFrom (offset + byteLength (c :: cs.take (read c cs).more))
          (cs.drop (read c cs).more) := by
  rw [streamFrom]
  cases (read c cs).kind <;> rfl

/-- **The tokens of a text** are a stream. -/
theorem isStream_streamFrom (offset : Nat) (text : List Char) :
    IsStream (streamFrom offset text) := by
  induction offset, text using lexemes_induction with
  | nil offset =>
    rw [streamFrom]
    exact ⟨[], _, rfl, rfl, List.forall_mem_nil _⟩
  | cons offset c cs ih =>
    rw [streamFrom_cons]
    cases hkind : (read c cs).kind with
    | none => exact ih
    | some k => exact ih.cons (munch_of_read hkind).ne_eof

/-- **The tokens of a source** are a stream. -/
theorem isStream_stream (source : String) : IsStream (stream source) :=
  isStream_streamFrom 0 source.toList

/-- **A text before a line end**: its tokens stay as they are, the line end makes
one, and those of the lines that follow come after it. -/
theorem streamFrom_newline (offset : Nat) (text t : List Char)
    (h : ∀ u ∈ streamFrom offset text, u.kind ≠ .error) :
    streamFrom offset (text ++ '\n' :: t) = (streamFrom offset text).dropLast
      ++ ⟨.newline, Span.ofSource (offset + byteLength text) (offset + byteLength text + 1)⟩
        :: streamFrom (offset + byteLength text + 1) t := by
  induction offset, text using lexemes_induction with
  | nil offset =>
    have hread : read '\n' t = ⟨some .newline, 0⟩ := rfl
    rw [List.nil_append, streamFrom_cons, hread, streamFrom]
    rfl
  | cons offset c cs ih =>
    rw [streamFrom_cons, List.forall_mem_append] at h
    have hlexeme : (read c cs).kind ≠ some .error := by
      intro heq
      rw [heq] at h
      exact h.1 _ List.mem_cons_self rfl
    obtain ⟨hkind, htake, hdrop⟩ := read_before_newline hlexeme t
    rw [List.cons_append, streamFrom_cons, streamFrom_cons, hkind, htake, hdrop, ih h.2,
      List.dropLast_append_of_ne_nil (isStream_streamFrom _ _).ne_nil, List.append_assoc,
      byteLength_lexeme c cs (read c cs).more, ← Nat.add_assoc]

end Token

/-- The span, some bytes further on. -/
def Span.shift (n : Nat) (s : Span) : Span :=
  ⟨s.start + n, s.stop + n⟩

/-- **A text that stands further on** has the same tokens, further on. -/
theorem Token.streamFrom_add (n offset : Nat) (text : List Char)
    (h : offset + n + byteLength text ≤ Span.limit) :
    streamFrom (offset + n) text
      = (streamFrom offset text).map (Token.relocate (Span.shift n)) := by
  induction offset, text using lexemes_induction with
  | nil offset =>
    have hle : offset + n ≤ Span.limit := h
    rw [streamFrom, streamFrom, Nat.min_eq_left hle, Nat.min_eq_left (Nat.le_of_add_right_le hle)]
    rfl
  | cons offset c cs ih =>
    rw [byteLength_lexeme c cs (read c cs).more] at h
    have hstop : offset + n + byteLength (c :: cs.take (read c cs).more)
        = offset + byteLength (c :: cs.take (read c cs).more) + n := Nat.add_right_comm _ _ _
    have hspan : Span.ofSource (offset + n)
          (offset + byteLength (c :: cs.take (read c cs).more) + n)
        = (Span.ofSource offset (offset + byteLength (c :: cs.take (read c cs).more))).shift n := by
      rw [Span.ofSource_eq (by omega) (by omega), Span.ofSource_eq (by omega) (by omega)]
      rfl
    rw [streamFrom_cons, streamFrom_cons, hstop, ih (by omega), hspan, List.map_append,
      List.map_map]
    rfl

end Garnet
