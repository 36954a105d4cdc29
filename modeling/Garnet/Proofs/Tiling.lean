import Garnet.Proofs.MaximalMunch

/-!
# Tokens tile the source

The spans of the tokens of a source and the gaps between them cover it from its
first byte to its last, without overlapping. What stands in a gap is known
(`Gap`): blanks, comments that stop before the end of a line, and
continuations. So no byte is dropped, and the end of a line, on which the
grammar depends, is in a token of its own, in a string or in an unfinished
one, or in a continuation.

Everything is proved by induction on `Munched`, that is from the lexical rules;
offsets are then those of bytes, by the UTF-8 form of the text.
-/

namespace Garnet

open Computability Lexeme Token
open Rule (avoids_language)

/-! ## Gaps -/

/-- **The gaps before the tokens of a list**, the first of which starts at a
given offset. -/
def gaps (start : Nat) : List Token → List Span
  | [] => []
  | t :: tokens => ⟨start, t.span.start⟩ :: gaps t.span.stop tokens

/-- **What can stand in a gap** that `rest` follows. -/
inductive Gap : List Char → List Char → Prop
  | nil {rest : List Char} : Gap [] rest
  /-- A blank. -/
  | blank {c : Char} {g rest : List Char} (isBlank : isBlank c = true) (tail : Gap g rest) :
      Gap (c :: g) rest
  /-- A comment, up to the end of the line. -/
  | comment {w g rest : List Char} (mem : w ∈ Rule.comment.language)
      (stop : g ++ rest = [] ∨ (g ++ rest).head? = some '\n') (tail : Gap g rest) :
      Gap (w ++ g) rest
  /-- A continuation. -/
  | continuation {w g rest : List Char} (mem : w ∈ Rule.continuation.language)
      (tail : Gap g rest) : Gap (w ++ g) rest

/-- A comment that is the longest match goes to the end of the line. -/
theorem comment_stops {w rest : List Char} (longest : Longest Rule.matched w rest)
    (mem : w ∈ Rule.comment.language) : rest = [] ∨ rest.head? = some '\n' := by
  cases rest with
  | nil => exact Or.inl rfl
  | cons c rest =>
    refine Or.inr (congrArg some ?_)
    by_contra hc
    obtain ⟨v, hv, rfl⟩ := mem_exactly_mul.mp mem
    have hlonger : "#".toList ++ (v ++ [c]) ∈ Rule.comment.language := by
      refine mem_exactly_mul.mpr ⟨v ++ [c], mem_oneOf_star.mpr fun d hd => ?_, rfl⟩
      obtain hd | hd := List.mem_append.mp hd
      · exact mem_oneOf_star.mp hv d hd
      · exact bne_iff_ne.mpr (List.mem_singleton.mp hd ▸ hc)
    have hle := longest.le _ (Rule.mem_matched.mpr ⟨_, hlonger⟩) ⟨rest, by simp⟩
    simp only [List.length_append, List.length_singleton] at hle
    omega

/-- **What is skipped belongs to a gap.** -/
theorem Munch.gap {w g rest : List Char} (h : Munch w (g ++ rest) none) (tail : Gap g rest) :
    Gap (w ++ g) rest := by
  generalize hk : (none : Option Kind) = k at h
  cases h with
  | matched longest decides makes =>
    subst hk
    cases makes with
    | comment => exact .comment decides.mem (comment_stops longest decides.mem) tail
    | continuation => exact .continuation decides.mem tail
  | blank _ single isBlank =>
    subst single
    exact .blank isBlank tail
  | unmatched => cases hk

/-- A character of two texts in a row is in the first one or in the second
one. -/
theorem split_of_append {a b w g : List Char} {c : Char} (h : w ++ g = a ++ c :: b) :
    (∃ n, w = a ++ c :: n) ∨ ∃ m, a = w ++ m ∧ g = m ++ c :: b := by
  obtain ⟨m, ha, hg⟩ | ⟨n, hw, hn⟩ := List.append_eq_append_iff.mp h
  · exact Or.inr ⟨m, ha, hg⟩
  · cases n with
    | nil => exact Or.inr ⟨[], by rw [hw, List.append_nil, List.append_nil], hn.symm⟩
    | cons d n => exact Or.inl ⟨n, by rw [hw, (List.cons.inj hn).1]⟩

/-- Whether the line end that follows `a` in a text is in a continuation. -/
def Continues (a text : List Char) : Prop :=
  ∃ before w rest m n, text = before ++ (w ++ rest) ∧ a = before ++ m ∧ w = m ++ '\n' :: n ∧
    w ∈ Rule.continuation.language

theorem Continues.append {a text : List Char} (h : Continues a text) (v : List Char) :
    Continues (v ++ a) (v ++ text) := by
  obtain ⟨before, w, rest, m, n, rfl, rfl, hw, hmem⟩ := h
  exact ⟨v ++ before, w, rest, m, n, (List.append_assoc _ _ _).symm, (List.append_assoc _ _ _).symm,
    hw, hmem⟩

/-- **A line end in a gap** is in a continuation. -/
theorem Gap.continues {g rest a b : List Char} (h : Gap g rest) (hg : g = a ++ '\n' :: b) :
    Continues a g := by
  induction h generalizing a with
  | nil => exact absurd hg.symm (by simp)
  | @blank c g rest isBlank tail ih =>
    obtain ⟨n, hn⟩ | ⟨m, rfl, hm⟩ := split_of_append (w := [c]) hg
    · have hc : '\n' ∈ [c] := hn ▸ List.mem_append_right a List.mem_cons_self
      rw [← List.mem_singleton.mp hc] at isBlank
      cases isBlank
    · exact (ih hm).append [c]
  | @comment w g rest mem stop tail ih =>
    obtain ⟨n, rfl⟩ | ⟨m, rfl, hm⟩ := split_of_append hg
    · obtain ⟨v, hv, heq⟩ := mem_exactly_mul.mp mem
      have hnewline : '\n' ∈ "#".toList ++ v := heq ▸ List.mem_append_right a List.mem_cons_self
      obtain hc | hc := List.mem_append.mp hnewline
      · simp at hc
      · exact absurd (mem_oneOf_star.mp hv _ hc) (by decide)
    · exact (ih hm).append w
  | @continuation w g rest mem tail ih =>
    obtain ⟨n, hn⟩ | ⟨m, rfl, hm⟩ := split_of_append hg
    · exact ⟨[], w, g, a, n, rfl, rfl, hn, mem⟩
    · exact (ih hm).append w

/-! ## Line ends in tokens -/

/-- **A token with a line end** is one, or a string, or the error that an
unfinished string is. -/
theorem Munch.kind_of_newline {w rest : List Char} {k : Kind} (h : Munch w rest (some k))
    (hw : '\n' ∈ w) : k = .newline ∨ (∃ s, k = .string s) ∨ (∃ s, k = .interpolated s) ∨
      k = .error ∧ (w.head? = some '\x27' ∨ w.head? = some '\x22') := by
  generalize hk : some k = k' at h
  cases h with
  | @matched r _ longest decides makes =>
    subst hk
    have havoids := fun hr => avoids_language (r := r) (x := '\n') rfl hr w decides.mem hw
    cases makes with
    | newline => exact Or.inl rfl
    | singleQuoted => exact Or.inr (Or.inl ⟨_, rfl⟩)
    | doubleQuoted => exact Or.inr (Or.inr (Or.inl ⟨_, rfl⟩))
    | _ => exact (havoids (by simp)).elim
  | blank => cases hk
  | unmatched unmatched longest =>
    obtain rfl := Option.some.inj hk
    refine Or.inr (Or.inr (Or.inr ⟨rfl, ?_⟩))
    obtain ⟨c, v, rfl, _⟩ := Rule.exists_cons_of_unfinished longest.mem
    obtain ⟨_, rfl⟩ | ⟨hc, _⟩ | ⟨rfl, hv⟩ := Rule.cons_mem_unfinished.mp longest.mem
    · -- a line end alone is a match
      obtain rfl := List.mem_singleton.mp hw
      exact absurd ⟨rest, rfl⟩ (unmatched ['\n'] (Rule.mem_matched.mpr ⟨.newline, rfl⟩))
    · exact hc.imp (congrArg some) (congrArg some)
    · obtain hc | hc := List.mem_cons.mp hw
      · cases hc
      · exact absurd (hv _ hc) (by decide)

/-! ## Runs -/

/-- Whether a byte lies in a span. -/
def Span.Holds (span : Span) (i : Nat) : Prop :=
  span.start ≤ i ∧ i < span.stop

theorem Munch.ne_eof {w rest : List Char} {k : Kind} (h : Munch w rest (some k)) : k ≠ .eof := by
  rintro rfl
  generalize hk : some Kind.eof = k at h
  cases h with
  | matched _ _ makes => cases makes <;> cases hk
  | blank => cases hk
  | unmatched => cases hk

namespace Munched

variable {offset : Nat} {text : List Char} {tokens : List Token}

/-- **Order**: the tokens of a text are followed by its end; they are not empty,
and none starts before the one before it stops. -/
theorem ordered (h : Munched offset text tokens) :
    ∃ init, tokens = init ++ [⟨.eof, Span.point (offset + byteLength text)⟩] ∧
      (∀ t ∈ init, t.kind ≠ .eof ∧ offset ≤ t.span.start ∧ t.span.start < t.span.stop ∧
        t.span.stop ≤ offset + byteLength text) ∧
      init.Pairwise fun t u => t.span.stop ≤ u.span.start := by
  induction h with
  | done => exact ⟨[], rfl, List.forall_mem_nil _, .nil⟩
  | @keep offset w rest k tokens munch tail ih =>
    obtain ⟨init, rfl, hinit, hpairwise⟩ := ih
    have hpos := byteLength_pos munch.ne_nil
    rw [byteLength_append, ← Nat.add_assoc]
    refine ⟨⟨k, ⟨offset, offset + byteLength w⟩⟩ :: init, rfl, ?_, ?_⟩
    · refine List.forall_mem_cons.mpr ⟨⟨munch.ne_eof, ?_⟩, fun t ht => ?_⟩
      · dsimp only
        omega
      · obtain ⟨hkind, hstart, hstop⟩ := hinit t ht
        exact ⟨hkind, Nat.le_of_add_right_le hstart, hstop⟩
    · exact List.pairwise_cons.mpr ⟨fun t ht => (hinit t ht).2.1, hpairwise⟩
  | @skip offset w rest tokens munch tail ih =>
    obtain ⟨init, rfl, hinit, hpairwise⟩ := ih
    rw [byteLength_append, ← Nat.add_assoc]
    refine ⟨init, rfl, fun t ht => ?_, hpairwise⟩
    obtain ⟨hkind, hstart, hstop⟩ := hinit t ht
    exact ⟨hkind, Nat.le_of_add_right_le hstart, hstop⟩

/-- **Gaps**: what stands before a token, or before the end, can stand in a
gap. -/
theorem gap_covers (h : Munched offset text tokens) :
    ∀ span ∈ gaps offset tokens, ∃ g rest, span.Covers offset text g rest ∧ Gap g rest := by
  induction h with
  | @done offset =>
    intro span hspan
    obtain rfl := List.mem_singleton.mp hspan
    exact ⟨[], [], ⟨[], rfl, rfl⟩, .nil⟩
  | @keep offset w rest k tokens munch tail ih =>
    refine List.forall_mem_cons.mpr ⟨⟨[], w ++ rest, ⟨[], rfl, rfl⟩, .nil⟩, fun span hspan => ?_⟩
    obtain ⟨g, rest', hcovers, hg⟩ := ih span hspan
    exact ⟨g, rest', hcovers.append, hg⟩
  | @skip offset w rest tokens munch tail ih =>
    cases tokens with
    | nil => exact List.forall_mem_nil _
    | cons t tokens =>
      rw [gaps, List.forall_mem_cons] at ih ⊢
      refine ⟨?_, fun span hspan => ?_⟩
      · -- what is skipped comes before the first gap of the rest
        obtain ⟨g, rest', ⟨before, rfl, hspan⟩, hg⟩ := ih.1
        have hbefore : before = [] := by
          have hstart := congrArg Span.start hspan
          dsimp only at hstart
          by_contra hne
          have := byteLength_pos hne
          omega
        subst hbefore
        refine ⟨w ++ g, rest', ⟨[], by simp, ?_⟩, Munch.gap (g := g) munch hg⟩
        have hstop := congrArg Span.stop hspan
        dsimp only at hstop
        rw [hstop]
        simp only [List.nil_append, byteLength_append, Nat.add_assoc]
        rfl
      · obtain ⟨g, rest', hcovers, hg⟩ := ih.2 span hspan
        exact ⟨g, rest', hcovers.append, hg⟩

end Munched

/-- **Cover**: every byte before the last token lies in a token or in a gap. -/
theorem holds_or_gap (init : List Token) (last : Token) {start i : Nat} (hi : start ≤ i)
    (hlt : i < last.span.start) : (∃ t ∈ init, t.span.Holds i) ∨
      ∃ span ∈ gaps start (init ++ [last]), span.Holds i := by
  induction init generalizing start with
  | nil => exact Or.inr ⟨_, List.mem_cons_self, hi, hlt⟩
  | cons t init ih =>
    rw [List.cons_append, gaps]
    by_cases hbefore : i < t.span.start
    · exact Or.inr ⟨_, List.mem_cons_self, hi, hbefore⟩
    by_cases hin : i < t.span.stop
    · exact Or.inl ⟨t, List.mem_cons_self, Nat.not_lt.mp hbefore, hin⟩
    obtain ⟨u, hu, hspan⟩ | ⟨span, hmem, hspan⟩ := ih (Nat.not_lt.mp hin)
    · exact Or.inl ⟨u, List.mem_cons_of_mem _ hu, hspan⟩
    · exact Or.inr ⟨span, List.mem_cons_of_mem _ hmem, hspan⟩

/-! ## Bytes -/

/-- **A line end is one byte**, and that byte occurs in no other character. -/
theorem eq_newline_of_mem {c : Char} (h : (10 : UInt8) ∈ String.utf8EncodeChar c) : c = '\n' := by
  have hne : ∀ n, n % 256 ≠ 10 → (10 : UInt8) ≠ UInt8.ofNat n := by
    rintro n hn heq
    exact hn (by simpa using (congrArg UInt8.toNat heq).symm)
  unfold String.utf8EncodeChar at h
  dsimp only at h
  split at h
  · next hc =>
    have heq := congrArg UInt8.toNat (List.mem_singleton.mp h)
    rw [UInt8.toNat_ofNat'] at heq
    refine Char.ext (UInt32.toNat_inj.mp ?_)
    change c.val.toNat = 10
    change 10 = _ at heq
    omega
  · exfalso
    split at h
    · simp only [List.mem_cons, List.not_mem_nil, or_false] at h
      obtain h | h := h <;> exact hne _ (by omega) h
    · split at h <;> simp only [List.mem_cons, List.not_mem_nil, or_false] at h
      · obtain h | h | h := h <;> exact hne _ (by omega) h
      · obtain h | h | h | h := h <;> exact hne _ (by omega) h

theorem data_toUTF8 (source : String) :
    source.toUTF8.data.toList = source.toList.flatMap String.utf8EncodeChar := by
  rw [String.toUTF8_eq_toByteArray, ← String.utf8Encode_toList]
  unfold List.utf8Encode
  simp

/-- **Where the byte of a line end stands**, a line end stands. -/
theorem exists_newline {text : List Char} {i : Nat}
    (h : (text.flatMap String.utf8EncodeChar)[i]? = some 10) :
    ∃ before after, text = before ++ '\n' :: after ∧ byteLength before = i := by
  induction text generalizing i with
  | nil => simp at h
  | cons c text ih =>
    rw [List.flatMap_cons, List.getElem?_append] at h
    split at h
    · next hi =>
      obtain rfl := eq_newline_of_mem (List.mem_of_getElem? h)
      exact ⟨[], text, rfl, (Nat.lt_one_iff.mp hi).symm⟩
    · next hi =>
      obtain ⟨before, after, rfl, hlength⟩ := ih h
      rw [String.length_utf8EncodeChar] at hi hlength
      refine ⟨c :: before, after, rfl, ?_⟩
      rw [byteLength, hlength]
      omega

namespace Span.Covers

variable {span : Span} {source : String} {text w rest : List Char}

/-- **The bytes that a span covers** are those of its text. -/
theorem extract (h : span.Covers 0 source.toList w rest) :
    source.toUTF8.extract span.start span.stop = (String.ofList w).toUTF8 := by
  obtain ⟨before, hsource, rfl⟩ := h
  have hsplit : source = String.ofList before ++ String.ofList w ++ String.ofList rest := by
    rw [String.append_assoc, ← String.ofList_append, ← String.ofList_append, ← hsource,
      String.ofList_toList]
  simp only [Nat.zero_add, byteLength_eq_utf8ByteSize, String.ofList_append,
    String.toUTF8_eq_toByteArray, ← String.size_toByteArray]
  rw [hsplit, String.toByteArray_append (s := _ ++ _), ByteArray.extract_append_size_left,
    String.toByteArray_append]
  exact ByteArray.extract_append_eq_right rfl ByteArray.size_append

/-- **A span ends on boundaries of characters.** -/
theorem isValid (h : span.Covers 0 source.toList w rest) :
    (String.Pos.Raw.mk span.start).IsValid source ∧
      (String.Pos.Raw.mk span.stop).IsValid source := by
  obtain ⟨before, hsource, rfl⟩ := h
  have hends : ∀ a b, source.toList = a ++ b →
      (String.Pos.Raw.mk (0 + byteLength a)).IsValid source := by
    intro a b heq
    refine String.Pos.Raw.isValid_iff_exists_append.mpr ⟨String.ofList a, String.ofList b, ?_, ?_⟩
    · rw [← String.ofList_append, ← heq, String.ofList_toList]
    · rw [Nat.zero_add, byteLength_eq_utf8ByteSize]
      rfl
  exact ⟨hends before _ hsource, hends _ rest (by rw [hsource, List.append_assoc])⟩

/-- **The line end at a byte of a span** is in the text that it covers. -/
theorem newline {before after : List Char} (h : span.Covers 0 text w rest)
    (htext : text = before ++ '\n' :: after) (hholds : span.Holds (byteLength before)) :
    ∃ m n, w = m ++ '\n' :: n ∧ byteLength before = span.start + byteLength m := by
  obtain ⟨a, rfl, rfl⟩ := h
  obtain ⟨hstart, hstop⟩ := hholds
  dsimp only at hstart hstop ⊢
  rw [Nat.zero_add] at hstart hstop ⊢
  obtain ⟨n, rfl⟩ | ⟨m, rfl, hm⟩ := split_of_append htext
  · rw [byteLength_append] at hstart
    have := byteLength_pos (List.cons_ne_nil '\n' n)
    omega
  obtain ⟨n, hn⟩ | ⟨m, rfl, _⟩ := split_of_append hm
  · exact ⟨m, n, hn, byteLength_append⟩
  · rw [← List.append_assoc, byteLength_append] at hstop
    omega

end Span.Covers

/-! ## The tiling -/

/-- **A token that can hold the end of a line**: one for it, a string, or an
error that starts like a string. -/
def Token.CanHoldNewline (text : List Char) (t : Token) : Prop :=
  t.kind = .newline ∨ (∃ s, t.kind = .string s) ∨ (∃ s, t.kind = .interpolated s) ∨
    t.kind = .error ∧ ∃ w rest, t.span.Covers 0 text w rest ∧
      (w.head? = some '\x27' ∨ w.head? = some '\x22')

/-- **A continuation in a gap** that holds a byte. -/
def Span.ContinuesAt (gap : Span) (text : List Char) (i : Nat) : Prop :=
  ∃ (span : Span) (w rest : List Char), gap.start ≤ span.start ∧ span.stop ≤ gap.stop ∧
    span.Holds i ∧ span.Covers 0 text w rest ∧ w ∈ Rule.continuation.language

section Newlines

variable {source : String} {before after : List Char}

/-- **The token that a line end is in.** -/
theorem Munched.canHoldNewline {tokens : List Token} (h : Munched 0 source.toList tokens)
    (hsource : source.toList = before ++ '\n' :: after) {t : Token} (ht : t ∈ tokens)
    (hkind : t.kind ≠ .eof) (hholds : t.span.Holds (byteLength before)) :
    t.CanHoldNewline source.toList := by
  obtain ⟨w, rest, hcovers, hmunch⟩ := h.covers t ht hkind
  obtain ⟨m, n, hw, _⟩ := hcovers.newline hsource hholds
  have hmem : '\n' ∈ w := hw ▸ List.mem_append_right m List.mem_cons_self
  exact (hmunch.kind_of_newline hmem).imp id fun h => h.imp id fun h => h.imp id fun h =>
    ⟨h.1, w, rest, hcovers, h.2⟩

/-- **The continuation that a line end in a gap is in.** -/
theorem Gap.continuesAt {gap : Span} {g rest : List Char}
    (hgap : Gap g rest) (hcovers : gap.Covers 0 source.toList g rest)
    (hsource : source.toList = before ++ '\n' :: after) (hholds : gap.Holds (byteLength before)) :
    gap.ContinuesAt source.toList (byteLength before) := by
  obtain ⟨m, n, hg, hoffset⟩ := hcovers.newline hsource hholds
  obtain ⟨first, w, last, m', n', rfl, rfl, hw, hmem⟩ := hgap.continues hg
  obtain ⟨a, htext, rfl⟩ := hcovers
  have hbyte : byteLength w = byteLength m' + byteLength ('\n' :: n') := by
    rw [hw, byteLength_append]
  have hpos := byteLength_pos (List.cons_ne_nil '\n' n')
  refine ⟨_, w, last ++ rest, ?_, ?_, ⟨?_, ?_⟩, ⟨a ++ first, ?_, rfl⟩, hmem⟩
  · simp only [byteLength_append]
    omega
  · simp only [byteLength_append]
    omega
  · simp only [hoffset, byteLength_append]
    omega
  · simp only [hoffset, byteLength_append, hbyte]
    omega
  · rw [htext]
    simp only [List.append_assoc]

end Newlines

/-- **Tokens tile their source.** The stream ends with the end of the source,
which is no other token; every other token covers at least one byte, between
boundaries of characters, and the tokens stand in order without overlapping.
The bytes of every gap are those of blanks, comments up to the end of a line,
and continuations; and the byte of a line end is in a token for it, in a string,
in an error that starts like a string, or in a continuation. -/
theorem tokens_tile_source (source : String) (h : source.utf8ByteSize ≤ Span.limit) :
    ∃ tokens, stream source = tokens ++ [⟨.eof, Span.point source.utf8ByteSize⟩] ∧
      (∀ t ∈ tokens, t.kind ≠ .eof ∧ t.span.start < t.span.stop ∧
        t.span.stop ≤ source.utf8ByteSize ∧ (String.Pos.Raw.mk t.span.start).IsValid source ∧
        (String.Pos.Raw.mk t.span.stop).IsValid source) ∧
      (tokens.Pairwise fun t u => t.span.start < u.span.start ∧ t.span.stop ≤ u.span.start) ∧
      (∀ gap ∈ gaps 0 (stream source), ∃ g rest, gap.Covers 0 source.toList g rest ∧
        source.toUTF8.extract gap.start gap.stop = (String.ofList g).toUTF8 ∧ Gap g rest) ∧
      ∀ i, source.toUTF8.data[i]? = some 10 →
        (∃ t ∈ tokens, t.span.Holds i ∧ t.CanHoldNewline source.toList) ∨
          ∃ gap ∈ gaps 0 (stream source), gap.ContinuesAt source.toList i := by
  have hsize : 0 + byteLength source.toList = source.utf8ByteSize := by
    rw [Nat.zero_add, byteLength_toList]
  have hmunched : Munched 0 source.toList (stream source) :=
    munched_streamFrom 0 source.toList (hsize.trans_le h)
  obtain ⟨tokens, hstream, hinit, hpairwise⟩ := hmunched.ordered
  rw [hsize] at hstream hinit
  have hmem : ∀ t ∈ tokens, t ∈ stream source := fun t ht =>
    hstream ▸ List.mem_append_left _ ht
  refine ⟨tokens, hstream, fun t ht => ?_, ?_, fun gap hgap => ?_, fun i hi => ?_⟩
  · obtain ⟨hkind, _, hpos, hstop⟩ := hinit t ht
    obtain ⟨w, rest, hcovers, _⟩ := hmunched.covers t (hmem t ht) hkind
    exact ⟨hkind, hpos, hstop, hcovers.isValid⟩
  · refine hpairwise.imp_of_mem fun ht _ hle => ⟨?_, hle⟩
    exact Nat.lt_of_lt_of_le (hinit _ ht).2.2.1 hle
  · obtain ⟨g, rest, hcovers, hg⟩ := hmunched.gap_covers gap hgap
    exact ⟨g, rest, hcovers, hcovers.extract, hg⟩
  · rw [← Array.getElem?_toList, data_toUTF8] at hi
    obtain ⟨before, after, hsource, rfl⟩ := exists_newline hi
    have hlt : byteLength before < source.utf8ByteSize := by
      have hpos := byteLength_pos (List.cons_ne_nil '\n' after)
      rw [← hsize, hsource, byteLength_append]
      omega
    obtain ⟨t, ht, hholds⟩ | ⟨gap, hgap, hholds⟩ :=
      holds_or_gap tokens ⟨.eof, Span.point source.utf8ByteSize⟩ (Nat.zero_le _) hlt
    · exact Or.inl ⟨t, ht, hholds,
        hmunched.canHoldNewline hsource (hmem t ht) (hinit t ht).1 hholds⟩
    · rw [← hstream] at hgap
      obtain ⟨g, rest, hcovers, hg⟩ := hmunched.gap_covers gap hgap
      exact Or.inr ⟨gap, hgap, hg.continuesAt hcovers hsource hholds⟩

/-- A source with a line end of each sort: after a comment, in a continuation
and in an unfinished string. -/
theorem line_ends_are_tiled :
    "é\t# ü\n\\ \x0d\n'\n".utf8ByteSize ≤ Span.limit ∧
    (∀ gap ∈ [(⟨0, 0⟩ : Span), ⟨2, 7⟩, ⟨8, 12⟩, ⟨14, 14⟩],
      ∃ g rest, gap.Covers 0 "é\t# ü\n\\ \x0d\n'\n".toList g rest ∧ Gap g rest) ∧
    ∀ i ∈ [7, 11, 13], (∃ t ∈ stream "é\t# ü\n\\ \x0d\n'\n", t.span.Holds i) ∨
      ∃ gap ∈ [(⟨0, 0⟩ : Span), ⟨2, 7⟩, ⟨8, 12⟩, ⟨14, 14⟩],
        gap.ContinuesAt "é\t# ü\n\\ \x0d\n'\n".toList i := by
  have hgaps : gaps 0 (stream "é\t# ü\n\\ \x0d\n'\n") = [⟨0, 0⟩, ⟨2, 7⟩, ⟨8, 12⟩, ⟨14, 14⟩] := by
    decide +kernel
  have hbytes : ∀ i ∈ [7, 11, 13],
      "é\t# ü\n\\ \x0d\n'\n".toUTF8.data[i]? = some 10 := by decide +kernel
  obtain ⟨tokens, hstream, _, _, hcovers, hnewline⟩ :=
    tokens_tile_source "é\t# ü\n\\ \x0d\n'\n" (by decide)
  rw [hgaps] at hcovers hnewline
  refine ⟨by decide, fun gap hgap => ?_, fun i hi => ?_⟩
  · obtain ⟨g, rest, h, _, hg⟩ := hcovers gap hgap
    exact ⟨g, rest, h, hg⟩
  · refine (hnewline i (hbytes i hi)).imp_left ?_
    rintro ⟨t, ht, hholds, _⟩
    exact ⟨t, hstream ▸ List.mem_append_left _ ht, hholds⟩

end Garnet
