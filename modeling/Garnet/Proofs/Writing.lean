import Garnet.Proofs.Munch
import Garnet.Token.Stream

/-!
# Writing tokens

Every kind of token that a source can stand for can be written: a number in
decimal, a text between quotes with a backslash before each character that would
end it, everything else as it is. Written one after the other with a space
between them, kinds of tokens are read back as they were
(`kinds_of_written`).

Two facts carry the proof. A space ends every rule but those of comments,
continuations and strings, and a string ends at its closing quote, so what is
written is the longest match at its place (`longest_of_space`). And what is
between the quotes means the text that was written (`cookSingle_protect`,
`cookDouble_protect`).
-/

namespace Garnet

open Computability Lexeme Token

/-! ## How a kind is written -/

/-- **A text with a backslash** before each quote and before each backslash. -/
def protect (quote : Char) (s : List Char) : List Char :=
  s.flatMap fun c => if c = quote ∨ c = '\\' then ['\\', c] else [c]

/-- A text between quotes. -/
def betweenQuotes (quote : Char) (s : String) : String :=
  String.ofList (quote :: (protect quote s.toList ++ [quote]))

namespace Token.Kind

/-- **How a kind is written.** -/
def written : Kind → String
  | int n => toString n
  | string s => betweenQuotes '\x27' s
  | interpolated s => betweenQuotes '\x22' s
  | symbol s => ":" ++ s
  | global s => "$" ++ s
  | ident s | constant s => s
  | keyword k => k.spelling
  | mark m => m.spelling
  | newline => "\n"
  | float _ | error | eof => ""

/-- **Whether a kind can be written**: it is no floating-point number, no error
and not the end of a source, and its name is one. -/
def IsWritable : Kind → Prop
  | symbol s => s.toList ∈ oneOf isNameStart * Rule.markedRest
  | global s =>
    s.toList ∈ oneOf isNameStart * Rule.nameRest
      + oneOf fun c => c == ':' || c == '\x22' || c == '0'
  | ident s => s.toList ∈ Rule.ident.language ∧ ∀ k : Keyword, k.spelling ≠ s
  | constant s => s.toList ∈ Rule.constant.language
  | float _ | error | eof => False
  | _ => True

end Token.Kind

/-! ## Strings -/

section Strings

variable {quote c : Char} {s : List Char}

theorem protect_cons (quote c : Char) (s : List Char) :
    protect quote (c :: s) =
      if c = quote ∨ c = '\\' then '\\' :: c :: protect quote s else c :: protect quote s := by
  unfold protect
  rw [List.flatMap_cons]
  split <;> rfl

/-- What is protected can stand between the quotes. -/
theorem protect_mem_items (hquote : quote ≠ '\n') (s : List Char) :
    protect quote s ∈ (Rule.item quote)∗ := by
  induction s with
  | nil => exact Language.nil_mem_kstar _
  | cons c s ih =>
    rw [protect_cons]
    split
    · next hc =>
      refine Rule.escape_mem_items ?_ ih
      obtain rfl | rfl := hc
      · exact hquote
      · decide
    · next hc => exact Rule.char_mem_items (fun h => hc (Or.inl h)) (fun h => hc (Or.inr h)) ih

/-- **Items between quotes** are a string literal. -/
theorem quoted_of_items {u : List Char} (hu : u ∈ (Rule.item quote)∗) :
    quote :: (u ++ [quote]) ∈ Rule.quoted quote ∧ (quote :: (u ++ [quote])).tail.dropLast = u := by
  refine ⟨mem_oneOf_mul.mpr ⟨quote, _, beq_self_eq_true quote, ?_, rfl⟩, ?_⟩
  · exact Language.append_mem_mul hu ⟨quote, beq_self_eq_true quote, rfl⟩
  · rw [List.tail_cons, List.dropLast_concat]

theorem cookDouble_cons (h : c ≠ '\\') :
    Literal.cookDouble (c :: s) = c :: Literal.cookDouble s := by
  rw [Literal.cookDouble]
  · exact fun hc _ => h hc
  · exact fun _ _ hc _ => h hc

theorem cookSingle_cons (h : c ≠ '\\') :
    Literal.cookSingle (c :: s) = c :: Literal.cookSingle s := by
  rw [Literal.cookSingle]
  · exact fun _ hc _ => h hc
  · exact fun _ hc _ => h hc

/-- **What is protected between double quotes** means itself. -/
theorem cookDouble_protect (s : List Char) : Literal.cookDouble (protect '\x22' s) = s := by
  induction s with
  | nil => rfl
  | cons c s ih =>
    rw [protect_cons]
    split
    · next hc =>
      rw [Literal.cookDouble, ih]
      obtain rfl | rfl := hc <;> rfl
    · next hc => rw [cookDouble_cons fun h => hc (Or.inr h), ih]

/-- **What is protected between single quotes** means itself. -/
theorem cookSingle_protect (s : List Char) : Literal.cookSingle (protect '\x27' s) = s := by
  induction s with
  | nil => rfl
  | cons c s ih =>
    rw [protect_cons]
    split
    · next hc => obtain rfl | rfl := hc <;> rw [Literal.cookSingle, ih]
    · next hc => rw [cookSingle_cons fun h => hc (Or.inr h), ih]

end Strings

/-! ## Integers -/

/-- The digits of a number denote it. -/
theorem digitsValue_toDigits (n : Nat) : Float64.digitsValue (Nat.toDigits 10 n) = n :=
  Nat.ofDigitChars_eq_foldl.symm.trans Nat.ofDigitChars_ten_toDigits

theorem isDigit_of_mem_toDigits {n : Nat} {c : Char} (h : c ∈ Nat.toDigits 10 n) :
    c.isDigit = true :=
  Nat.isDigit_of_mem_toDigits (by decide) (by decide) h

theorem toDigits_mem_digits (n : Nat) : Nat.toDigits 10 n ∈ Rule.digits := by
  refine (mem_oneOf_mul_star fun _ => isDigitPart_of_isDigit).mpr ⟨?_, fun c hc =>
    isDigitPart_of_isDigit (isDigit_of_mem_toDigits hc)⟩
  cases h : Nat.toDigits 10 n with
  | nil => exact absurd h Nat.toDigits_ne_nil
  | cons c s => exact isDigit_of_mem_toDigits (h ▸ List.mem_cons_self)

/-- **An integer in decimal** is a literal that denotes it. -/
theorem toString_mem_int (n : Int) :
    (toString n).toList ∈ Rule.int.language ∧ denotedInt (toString n).toList = n := by
  have hfilter : ∀ m, (Nat.toDigits 10 m).filter Char.isDigit = Nat.toDigits 10 m := fun m =>
    List.filter_eq_self.mpr fun c hc => isDigit_of_mem_toDigits hc
  rw [Int.toString_eq_repr, Int.repr_eq_if]
  split
  · next hn =>
    rw [Nat.toList_repr]
    refine ⟨Language.mem_mul.mpr ⟨[], Or.inl rfl, _, toDigits_mem_digits _, rfl⟩, ?_⟩
    unfold denotedInt
    dsimp only
    split
    · next r hr =>
      have hminus := isDigit_of_mem_toDigits (hr ▸ List.mem_cons_self)
      cases hminus
    · rw [hfilter, digitsValue_toDigits]
      exact Int.toNat_of_nonneg hn
  · next hn =>
    rw [String.toList_append, Nat.toList_repr]
    refine ⟨Language.mem_mul.mpr ⟨['-'], Or.inr rfl, _, toDigits_mem_digits _, rfl⟩, ?_⟩
    change -(Float64.digitsValue ((Nat.toDigits 10 (-n).toNat).filter Char.isDigit) : Int) = n
    rw [hfilter, digitsValue_toDigits]
    omega

/-! ## What is written is taken -/

/-- **A match ends** in front of a character that is in no longer one; strings end
at their closing quotes in any case. -/
theorem longest_of_stop {r : Rule} {w rest : List Char} (hw : w ∈ r.language)
    (hr : r ≠ Rule.comment ∧ r ≠ Rule.continuation)
    (hstop : ∀ (q : Rule) (v : List Char) (x : Char), q.group = r.group →
      (q ≠ Rule.comment ∧ q ≠ Rule.continuation ∧ q ≠ Rule.newline ∧ q ≠ Rule.singleQuoted ∧
        q ≠ Rule.doubleQuoted) →
      v ∈ q.language → v <+: w ++ rest → rest.head? = some x → ¬ w ++ [x] <+: v) :
    Longest Rule.matched w rest where
  mem := Rule.mem_matched.mpr ⟨r, hw⟩
  le v hv h := by
    obtain ⟨q, hq⟩ := Rule.mem_matched.mp hv
    have hsame : q.group = r.group := Rule.group_eq_of_begins hq hw h (List.prefix_append _ _)
    have hquoted : ∀ quote, quote ≠ '\\' → r.language = Rule.quoted quote →
        q.language = Rule.quoted quote → v.length ≤ w.length := by
      intro quote hquote hlanguage hlanguage'
      rw [hlanguage] at hw
      rw [hlanguage'] at hq
      exact Nat.le_of_eq (length_eq_of_quoted hquote hw hq (List.prefix_append _ _) h)
    have hends : (q ≠ Rule.comment ∧ q ≠ Rule.continuation ∧ q ≠ Rule.newline ∧
        q ≠ Rule.singleQuoted ∧ q ≠ Rule.doubleQuoted) → v.length ≤ w.length := by
      intro hkind
      by_contra hlt
      cases rest with
      | nil => exact hlt (by simpa using h.length_le)
      | cons x rest =>
        have hbegins : w ++ [x] <+: v :=
          List.prefix_of_prefix_length_le ⟨rest, by simp⟩ h (by simp at hlt ⊢; omega)
        exact hstop q v x hsame hkind hq h rfl hbegins
    cases q with
    | comment => exact absurd (Rule.eq_of_group hsame.symm (by simp)) hr.1
    | continuation => exact absurd (Rule.eq_of_group hsame.symm (by simp)) hr.2
    | newline =>
      obtain rfl := mem_exactly.mp hq
      obtain ⟨c, u, rfl, _⟩ := Rule.group_of_mem hw
      exact Nat.succ_le_succ (Nat.zero_le _)
    | singleQuoted =>
      obtain rfl := Rule.eq_of_group hsame.symm (by simp)
      exact hquoted '\x27' (by decide) rfl rfl
    | doubleQuoted =>
      obtain rfl := Rule.eq_of_group hsame.symm (by simp)
      exact hquoted '\x22' (by decide) rfl rfl
    | _ => exact hends (by simp)

/-- **A space ends a match**, unless it is one of a comment or of a
continuation. -/
theorem longest_of_space {r : Rule} {w rest : List Char} (hw : w ∈ r.language)
    (hr : r ≠ Rule.comment ∧ r ≠ Rule.continuation) (hrest : rest = [] ∨ rest.head? = some ' ') :
    Longest Rule.matched w rest := by
  refine longest_of_stop hw hr fun q v x _ hkind hv _ hx hbegins => ?_
  obtain rfl : x = ' ' := by
    obtain rfl | hspace := hrest
    · cases hx
    · exact Option.some.inj (hx.symm.trans hspace)
  have hmem : ' ' ∈ v := hbegins.subset (List.mem_append_right _ List.mem_cons_self)
  exact Rule.avoids_language rfl hkind v hv hmem

namespace Token.Kind

/-- A text between quotes is a string literal, and stands for the text. -/
theorem betweenQuotes_mem (quote : Char) (hquote : quote ≠ '\n') (s : String) :
    (betweenQuotes quote s).toList ∈ Rule.quoted quote ∧
      (betweenQuotes quote s).toList.tail.dropLast = protect quote s.toList := by
  rw [betweenQuotes, String.toList_ofList]
  exact quoted_of_items (protect_mem_items hquote s.toList)

/-- **A rule decides what is written** and makes of it what was written. -/
theorem exists_rule {k : Kind} (h : k.IsWritable) : ∃ r : Rule,
    (r ≠ Rule.comment ∧ r ≠ Rule.continuation) ∧ r.Decides k.written.toList ∧
      r.Makes k.written.toList (some k) := by
  cases k with
  | int n =>
    obtain ⟨hmem, hvalue⟩ := toString_mem_int n.toInt
    exact ⟨.int, by simp, ⟨hmem, by simp⟩, .int hvalue.symm⟩
  | string s =>
    obtain ⟨hmem, hbody⟩ := betweenQuotes_mem '\x27' (by decide) s
    have hmakes := Rule.Makes.singleQuoted (w := (betweenQuotes '\x27' s).toList)
    rw [hbody, cookSingle_protect, String.ofList_toList] at hmakes
    exact ⟨.singleQuoted, by simp, ⟨hmem, by simp⟩, hmakes⟩
  | interpolated s =>
    obtain ⟨hmem, hbody⟩ := betweenQuotes_mem '\x22' (by decide) s
    have hmakes := Rule.Makes.doubleQuoted (w := (betweenQuotes '\x22' s).toList)
    rw [hbody, cookDouble_protect, String.ofList_toList] at hmakes
    exact ⟨.doubleQuoted, by simp, ⟨hmem, by simp⟩, hmakes⟩
  | symbol s =>
    have hwritten : (written (symbol s)).toList = ':' :: s.toList := String.toList_append
    have hmakes := Rule.Makes.symbol (w := ':' :: s.toList)
    rw [List.tail_cons, String.ofList_toList] at hmakes
    rw [hwritten]
    exact ⟨.symbol, by simp, ⟨mem_exactly_mul.mpr ⟨_, h, rfl⟩, by simp⟩, hmakes⟩
  | global s =>
    have hwritten : (written (global s)).toList = '$' :: s.toList := String.toList_append
    have hmakes := Rule.Makes.global (w := '$' :: s.toList)
    rw [List.tail_cons, String.ofList_toList] at hmakes
    rw [hwritten]
    exact ⟨.global, by simp, ⟨mem_exactly_mul.mpr ⟨_, h, rfl⟩, by simp⟩, hmakes⟩
  | ident s =>
    have hmakes := Rule.Makes.ident (w := s.toList)
    rw [String.ofList_toList] at hmakes
    refine ⟨.ident, by simp, ⟨h.1, fun _ k hk => h.2 k ?_⟩, hmakes⟩
    exact String.toList_inj.mp (mem_exactly.mp hk).symm
  | constant s =>
    have hmakes := Rule.Makes.constant (w := s.toList)
    rw [String.ofList_toList] at hmakes
    exact ⟨.constant, by simp, ⟨h, by simp⟩, hmakes⟩
  | keyword k => exact ⟨.keyword k, by simp, ⟨rfl, by simp⟩, .keyword⟩
  | mark m => exact ⟨.mark m, by simp, ⟨rfl, by simp⟩, .mark⟩
  | newline => exact ⟨.newline, by simp, ⟨rfl, by simp⟩, .newline⟩
  | float | error | eof => exact h.elim

/-- **What is written is taken**, where a space or nothing follows. -/
theorem munch_written {k : Kind} (h : k.IsWritable) (rest : List Char)
    (hrest : rest = [] ∨ rest.head? = some ' ') : Munch k.written.toList rest (some k) := by
  obtain ⟨r, hr, hdecides, hmakes⟩ := exists_rule h
  exact .matched (longest_of_space hdecides.mem hr hrest) hdecides hmakes

end Token.Kind

/-! ## What is written is read back -/

namespace Token

/-- The kinds of the tokens of a text. -/
def kinds (text : List Char) : List Kind :=
  (streamFrom 0 text).map Token.kind

/-- Kinds do not depend on where a text starts. -/
theorem map_kind_streamFrom (offset : Nat) (text : List Char) :
    (streamFrom offset text).map Token.kind = kinds text := by
  have hany : ∀ offset', (streamFrom offset text).map Token.kind
      = (streamFrom offset' text).map Token.kind := by
    fun_induction streamFrom offset text with
    | case1 =>
      intro offset'
      rw [streamFrom]
      rfl
    | case2 offset c cs lexeme stop rest kind hkind ih =>
      intro offset'
      rw [streamFrom]
      have hread : (Lexeme.read c cs).kind = some kind := hkind
      rw [hread]
      exact congrArg (kind :: ·) (ih _)
    | case3 offset c cs lexeme stop rest hkind ih =>
      intro offset'
      rw [streamFrom]
      have hread : (Lexeme.read c cs).kind = none := hkind
      rw [hread]
      exact ih _
  exact hany 0

theorem kinds_nil : kinds [] = [.eof] := by
  rw [kinds, streamFrom]
  rfl

theorem kinds_cons (c : Char) (cs : List Char) :
    kinds (c :: cs) = (read c cs).kind.toList ++ kinds (cs.drop (read c cs).more) := by
  rw [kinds, streamFrom]
  cases hkind : (read c cs).kind with
  | some kind => exact congrArg (kind :: ·) (map_kind_streamFrom _ _)
  | none => exact map_kind_streamFrom _ _

/-- Blanks at the head of a text make no token. -/
theorem kinds_dropWhile (text : List Char) : kinds (text.dropWhile isBlank) = kinds text := by
  cases text with
  | nil => rfl
  | cons c cs =>
    cases hc : isBlank c with
    | false => rw [List.dropWhile_cons_of_neg (Bool.eq_false_iff.mp hc)]
    | true =>
      have hread : read c cs = ⟨none, (cs.takeWhile isBlank).length⟩ := if_pos hc
      rw [List.dropWhile_cons_of_pos hc, kinds_cons, hread]
      exact congrArg kinds (drop_length_takeWhile cs).symm

theorem kinds_blank {c : Char} (hc : isBlank c = true) (text : List Char) :
    kinds (c :: text) = kinds text := by
  rw [← kinds_dropWhile (c :: text), List.dropWhile_cons_of_pos hc, kinds_dropWhile]

/-- **What is taken from a text makes its first token**, or none. -/
theorem kinds_append {w rest : List Char} {k : Option Kind} (h : Munch w rest k) :
    kinds (w ++ rest) = k.toList ++ kinds rest := by
  cases w with
  | nil => exact absurd rfl h.ne_nil
  | cons c u =>
    cases hblank : isBlank c with
    | true =>
      have hskip : Munch [c] (u ++ rest) none := .of_isBlank hblank _
      obtain ⟨hw, _⟩ := hskip.text_unique h rfl
      obtain rfl : u = [] := (List.cons.inj hw).2.symm
      rw [← hskip.kind_unique h]
      exact kinds_blank hblank _
    | false =>
      have hread : Munch _ _ (read c (u ++ rest)).kind := munches_read c (u ++ rest) hblank
      have htext : c :: u ++ rest = c :: (u ++ rest).take (read c (u ++ rest)).more
          ++ (u ++ rest).drop (read c (u ++ rest)).more := by
        rw [List.cons_append, List.cons_append, List.take_append_drop]
      obtain ⟨hw, hrest⟩ := h.text_unique hread htext
      rw [← hw, ← hrest] at hread
      rw [List.cons_append, kinds_cons, ← hrest, ← h.kind_unique hread]

end Token

/-- **Kinds of tokens that are written with spaces between them are read
back.** -/
theorem kinds_of_written (ks : List Kind) (h : ∀ k ∈ ks, k.IsWritable) :
    (stream (" ".intercalate (ks.map Kind.written))).map Token.kind = ks ++ [.eof] := by
  change kinds (" ".intercalate (ks.map Kind.written)).toList = ks ++ [.eof]
  induction ks with
  | nil => exact kinds_nil
  | cons k ks ih =>
    rw [List.forall_mem_cons] at h
    have ih := ih h.2
    cases ks with
    | nil =>
      have hmunch : Munch k.written.toList [] (some k) := Kind.munch_written h.1 [] (Or.inl rfl)
      have hk := kinds_append hmunch
      rw [List.append_nil, kinds_nil] at hk
      rw [List.map_singleton, String.intercalate_singleton, hk]
      rfl
    | cons l ks =>
      have hmunch := Kind.munch_written h.1
        (' ' :: (" ".intercalate ((l :: ks).map Kind.written)).toList) (Or.inr rfl)
      have htext : (" ".intercalate ((k :: l :: ks).map Kind.written)).toList = k.written.toList
          ++ ' ' :: (" ".intercalate ((l :: ks).map Kind.written)).toList := by
        rw [List.map_cons, List.map_cons, String.intercalate_cons_cons, String.append_assoc,
          String.toList_append, String.toList_append]
        rfl
      rw [htext, kinds_append hmunch, kinds_blank rfl, ih]
      rfl

/-- Payloads that look like the end of their token, or like another token. -/
theorem awkward_kinds_are_read_back :
    (∀ k ∈ [Kind.int Int64.minValue, .string "'\\n#\n", .interpolated "\x22\\\\e", .global "\x22",
      .symbol "if?", .ident "end_", .newline, .mark .less, .mark .less], k.IsWritable) ∧
    (stream "-9223372036854775808 '\\'\\\\n#\n' \x22\\\x22\\\\\\\\e\x22 $\x22 :if? end_ \n < <").map
      Token.kind =
        [Kind.int Int64.minValue, .string "'\\n#\n", .interpolated "\x22\\\\e", .global "\x22",
          .symbol "if?", .ident "end_", .newline, .mark .less, .mark .less] ++ [.eof] := by
  have hrest {v : List Char} (hv : v.all isNamePart = true) :=
    mem_oneOf_star.mpr (List.all_eq_true.mp hv)
  have hsymbol : "if?".toList ∈ oneOf isNameStart * Rule.markedRest :=
    mem_oneOf_mul.mpr ⟨'i', ['f', '?'], by decide, Language.mem_mul.mpr
      ⟨['f'], hrest (by decide), ['?'], Or.inr ⟨'?', by decide, rfl⟩, rfl⟩, rfl⟩
  have hident : "end_".toList ∈ Rule.ident.language :=
    mem_oneOf_mul.mpr ⟨'e', ['n', 'd', '_'], by decide, Language.mem_mul.mpr
      ⟨['n', 'd', '_'], hrest (by decide), [], Or.inl rfl, rfl⟩, rfl⟩
  have hkeyword : ∀ k : Keyword, k.spelling ≠ "end_" := fun k => by cases k <;> decide
  have hwritable : ∀ k ∈ [Kind.int Int64.minValue, .string "'\\n#\n", .interpolated "\x22\\\\e",
      .global "\x22", .symbol "if?", .ident "end_", .newline, .mark .less, .mark .less],
      k.IsWritable := by
    simp only [List.forall_mem_cons]
    exact ⟨trivial, trivial, trivial, Or.inr ⟨'\x22', by decide, rfl⟩, hsymbol,
      ⟨hident, hkeyword⟩, trivial, trivial, trivial, List.forall_mem_nil _⟩
  exact ⟨hwritable, kinds_of_written _ hwritable⟩

end Garnet
