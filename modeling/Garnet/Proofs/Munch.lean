import Garnet.Proofs.Decimals

/-!
# Maximal munch

The lexer takes the longest beginning of a text that a lexical rule matches.
`Munch` says what that means, with the rules alone: what is taken where a rule
matches, what is skipped, and what is an error. It leaves no choice
(`Munch.unique`), and the lexeme that is read at the head of a text is what it
asks for (`Lexeme.munches_read`).

To compare all rules at once is to compare those of one group: the first
character of a text tells which group that is (`Rule.group_of_mem`). So there is
one lemma for each group, by the function that reads its lexemes.
-/

namespace Garnet

open Computability Lexeme

namespace Rule

/-- **The texts that some rule matches.** -/
def matched : Language Char :=
  ⨆ r : Rule, r.language

/-- The beginnings of a string literal that lack the closing quote. -/
def begun (quote : Char) : Language Char :=
  oneOf (· == quote) * (item quote)∗

/-- **What can be an error** where no rule matches anything: a character, and
what stands there of a rule that has begun. -/
def unfinished : Language Char :=
  oneOf (fun c => !isBlank c) + begun '\x27' + begun '\x22'
    + exactly "\\" * (oneOf fun c => c == ' ' || c == '\t')∗

/-- **An error by its first character.** -/
theorem cons_mem_unfinished {c : Char} {v : List Char} :
    c :: v ∈ unfinished ↔ (isBlank c = false ∧ v = []) ∨
      ((c = '\x27' ∨ c = '\x22') ∧ v ∈ (item c)∗) ∨
      (c = '\\' ∧ ∀ d ∈ v, (d == ' ' || d == '\t') = true) := by
  have hbegun : ∀ q, c :: v ∈ begun q ↔ c = q ∧ v ∈ (item q)∗ := by
    intro q
    unfold begun
    rw [mem_oneOf_mul]
    simp [and_comm]
  unfold unfinished
  rw [Language.mem_add, Language.mem_add, Language.mem_add, hbegun, hbegun, mem_exactly_mul,
    mem_oneOf]
  simp only [mem_oneOf_star, Bool.not_eq_true']
  constructor
  · rintro (((⟨d, hd, heq⟩ | ⟨rfl, hv⟩) | ⟨rfl, hv⟩) | ⟨u, hu, heq⟩)
    · obtain ⟨rfl, rfl⟩ := List.cons.inj heq
      exact Or.inl ⟨hd, rfl⟩
    · exact Or.inr (Or.inl ⟨Or.inl rfl, hv⟩)
    · exact Or.inr (Or.inl ⟨Or.inr rfl, hv⟩)
    · obtain ⟨rfl, rfl⟩ := List.cons.inj heq
      exact Or.inr (Or.inr ⟨rfl, hu⟩)
  · rintro (⟨hd, rfl⟩ | ⟨rfl | rfl, hv⟩ | ⟨rfl, hv⟩)
    · exact Or.inl (Or.inl (Or.inl ⟨c, hd, rfl⟩))
    · exact Or.inl (Or.inl (Or.inr ⟨rfl, hv⟩))
    · exact Or.inl (Or.inr ⟨rfl, hv⟩)
    · exact Or.inr ⟨v, hv, rfl⟩

theorem mem_matched {w : List Char} : w ∈ matched ↔ ∃ r : Rule, w ∈ r.language :=
  Language.mem_iSup

end Rule

open Rule

/-- **What is taken from the head of the text `w ++ rest`**: `w`, and the token
that it makes, or none where it is skipped. -/
inductive Munch (w rest : List Char) : Option Token.Kind → Prop
  /-- The longest text that a rule matches, and what the rule makes of it. -/
  | matched {r : Rule} {k : Option Token.Kind} (longest : Longest matched w rest)
      (decides : r.Decides w) (makes : r.Makes w k) : Munch w rest k
  /-- A blank where no rule matches anything is skipped. -/
  | blank {c : Char} (unmatched : ∀ v ∈ matched, ¬ v <+: w ++ rest) (single : w = [c])
      (isBlank : isBlank c = true) : Munch w rest none
  /-- Anything else where no rule matches anything is an error. -/
  | unmatched (unmatched : ∀ v ∈ matched, ¬ v <+: w ++ rest)
      (longest : Longest unfinished w rest) : Munch w rest (some .error)

/-! ## The rules of a first character -/

namespace Rule

variable {c : Char} {cs : List Char} {n : Nat}

/-- A text matched at the head of `c :: cs` belongs to the group of `c`. -/
theorem of_begins {v : List Char} (hv : v ∈ matched) (h : v <+: c :: cs) :
    ∃ (r : Rule) (u : List Char), group? c = some r.group ∧ v = c :: u ∧ c :: u ∈ r.language
      ∧ u <+: cs := by
  obtain ⟨r, hr⟩ := mem_matched.mp hv
  obtain ⟨d, u, rfl, hgroup⟩ := group_of_mem hr
  obtain ⟨rfl, hu⟩ := List.cons_prefix_cons.mp h
  exact ⟨r, u, hgroup, rfl, hr, hu⟩

/-- Matches at the head of a text belong to one group. -/
theorem group_eq_of_begins {r q : Rule} {w v text : List Char} (hw : w ∈ r.language)
    (hv : v ∈ q.language) (hwt : w <+: text) (hvt : v <+: text) : r.group = q.group := by
  obtain ⟨c, u, rfl, hr⟩ := group_of_mem hw
  obtain ⟨d, t, rfl, hq⟩ := group_of_mem hv
  obtain ⟨rest, rfl⟩ := hwt
  obtain rfl : d = c := (List.cons_prefix_cons.mp hvt).1
  exact Option.some.inj (hr.symm.trans hq)

/-- **The longest match** has to be compared with the rules of its group only. -/
theorem longest_matched {r : Rule} (hn : n ≤ cs.length) (hmem : c :: cs.take n ∈ r.language)
    (hle : ∀ q : Rule, q.group = r.group → ∀ v, c :: v ∈ q.language → v <+: cs → v.length ≤ n) :
    Longest matched (c :: cs.take n) (cs.drop n) where
  mem := mem_matched.mpr ⟨r, hmem⟩
  le v hv h := by
    rw [List.cons_append, List.take_append_drop] at h
    obtain ⟨q, u, _, rfl, hq, hu⟩ := of_begins hv h
    have hsame : q.group = r.group :=
      group_eq_of_begins hq hmem h (List.cons_prefix_cons.mpr ⟨rfl, List.take_prefix n cs⟩)
    simp only [List.length_cons, List.length_take]
    have := hle q hsame u hq hu
    omega

/-- **There is no match** where the rules of the group have none. -/
theorem not_matched (h : ∀ q : Rule, group? c = some q.group → ∀ v, c :: v ∈ q.language →
    ¬ v <+: cs) : ∀ v ∈ matched, ¬ v <+: c :: cs := by
  intro v hv hbegins
  obtain ⟨q, u, hgroup, rfl, hq, hu⟩ := of_begins hv hbegins
  exact h q hgroup u hq hu

end Rule

/-! ## What is taken is determined -/

namespace Rule

theorem nil_notMem_matched : [] ∉ matched := by
  intro h
  obtain ⟨r, hr⟩ := mem_matched.mp h
  obtain ⟨c, v, heq, _⟩ := group_of_mem hr
  cases heq

/-- An error does not start with a blank. -/
theorem exists_cons_of_unfinished {w : List Char} (h : w ∈ unfinished) :
    ∃ c v, w = c :: v ∧ isBlank c = false := by
  cases w with
  | nil =>
    obtain ((⟨_, _, h⟩ | h) | h) | h := h
    · cases h
    · obtain ⟨_, _, _, _, h⟩ := mem_oneOf_mul.mp h
      cases h
    · obtain ⟨_, _, _, _, h⟩ := mem_oneOf_mul.mp h
      cases h
    · obtain ⟨_, _, h⟩ := mem_exactly_mul.mp h
      cases h
  | cons c v =>
    refine ⟨c, v, rfl, ?_⟩
    obtain ⟨hc, _⟩ | ⟨rfl | rfl, _⟩ | ⟨rfl, _⟩ := cons_mem_unfinished.mp h
    · exact hc
    · rfl
    · rfl
    · rfl

end Rule

namespace Munch

variable {w rest v rest' : List Char} {k l : Option Token.Kind}

/-- Something is taken. -/
theorem ne_nil (h : Munch w rest k) : w ≠ [] := by
  rintro rfl
  cases h with
  | matched longest => exact nil_notMem_matched longest.mem
  | blank _ single => cases single
  | unmatched _ longest =>
    obtain ⟨_, _, heq, _⟩ := exists_cons_of_unfinished longest.mem
    cases heq

/-- A blank is skipped. -/
theorem of_isBlank {c : Char} (h : isBlank c = true) (rest : List Char) :
    Munch [c] rest none := by
  refine .blank (not_matched fun q hq => ?_) rfl h
  rw [group?_of_isBlank h] at hq
  cases hq

/-- **Where a text is cut is determined.** -/
theorem text_unique (h : Munch w rest k) (h' : Munch v rest' l) (heq : w ++ rest = v ++ rest') :
    w = v ∧ rest = rest' := by
  -- a match excludes that there is none, and a blank that there is an error
  have hmatch : ∀ {a b c d : List Char}, Longest Rule.matched a b →
      a ++ b = c ++ d → ¬ ∀ u ∈ Rule.matched, ¬ u <+: c ++ d := fun {_ b _ _} ha heq hnone =>
    hnone _ ha.mem ⟨b, heq⟩
  have hblank : ∀ {c : Char} {a b d : List Char}, isBlank c = true → Longest unfinished a b →
      a ++ b ≠ [c] ++ d := by
    intro c a b d hc ha heq
    obtain ⟨e, u, rfl, he⟩ := exists_cons_of_unfinished ha.mem
    rw [(List.cons.inj heq).1, hc] at he
    cases he
  cases h with
  | matched longest =>
    cases h' with
    | matched longest' =>
      exact longest.unique longest' heq
    | blank unmatched | unmatched unmatched => exact absurd unmatched (hmatch longest heq)
  | blank unmatched single isBlank =>
    cases h' with
    | matched longest' =>
      exact absurd unmatched (hmatch longest' heq.symm)
    | blank _ single' _ =>
      subst single single'
      obtain ⟨rfl, rfl⟩ := List.cons.inj heq
      exact ⟨rfl, rfl⟩
    | unmatched _ longest' =>
      subst single
      exact absurd heq.symm (hblank isBlank longest')
  | unmatched unmatched longest =>
    cases h' with
    | matched longest' =>
      exact absurd unmatched (hmatch longest' heq.symm)
    | blank _ single' isBlank =>
      subst single'
      exact absurd heq (hblank isBlank longest)
    | unmatched _ longest' => exact longest.unique longest' heq

/-- **What a text makes is determined.** -/
theorem kind_unique (h : Munch w rest k) (h' : Munch w rest l) : k = l := by
  have hself : w <+: w ++ rest := List.prefix_append w rest
  cases h with
  | matched longest decides makes =>
    cases h' with
    | matched _ decides' makes' =>
      obtain rfl := decides.unique decides'
      exact makes.unique makes'
    | blank unmatched | unmatched unmatched => exact absurd hself (unmatched w longest.mem)
  | blank unmatched single isBlank =>
    cases h' with
    | matched longest => exact absurd hself (unmatched w longest.mem)
    | blank => rfl
    | unmatched _ longest =>
      obtain ⟨c, v, rfl, hc⟩ := exists_cons_of_unfinished longest.mem
      rw [(List.cons.inj single).1, isBlank] at hc
      cases hc
  | unmatched unmatched longest =>
    cases h' with
    | matched longest' => exact absurd hself (unmatched w longest'.mem)
    | blank _ single isBlank =>
      obtain ⟨c, v, rfl, hc⟩ := exists_cons_of_unfinished longest.mem
      rw [(List.cons.inj single).1, isBlank] at hc
      cases hc
    | unmatched => rfl

end Munch

/-! ## The lexeme of each rule -/

namespace Lexeme

/-- **A lexeme is what is taken** from the head of the text `c :: cs`. -/
def Munches (l : Lexeme) (c : Char) (cs : List Char) : Prop :=
  Munch (c :: cs.take l.more) (cs.drop l.more) l.kind

variable {c : Char} {cs : List Char} {n : Nat}

/-- **What a rule makes**, where no rule of the same group matches more. -/
theorem munches_of_rule (r : Rule) (hr : r ≠ Rule.ident) {k : Option Token.Kind}
    (hn : n ≤ cs.length) (hmem : c :: cs.take n ∈ r.language)
    (hmakes : r.Makes (c :: cs.take n) k)
    (hle : ∀ q : Rule, q.group = r.group → ∀ v, c :: v ∈ q.language → v <+: cs → v.length ≤ n) :
    Munches ⟨k, n⟩ c cs :=
  .matched (longest_matched hn hmem hle) ⟨hmem, fun h => absurd h hr⟩ hmakes

/-- **What is an error**: what stands there of a rule that has begun, where no
rule matches anything. -/
theorem munches_unfinished (hn : n ≤ cs.length)
    (h : ∀ q : Rule, group? c = some q.group → ∀ v, c :: v ∈ q.language → ¬ v <+: cs)
    (hmem : c :: cs.take n ∈ unfinished)
    (hle : ∀ v, c :: v ∈ unfinished → v <+: cs → v.length ≤ n) :
    Munches ⟨some .error, n⟩ c cs := by
  have htext : c :: cs.take n ++ cs.drop n = c :: cs := by
    rw [List.cons_append, List.take_append_drop]
  refine .unmatched ?_ ⟨hmem, ?_⟩
  · dsimp only
    rw [htext]
    exact not_matched h
  · intro v hv hbegins
    dsimp only at hbegins ⊢
    rw [htext] at hbegins
    rw [List.length_cons, List.length_take, Nat.min_eq_left hn]
    cases v with
    | nil => exact Nat.zero_le _
    | cons d v =>
      obtain ⟨rfl, hrest⟩ := List.cons_prefix_cons.mp hbegins
      exact Nat.succ_le_succ (hle v hv hrest)

/-- An error of one character. -/
theorem munches_error (hquotes : c ≠ '\x27' ∧ c ≠ '\x22' ∧ c ≠ '\\') (hblank : isBlank c = false)
    (h : ∀ q : Rule, group? c = some q.group → ∀ v, c :: v ∈ q.language → ¬ v <+: cs) :
    Munches ⟨some .error, 0⟩ c cs := by
  refine munches_unfinished (Nat.zero_le _) h (cons_mem_unfinished.mpr (Or.inl ⟨hblank, rfl⟩)) ?_
  intro v hv _
  obtain ⟨_, rfl⟩ | ⟨rfl | rfl, _⟩ | ⟨rfl, _⟩ := cons_mem_unfinished.mp hv
  · exact Nat.le_refl 0
  · exact absurd rfl hquotes.1
  · exact absurd rfl hquotes.2.1
  · exact absurd rfl hquotes.2.2

/-- The end of a line. -/
theorem munches_newline : Munches ⟨some .newline, 0⟩ '\n' cs := by
  refine munches_of_rule Rule.newline (by simp) (Nat.zero_le _) rfl .newline ?_
  intro q hq v hv _
  cases q with
  | newline => exact Nat.le_of_eq (congrArg List.length (List.cons.inj hv).2)
  | _ => cases hq

/-- A mark of one character. -/
theorem munches_mark {m : Mark} (hspelling : m.spelling.toList = [c])
    (hshift : c = '<' → cs.head? ≠ some '<') : Munches ⟨some (.mark m), 0⟩ c cs := by
  refine munches_of_rule (Rule.mark m) (by simp) (Nat.zero_le _) hspelling.symm .mark ?_
  intro q hq v hv hbegins
  cases q with
  | mark m' =>
    cases m' with
    | shiftLeft =>
      obtain ⟨rfl, rfl⟩ := List.cons.inj hv
      obtain ⟨t, rfl⟩ := hbegins
      exact absurd rfl (hshift rfl)
    | _ => exact Nat.le_of_eq (congrArg List.length (List.cons.inj hv).2)
  | _ => cases hq

/-- The shift. -/
theorem munches_shiftLeft (h : cs.head? = some '<') :
    Munches ⟨some (.mark .shiftLeft), 1⟩ '<' cs := by
  cases cs with
  | nil => cases h
  | cons d cs =>
    obtain rfl := Option.some.inj h
    refine munches_of_rule (Rule.mark .shiftLeft) (by simp) (by simp) rfl .mark ?_
    intro q hq v hv _
    cases q with
    | mark m' =>
      have hlength : v.length + 1 = m'.spelling.toList.length := congrArg List.length hv
      have hshort : m'.spelling.toList.length ≤ 2 := by cases m' <;> decide
      omega
    | _ => cases hq

/-- A comment. -/
theorem munches_comment :
    Munches ⟨none, (cs.takeWhile (· != '\n')).length⟩ '#' cs := by
  have hmeasures := measures_takeWhile (· != '\n')
  refine munches_of_rule Rule.comment (by simp) (hmeasures.bound cs) ?_ .comment ?_
  · exact mem_exactly_mul.mpr ⟨_, hmeasures.mem_of_nil (Language.nil_mem_kstar _) cs, rfl⟩
  intro q hq v hv hbegins
  cases q with
  | comment =>
    obtain ⟨u, hu, heq⟩ := mem_exactly_mul.mp hv
    obtain rfl := (List.cons.inj heq).2
    exact hmeasures.le cs _ hu hbegins
  | _ => cases hq

/-! ### Names -/

/-- A constant. -/
theorem munches_constant (hc : c.isUpper = true) : Munches (constant c cs) c cs := by
  refine munches_of_rule Rule.constant (by simp) (measures_nameLength.bound cs) ?_ .constant ?_
  · exact mem_oneOf_mul.mpr
      ⟨c, _, hc, measures_nameLength.mem_of_nil nil_mem_nameRest cs, rfl⟩
  intro q hq v hv hbegins
  cases q with
  | constant =>
    obtain ⟨_, u, _, hu, heq⟩ := mem_oneOf_mul.mp hv
    obtain rfl := (List.cons.inj heq).2
    exact measures_nameLength.le cs _ hu hbegins
  | _ => cases hq

/-- A keyword could be an identifier. -/
theorem keyword_le_ident (k : Keyword) : (Rule.keyword k).language ≤ Rule.ident.language := by
  intro w hw
  obtain rfl := mem_exactly.mp hw
  have hname : ∀ (c : Char) (v : List Char), (c.isLower || c == '_') = true →
      v.all isNamePart = true → c :: v ∈ Rule.ident.language := fun c v hc hv =>
    mem_oneOf_mul.mpr ⟨c, v, hc, Language.mem_mul.mpr
      ⟨v, mem_oneOf_star.mpr (List.all_eq_true.mp hv), [], Or.inl rfl, List.append_nil v⟩, rfl⟩
  cases k <;> exact hname _ _ (by decide) (by decide)

/-- A keyword is found by its spelling only. -/
theorem spelling_of_ofSpelling? {s : String} {k : Keyword} (h : Keyword.ofSpelling? s = some k) :
    k.spelling = s :=
  beq_iff_eq.mp (List.find?_some (p := fun k : Keyword => k.spelling == s) h)

/-- A keyword or an identifier. -/
theorem munches_word (hc : (c.isLower || c == '_') = true) : Munches (word c cs) c cs := by
  have hident : c :: cs.take (markedLength cs) ∈ Rule.ident.language :=
    mem_oneOf_mul.mpr ⟨c, _, hc, measures_markedLength.mem_of_nil nil_mem_markedRest cs, rfl⟩
  have hle : ∀ q : Rule, q.group = .word → ∀ v, c :: v ∈ q.language → v <+: cs →
      v.length ≤ markedLength cs := by
    intro q hq v hv hbegins
    have hident : c :: v ∈ Rule.ident.language := by
      cases q with
      | keyword k => exact keyword_le_ident k hv
      | ident => exact hv
      | _ => cases hq
    obtain ⟨_, u, _, hu, heq⟩ := mem_oneOf_mul.mp hident
    obtain rfl := (List.cons.inj heq).2
    exact measures_markedLength.le cs _ hu hbegins
  unfold word
  dsimp only
  split
  · next k hk =>
    have hspelling := spelling_of_ofSpelling? hk
    refine munches_of_rule (Rule.keyword k) (by simp) (measures_markedLength.bound cs) ?_ .keyword
      hle
    rw [Rule.language, mem_exactly, hspelling, String.toList_ofList]
  · next hnone =>
    refine .matched (longest_matched (measures_markedLength.bound cs) hident hle)
      ⟨hident, ?_⟩ .ident
    intro _ k hk
    have hspelling : k.spelling = String.ofList (c :: cs.take (markedLength cs)) :=
      String.toList_inj.mp (by rw [String.toList_ofList]; exact hk.symm)
    rw [← hspelling, ofSpelling?_spelling] at hnone
    cases hnone

/-- A text that does not start a name starts no symbol. -/
theorem not_symbol (h : cs.head?.any isNameStart = false) (q : Rule)
    (hq : group? ':' = some q.group) (v : List Char) (hv : ':' :: v ∈ q.language) :
    ¬ v <+: cs := by
  rintro ⟨t, rfl⟩
  cases q with
  | symbol =>
    obtain ⟨u, hu, heq⟩ := mem_exactly_mul.mp hv
    obtain rfl := (List.cons.inj heq).2
    obtain ⟨d, u, hd, _, rfl⟩ := mem_oneOf_mul.mp hu
    exact Bool.noConfusion (hd.symm.trans h)
  | _ => cases hq

/-- A symbol. -/
theorem munches_symbol : Munches (symbol cs) ':' cs := by
  have herror : cs.head?.any isNameStart = false → Munches ⟨some .error, 0⟩ ':' cs :=
    fun h => munches_error (by decide) (by decide) (not_symbol h)
  cases cs with
  | nil => exact herror rfl
  | cons c r =>
    unfold symbol
    dsimp only
    split
    · next hc =>
      have hbound := measures_markedLength.bound r
      refine munches_of_rule Rule.symbol (by simp) (Nat.succ_le_succ hbound) ?_ .symbol ?_
      · exact mem_exactly_mul.mpr ⟨_, mem_oneOf_mul.mpr
          ⟨c, _, hc, measures_markedLength.mem_of_nil nil_mem_markedRest r, rfl⟩, rfl⟩
      intro q hq v hv hbegins
      cases q with
      | symbol =>
        obtain ⟨u, hu, heq⟩ := mem_exactly_mul.mp hv
        obtain rfl := (List.cons.inj heq).2
        obtain ⟨d, w, _, hw, rfl⟩ := mem_oneOf_mul.mp hu
        exact Nat.succ_le_succ
          (measures_markedLength.le r w hw (List.cons_prefix_cons.mp hbegins).2)
      | _ => cases hq
    · next hc => exact herror (Bool.eq_false_iff.mpr hc)

/-- A text that starts neither a name nor one of the special names starts no
global variable. -/
theorem not_global (h : cs.head?.any
      (fun c => isNameStart c || (c == ':' || c == '\x22' || c == '0')) = false) (q : Rule)
    (hq : group? '$' = some q.group) (v : List Char) (hv : '$' :: v ∈ q.language) :
    ¬ v <+: cs := by
  rintro ⟨t, rfl⟩
  cases q with
  | global =>
    obtain ⟨u, hu, heq⟩ := mem_exactly_mul.mp hv
    obtain rfl := (List.cons.inj heq).2
    obtain hu | ⟨d, hd, rfl⟩ := hu
    · obtain ⟨d, u, hd, _, rfl⟩ := mem_oneOf_mul.mp hu
      rw [List.cons_append, List.head?_cons, Option.any_some, hd] at h
      cases h
    · have hspecial : (d == ':' || d == '\x22' || d == '0') = true := hd
      rw [List.cons_append, List.head?_cons, Option.any_some, hspecial, Bool.or_true] at h
      cases h
  | _ => cases hq

/-- A global variable. -/
theorem munches_global : Munches (global cs) '$' cs := by
  have herror : cs.head?.any
      (fun c => isNameStart c || (c == ':' || c == '\x22' || c == '0')) = false →
      Munches ⟨some .error, 0⟩ '$' cs :=
    fun h => munches_error (by decide) (by decide) (not_global h)
  cases cs with
  | nil => exact herror rfl
  | cons c r =>
    unfold global
    dsimp only
    split
    · next hc =>
      have hbound := measures_nameLength.bound r
      refine munches_of_rule Rule.global (by simp) (Nat.succ_le_succ hbound) ?_ .global ?_
      · exact mem_exactly_mul.mpr ⟨_, Or.inl (mem_oneOf_mul.mpr
          ⟨c, _, hc, measures_nameLength.mem_of_nil nil_mem_nameRest r, rfl⟩), rfl⟩
      intro q hq v hv hbegins
      cases q with
      | global =>
        obtain ⟨u, hu, heq⟩ := mem_exactly_mul.mp hv
        obtain rfl := (List.cons.inj heq).2
        obtain hu | ⟨d, hd, rfl⟩ := hu
        · obtain ⟨d, w, _, hw, rfl⟩ := mem_oneOf_mul.mp hu
          exact Nat.succ_le_succ
            (measures_nameLength.le r w hw (List.cons_prefix_cons.mp hbegins).2)
        · exact Nat.succ_le_succ (Nat.zero_le _)
      | _ => cases hq
    · next hc =>
      split
      · next hspecial =>
        refine munches_of_rule Rule.global (by simp) (Nat.succ_le_succ (Nat.zero_le _)) ?_
          .global ?_
        · exact mem_exactly_mul.mpr ⟨_, Or.inr ⟨c, hspecial, rfl⟩, rfl⟩
        intro q hq v hv hbegins
        cases q with
        | global =>
          obtain ⟨u, hu, heq⟩ := mem_exactly_mul.mp hv
          obtain rfl := (List.cons.inj heq).2
          obtain hu | ⟨d, hd, rfl⟩ := hu
          · obtain ⟨d, w, hd, _, rfl⟩ := mem_oneOf_mul.mp hu
            rw [(List.cons_prefix_cons.mp hbegins).1] at hd
            exact absurd hd hc
          · exact Nat.le_refl 1
        | _ => cases hq
      · next hspecial =>
        refine herror ?_
        rw [List.head?_cons, Option.any_some, Bool.eq_false_iff.mpr hc,
          Bool.eq_false_iff.mpr hspecial]
        rfl

/-! ### Numbers -/

/-- What starts a number goes on with digits and underscores. -/
theorem startsNumber_takeWhile (h : startsNumber c cs = true) :
    startsNumber c (cs.takeWhile isDigitPart) = true := by
  unfold startsNumber at h ⊢
  rw [Bool.or_eq_true] at h ⊢
  refine h.imp id fun h => ?_
  rw [Bool.and_eq_true] at h ⊢
  refine ⟨h.1, ?_⟩
  cases cs with
  | nil => cases h.2
  | cons d cs =>
    rw [List.takeWhile_cons_of_pos (isDigitPart_of_isDigit h.2)]
    exact h.2

theorem startsNumber_of_begins {v : List Char} (h : startsNumber c v = true) (hv : v <+: cs) :
    startsNumber c cs = true := by
  obtain ⟨t, rfl⟩ := hv
  unfold startsNumber at h ⊢
  rw [Bool.or_eq_true] at h ⊢
  refine h.imp id fun h => ?_
  rw [Bool.and_eq_true] at h ⊢
  refine ⟨h.1, ?_⟩
  cases v with
  | nil => cases h.2
  | cons d v => exact h.2

/-- The digits of a number. -/
theorem mem_int_takeWhile (h : startsNumber c cs = true) :
    c :: cs.take (cs.takeWhile isDigitPart).length ∈ Rule.int.language := by
  rw [take_length_takeWhile]
  exact mem_int.mpr ⟨c, _, startsNumber_takeWhile h, forall_takeWhile cs, rfl⟩

/-- **A floating-point literal** consists of digits and a fraction, and its
digits are all those that stand there. -/
theorem float_begins {v : List Char} (hv : c :: v ∈ Rule.float.language) (h : v <+: cs) :
    startsNumber c cs = true ∧ ∃ f ∈ Rule.fraction, v.length =
      (cs.takeWhile isDigitPart).length + f.length
        ∧ f <+: cs.drop (cs.takeWhile isDigitPart).length := by
  obtain ⟨a, ha, f, hf, heq⟩ := Language.mem_mul.mp hv
  obtain ⟨_, u, hstart, hu, rfl⟩ := mem_int.mp ha
  obtain ⟨rfl, rfl⟩ := List.cons.inj heq
  obtain ⟨g, _, rfl⟩ := mem_exactly_mul.mp hf
  obtain ⟨hrun, hrest⟩ := takeWhile_of_begins (c := '.') (t := g) hu (by decide) h
  have hu := startsNumber_of_begins hstart ((List.prefix_append u _).trans h)
  refine ⟨hu, _, hf, ?_, ?_⟩
  · rw [hrun]
    exact List.length_append
  · rw [hrun]
    exact hrest

/-- A minus sign that no digit follows starts no number. -/
theorem not_number (h : startsNumber '-' cs = false) (q : Rule)
    (hq : group? '-' = some q.group) (v : List Char) (hv : '-' :: v ∈ q.language) :
    ¬ v <+: cs := by
  intro hbegins
  cases q with
  | int =>
    obtain ⟨_, u, hstart, _, heq⟩ := mem_int.mp hv
    obtain ⟨rfl, rfl⟩ := List.cons.inj heq
    exact Bool.noConfusion (h.symm.trans (startsNumber_of_begins hstart hbegins))
  | float => exact Bool.noConfusion (h.symm.trans (float_begins hv hbegins).1)
  | _ => cases hq

/-- An integer literal makes a token, or is an error. -/
theorem munch_int {w rest : List Char} (hw : Longest matched w rest)
    (hint : w ∈ Rule.int.language) : Munch w rest (some (intKind w)) := by
  unfold intKind
  dsimp only
  split
  · next hrange =>
    refine .matched hw (r := Rule.int) ⟨hint, by simp⟩ (.int ?_)
    exact Int64.toInt_ofInt_of_le hrange.1 (Int.lt_add_one_iff.mpr hrange.2)
  · next hrange => exact .matched hw (r := Rule.int) ⟨hint, by simp⟩ (.outOfRange hrange)

/-- A floating-point literal makes a token. -/
theorem munch_float {w rest : List Char} (hw : Longest matched w rest)
    (hfloat : w ∈ Rule.float.language) : Munch w rest (some (floatKind w)) := by
  obtain ⟨x, hx⟩ := exists_value hfloat
  have hkind : floatKind w = .float x := by
    unfold floatKind
    change Float64.ofText? (String.ofList (w.filter (· != '_'))) = some x at hx
    rw [hx]
  rw [hkind]
  exact .matched hw (r := Rule.float) ⟨hfloat, by simp⟩ (.float hx)

/-- A number. -/
theorem munches_number (hc : startsNumber c cs = true) : Munches (number c cs) c cs := by
  have hdigits := mem_int_takeWhile hc
  have hrun := measures_takeWhile isDigitPart
  have hbound := hrun.bound cs
  have hint : ∀ v, c :: v ∈ Rule.int.language → v <+: cs →
      v.length ≤ (cs.takeWhile isDigitPart).length := by
    intro v hv hbegins
    obtain ⟨_, u, _, hu, heq⟩ := mem_int.mp hv
    obtain ⟨rfl, rfl⟩ := List.cons.inj heq
    exact hrun.le cs v (mem_oneOf_star.mpr hu) hbegins
  have hfloat : ∀ v, c :: v ∈ Rule.float.language → v <+: cs → v.length ≤
      (cs.takeWhile isDigitPart).length
        + fractionLength (cs.drop (cs.takeWhile isDigitPart).length) ∧
      fractionLength (cs.drop (cs.takeWhile isDigitPart).length) ≠ 0 := by
    intro v hv hbegins
    obtain ⟨_, f, hf, hlength, hbegins⟩ := float_begins hv hbegins
    have hle := measures_fractionLength.le _ f hf hbegins
    have hpos : f.length ≠ 0 := by
      obtain ⟨g, _, rfl⟩ := mem_exactly_mul.mp hf
      exact Nat.succ_ne_zero _
    omega
  unfold number
  dsimp only
  split
  · next hzero =>
    refine munch_int (longest_matched (r := Rule.int) hbound hdigits ?_) hdigits
    intro q hq v hv hbegins
    cases q with
    | int => exact hint v hv hbegins
    | float => exact absurd hzero (hfloat v hv hbegins).2
    | _ => cases hq
  · next hpos =>
    have hfraction := measures_fractionLength.bound (cs.drop (cs.takeWhile isDigitPart).length)
    rw [List.length_drop] at hfraction
    have hmem : c :: cs.take ((cs.takeWhile isDigitPart).length
        + fractionLength (cs.drop (cs.takeWhile isDigitPart).length)) ∈ Rule.float.language := by
      rw [List.take_add]
      exact Language.append_mem_mul hdigits (measures_fractionLength.mem _ hpos)
    have hle : (cs.takeWhile isDigitPart).length
        + fractionLength (cs.drop (cs.takeWhile isDigitPart).length) ≤ cs.length := by omega
    refine munch_float (longest_matched (r := Rule.float) hle hmem ?_) hmem
    intro q hq v hv hbegins
    cases q with
    | int => exact Nat.le_add_right_of_le (hint v hv hbegins)
    | float => exact (hfloat v hv hbegins).1
    | _ => cases hq

/-! ### Strings -/

/-- **A string literal ends where its items end.** -/
theorem stringLength_of_begins {q : Char} {v : List Char} (hq : q ≠ '\\')
    (hv : q :: v ∈ quoted q) (h : v <+: cs) :
    ∃ b, v = b ++ [q] ∧ stringLength q cs = (b.length, true) := by
  obtain ⟨t, rfl⟩ := h
  obtain ⟨_, u, _, hu, heq⟩ := mem_oneOf_mul.mp hv
  obtain ⟨rfl, rfl⟩ := List.cons.inj heq
  obtain ⟨b, hb, _, ⟨d, hd, rfl⟩, rfl⟩ := Language.mem_mul.mp hu
  obtain rfl := beq_iff_eq.mp hd
  refine ⟨b, rfl, ?_⟩
  rw [List.append_assoc]
  exact stringLength_closed t hq hb

/-- **A string literal says itself where it ends**: those that a text starts with
are equally long. -/
theorem length_eq_of_quoted {q : Char} {w v text : List Char} (hq : q ≠ '\\') (hw : w ∈ quoted q)
    (hv : v ∈ quoted q) (hwt : w <+: text) (hvt : v <+: text) : v.length = w.length := by
  obtain ⟨_, u, hd, _, rfl⟩ := mem_oneOf_mul.mp hw
  obtain ⟨_, t, he, _, rfl⟩ := mem_oneOf_mul.mp hv
  obtain rfl := beq_iff_eq.mp hd
  obtain rfl := beq_iff_eq.mp he
  obtain ⟨rest, rfl⟩ := hwt
  obtain ⟨b, rfl, hb⟩ := stringLength_of_begins hq hw (List.prefix_append u rest)
  obtain ⟨b', rfl, hb'⟩ := stringLength_of_begins hq hv (List.cons_prefix_cons.mp hvt).2
  have hlength : b'.length = b.length := congrArg Prod.fst (hb'.symm.trans hb)
  simp [hlength]

/-- **A string literal**, or its beginning. -/
theorem munches_string {q : Char} (r : Rule) (kind : List Char → Token.Kind)
    (hq : q = '\x27' ∨ q = '\x22') (hr : r ≠ Rule.ident) (hlanguage : r.language = quoted q)
    (hfirst : group? q = some r.group) (hgroup : ∀ p : Rule, p.group = r.group → p = r)
    (hmakes : ∀ w, r.Makes w (some (kind w.tail.dropLast))) : Munches (string q kind cs) q cs := by
  have hquote : q ≠ '\\' := by
    rintro rfl
    simp at hq
  have hitems := (measures_stringLength q).mem_of_nil (Language.nil_mem_kstar _) cs
  have hbound := (measures_stringLength q).bound cs
  unfold string
  split
  · next n hlength =>
    obtain ⟨t, ht⟩ := drop_stringLength (q := q) (s := cs) (congrArg Prod.snd hlength)
    rw [hlength] at ht hitems
    have htake : cs.take (n + 1) = cs.take n ++ [q] := by
      rw [List.take_add, ht]
      rfl
    have hlt := congrArg List.length ht
    rw [List.length_drop, List.length_cons] at hlt
    have hbody : (q :: cs.take (n + 1)).tail.dropLast = cs.take n := by
      rw [htake, List.tail_cons, List.dropLast_concat]
    have hmem : q :: cs.take (n + 1) ∈ r.language := by
      rw [hlanguage, htake]
      exact mem_oneOf_mul.mpr ⟨q, _, beq_self_eq_true q, Language.append_mem_mul hitems
        ⟨q, beq_self_eq_true q, rfl⟩, rfl⟩
    refine munches_of_rule r hr (by omega) hmem (hbody ▸ hmakes _) ?_
    intro p hp v hv hbegins
    rw [hgroup p hp, hlanguage] at hv
    obtain ⟨b, rfl, hb⟩ := stringLength_of_begins hquote hv hbegins
    rw [hlength] at hb
    rw [List.length_append, (Prod.mk.inj hb).1]
    exact Nat.le_refl _
  · next n hlength =>
    rw [hlength] at hitems hbound
    refine munches_unfinished hbound ?_ (cons_mem_unfinished.mpr (Or.inr (Or.inl ⟨hq, hitems⟩))) ?_
    · intro p hp v hv hbegins
      rw [hfirst] at hp
      rw [hgroup p (Option.some.inj hp).symm, hlanguage] at hv
      obtain ⟨b, _, hb⟩ := stringLength_of_begins hquote hv hbegins
      rw [hlength] at hb
      cases hb
    · intro v hv hbegins
      obtain ⟨_, rfl⟩ | ⟨_, hv⟩ | ⟨h, _⟩ := cons_mem_unfinished.mp hv
      · exact Nat.zero_le _
      · have hle := (measures_stringLength q).le cs v hv hbegins
        rw [hlength] at hle
        exact hle
      · exact absurd h hquote

/-! ### Continuations -/

/-- The characters between a backslash and the end of the line. -/
def blankRun (cs : List Char) : List Char :=
  cs.takeWhile fun c => c == ' ' || c == '\t'

/-- **A continuation** ends with the line. -/
theorem continuation_begins {v : List Char} (hv : '\\' :: v ∈ Rule.continuation.language)
    (h : v <+: cs) :
    (∃ t, cs.drop (blankRun cs).length = '\n' :: t ∧ v.length = (blankRun cs).length + 1) ∨
      ∃ t, cs.drop (blankRun cs).length = '\r' :: '\n' :: t ∧
        v.length = (blankRun cs).length + 2 := by
  obtain ⟨u, hu, heq⟩ := mem_exactly_mul.mp hv
  obtain rfl := (List.cons.inj heq).2
  obtain ⟨b, hb, e, he, rfl⟩ := Language.mem_mul.mp hu
  obtain ⟨r, hr, n, rfl, rfl⟩ := Language.mem_mul.mp he
  have hb := mem_oneOf_star.mp hb
  obtain rfl | rfl := hr
  · obtain ⟨hrun, t, ht⟩ := takeWhile_of_begins (c := '\n') (t := []) hb (by decide) h
    refine Or.inl ⟨t, ?_, ?_⟩
    · rw [blankRun, hrun, ← ht]
      rfl
    · rw [blankRun, hrun]
      simp
  · obtain ⟨hrun, t, ht⟩ := takeWhile_of_begins (c := '\r') (t := ['\n']) hb (by decide) h
    refine Or.inr ⟨t, ?_, ?_⟩
    · rw [blankRun, hrun, ← ht]
      rfl
    · rw [blankRun, hrun]
      simp

/-- The end of a line after blanks makes a continuation. -/
theorem mem_continuation {r : List Char} (hr : r ∈ optional (exactly "\x0d")) {t : List Char}
    (h : cs.drop (blankRun cs).length = r ++ '\n' :: t) :
    '\\' :: cs.take ((blankRun cs).length + (r.length + 1)) ∈ Rule.continuation.language := by
  rw [List.take_add, h, blankRun, take_length_takeWhile]
  refine mem_exactly_mul.mpr ⟨_, Language.append_mem_mul
    (mem_oneOf_star.mpr (forall_takeWhile cs)) (Language.mem_mul.mpr ⟨r, hr, _, rfl, ?_⟩), rfl⟩
  rw [List.take_append]
  simp

/-- A backslash. -/
theorem munches_continuation : Munches (continuation cs) '\\' cs := by
  have hblanks : ∀ d ∈ blankRun cs, (d == ' ' || d == '\t') = true := forall_takeWhile cs
  have hrun := measures_takeWhile (fun c : Char => c == ' ' || c == '\t')
  have hbound : (blankRun cs).length ≤ cs.length := hrun.bound cs
  have hrest : (cs.takeWhile fun c => c == ' ' || c == '\t') = blankRun cs := rfl
  unfold continuation
  rw [hrest]
  dsimp only
  split
  · next t ht =>
    have hlt := congrArg List.length ht
    rw [List.length_drop, List.length_cons] at hlt
    refine munches_of_rule Rule.continuation (by simp) (by omega)
      (mem_continuation (Or.inl rfl) ht) .continuation ?_
    intro q hq v hv hbegins
    cases q with
    | continuation =>
      obtain ⟨_, _, hlength⟩ | ⟨_, hdrop, _⟩ := continuation_begins hv hbegins
      · exact Nat.le_of_eq hlength
      · rw [hdrop] at ht
        cases ht
    | _ => cases hq
  · next t ht =>
    have hlt := congrArg List.length ht
    rw [List.length_drop, List.length_cons, List.length_cons] at hlt
    refine munches_of_rule Rule.continuation (by simp) (by omega)
      (mem_continuation (Or.inr rfl) ht) .continuation ?_
    intro q hq v hv hbegins
    cases q with
    | continuation =>
      obtain ⟨_, hdrop, _⟩ | ⟨_, _, hlength⟩ := continuation_begins hv hbegins
      · rw [hdrop] at ht
        cases ht
      · exact Nat.le_of_eq hlength
    | _ => cases hq
  · next hnewline hreturn =>
    refine munches_unfinished hbound ?_ (cons_mem_unfinished.mpr (Or.inr (Or.inr ⟨rfl, ?_⟩))) ?_
    · intro q hq v hv hbegins
      cases q with
      | continuation =>
        obtain ⟨t, hdrop, _⟩ | ⟨t, hdrop, _⟩ := continuation_begins hv hbegins
        · exact hnewline t hdrop
        · exact hreturn t hdrop
      | _ => cases hq
    · rw [blankRun, take_length_takeWhile]
      exact hblanks
    · intro v hv hbegins
      obtain ⟨_, rfl⟩ | ⟨h, _⟩ | ⟨_, hv⟩ := cons_mem_unfinished.mp hv
      · exact Nat.zero_le _
      · simp at h
      · exact hrun.le cs v (mem_oneOf_star.mpr hv) hbegins

/-! ### All lexemes -/

/-- **The lexeme at the head of a text is what is taken from it**, unless it
consists of blanks. -/
theorem munches_read (c : Char) (cs : List Char) (hblank : isBlank c = false) :
    Munches (read c cs) c cs := by
  unfold read
  rw [if_neg (Bool.eq_false_iff.mp hblank)]
  split
  · next hc => exact munches_number hc
  next hnumber =>
  split
  · next hc => exact munches_word hc
  next hword =>
  split
  · next hc => exact munches_constant hc
  next hconstant =>
  split
  · exact munches_newline
  · exact munches_comment
  · exact munches_continuation
  · exact munches_mark rfl fun h => absurd h (by decide)
  · exact munches_mark rfl fun h => absurd h (by decide)
  · exact munches_mark rfl fun h => absurd h (by decide)
  · exact munches_mark rfl fun h => absurd h (by decide)
  · exact munches_mark rfl fun h => absurd h (by decide)
  · exact munches_mark rfl fun h => absurd h (by decide)
  · split
    · next h => exact munches_shiftLeft h
    · next h => exact munches_mark rfl fun _ => h
  · exact munches_symbol
  · exact munches_global
  · exact munches_string Rule.singleQuoted _ (Or.inl rfl) (by simp) rfl rfl
      (fun p hp => Rule.eq_of_group hp (by simp)) fun _ => .singleQuoted
  · exact munches_string Rule.doubleQuoted _ (Or.inr rfl) (by simp) rfl rfl
      (fun p hp => Rule.eq_of_group hp (by simp)) fun _ => .doubleQuoted
  · by_cases hminus : c = '-'
    · subst hminus
      exact munches_error (by decide) hblank (not_number (Bool.eq_false_iff.mpr hnumber))
    have hdigit : ¬ (c.isDigit || c == '-') = true := by
      intro h
      rw [Bool.or_eq_true, beq_iff_eq] at h
      exact hnumber (Bool.or_eq_true _ _ ▸ Or.inl (h.resolve_right hminus))
    -- what is left starts no rule
    have hnone : group? c = none := by
      unfold group?
      rw [if_neg hdigit, if_neg hword, if_neg hconstant]
      split <;> first | rfl | contradiction
    refine munches_error ⟨‹_›, ‹_›, ‹_›⟩ hblank fun q hq => ?_
    rw [hnone] at hq
    cases hq

end Lexeme

end Garnet
