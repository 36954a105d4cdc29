import Garnet.Token.Lexeme
import Mathlib

/-!
# The lexical rules

What a token can look like is said by rules, each of which is a language over
the characters: it matches the texts of the language. The languages are built
from classes of characters (`oneOf`) and fixed texts (`exactly`) by
concatenation, choice and repetition, which are the operations `*`, `+` and
`∗` of `Language`.

A rule does not say where a token ends – several rules can match texts that
stand at the same place, and one rule several of them. But what a text as a
whole is, is not left open: two rules match the same text only if one is that
of a keyword and the other one that of identifiers (`Rule.eq_of_mem`). With
keywords taken first, a text has at most one rule (`Rule.Decides.unique`), and
makes at most one token (`Rule.Makes.unique`).
-/

namespace Garnet

open Computability Lexeme

/-! ## Languages over characters -/

/-- The texts of one character with a property. -/
def oneOf (p : Char → Bool) : Language Char :=
  {w | ∃ c, p c = true ∧ w = [c]}

/-- A text, and no other one. -/
def exactly (s : String) : Language Char :=
  {s.toList}

/-- The texts of a language, and the empty one. -/
def optional (l : Language Char) : Language Char :=
  1 + l

section Membership

variable {p : Char → Bool} {s : String} {l : Language Char} {w : List Char}

@[simp] theorem mem_oneOf : w ∈ oneOf p ↔ ∃ c, p c = true ∧ w = [c] := Iff.rfl

@[simp] theorem mem_exactly : w ∈ exactly s ↔ w = s.toList := Iff.rfl

@[simp] theorem mem_optional : w ∈ optional l ↔ w = [] ∨ w ∈ l := Iff.rfl

@[simp] theorem mem_oneOf_mul : w ∈ oneOf p * l ↔ ∃ c v, p c = true ∧ v ∈ l ∧ w = c :: v := by
  rw [Language.mem_mul]
  constructor
  · rintro ⟨_, ⟨c, hc, rfl⟩, v, hv, rfl⟩
    exact ⟨c, v, hc, hv, rfl⟩
  · rintro ⟨c, v, hc, hv, rfl⟩
    exact ⟨[c], ⟨c, hc, rfl⟩, v, hv, rfl⟩

@[simp] theorem mem_exactly_mul : w ∈ exactly s * l ↔ ∃ v ∈ l, w = s.toList ++ v := by
  rw [Language.mem_mul]
  constructor
  · rintro ⟨_, rfl, v, hv, rfl⟩
    exact ⟨v, hv, rfl⟩
  · rintro ⟨v, hv, rfl⟩
    exact ⟨_, rfl, v, hv, rfl⟩

/-- **A repetition** is empty, or starts with a text that is repeated. -/
theorem mem_star : w ∈ l∗ ↔ w = [] ∨ w ∈ l * l∗ := by
  conv_lhs => rw [← Language.one_add_self_mul_kstar_eq_kstar]
  rfl

@[simp] theorem mem_oneOf_star : w ∈ (oneOf p)∗ ↔ ∀ c ∈ w, p c = true := by
  induction w with
  | nil => simp [Language.nil_mem_kstar]
  | cons c w ih =>
    rw [mem_star, mem_oneOf_mul, List.forall_mem_cons, ← ih]
    simp

end Membership

/-! ## The rules -/

/-- **The lexical rules.** -/
inductive Rule where
  /-- From a `#` to the end of the line. -/
  | comment
  /-- A backslash at the end of a line, which joins it with the next one. -/
  | continuation
  /-- The end of a line. -/
  | newline
  /-- A reserved word. -/
  | keyword (k : Keyword)
  /-- A mark. -/
  | mark (m : Mark)
  /-- An integer literal. -/
  | int
  /-- A floating-point literal. -/
  | float
  /-- A string between single quotes. -/
  | singleQuoted
  /-- A string between double quotes. -/
  | doubleQuoted
  /-- A symbol. -/
  | symbol
  /-- A global variable. -/
  | global
  /-- A name that starts with a small letter or an underscore. -/
  | ident
  /-- A name that starts with a capital letter. -/
  | constant

namespace Rule

/-- Digits, grouped by underscores. -/
def digits : Language Char :=
  oneOf Char.isDigit * (oneOf isDigitPart)∗

/-- The exponent of a floating-point literal. -/
def exponent : Language Char :=
  oneOf (fun c => c == 'e' || c == 'E') * (optional (oneOf fun c => c == '+' || c == '-')
    * (oneOf Char.isDigit * (oneOf Char.isDigit)∗))

/-- What follows the digits before the point of a floating-point literal. -/
def fraction : Language Char :=
  exactly "." * (digits * optional exponent)

/-- The characters of a name after its first one. -/
def nameRest : Language Char :=
  (oneOf isNamePart)∗

/-- The characters of a name after its first one, and the mark it may end
in. -/
def markedRest : Language Char :=
  nameRest * optional (oneOf isNameMark)

/-- **What a string literal consists of**: characters other than its quote and
the backslash, and backslashes each with a character of the same line. -/
def item (quote : Char) : Language Char :=
  oneOf (fun c => c != quote && c != '\\') + exactly "\\" * oneOf (· != '\n')

/-- The string literals between two quotes. -/
def quoted (quote : Char) : Language Char :=
  oneOf (· == quote) * ((item quote)∗ * oneOf (· == quote))

/-- **The texts that a rule matches.** -/
def language : Rule → Language Char
  | comment => exactly "#" * (oneOf (· != '\n'))∗
  | continuation =>
    exactly "\\" * ((oneOf fun c => c == ' ' || c == '\t')∗
      * (optional (exactly "\r") * exactly "\n"))
  | newline => exactly "\n"
  | keyword k => exactly k.spelling
  | mark m => exactly m.spelling
  | int => optional (exactly "-") * digits
  | float => optional (exactly "-") * digits * fraction
  | singleQuoted => quoted '\x27'
  | doubleQuoted => quoted '\x22'
  | symbol => exactly ":" * (oneOf isNameStart * markedRest)
  | global =>
    exactly "$" * (oneOf isNameStart * nameRest
      + oneOf fun c => c == ':' || c == '\x22' || c == '0')
  | ident => oneOf (fun c => c.isLower || c == '_') * markedRest
  | constant => oneOf Char.isUpper * nameRest

/-- **What a rule makes of a text that it matches**: a token, or none where the
text is skipped. An integer literal that has no value in 64 bits makes an
error. -/
inductive Makes : Rule → List Char → Option Token.Kind → Prop
  | comment {w} : Makes comment w none
  | continuation {w} : Makes continuation w none
  | newline {w} : Makes newline w (some .newline)
  | keyword {w k} : Makes (keyword k) w (some (.keyword k))
  | mark {w m} : Makes (mark m) w (some (.mark m))
  | int {w n} (value : n.toInt = denotedInt w) : Makes int w (some (.int n))
  | outOfRange {w}
    (range : ¬ (-9223372036854775808 ≤ denotedInt w ∧ denotedInt w ≤ 9223372036854775807)) :
    Makes int w (some .error)
  | float {w x} (value : Float64.ofText? (String.ofList (w.filter (· != '_'))) = some x) :
    Makes float w (some (.float x))
  | singleQuoted {w} :
    Makes singleQuoted w (some (.string (String.ofList (Literal.cookSingle w.tail.dropLast))))
  | doubleQuoted {w} :
    Makes doubleQuoted w
      (some (.interpolated (String.ofList (Literal.cookDouble w.tail.dropLast))))
  | symbol {w} : Makes symbol w (some (.symbol (String.ofList w.tail)))
  | global {w} : Makes global w (some (.global (String.ofList w.tail)))
  | ident {w} : Makes ident w (some (.ident (String.ofList w)))
  | constant {w} : Makes constant w (some (.constant (String.ofList w)))

/-- **Whether a rule decides what a text is**: it matches the text, and if it is
the rule of identifiers, the text is no keyword. -/
structure Decides (r : Rule) (w : List Char) : Prop where
  /-- The rule matches the text. -/
  mem : w ∈ r.language
  /-- A keyword is no identifier. -/
  not_keyword : r = ident → ∀ k, w ∉ (keyword k).language

/-! ## First characters -/

/-- **The groups of rules** that share their first characters. -/
inductive Group where
  | comment | continuation | newline | word | mark | number | singleQuoted | doubleQuoted
  | symbol | global | constant

/-- The group of a rule. -/
def group : Rule → Group
  | comment => .comment
  | continuation => .continuation
  | newline => .newline
  | keyword _ | ident => .word
  | mark _ => .mark
  | int | float => .number
  | singleQuoted => .singleQuoted
  | doubleQuoted => .doubleQuoted
  | symbol => .symbol
  | global => .global
  | constant => .constant

/-- **The group of the rules for texts that start with a character.** -/
def group? (c : Char) : Option Group :=
  if c.isDigit || c == '-' then some .number
  else if c.isLower || c == '_' then some .word
  else if c.isUpper then some .constant
  else
    match c with
    | '#' => some .comment
    | '\\' => some .continuation
    | '\n' => some .newline
    | '(' | ')' | ',' | '.' | '=' | ';' | '<' => some .mark
    | '\x27' => some .singleQuoted
    | '\x22' => some .doubleQuoted
    | ':' => some .symbol
    | '$' => some .global
    | _ => none

theorem group?_of_digit {c : Char} (h : c.isDigit = true) : group? c = some .number := by
  unfold group?
  rw [h]
  rfl

theorem group?_of_lower {c : Char} (h : (c.isLower || c == '_') = true) :
    group? c = some .word := by
  rw [Bool.or_eq_true, beq_iff_eq] at h
  obtain h | rfl := h
  · have hdigit : c.isDigit = false := by
      simp only [Char.isLower, Char.isDigit] at *
      grind
    have hminus : c ≠ '-' := fun hc => absurd (hc ▸ h) (by decide)
    unfold group?
    simp [hdigit, hminus, h]
  · rfl

theorem group?_of_upper {c : Char} (h : c.isUpper = true) : group? c = some .constant := by
  have hdigit : c.isDigit = false := by
    simp only [Char.isUpper, Char.isDigit] at *
    grind
  have hlower : c.isLower = false := by
    simp only [Char.isUpper, Char.isLower] at *
    grind
  have hminus : c ≠ '-' := fun hc => absurd (hc ▸ h) (by decide)
  have hunderscore : c ≠ '_' := fun hc => absurd (hc ▸ h) (by decide)
  unfold group?
  simp [hdigit, hminus, hlower, hunderscore, h]

/-- No rule starts with a blank. -/
theorem group?_of_isBlank {c : Char} (h : isBlank c = true) : group? c = none := by
  simp only [isBlank, Bool.or_eq_true, beq_iff_eq] at h
  obtain (rfl | rfl) | rfl := h <;> rfl

/-- **An integer literal** starts a number, and goes on with digits and
underscores. -/
theorem mem_int {w : List Char} :
    w ∈ int.language ↔
      ∃ c v, startsNumber c v = true ∧ (∀ d ∈ v, isDigitPart d = true) ∧ w = c :: v := by
  unfold startsNumber
  constructor
  · intro h
    obtain ⟨sign, hsign, u, hu, rfl⟩ := Language.mem_mul.mp h
    obtain ⟨d, v, hd, hv, rfl⟩ := mem_oneOf_mul.mp hu
    rw [mem_oneOf_star] at hv
    obtain rfl | rfl := hsign
    · exact ⟨d, v, by simp [hd], hv, rfl⟩
    · exact ⟨'-', d :: v, by simp [hd], by simpa [isDigitPart, hd] using hv, rfl⟩
  · rintro ⟨c, v, hc, hv, rfl⟩
    rw [Bool.or_eq_true, Bool.and_eq_true, beq_iff_eq] at hc
    obtain hc | ⟨rfl, hc⟩ := hc
    · refine Language.mem_mul.mpr ⟨[], Or.inl rfl, c :: v, ?_, rfl⟩
      exact mem_oneOf_mul.mpr ⟨c, v, hc, mem_oneOf_star.mpr hv, rfl⟩
    · cases v with
      | nil => cases hc
      | cons d v =>
        rw [List.forall_mem_cons] at hv
        refine Language.mem_mul.mpr ⟨['-'], Or.inr rfl, d :: v, ?_, rfl⟩
        exact mem_oneOf_mul.mpr ⟨d, v, hc, mem_oneOf_star.mpr hv.2, rfl⟩

/-- What starts a number belongs to numbers. -/
theorem group?_of_startsNumber {c : Char} {v : List Char} (h : startsNumber c v = true) :
    group? c = some .number := by
  unfold startsNumber at h
  rw [Bool.or_eq_true, Bool.and_eq_true, beq_iff_eq] at h
  obtain h | ⟨rfl, _⟩ := h
  · exact group?_of_digit h
  · rfl

/-- **No rule matches the empty text, and the first character of a text tells
the group of its rule.** -/
theorem group_of_mem {r : Rule} {w : List Char} (h : w ∈ r.language) :
    ∃ c v, w = c :: v ∧ group? c = some r.group := by
  cases r with
  | comment =>
    obtain ⟨v, _, rfl⟩ := mem_exactly_mul.mp h
    exact ⟨'#', v, rfl, rfl⟩
  | continuation =>
    obtain ⟨v, _, rfl⟩ := mem_exactly_mul.mp h
    exact ⟨'\\', v, rfl, rfl⟩
  | newline => exact ⟨'\n', [], h, rfl⟩
  | keyword k =>
    obtain rfl := mem_exactly.mp h
    cases k <;> exact ⟨_, _, rfl, rfl⟩
  | mark m =>
    obtain rfl := mem_exactly.mp h
    cases m <;> exact ⟨_, _, rfl, rfl⟩
  | int =>
    obtain ⟨c, v, hc, _, rfl⟩ := mem_int.mp h
    exact ⟨c, v, rfl, group?_of_startsNumber hc⟩
  | float =>
    obtain ⟨u, hu, v, _, rfl⟩ := Language.mem_mul.mp h
    obtain ⟨c, u, hc, _, rfl⟩ := mem_int.mp hu
    exact ⟨c, u ++ v, rfl, group?_of_startsNumber hc⟩
  | singleQuoted =>
    obtain ⟨c, v, hc, _, rfl⟩ := mem_oneOf_mul.mp h
    exact ⟨c, v, rfl, beq_iff_eq.mp hc ▸ rfl⟩
  | doubleQuoted =>
    obtain ⟨c, v, hc, _, rfl⟩ := mem_oneOf_mul.mp h
    exact ⟨c, v, rfl, beq_iff_eq.mp hc ▸ rfl⟩
  | symbol =>
    obtain ⟨v, _, rfl⟩ := mem_exactly_mul.mp h
    exact ⟨':', v, rfl, rfl⟩
  | global =>
    obtain ⟨v, _, rfl⟩ := mem_exactly_mul.mp h
    exact ⟨'$', v, rfl, rfl⟩
  | ident =>
    obtain ⟨c, v, hc, _, rfl⟩ := mem_oneOf_mul.mp h
    exact ⟨c, v, rfl, group?_of_lower hc⟩
  | constant =>
    obtain ⟨c, v, hc, _, rfl⟩ := mem_oneOf_mul.mp h
    exact ⟨c, v, rfl, group?_of_upper hc⟩

/-! ## Texts that two rules match -/

/-- Comments, continuations and strings have groups of their own. -/
theorem eq_of_group {r q : Rule} (h : r.group = q.group)
    (hq : q = comment ∨ q = continuation ∨ q = singleQuoted ∨ q = doubleQuoted) : r = q := by
  obtain rfl | rfl | rfl | rfl := hq <;> cases r <;> first | rfl | cases h

/-- A keyword is found by its spelling. -/
theorem ofSpelling?_spelling (k : Keyword) : Keyword.ofSpelling? k.spelling = some k := by
  cases k <;> rfl

/-- Different keywords are written differently. -/
theorem keyword_unique {k l : Keyword} {w : List Char} (hk : w ∈ (keyword k).language)
    (hl : w ∈ (keyword l).language) : k = l := by
  have hspelling : k.spelling = l.spelling := String.toList_inj.mp (hk.symm.trans hl)
  have hfound := ofSpelling?_spelling k
  rw [hspelling, ofSpelling?_spelling l] at hfound
  exact (Option.some.inj hfound).symm

/-- So are different marks. -/
theorem mark_unique {m n : Mark} {w : List Char} (hm : w ∈ (mark m).language)
    (hn : w ∈ (mark n).language) : m = n := by
  have hspelling : m.spelling.toList = n.spelling.toList := hm.symm.trans hn
  cases m <;> cases n <;> first | rfl | cases hspelling

/-- A floating-point literal has a point, and an integer literal none. -/
theorem not_int_of_float {w : List Char} (h : w ∈ float.language) : w ∉ int.language := by
  intro hint
  obtain ⟨u, _, v, hv, rfl⟩ := Language.mem_mul.mp h
  obtain ⟨v, _, rfl⟩ := mem_exactly_mul.mp hv
  obtain ⟨c, t, hc, ht, heq⟩ := mem_int.mp hint
  have hpoint : '.' ∈ c :: t := heq ▸ List.mem_append_right u List.mem_cons_self
  obtain rfl | hpoint := List.mem_cons.mp hpoint
  · cases hc
  · cases ht '.' hpoint

/-- **Two rules match the same text** only if one is that of a keyword, and the
other one that of identifiers. -/
theorem eq_of_mem {r q : Rule} {w : List Char} (hr : w ∈ r.language) (hq : w ∈ q.language) :
    r = q ∨ (∃ k, r = keyword k ∧ q = ident) ∨ ∃ k, r = ident ∧ q = keyword k := by
  obtain ⟨c, v, rfl, hgr⟩ := group_of_mem hr
  obtain ⟨_, _, heq, hgq⟩ := group_of_mem hq
  have hgroup : r.group = q.group := by
    rw [← (List.cons.inj heq).1, hgr] at hgq
    exact Option.some.inj hgq
  -- the rules are of one group, and only three groups have several rules
  cases r with
  | keyword k =>
    cases q with
    | keyword l => exact Or.inl (congrArg keyword (keyword_unique hr hq))
    | ident => exact Or.inr (Or.inl ⟨k, rfl, rfl⟩)
    | _ => cases hgroup
  | ident =>
    cases q with
    | keyword l => exact Or.inr (Or.inr ⟨l, rfl, rfl⟩)
    | ident => exact Or.inl rfl
    | _ => cases hgroup
  | mark m =>
    cases q with
    | mark n => exact Or.inl (congrArg mark (mark_unique hr hq))
    | _ => cases hgroup
  | int =>
    cases q with
    | int => exact Or.inl rfl
    | float => exact absurd hr (not_int_of_float hq)
    | _ => cases hgroup
  | float =>
    cases q with
    | int => exact absurd hq (not_int_of_float hr)
    | float => exact Or.inl rfl
    | _ => cases hgroup
  | _ => cases q <;> first | exact Or.inl rfl | cases hgroup

/-- **At most one rule decides what a text is.** -/
theorem Decides.unique {r q : Rule} {w : List Char} (hr : r.Decides w) (hq : q.Decides w) :
    r = q := by
  obtain h | ⟨k, rfl, hident⟩ | ⟨k, hident, rfl⟩ := eq_of_mem hr.mem hq.mem
  · exact h
  · exact absurd hr.mem (hq.not_keyword hident k)
  · exact absurd hq.mem (hr.not_keyword hident k)

/-- What has a value in 64 bits is in range. -/
theorem inRange_of_toInt {w : List Char} {n : Int64} (h : n.toInt = denotedInt w) :
    -9223372036854775808 ≤ denotedInt w ∧ denotedInt w ≤ 9223372036854775807 := by
  rw [← h]
  exact ⟨n.le_toInt, Int.lt_add_one_iff.mp n.toInt_lt⟩

/-- What a rule makes of a text is determined. -/
theorem Makes.unique {r : Rule} {w : List Char} {k l : Option Token.Kind} (hk : r.Makes w k)
    (hl : r.Makes w l) : k = l := by
  cases hk with
  | int value =>
    cases hl with
    | int value' =>
      exact congrArg (some ∘ Token.Kind.int) (Int64.toInt_inj.mp (value.trans value'.symm))
    | outOfRange range => exact absurd (inRange_of_toInt value) range
  | outOfRange range =>
    cases hl with
    | int value => exact absurd (inRange_of_toInt value) range
    | outOfRange => rfl
  | float value =>
    cases hl with
    | float value' =>
      exact congrArg (some ∘ Token.Kind.float) (Option.some.inj (value.symm.trans value'))
  | _ =>
    cases hl
    rfl

/-! ## Characters that a rule avoids -/

/-- Whether a character occurs in no text of a language. -/
def Avoids (l : Language Char) (x : Char) : Prop :=
  ∀ w ∈ l, x ∉ w

section Avoids

variable {p : Char → Bool} {l m : Language Char} {x : Char}

theorem avoids_oneOf (h : p x = false) : Avoids (oneOf p) x := by
  rintro _ ⟨c, hc, rfl⟩ hx
  rw [List.mem_singleton.mp hx, hc] at h
  cases h

theorem avoids_exactly {s : String} (h : x ∉ s.toList) : Avoids (exactly s) x := by
  rintro _ rfl
  exact h

theorem Avoids.mul (hl : Avoids l x) (hm : Avoids m x) : Avoids (l * m) x := by
  rintro _ ⟨a, ha, b, hb, rfl⟩ hx
  exact (List.mem_append.mp hx).elim (hl a ha) (hm b hb)

theorem Avoids.add (hl : Avoids l x) (hm : Avoids m x) : Avoids (l + m) x :=
  fun w hw => hw.elim (hl w) (hm w)

theorem Avoids.optional (hl : Avoids l x) : Avoids (optional l) x := by
  rintro w (rfl | hw)
  · exact List.not_mem_nil
  · exact hl w hw

theorem avoids_oneOf_star (h : p x = false) : Avoids (oneOf p)∗ x := by
  intro w hw hx
  rw [mem_oneOf_star.mp hw x hx] at h
  cases h

end Avoids

theorem avoids_digits {x : Char} (h : isDigitPart x = false) : Avoids digits x := by
  refine (avoids_oneOf ?_).mul (avoids_oneOf_star h)
  exact Bool.eq_false_iff.mpr fun hx => by rw [isDigitPart, hx] at h; cases h

/-- **The rules of words**: names, keywords, integers, symbols and globals. -/
def IsWord : Rule → Prop
  | keyword _ | int | symbol | global | ident | constant => True
  | _ => False

/-- Whether a character stands in no word. -/
def isOutsideWords (x : Char) : Bool :=
  !isNamePart x && !isNameMark x && x != '-' && x != ':' && x != '$' && x != '\x22'

/-- **What is no part of a name** and starts no word occurs in no word. -/
theorem avoids_word {r : Rule} {x : Char} (hx : isOutsideWords x = true) (hr : r.IsWord) :
    Avoids r.language x := by
  have hnot : isNamePart x = false ∧ isNameMark x = false ∧
      x ≠ '-' ∧ x ≠ ':' ∧ x ≠ '$' ∧ x ≠ '\x22' := by
    simpa [isOutsideWords, and_assoc] using hx
  obtain ⟨hpart, hmark, hminus, hcolon, hdollar, hquote⟩ := hnot
  -- letters, digits and underscores are all parts of names
  have hclass {p : Char → Bool} (h : ∀ c, p c = true → isNamePart c = true) : p x = false :=
    Bool.eq_false_iff.mpr fun hp => Bool.eq_false_iff.mp hpart (h x hp)
  have hstart : isNameStart x = false := hclass fun c => by
    simp [isNameStart, isNamePart, Char.isAlphanum]; grind
  have hnames : Avoids nameRest x := avoids_oneOf_star hpart
  have hmarked : Avoids markedRest x := hnames.mul (avoids_oneOf hmark).optional
  cases r with
  | keyword k =>
    have hspelling : ∀ c ∈ k.spelling.toList, isNamePart c = true :=
      List.all_eq_true.mp (by cases k <;> decide)
    exact avoids_exactly fun hk => Bool.eq_false_iff.mp hpart (hspelling x hk)
  | int =>
    have hsign := (avoids_exactly (s := "-") (x := x) (by simpa using hminus)).optional
    refine hsign.mul (avoids_digits (hclass fun c => ?_))
    simp [isDigitPart, isNamePart, Char.isAlphanum]; grind
  | symbol =>
    exact (avoids_exactly (by simpa using hcolon)).mul ((avoids_oneOf hstart).mul hmarked)
  | global =>
    refine (avoids_exactly (by simpa using hdollar)).mul
      (((avoids_oneOf hstart).mul hnames).add (avoids_oneOf ?_))
    simp only [Bool.or_eq_false_iff, beq_eq_false_iff_ne]
    refine ⟨⟨hcolon, hquote⟩, ?_⟩
    rintro rfl
    cases hpart
  | ident =>
    refine (avoids_oneOf (hclass fun c => ?_)).mul hmarked
    simp [isNamePart, Char.isAlphanum, Char.isAlpha]; grind
  | constant =>
    refine (avoids_oneOf (hclass fun c => ?_)).mul hnames
    simp +contextual [isNamePart, Char.isAlphanum, Char.isAlpha]
  | _ => exact hr.elim

/-- Whether a character separates tokens: a blank, a line end, or the start of a
comment or of a continuation. -/
def isSeparator (c : Char) : Bool :=
  isBlank c || c == '\n' || c == '\\' || c == '#'

theorem eq_of_isSeparator {x : Char} (h : isSeparator x = true) :
    x = ' ' ∨ x = '\t' ∨ x = '\r' ∨ x = '\n' ∨ x = '\\' ∨ x = '#' := by
  simpa [isSeparator, isBlank, or_assoc] using h

/-- **Separators** occur in no text of a rule but those of comments,
continuations, line ends and strings. -/
theorem avoids_language {r : Rule} {x : Char} (hx : isSeparator x = true)
    (hr : r ≠ comment ∧ r ≠ continuation ∧ r ≠ newline ∧ r ≠ singleQuoted ∧ r ≠ doubleQuoted) :
    Avoids r.language x := by
  replace hx := eq_of_isSeparator hx
  have houtside : isOutsideWords x = true := by
    obtain rfl | rfl | rfl | rfl | rfl | rfl := hx <;> decide
  cases r with
  | comment | continuation | newline | singleQuoted | doubleQuoted => simp at hr
  | mark m =>
    refine avoids_exactly ?_
    obtain rfl | rfl | rfl | rfl | rfl | rfl := hx <;> cases m <;> decide
  | float =>
    have hdigits : Avoids digits x := by
      refine avoids_digits ?_
      obtain rfl | rfl | rfl | rfl | rfl | rfl := hx <;> decide
    refine (avoids_word (r := int) houtside trivial).mul ((avoids_exactly ?_).mul (hdigits.mul
      ((avoids_oneOf ?_).mul ((avoids_oneOf ?_).optional.mul
        ((avoids_oneOf ?_).mul (avoids_oneOf_star ?_)))).optional)) <;>
      obtain rfl | rfl | rfl | rfl | rfl | rfl := hx <;> decide
  | _ => exact avoids_word houtside trivial

end Rule

end Garnet
