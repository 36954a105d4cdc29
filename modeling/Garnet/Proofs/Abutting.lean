import Garnet.Proofs.Writing

/-!
# Tokens without a space between them

Where a space is put after it, every token that is written is read back. But
expressions are written with few spaces: names, numbers and strings stand right
in front of a parenthesis, a comma or a dot. That they end there has to be known
of each rule (`longest_of_delimited`). A dot needs care: in front of a digit it
makes a floating-point literal out of the integer before it, so a text is
**delimited** from what stands before it only if it does not begin like that.
-/

namespace Garnet

open Computability Lexeme Token

/-- A character that ends names, numbers and symbols in front of it. -/
def isDelimiter (c : Char) : Bool :=
  c == ' ' || c == '(' || c == ')' || c == ',' || c == '.'

/-- **Whether a text is delimited** from names, numbers and strings in front of it. -/
structure Delimited (rest : List Char) : Prop where
  /-- It is empty, or starts with a delimiter. -/
  head : ∀ c, rest.head? = some c → isDelimiter c = true
  /-- It does not start like the fraction of a number. -/
  fraction : ∀ c s, rest = '.' :: c :: s → c.isDigit = false

/-- Whether a token is a mark or a line end, not a name, a number or a string. -/
def isPunctuation : Kind → Bool
  | .mark _ | .newline => true
  | _ => false

namespace Delimited

theorem nil : Delimited [] :=
  ⟨fun _ h => (Option.some_ne_none _ h.symm).elim, fun _ _ h => by cases h⟩

/-- A delimiter that is no dot. -/
theorem cons {c : Char} (hc : isDelimiter c = true) (hdot : c ≠ '.') (rest : List Char) :
    Delimited (c :: rest) where
  head _ h := Option.some.inj h ▸ hc
  fraction _ _ h := absurd (List.cons.inj h).1 hdot

/-- A dot in front of a name. -/
theorem dot {c : Char} (hc : c.isDigit = false) (rest : List Char) :
    Delimited ('.' :: c :: rest) where
  head _ h := Option.some.inj h ▸ rfl
  fraction _ _ h := (List.cons.inj (List.cons.inj h).2).1 ▸ hc

end Delimited

theorem isOutsideWords_of_isDelimiter {c : Char} (h : isDelimiter c = true) :
    Rule.isOutsideWords c = true := by
  have hc : c = ' ' ∨ c = '(' ∨ c = ')' ∨ c = ',' ∨ c = '.' := by
    simpa [isDelimiter, or_assoc] using h
  obtain rfl | rfl | rfl | rfl | rfl := hc <;> decide

section Delimited

variable {w rest : List Char} (hrest : Delimited rest)

include hrest

/-- No floating-point literal begins with an integer and goes on with a delimited
text. -/
theorem not_float_of_delimited (hw : w ∈ Rule.int.language) {v : List Char}
    (hv : v ∈ Rule.float.language) : ¬ v <+: w ++ rest := by
  obtain ⟨c, u, _, hu, rfl⟩ := Rule.mem_int.mp hw
  obtain ⟨d, t, rfl, _⟩ := Rule.group_of_mem hv
  intro hbegins
  rw [List.cons_append] at hbegins
  obtain ⟨rfl, htail⟩ := List.cons_prefix_cons.mp hbegins
  obtain ⟨_, f, hf, _, hfraction⟩ := float_begins hv htail
  have hnone : rest.takeWhile isDigitPart = [] := by
    cases rest with
    | nil => rfl
    | cons x rest =>
      refine List.takeWhile_cons_of_neg fun hx => ?_
      have hdelimiter : x ∈ [' ', '(', ')', ',', '.'] := by
        simpa [isDelimiter, or_assoc] using hrest.head x rfl
      simp only [List.mem_cons, List.not_mem_nil, or_false] at hdelimiter
      obtain rfl | rfl | rfl | rfl | rfl := hdelimiter <;> cases hx
  rw [List.takeWhile_append_of_pos hu, hnone, List.append_nil, List.drop_left] at hfraction
  -- a fraction starts with a dot and a digit
  obtain ⟨g, hg, rfl⟩ := mem_exactly_mul.mp hf
  obtain ⟨ds, hds, es, _, rfl⟩ := Language.mem_mul.mp hg
  obtain ⟨e, ds, he, _, rfl⟩ := mem_oneOf_mul.mp hds
  obtain ⟨tail, rfl⟩ := hfraction
  have hdigit := hrest.fraction e ((ds ++ es) ++ tail) rfl
  rw [he] at hdigit
  cases hdigit

/-- **A delimited text ends names, numbers and strings.** -/
theorem longest_of_delimited {r : Rule} (hw : w ∈ r.language)
    (hr : r.IsWord ∨ r = .singleQuoted ∨ r = .doubleQuoted) : Longest Rule.matched w rest := by
  have hkind : r ≠ Rule.comment ∧ r ≠ Rule.continuation := by
    obtain hr | rfl | rfl := hr
    · constructor <;> rintro rfl <;> exact hr
    · simp
    · simp
  refine longest_of_stop hw hkind fun q v x hgroup hq hv hbegins hx hlonger => ?_
  have hmem : x ∈ v := hlonger.subset (List.mem_append_right _ List.mem_cons_self)
  cases q with
  | comment | continuation | newline | singleQuoted | doubleQuoted => simp at hq
  | mark m =>
    obtain hr | rfl | rfl := hr
    · cases r <;> first | exact hr | cases hgroup
    · cases hgroup
    · cases hgroup
  | float =>
    cases r with
    | int => exact not_float_of_delimited hrest hw hv hbegins
    | float => simp [Rule.IsWord] at hr
    | _ => cases hgroup
  | _ =>
    have houtside := isOutsideWords_of_isDelimiter (hrest.head x hx)
    exact Rule.avoids_word houtside (by trivial) v hv hmem

/-- **Names, numbers and strings are read back** in front of a delimited text. -/
theorem kinds_written {k : Kind} (h : k.IsWritable) (hword : isPunctuation k = false) :
    kinds (k.written.toList ++ rest) = k :: kinds rest := by
  obtain ⟨r, _, hdecides, hmakes⟩ := Kind.exists_rule h
  have hr : r.IsWord ∨ r = .singleQuoted ∨ r = .doubleQuoted := by
    generalize k.written.toList = w at hmakes
    cases hmakes with
    | mark | newline => cases hword
    | outOfRange | float => exact h.elim
    | singleQuoted => exact .inr (.inl rfl)
    | doubleQuoted => exact .inr (.inr rfl)
    | _ => exact .inl trivial
  exact kinds_append (.matched (longest_of_delimited hrest hdecides.mem hr) hdecides hmakes)

end Delimited

end Garnet
