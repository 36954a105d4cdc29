import Garnet.Proofs.Longest

/-!
# Decimals

A floating-point literal without its underscores is a decimal, which always
has a value: it may be rounded, to zero or to infinity even, but it is never
refused.
-/

namespace Garnet

open Computability Lexeme

namespace Float64

variable {s ds : List Char}

/-- Digits, with a sign or without one, are an exponent. -/
theorem readExponent?_isSome (hs : s = [] ∨ s = ['+'] ∨ s = ['-']) (hne : ds ≠ [])
    (hds : ∀ d ∈ ds, d.isDigit = true) : (readExponent? (s ++ ds)).isSome = true := by
  have hread : (ds.isEmpty || !ds.all Char.isDigit) = false := by
    rw [List.all_eq_true.mpr hds]
    cases ds with
    | nil => exact absurd rfl hne
    | cons d ds => rfl
  obtain rfl | rfl | rfl := hs
  · rw [List.nil_append]
    unfold readExponent?
    split
    rename_i hsign
    split at hsign
    · exact absurd (hds '-' List.mem_cons_self) (by decide)
    · exact absurd (hds '+' List.mem_cons_self) (by decide)
    · obtain ⟨_, rfl⟩ := hsign
      simp [hread]
  · simp [readExponent?, hread]
  · simp [readExponent?, hread]

/-- **The exponents of decimals**: none, or a letter with what it is the
exponent of. -/
inductive IsExponent : List Char → Prop
  | none : IsExponent []
  | some {e : Char} {r : List Char} (letter : (e == 'e' || e == 'E') = true)
      (read : (readExponent? r).isSome = true) : IsExponent (e :: r)

/-- Digits end where an exponent starts. -/
theorem IsExponent.takeWhile_append {e : List Char} (he : IsExponent e)
    (hds : ∀ d ∈ ds, d.isDigit = true) :
    (ds ++ e).takeWhile Char.isDigit = ds ∧ (ds ++ e).dropWhile Char.isDigit = e := by
  rw [List.takeWhile_append_of_pos hds, List.dropWhile_append_of_pos hds]
  cases he with
  | none => exact ⟨List.append_nil ds, rfl⟩
  | @some e r letter read =>
    have hletter : ¬ e.isDigit = true := by
      rw [Bool.or_eq_true, beq_iff_eq, beq_iff_eq] at letter
      obtain rfl | rfl := letter <;> decide
    rw [List.takeWhile_cons_of_neg hletter, List.dropWhile_cons_of_neg hletter]
    exact ⟨List.append_nil ds, rfl⟩

/-- **A decimal without a sign has a value.** -/
theorem readUnsigned?_isSome {fs e : List Char} (hne : ds ≠ [])
    (hds : ∀ d ∈ ds, d.isDigit = true) (hfs : ∀ d ∈ fs, d.isDigit = true) (he : IsExponent e) :
    (readUnsigned? (ds ++ '.' :: (fs ++ e))).isSome = true := by
  have hpoint : ¬ Char.isDigit '.' = true := by decide
  have hwhole : (ds ++ '.' :: (fs ++ e)).takeWhile Char.isDigit = ds := by
    rw [List.takeWhile_append_of_pos hds, List.takeWhile_cons_of_neg hpoint, List.append_nil]
  have hrest : (ds ++ '.' :: (fs ++ e)).dropWhile Char.isDigit = '.' :: (fs ++ e) := by
    rw [List.dropWhile_append_of_pos hds, List.dropWhile_cons_of_neg hpoint]
  obtain ⟨hfraction, hexponent⟩ := he.takeWhile_append hfs
  have hempty : ds.isEmpty = false := by
    cases ds with
    | nil => exact absurd rfl hne
    | cons d ds => rfl
  unfold readUnsigned?
  simp only [hwhole, hrest, hfraction, hexponent, hempty]
  cases he with
  | none => rfl
  | some letter read =>
    obtain ⟨x, hx⟩ := Option.isSome_iff_exists.mp read
    simp only [letter, hx]
    rfl

/-- **A decimal has a value.** -/
theorem ofText?_isSome {sign fs e : List Char} (hsign : sign = [] ∨ sign = ['-']) (hne : ds ≠ [])
    (hds : ∀ d ∈ ds, d.isDigit = true) (hfs : ∀ d ∈ fs, d.isDigit = true) (he : IsExponent e) :
    (ofText? (String.ofList (sign ++ (ds ++ '.' :: (fs ++ e))))).isSome = true := by
  have hread := readUnsigned?_isSome hne hds hfs he
  have hpoint : '.' ∈ sign ++ (ds ++ '.' :: (fs ++ e)) := by simp
  -- the names have no point
  have hname : ∀ s : String, '.' ∉ s.toList →
      String.ofList (sign ++ (ds ++ '.' :: (fs ++ e))) ≠ s := by
    rintro s hs rfl
    rw [String.toList_ofList] at hs
    exact hs hpoint
  unfold ofText?
  split
  · next h => exact absurd h (hname _ (by decide))
  · next h => exact absurd h (hname _ (by decide))
  · next h => exact absurd h (hname _ (by decide))
  · rw [String.toList_ofList]
    obtain rfl | rfl := hsign
    · cases ds with
      | nil => exact absurd rfl hne
      | cons d ds =>
        split
        · next heq =>
          have hd : d.isDigit = true := hds d List.mem_cons_self
          rw [(List.cons.inj heq).1] at hd
          cases hd
        · exact hread
    · exact Option.isSome_map.trans hread

end Float64

/-! ## Literals -/

namespace Rule

/-- A text without its underscores. -/
def plain (w : List Char) : List Char :=
  w.filter (· != '_')

theorem plain_append (v w : List Char) : plain (v ++ w) = plain v ++ plain w :=
  List.filter_append v w

theorem plain_cons {c : Char} (h : c ≠ '_') (w : List Char) : plain (c :: w) = c :: plain w :=
  List.filter_cons_of_pos (bne_iff_ne.mpr h)

/-- Digits without the underscores. -/
theorem plain_digits {w : List Char} (h : w ∈ digits) :
    plain w ≠ [] ∧ ∀ d ∈ plain w, d.isDigit = true := by
  obtain ⟨c, v, hc, hv, rfl⟩ := mem_oneOf_mul.mp h
  rw [mem_oneOf_star] at hv
  have hfirst : c ≠ '_' := by
    rintro rfl
    cases hc
  refine ⟨by simp [plain_cons hfirst], fun d hd => ?_⟩
  obtain ⟨hd, hne⟩ := List.mem_filter.mp hd
  obtain rfl | hd := List.mem_cons.mp hd
  · exact hc
  · have hpart := hv d hd
    rw [isDigitPart, Bool.or_eq_true] at hpart
    exact hpart.resolve_right fun h => absurd (beq_iff_eq.mp h) (bne_iff_ne.mp hne)

/-- An exponent has no underscores. -/
theorem isExponent_plain {w : List Char} (h : w ∈ optional exponent) :
    Float64.IsExponent (plain w) := by
  obtain rfl | h := h
  · exact .none
  obtain ⟨e, v, he, hv, rfl⟩ := mem_oneOf_mul.mp h
  obtain ⟨s, hs, ds, hds, rfl⟩ := Language.mem_mul.mp hv
  obtain ⟨hhead, hdigits⟩ := (mem_oneOf_mul_star fun _ => id).mp hds
  have hletter : e ≠ '_' := by
    rintro rfl
    cases he
  have hplain : plain ds = ds := by
    refine List.filter_eq_self.mpr fun d hd => bne_iff_ne.mpr ?_
    rintro rfl
    cases hdigits '_' hd
  have hsign : plain s = [] ∨ plain s = ['+'] ∨ plain s = ['-'] := by
    obtain rfl | ⟨c, hc, rfl⟩ := hs
    · exact Or.inl rfl
    · rw [Bool.or_eq_true, beq_iff_eq, beq_iff_eq] at hc
      obtain rfl | rfl := hc
      · exact Or.inr (Or.inl rfl)
      · exact Or.inr (Or.inr rfl)
  have hne : ds ≠ [] := by
    rintro rfl
    cases hhead
  have hsplit : plain (e :: (s ++ ds)) = e :: (plain s ++ ds) := by
    rw [plain_cons hletter, plain_append, hplain]
  change Float64.IsExponent (plain (e :: (s ++ ds)))
  rw [hsplit]
  exact .some he (Float64.readExponent?_isSome hsign hne hdigits)

/-- **A floating-point literal has a value.** -/
theorem exists_value {w : List Char} (h : w ∈ float.language) :
    ∃ x, Float64.ofText? (String.ofList (plain w)) = some x := by
  obtain ⟨a, ha, f, hf, rfl⟩ := Language.mem_mul.mp h
  obtain ⟨sign, hsign, ds, hds, rfl⟩ := Language.mem_mul.mp ha
  obtain ⟨g, hg, rfl⟩ := mem_exactly_mul.mp hf
  obtain ⟨fs, hfs, e, he, rfl⟩ := Language.mem_mul.mp hg
  have hplain : plain sign = [] ∨ plain sign = ['-'] := by
    obtain rfl | rfl := hsign
    · exact Or.inl rfl
    · exact Or.inr rfl
  have hsplit : plain (sign ++ ds ++ (".".toList ++ (fs ++ e)))
      = plain sign ++ (plain ds ++ '.' :: (plain fs ++ plain e)) := by
    simp only [plain_append, List.append_assoc]
    rfl
  change ∃ x, Float64.ofText? (String.ofList (plain (sign ++ ds ++ (".".toList ++ (fs ++ e))))) = _
  rw [hsplit]
  exact Option.isSome_iff_exists.mp (Float64.ofText?_isSome hplain (plain_digits hds).1
    (plain_digits hds).2 (plain_digits hfs).2 (isExponent_plain he))

end Rule

end Garnet
