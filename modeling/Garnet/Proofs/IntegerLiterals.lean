import Garnet.Proofs.MaximalMunch
import Garnet.Proofs.Writing

/-!
# Integer literals

The lexer finds out what an integer literal denotes by going through its digits
from the left. What it should denote can be said without that order: each digit
counts for the power of ten that belongs to its place from the right, and
underscores do not count (`placeValue`). A literal that consists of such digits,
with a minus sign or without one, denotes one number (`Denotes`).

A source that is a literal as a whole is one token and the end
(`integer_literals_are_exact`): the token of that number if 64 bits hold it, and
an error otherwise, which leaves nothing of the literal.
-/

namespace Garnet

open Computability Lexeme Token

/-! ## Numbers in decimal -/

/-- The number that a digit stands for. -/
def digitValue (d : Char) : Nat :=
  d.toNat - '0'.toNat

/-- **The number that digits stand for**, with underscores between them that do
not count. -/
def placeValue (w : List Char) : Nat :=
  Nat.ofDigits 10 ((Rule.plain w).reverse.map digitValue)

/-- **The number that an integer literal denotes.** -/
inductive Denotes : List Char → Int → Prop
  | plain {w : List Char} (digits : w ∈ Rule.digits) : Denotes w (placeValue w)
  | negative {w : List Char} (digits : w ∈ Rule.digits) : Denotes ('-' :: w) (-placeValue w)

section Values

variable {w : List Char}

/-- Going through digits from the left, they add up to what each of them is worth
in its place. -/
theorem digitsValue_eq_ofDigits (ds : List Char) :
    Float64.digitsValue ds = Nat.ofDigits 10 (ds.reverse.map digitValue) := by
  unfold Float64.digitsValue
  induction ds using List.reverseRecOn with
  | nil => rfl
  | append_singleton ds d ih =>
    rw [List.foldl_append, ih, List.reverse_append, List.reverse_singleton,
      List.singleton_append, List.map_cons, Nat.ofDigits_cons]
    exact Nat.add_comm _ _

/-- Digits are what is left of them without the underscores. -/
theorem filter_isDigit (h : w ∈ Rule.digits) : w.filter Char.isDigit = Rule.plain w := by
  have hparts : ∀ c ∈ w, isDigitPart c = true :=
    ((mem_oneOf_mul_star fun _ => isDigitPart_of_isDigit).mp h).2
  refine List.filter_congr fun c hc => ?_
  have hpart := hparts c hc
  by_cases hunderscore : c = '_'
  · subst hunderscore
    rfl
  · rw [isDigitPart, Bool.or_eq_true] at hpart
    rw [hpart.resolve_right fun h => hunderscore (beq_iff_eq.mp h)]
    exact (bne_iff_ne.mpr hunderscore).symm

theorem digitsValue_digits (h : w ∈ Rule.digits) :
    Float64.digitsValue (w.filter Char.isDigit) = placeValue w := by
  rw [filter_isDigit h, digitsValue_eq_ofDigits, placeValue]

/-- Digits have no sign. -/
theorem minus_notMem_digits : '-' :: w ∉ Rule.digits := by
  intro h
  obtain ⟨hhead, _⟩ := (mem_oneOf_mul_star fun _ => isDigitPart_of_isDigit).mp h
  cases hhead

namespace Denotes

variable {v v' : Int}

/-- **What a literal denotes is what the lexer makes of it.** -/
theorem denotedInt_eq (h : Denotes w v) : denotedInt w = v := by
  cases h with
  | plain digits =>
    unfold denotedInt
    split
    · exact absurd digits minus_notMem_digits
    · exact congrArg Int.ofNat (digitsValue_digits digits)
  | negative digits => exact congrArg (fun n : Nat => -(n : Int)) (digitsValue_digits digits)

theorem unique (h : Denotes w v) (h' : Denotes w v') : v' = v :=
  h'.denotedInt_eq.symm.trans h.denotedInt_eq

/-- **The texts that denote a number** are the integer literals. -/
theorem exists_iff : (∃ v, Denotes w v) ↔ w ∈ Rule.int.language := by
  constructor
  · rintro ⟨v, h⟩
    cases h with
    | plain digits => exact Language.mem_mul.mpr ⟨[], Or.inl rfl, w, digits, rfl⟩
    | negative digits => exact Language.mem_mul.mpr ⟨['-'], Or.inr rfl, _, digits, rfl⟩
  · intro h
    obtain ⟨sign, rfl | rfl, ds, hds, rfl⟩ := Language.mem_mul.mp h
    · exact ⟨_, .plain hds⟩
    · exact ⟨_, .negative hds⟩

end Denotes

end Values

/-! ## Literals as sources -/

/-- **A source that is an integer literal** is one token, and the end. -/
theorem stream_of_int {source : String} (h : source.toList ∈ Rule.int.language)
    (hsize : source.utf8ByteSize ≤ Span.limit) :
    stream source = [⟨intKind source.toList, ⟨0, source.utf8ByteSize⟩⟩,
      ⟨.eof, Span.point source.utf8ByteSize⟩] := by
  have hlength : 0 + byteLength source.toList = source.utf8ByteSize := by
    rw [Nat.zero_add, byteLength_toList]
  have hlongest : Longest Rule.matched source.toList [] :=
    longest_of_space h (by simp) (Or.inl rfl)
  have hmunched : Munched 0 (source.toList ++ [])
      [⟨intKind source.toList, ⟨0, 0 + byteLength source.toList⟩⟩,
        ⟨.eof, Span.point (0 + byteLength source.toList)⟩] :=
    .keep (munch_int hlongest h) .done
  rw [List.append_nil, hlength] at hmunched
  exact (munched_streamFrom 0 source.toList (hlength.trans_le hsize)).unique hmunched

/-- **Integer literals are exact.** A source that is an integer literal, with any
number of digits and underscores, denotes one number. If 64 bits hold this number,
the source is the token of the number and the end; otherwise it is an error, which
spans all of it, and the end. -/
theorem integer_literals_are_exact (source : String) (h : source.toList ∈ Rule.int.language)
    (hsize : source.utf8ByteSize ≤ Span.limit) :
    ∃ v, (∀ v', Denotes source.toList v' ↔ v' = v) ∧
      (-2 ^ 63 ≤ v ∧ v ≤ 2 ^ 63 - 1 → ∃ n : Int64, n.toInt = v ∧
        stream source = [⟨.int n, ⟨0, source.utf8ByteSize⟩⟩,
          ⟨.eof, Span.point source.utf8ByteSize⟩]) ∧
      (¬ (-2 ^ 63 ≤ v ∧ v ≤ 2 ^ 63 - 1) →
        stream source = [⟨.error, ⟨0, source.utf8ByteSize⟩⟩,
          ⟨.eof, Span.point source.utf8ByteSize⟩]) := by
  obtain ⟨v, hv⟩ := Denotes.exists_iff.mpr h
  have hkind : intKind source.toList
      = if -2 ^ 63 ≤ v ∧ v ≤ 2 ^ 63 - 1 then .int (Int64.ofInt v) else .error := by
    rw [← hv.denotedInt_eq]
    rfl
  refine ⟨v, fun v' => ⟨fun h' => hv.unique h', fun h' => h' ▸ hv⟩, fun hrange => ?_,
    fun hrange => ?_⟩
  · refine ⟨Int64.ofInt v, ?_, ?_⟩
    · exact Int64.toInt_ofInt_of_le hrange.1 (Int.lt_add_one_iff.mpr hrange.2)
    · rw [stream_of_int h hsize, hkind, if_pos hrange]
  · rw [stream_of_int h hsize, hkind, if_neg hrange]

/-- The least number that 64 bits hold, behind zeros and underscores, and the
number before it. -/
theorem limits_are_told_apart :
    stream "-00_9_223_372036854775808__" = [⟨.int Int64.minValue, ⟨0, 27⟩⟩, ⟨.eof, ⟨27, 27⟩⟩] ∧
    stream "-0_9_223_372036854775809" = [⟨.error, ⟨0, 24⟩⟩, ⟨.eof, ⟨24, 24⟩⟩] := by
  have hleast : "00_9_223_372036854775808__".toList ∈ Rule.digits :=
    (mem_oneOf_mul_star fun _ => isDigitPart_of_isDigit).mpr
      ⟨by decide, List.all_eq_true.mp (by decide)⟩
  have hbeyond : "0_9_223_372036854775809".toList ∈ Rule.digits :=
    (mem_oneOf_mul_star fun _ => isDigitPart_of_isDigit).mpr
      ⟨by decide, List.all_eq_true.mp (by decide)⟩
  refine ⟨?_, ?_⟩
  · obtain ⟨v, hv, hrange, -⟩ := integer_literals_are_exact "-00_9_223_372036854775808__"
      (Denotes.exists_iff.mp ⟨_, .negative hleast⟩) (by decide)
    obtain rfl := (hv _).mp (.negative hleast)
    obtain ⟨n, hn, hstream⟩ := hrange (by decide +kernel)
    rw [show n = Int64.minValue from Int64.toInt_inj.mp (hn.trans (by decide +kernel))] at hstream
    exact hstream
  · obtain ⟨v, hv, -, hrange⟩ := integer_literals_are_exact "-0_9_223_372036854775809"
      (Denotes.exists_iff.mp ⟨_, .negative hbeyond⟩) (by decide)
    obtain rfl := (hv _).mp (.negative hbeyond)
    exact hrange (by decide +kernel)

end Garnet
