import Garnet.Proofs.Rules

/-!
# Longest beginnings

Where several beginnings of a text are in a language, a lexer takes the
longest one (`Longest`), which is determined by the language and the text
(`Longest.unique`).

The functions that read a lexeme compute the length of such a beginning
without looking at the language. That they do so is said of each of them by
`Measures`: the rest of a name, the fraction of a number with the parts it is
made of, and the items of a string. Of a string more is known: the only place
where its closing quote can stand is the one that `stringLength` finds
(`stringLength_closed`).
-/

namespace Garnet

open Computability Lexeme

/-- **The longest beginning of the text `w ++ rest` in a language** is `w`. -/
structure Longest (l : Language Char) (w rest : List Char) : Prop where
  /-- It is in the language. -/
  mem : w ∈ l
  /-- No longer beginning is. -/
  le : ∀ v ∈ l, v <+: w ++ rest → v.length ≤ w.length

/-- A text is cut in one place only. -/
theorem Longest.unique {l : Language Char} {w rest v rest' : List Char} (hw : Longest l w rest)
    (hv : Longest l v rest') (heq : w ++ rest = v ++ rest') : w = v ∧ rest = rest' := by
  have hlength : w.length = v.length :=
    Nat.le_antisymm (hv.le w hw.mem ⟨rest, heq⟩) (hw.le v hv.mem ⟨rest', heq.symm⟩)
  exact List.append_inj heq hlength

/-- **A function that measures** gives the length of the longest beginning of a
text in a language, and zero where there is none. -/
structure Measures (f : List Char → Nat) (l : Language Char) : Prop where
  /-- What is measured is in the language. -/
  mem : ∀ s, f s ≠ 0 → s.take (f s) ∈ l
  /-- No longer beginning is. -/
  le : ∀ s, ∀ v ∈ l, v <+: s → v.length ≤ f s
  /-- What is measured is there. -/
  bound : ∀ s, f s ≤ s.length

theorem Measures.mem_of_nil {f : List Char → Nat} {l : Language Char} (h : Measures f l)
    (hnil : [] ∈ l) (s : List Char) : s.take (f s) ∈ l := by
  by_cases hzero : f s = 0
  · rw [hzero]
    exact hnil
  · exact h.mem s hzero

theorem Measures.mem_optional {f : List Char → Nat} {l : Language Char} (h : Measures f l)
    (s : List Char) : s.take (f s) ∈ optional l := by
  by_cases hzero : f s = 0
  · rw [hzero]
    exact Or.inl rfl
  · exact Or.inr (h.mem s hzero)

/-! ## Runs of characters -/

section Runs

variable {p : Char → Bool} {b s t : List Char} {c : Char}

theorem forall_takeWhile (s : List Char) : ∀ c ∈ s.takeWhile p, p c = true :=
  List.all_eq_true.mp List.all_takeWhile

theorem take_length_takeWhile (s : List Char) :
    s.take (s.takeWhile p).length = s.takeWhile p :=
  (List.prefix_iff_eq_take.mp (List.takeWhile_prefix p)).symm

theorem drop_length_takeWhile (s : List Char) :
    s.drop (s.takeWhile p).length = s.dropWhile p := by
  refine List.append_cancel_left (show s.takeWhile p ++ _ = s.takeWhile p ++ _ from ?_)
  rw [List.takeWhile_append_dropWhile]
  nth_rewrite 1 [← take_length_takeWhile s]
  exact List.take_append_drop _ s

/-- A run at the head of a text belongs to its longest run. -/
theorem begins_takeWhile (hb : ∀ c ∈ b, p c = true) (h : b <+: s) : b <+: s.takeWhile p := by
  obtain ⟨t, rfl⟩ := h
  rw [List.takeWhile_append_of_pos hb]
  exact List.prefix_append _ _

/-- A run that another character ends is the longest one. -/
theorem takeWhile_of_begins (hb : ∀ c ∈ b, p c = true) (hc : p c = false)
    (h : b ++ c :: t <+: s) : s.takeWhile p = b ∧ c :: t <+: s.drop b.length := by
  obtain ⟨u, rfl⟩ := h
  rw [List.append_assoc]
  constructor
  · rw [List.takeWhile_append_of_pos hb, List.cons_append,
      List.takeWhile_cons_of_neg (Bool.eq_false_iff.mp hc), List.append_nil]
  · rw [List.drop_left]
    exact List.prefix_append _ _

/-- A run of characters is measured by the longest one. -/
theorem measures_takeWhile (p : Char → Bool) :
    Measures (fun s => (s.takeWhile p).length) (oneOf p)∗ where
  mem s _ := by
    rw [take_length_takeWhile, mem_oneOf_star]
    exact forall_takeWhile s
  le s v hv h := (begins_takeWhile (mem_oneOf_star.mp hv) h).length_le
  bound s := (List.takeWhile_prefix p).length_le

/-- A character of one class, and a run of another one that it belongs to. -/
theorem mem_oneOf_mul_star {p q : Char → Bool} {s : List Char}
    (hpq : ∀ c, p c = true → q c = true) :
    s ∈ oneOf p * (oneOf q)∗ ↔ s.head?.any p = true ∧ ∀ c ∈ s, q c = true := by
  cases s with
  | nil => simp
  | cons c s =>
    simp only [mem_oneOf_mul, mem_oneOf_star, List.head?_cons, Option.any_some,
      List.forall_mem_cons, List.cons.injEq]
    constructor
    · rintro ⟨_, _, hp, hq, rfl, rfl⟩
      exact ⟨hp, hpq _ hp, hq⟩
    · rintro ⟨hp, _, hq⟩
      exact ⟨c, s, hp, hq, rfl, rfl⟩

/-- At least one character of a class. -/
theorem measures_run (p : Char → Bool) :
    Measures (fun s => (s.takeWhile p).length) (oneOf p * (oneOf p)∗) where
  mem s h := by
    rw [take_length_takeWhile, mem_oneOf_mul_star fun _ => id]
    refine ⟨?_, forall_takeWhile s⟩
    cases hs : s.takeWhile p with
    | nil => exact absurd (congrArg List.length hs) h
    | cons c t => exact forall_takeWhile s c (hs ▸ List.mem_cons_self)
  le s v hv h :=
    (begins_takeWhile ((mem_oneOf_mul_star fun _ => id).mp hv).2 h).length_le
  bound s := (List.takeWhile_prefix p).length_le

end Runs

/-- A character in front of what is measured. -/
theorem Measures.cons {f : List Char → Nat} {l : Language Char} (h : Measures f l)
    (hl : [] ∉ l) (p : Char → Bool) {g : List Char → Nat} (hnil : g [] = 0)
    (hcons : ∀ c s, g (c :: s) = if p c = true ∧ f s ≠ 0 then f s + 1 else 0) :
    Measures g (oneOf p * l) where
  mem s hs := by
    cases s with
    | nil => exact absurd hnil hs
    | cons c s =>
      rw [hcons] at hs ⊢
      split at hs
      · next hc =>
        rw [if_pos hc]
        exact mem_oneOf_mul.mpr ⟨c, _, hc.1, h.mem s hc.2, rfl⟩
      · exact absurd rfl hs
  le s v hv hbegins := by
    obtain ⟨c, w, hc, hw, rfl⟩ := mem_oneOf_mul.mp hv
    obtain ⟨t, rfl⟩ := hbegins
    have hle := h.le (w ++ t) w hw (List.prefix_append _ _)
    have hne : w.length ≠ 0 := fun hzero => hl (List.length_eq_zero_iff.mp hzero ▸ hw)
    rw [List.cons_append, hcons, if_pos ⟨hc, by omega⟩]
    exact Nat.succ_le_succ hle
  bound s := by
    cases s with
    | nil => exact Nat.le_of_eq hnil
    | cons c s =>
      have hbound := h.bound s
      rw [hcons]
      split <;> simp only [List.length_cons] <;> omega

/-! ## Names -/

/-- The rest of a name. -/
theorem measures_nameLength : Measures nameLength Rule.nameRest :=
  measures_takeWhile isNamePart

theorem nil_mem_nameRest : [] ∈ Rule.nameRest :=
  Language.nil_mem_kstar _

theorem nil_mem_markedRest : [] ∈ Rule.markedRest :=
  Language.mem_mul.mpr ⟨[], nil_mem_nameRest, [], Or.inl rfl, rfl⟩

/-- A mark is no part of a name. -/
theorem not_isNamePart_of_isNameMark {c : Char} (h : isNameMark c = true) :
    isNamePart c = false := by
  simp only [isNameMark, Bool.or_eq_true, beq_iff_eq] at h
  obtain rfl | rfl := h <;> rfl

/-- The rest of a name and its mark. -/
theorem measures_markedLength : Measures markedLength Rule.markedRest where
  mem s _ := by
    have hname : s.take (nameLength s) ∈ Rule.nameRest := by
      rw [nameLength, take_length_takeWhile]
      exact mem_oneOf_star.mpr (forall_takeWhile s)
    have hplain : s.take (nameLength s) ∈ Rule.markedRest :=
      Language.mem_mul.mpr ⟨_, hname, [], Or.inl rfl, List.append_nil _⟩
    unfold markedLength
    split
    · next c t hd =>
      split
      · next hc =>
        refine Language.mem_mul.mpr ⟨_, hname, [c], Or.inr ⟨c, hc, rfl⟩, ?_⟩
        rw [List.take_add, hd]
        rfl
      · exact hplain
    · exact hplain
  le s v hv h := by
    obtain ⟨b, hb, m, hm, rfl⟩ := Language.mem_mul.mp hv
    unfold markedLength
    obtain rfl | ⟨c, hc, rfl⟩ := hm
    · have hle := measures_nameLength.le s b hb (by simpa using h)
      rw [List.append_nil]
      split
      · split <;> omega
      · exact hle
    · obtain ⟨hb, t, hd⟩ :=
        takeWhile_of_begins (mem_oneOf_star.mp hb) (not_isNamePart_of_isNameMark hc) h
      rw [nameLength, hb, ← hd]
      simp [hc]
  bound s := by
    have hbound := measures_nameLength.bound s
    unfold markedLength
    split
    · next c t hd =>
      have hlength := congrArg List.length hd
      rw [List.length_drop, List.length_cons] at hlength
      split <;> omega
    · exact hbound

/-! ## Numbers -/

/-- How many characters the sign of an exponent takes. -/
def signLength : List Char → Nat
  | s :: _ => if s == '+' || s == '-' then 1 else 0
  | [] => 0

/-- How many characters digits take that may have a sign. -/
def signedLength (s : List Char) : Nat :=
  match ((s.drop (signLength s)).takeWhile Char.isDigit).length with
  | 0 => 0
  | n => n + signLength s

theorem exponentLength_cons (e : Char) (r : List Char) :
    exponentLength (e :: r) =
      if (e == 'e' || e == 'E') = true ∧ signedLength r ≠ 0 then signedLength r + 1 else 0 := by
  change (if (e == 'e' || e == 'E') = true then
      match ((r.drop (signLength r)).takeWhile Char.isDigit).length with
      | 0 => 0
      | n => n + signLength r + 1
    else 0) = _
  unfold signedLength
  cases ((r.drop (signLength r)).takeWhile Char.isDigit).length <;> simp

theorem measures_signLength :
    Measures signLength (oneOf fun c => c == '+' || c == '-') where
  mem s h := by
    cases s with
    | nil => exact absurd rfl h
    | cons c s =>
      rw [signLength] at h ⊢
      split at h
      · next hc =>
        rw [if_pos hc]
        exact ⟨c, hc, rfl⟩
      · exact absurd rfl h
  le s v hv h := by
    obtain ⟨c, hc, rfl⟩ := hv
    obtain ⟨t, rfl⟩ := h
    exact Nat.le_of_eq (if_pos hc).symm
  bound s := by
    cases s with
    | nil => exact Nat.le_refl 0
    | cons c s =>
      rw [signLength]
      split <;> simp

/-- A digit is no sign. -/
theorem signLength_of_digit {c : Char} {s : List Char} (h : c.isDigit = true) :
    signLength (c :: s) = 0 := by
  refine if_neg fun hc => ?_
  rw [Bool.or_eq_true, beq_iff_eq, beq_iff_eq] at hc
  obtain rfl | rfl := hc <;> cases h

/-- Digits that may have a sign. -/
theorem measures_signedLength :
    Measures signedLength (optional (oneOf fun c => c == '+' || c == '-')
      * (oneOf Char.isDigit * (oneOf Char.isDigit)∗)) where
  mem s h := by
    have hrun := (measures_run Char.isDigit).mem (s.drop (signLength s))
    unfold signedLength at h ⊢
    split at h
    · exact absurd rfl h
    · next n hn =>
      rw [Nat.add_comm, List.take_add]
      exact Language.append_mem_mul (measures_signLength.mem_optional s) (hrun hn)
  le s v hv h := by
    obtain ⟨a, ha, b, hb, rfl⟩ := Language.mem_mul.mp hv
    obtain ⟨t, rfl⟩ := h
    obtain ⟨hhead, hdigits⟩ := (mem_oneOf_mul_star fun _ => id).mp hb
    -- the sign is where it is measured
    have hsign : signLength (a ++ b ++ t) = a.length := by
      obtain rfl | ⟨c, hc, rfl⟩ := ha
      · cases b with
        | nil => cases hhead
        | cons d b => exact signLength_of_digit hhead
      · exact if_pos hc
    have hle := (measures_run Char.isDigit).le (b ++ t) b hb (List.prefix_append _ _)
    have hpos : b.length ≠ 0 := by
      cases b with
      | nil => cases hhead
      | cons d b => exact Nat.succ_ne_zero _
    unfold signedLength
    rw [hsign, List.append_assoc, List.drop_left, List.length_append]
    split <;> omega
  bound s := by
    have hsign := measures_signLength.bound s
    have hrun := (measures_run Char.isDigit).bound (s.drop (signLength s))
    rw [List.length_drop] at hrun
    unfold signedLength
    split <;> omega

/-- An exponent. -/
theorem measures_exponentLength : Measures exponentLength Rule.exponent := by
  refine measures_signedLength.cons ?_ _ rfl exponentLength_cons
  rintro ⟨_, _, b, hb, heq⟩
  rw [(List.append_eq_nil_iff.mp heq).2] at hb
  cases ((mem_oneOf_mul_star fun _ => id).mp hb).1

/-- A digit may be part of digits. -/
theorem isDigitPart_of_isDigit {c : Char} (h : c.isDigit = true) : isDigitPart c = true := by
  rw [isDigitPart, h]
  rfl

/-- The letter of an exponent is no part of digits. -/
theorem not_isDigitPart_of_exponent {e : Char} (h : (e == 'e' || e == 'E') = true) :
    isDigitPart e = false := by
  rw [Bool.or_eq_true, beq_iff_eq, beq_iff_eq] at h
  obtain rfl | rfl := h <;> rfl

/-- How many characters the digits and the exponent of a fraction take. -/
def decimalsLength (s : List Char) : Nat :=
  if s.head?.any Char.isDigit = true then
    (s.takeWhile isDigitPart).length + exponentLength (s.drop (s.takeWhile isDigitPart).length)
  else 0

/-- The digits and the exponent of a fraction. -/
theorem measures_decimalsLength :
    Measures decimalsLength (Rule.digits * optional Rule.exponent) where
  mem s h := by
    unfold decimalsLength at h ⊢
    split at h
    · next hhead =>
      rw [if_pos hhead, List.take_add]
      refine Language.append_mem_mul ?_ (measures_exponentLength.mem_optional _)
      rw [take_length_takeWhile]
      refine (mem_oneOf_mul_star fun _ => isDigitPart_of_isDigit).mpr ⟨?_, forall_takeWhile s⟩
      cases s with
      | nil => cases hhead
      | cons d s =>
        rw [List.takeWhile_cons_of_pos (isDigitPart_of_isDigit hhead)]
        exact hhead
    · exact absurd rfl h
  le s v hv h := by
    obtain ⟨a, ha, b, hb, rfl⟩ := Language.mem_mul.mp hv
    obtain ⟨hhead, hdigits⟩ := (mem_oneOf_mul_star fun _ => isDigitPart_of_isDigit).mp ha
    have hs : s.head?.any Char.isDigit = true := by
      obtain ⟨t, rfl⟩ := h
      cases a with
      | nil => cases hhead
      | cons d a => exact hhead
    unfold decimalsLength
    rw [if_pos hs, List.length_append]
    obtain rfl | hb := hb
    · rw [List.append_nil] at h
      have hrun := measures_takeWhile isDigitPart
      exact Nat.le_add_right_of_le (hrun.le s a (mem_oneOf_star.mpr hdigits) h)
    · obtain ⟨e, b, he, hb, rfl⟩ := mem_oneOf_mul.mp hb
      obtain ⟨hrun, hrest⟩ :=
        takeWhile_of_begins hdigits (not_isDigitPart_of_exponent he) h
      rw [hrun]
      exact Nat.add_le_add_left (measures_exponentLength.le _ _ hb hrest) _
  bound s := by
    have hrun := (measures_takeWhile isDigitPart).bound s
    have hexponent := measures_exponentLength.bound (s.drop (s.takeWhile isDigitPart).length)
    rw [List.length_drop] at hexponent
    unfold decimalsLength
    split <;> omega

theorem fractionLength_point (s : List Char) :
    fractionLength ('.' :: s) = if decimalsLength s ≠ 0 then decimalsLength s + 1 else 0 := by
  cases s with
  | nil => rfl
  | cons d s =>
    rw [fractionLength]
    unfold decimalsLength
    by_cases hd : d.isDigit = true
    · simp [hd, isDigitPart_of_isDigit hd]
      omega
    · simp [hd]

/-- A fraction. -/
theorem measures_fractionLength : Measures fractionLength Rule.fraction := by
  have hpoint : exactly "." = oneOf (· == '.') := by
    ext w
    simp
  rw [Rule.fraction, hpoint]
  refine measures_decimalsLength.cons ?_ _ rfl fun c s => ?_
  · rintro ⟨a, ha, _, _, heq⟩
    rw [(List.append_eq_nil_iff.mp heq).1] at ha
    cases ((mem_oneOf_mul_star fun _ => isDigitPart_of_isDigit).mp ha).1
  · by_cases hc : c = '.'
    · subst hc
      simp [fractionLength_point]
    · rw [fractionLength, if_neg (by simp [hc])]
      exact fun d r heq => hc (List.cons.inj heq).1

/-! ## Strings -/

namespace Rule

variable {q c : Char} {v : List Char}

theorem mem_item {w : List Char} :
    w ∈ item q ↔ (∃ c, c ≠ q ∧ c ≠ '\\' ∧ w = [c]) ∨ ∃ c, c ≠ '\n' ∧ w = ['\\', c] := by
  unfold item
  rw [Language.mem_add, mem_oneOf, mem_exactly_mul]
  simp [and_assoc]

theorem append_mem_star {l : Language Char} {a b : List Char} (ha : a ∈ l) (hb : b ∈ l∗) :
    a ++ b ∈ l∗ :=
  mem_star.mpr (Or.inr (Language.append_mem_mul ha hb))

theorem char_mem_items (hq : c ≠ q) (hc : c ≠ '\\') (hv : v ∈ (item q)∗) :
    c :: v ∈ (item q)∗ :=
  append_mem_star (mem_item.mpr (Or.inl ⟨c, hq, hc, rfl⟩)) hv

theorem escape_mem_items (hc : c ≠ '\n') (hv : v ∈ (item q)∗) : '\\' :: c :: v ∈ (item q)∗ :=
  append_mem_star (mem_item.mpr (Or.inr ⟨c, hc, rfl⟩)) hv

/-- **Induction on the items of a string.** -/
@[elab_as_elim]
theorem items_induction {motive : (w : List Char) → w ∈ (item q)∗ → Prop}
    (nil : motive [] (Language.nil_mem_kstar _))
    (char : ∀ c v (hq : c ≠ q) (hc : c ≠ '\\') (hv : v ∈ (item q)∗), motive v hv →
      motive (c :: v) (char_mem_items hq hc hv))
    (escape : ∀ c v (hc : c ≠ '\n') (hv : v ∈ (item q)∗), motive v hv →
      motive ('\\' :: c :: v) (escape_mem_items hc hv))
    {w : List Char} (h : w ∈ (item q)∗) : motive w h := by
  obtain ⟨items, hw, hitems⟩ := Language.mem_kstar.mp h
  induction items generalizing w with
  | nil =>
    subst hw
    exact nil
  | cons i items ih =>
    rw [List.forall_mem_cons] at hitems
    have hrest := Language.join_mem_kstar hitems.2
    have ih := ih hrest rfl hitems.2
    obtain ⟨c, hq, hc, rfl⟩ | ⟨c, hn, rfl⟩ := mem_item.mp hitems.1
    · subst hw
      exact char c _ hq hc hrest ih
    · subst hw
      exact escape c _ hn hrest ih

end Rule

section Strings

variable {q c : Char} {s b : List Char}

theorem stringLength_cons (h : c ≠ '\\') :
    stringLength q (c :: s) =
      if c = q then (0, true) else ((stringLength q s).1 + 1, (stringLength q s).2) := by
  rw [stringLength]
  · exact fun hc _ => absurd hc h
  · exact fun _ _ hc _ => absurd hc h

theorem stringLength_escape :
    stringLength q ('\\' :: c :: s) =
      if c = '\n' then (0, false) else ((stringLength q s).1 + 2, (stringLength q s).2) := by
  rw [stringLength]

/-- **A quote after items is the closing one.** -/
theorem stringLength_closed (t : List Char) (hq : q ≠ '\\') (hb : b ∈ (Rule.item q)∗) :
    stringLength q (b ++ q :: t) = (b.length, true) := by
  induction hb using Rule.items_induction with
  | nil =>
    rw [List.nil_append, stringLength_cons hq, if_pos rfl]
    rfl
  | char c v hcq hc hv ih =>
    rw [List.cons_append, stringLength_cons hc, if_neg hcq, ih]
    rfl
  | escape c v hc hv ih =>
    rw [List.cons_append, List.cons_append, stringLength_escape, if_neg hc, ih]
    rfl

/-- Items belong to what is read. -/
theorem length_le_stringLength (t : List Char) (hb : b ∈ (Rule.item q)∗) :
    b.length ≤ (stringLength q (b ++ t)).1 := by
  induction hb using Rule.items_induction with
  | nil => exact Nat.zero_le _
  | char c v hcq hc hv ih =>
    rw [List.cons_append, stringLength_cons hc, if_neg hcq]
    exact Nat.succ_le_succ ih
  | escape c v hc hv ih =>
    rw [List.cons_append, List.cons_append, stringLength_escape, if_neg hc]
    exact Nat.succ_le_succ (Nat.succ_le_succ ih)

/-- **The items of a string**, closed or not. -/
theorem measures_stringLength (q : Char) :
    Measures (fun s => (stringLength q s).1) (Rule.item q)∗ where
  mem s h := by
    clear h
    fun_induction stringLength q s with
    | case4 c cs hc n closed hrec ih =>
      rw [hrec] at ih
      exact Rule.escape_mem_items hc ih
    | case6 c cs hend hescape hc n closed hrec ih =>
      rw [hrec] at ih
      refine Rule.char_mem_items hc ?_ ih
      rintro rfl
      cases cs with
      | nil => exact hend rfl rfl
      | cons d cs => exact hescape d cs rfl rfl
    | _ => exact Language.nil_mem_kstar _
  le s v hv h := by
    obtain ⟨t, rfl⟩ := h
    exact length_le_stringLength t hv
  bound s := by
    fun_induction stringLength q s with
    | case4 c cs hc n closed hrec ih =>
      rw [hrec] at ih
      exact Nat.succ_le_succ (Nat.succ_le_succ ih)
    | case6 c cs hend hescape hc n closed hrec ih =>
      rw [hrec] at ih
      exact Nat.succ_le_succ ih
    | _ => exact Nat.zero_le _

/-- A string is closed by its quote. -/
theorem drop_stringLength (h : (stringLength q s).2 = true) :
    ∃ t, s.drop (stringLength q s).1 = q :: t := by
  fun_induction stringLength q s with
  | case4 c cs hc n closed hrec ih =>
    rw [hrec] at ih
    exact ih h
  | case5 cs => exact ⟨cs, rfl⟩
  | case6 c cs hend hescape hc n closed hrec ih =>
    rw [hrec] at ih
    exact ih h
  | _ => cases h

end Strings

end Garnet
