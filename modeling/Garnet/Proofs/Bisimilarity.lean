import Mathlib.Data.List.Forall2
import Garnet.Object.Equality

/-!
# Equality is bisimilarity

When arrays contain each other, what it means for two of them to have the same
contents cannot be said by going down through their elements, for there may be
no end to that. It is said by a **bisimulation** instead: a relation that
relates two arrays only if it relates their elements, one after the other.
Two values are **bisimilar** if some bisimulation relates them.

A comparison assumes that a pair of arrays is equal while it is being compared,
and forgets the assumption afterwards. What a comparison finds is therefore true
under the assumptions it was made with (`Heap.BisimilarGiven`), and the pair
that is compared can be discharged from them as soon as the elements are found
equal (`Heap.BisimilarGiven.of_elements`). A comparison that starts without
assumptions ends without them.
-/

namespace Garnet

/-! ## Identity -/

namespace Value

/-- What makes up the identity of a value. -/
def identity : Value → Value
  | .string id _ => .string id ""
  | .symbol id _ => .symbol id ""
  | .error id _ => .error id (Error.ofKind (.undefined ""))
  | v => v

theorem same_iff {v w : Value} : v.same w = Bool.true ↔ v.identity = w.identity := by
  cases v <;> cases w <;> simp [same, identity]

/-- Whether a value is compared by what it contains. -/
def hasContents : Value → Bool
  | .string .. | .array _ => Bool.true
  | _ => Bool.false

theorem hasContents_congr {v w : Value} (h : v.identity = w.identity) :
    v.hasContents = w.hasContents := by
  have hid (u : Value) : u.hasContents = u.identity.hasContents := by cases u <;> rfl
  rw [hid v, h, ← hid]

/-- **Whether two values that are no arrays are alike**: strings by their text,
integers by value, and everything else by identity. -/
inductive Alike : Value → Value → Prop where
  /-- Strings with the same text. -/
  | string (i j : Nat) (text : String) : Alike (.string i text) (.string j text)
  /-- Equal integers. -/
  | int (n : Int64) : Alike (.int n) (.int n)
  /-- A value without contents, and itself. -/
  | identical {v w : Value} (hv : v.hasContents = Bool.false) (h : v.same w = Bool.true) :
    Alike v w

namespace Alike

variable {u v w : Value}

theorem refl (hv : ∀ r, v ≠ .array r) : v.Alike v := by
  cases v with
  | array r => exact absurd rfl (hv r)
  | string i text => exact string i i text
  | _ => exact identical rfl (same_iff.mpr rfl)

theorem symm (h : v.Alike w) : w.Alike v := by
  cases h with
  | string i j text => exact string j i text
  | int n => exact int n
  | identical hv h =>
    have h' := same_iff.mp h
    exact identical ((hasContents_congr h').symm.trans hv) (same_iff.mpr h'.symm)

theorem trans (huv : u.Alike v) (hvw : v.Alike w) : u.Alike w := by
  cases huv with
  | string i j text =>
    cases hvw with
    | string _ k _ => exact string i k text
    | identical hv h => cases hv
  | int n => exact hvw
  | identical hu h =>
    have hv : v.hasContents = Bool.false := (hasContents_congr (same_iff.mp h)).symm.trans hu
    cases hvw with
    | string i j text => cases hv
    | int n => exact identical hu h
    | identical _ h' =>
      exact identical hu (same_iff.mpr ((same_iff.mp h).trans (same_iff.mp h')))

/-- Arrays are not alike. -/
theorem not_array {r : ArrayRef} (h : (Value.array r).Alike w) : False := by
  cases h with
  | identical hv _ => cases hv

end Alike

end Value

/-! ## Bisimulations -/

namespace Heap

/-- **What a relation must say of the elements** of two values that it may
relate. -/
inductive Related (h : Heap) (R : Value → Value → Prop) : Value → Value → Prop where
  /-- The same array. -/
  | same (r : ArrayRef) : h.Related R (.array r) (.array r)
  /-- Arrays of the same length, whose elements are related in order. -/
  | elements {r s : ArrayRef} (hrs : List.Forall₂ R (h.elements r) (h.elements s)) :
    h.Related R (.array r) (.array s)
  /-- Values that are no arrays. -/
  | alike {v w : Value} (hvw : v.Alike w) : h.Related R v w

/-- **A bisimulation.** -/
def IsBisimulation (h : Heap) (R : Value → Value → Prop) : Prop :=
  ∀ v w, R v w → h.Related R v w

/-- **Whether two values cannot be told apart by their contents.** -/
def Bisimilar (h : Heap) (v w : Value) : Prop :=
  ∃ R, h.IsBisimulation R ∧ R v w

variable {h : Heap} {u v w : Value}

theorem Related.mono {R S : Value → Value → Prop} (hRS : ∀ v w, R v w → S v w)
    (hvw : h.Related R v w) : h.Related S v w := by
  cases hvw with
  | same r => exact same r
  | elements hrs => exact elements (hrs.imp hRS)
  | alike hvw => exact alike hvw

/-- A comparison of elements that goes through those of a third array. -/
theorem forall₂_comp {R S : Value → Value → Prop} {us vs ws : List Value}
    (huv : List.Forall₂ R us vs) (hvw : List.Forall₂ S vs ws) :
    List.Forall₂ (fun u w => ∃ v, R u v ∧ S v w) us ws := by
  induction huv generalizing ws with
  | nil =>
    cases hvw
    exact .nil
  | cons huv _ ih =>
    cases hvw with
    | cons hvw hrest => exact .cons ⟨_, huv, hvw⟩ (ih hrest)

namespace Bisimilar

/-- Bisimilarity is a bisimulation itself. -/
theorem isBisimulation (h : Heap) : h.IsBisimulation h.Bisimilar := by
  rintro v w ⟨R, hR, hvw⟩
  exact (hR v w hvw).mono fun x y hxy => ⟨R, hR, hxy⟩

theorem related (hvw : h.Bisimilar v w) : h.Related h.Bisimilar v w :=
  isBisimulation h v w hvw

theorem refl (h : Heap) (v : Value) : h.Bisimilar v v := by
  refine ⟨Eq, ?_, rfl⟩
  rintro v w rfl
  cases v with
  | array r => exact .same r
  | _ => exact .alike (.refl nofun)

theorem symm (hvw : h.Bisimilar v w) : h.Bisimilar w v := by
  refine ⟨fun x y => h.Bisimilar y x, fun x y hyx => ?_, hvw⟩
  cases hyx.related with
  | same r => exact .same r
  | elements hrs => exact .elements hrs.flip
  | alike hyx => exact .alike hyx.symm

theorem trans (huv : h.Bisimilar u v) (hvw : h.Bisimilar v w) : h.Bisimilar u w := by
  refine ⟨fun x z => ∃ y, h.Bisimilar x y ∧ h.Bisimilar y z, ?_, v, huv, hvw⟩
  rintro x z ⟨y, hxy, hyz⟩
  cases hxy.related with
  -- the same array is bisimilar to itself, and so are its elements
  | same r => exact hyz.related.mono fun x' z' hxz' => ⟨x', refl h x', hxz'⟩
  | elements hrs =>
    cases hyz.related with
    | same s => exact .elements (hrs.imp fun x' y' hxy' => ⟨y', hxy', refl h y'⟩)
    | elements hst => exact .elements (forall₂_comp hrs hst)
    | alike hyz => exact hyz.not_array.elim
  | alike hxy =>
    cases hyz.related with
    | same s => exact hxy.symm.not_array.elim
    | elements hst => exact hxy.symm.not_array.elim
    | alike hyz => exact .alike (hxy.trans hyz)

end Bisimilar

/-! ## Values without floating-point numbers

Floating-point numbers are compared as numbers: the two zeros are equal, a NaN
is not equal to itself, and an integer can be equal to a number that is only
near it. That is no identity, and not transitive either. -/

/-- **What a value holds**: itself and, if it is an array, all that its elements
hold. -/
inductive Reaches (h : Heap) : Value → Value → Prop where
  | self (v : Value) : h.Reaches v v
  | element {r : ArrayRef} {v w : Value} (hv : v ∈ h.elements r) (hw : h.Reaches v w) :
    h.Reaches (.array r) w

/-- **A value that holds no floating-point number.** -/
def FloatFree (h : Heap) (v : Value) : Prop :=
  ∀ x, ¬h.Reaches v (.float x)

theorem FloatFree.element {r : ArrayRef} (hr : h.FloatFree (.array r)) (hv : v ∈ h.elements r) :
    h.FloatFree v :=
  fun x hx => hr x (.element hv hx)

theorem FloatFree.ne_float (hv : h.FloatFree v) (x : Float64) : v ≠ .float x := by
  rintro rfl
  exact hv x (.self _)

/-- On a heap whose arrays have no floating-point numbers as elements, no other
value holds one. -/
theorem FloatFree.of_elements (helements : ∀ r, ∀ w ∈ h.elements r, ∀ x, w ≠ .float x)
    (hv : ∀ x, v ≠ .float x) : h.FloatFree v := by
  intro x hx
  generalize hw : Value.float x = w at hx
  induction hx with
  | self v => exact hv x hw.symm
  | element hmem _ ih => exact ih (helements _ _ hmem) hw

/-- **Values that are not both arrays are equal if they are alike.** -/
theorem scalarEquals_iff (hv : ∀ x, v ≠ .float x) (hw : ∀ x, w ≠ .float x)
    (harray : ∀ r s, v = .array r → w = .array s → False) :
    v.scalarEquals w = true ↔ v.Alike w := by
  constructor
  · intro h
    unfold Value.scalarEquals at h
    split at h
    · next i s j t =>
      rw [beq_iff_eq] at h
      subst h
      exact .string i j s
    · exact absurd rfl (hv _)
    · exact absurd rfl (hw _)
    · exact absurd rfl (hv _)
    · next hstring _ _ _ =>
      have hid := Value.same_iff.mp h
      refine .identical ?_ h
      cases v with
      | array r =>
        cases w with
        | array s => exact (harray r s rfl rfl).elim
        | _ => cases hid
      | string i s =>
        cases w with
        | string j t => exact absurd rfl (hstring i s j t rfl)
        | _ => cases hid
      | _ => rfl
  · intro h
    cases h with
    | string i j text => exact beq_self_eq_true text
    | int n => exact beq_self_eq_true n
    | identical hcontents h =>
      unfold Value.scalarEquals
      split
      · cases hcontents
      · exact absurd rfl (hv _)
      · exact absurd rfl (hw _)
      · exact absurd rfl (hv _)
      · exact h

/-! ## Comparisons under assumptions -/

/-- Whether two values are arrays that are assumed to be equal. -/
def Assumed (assumed : List (ArrayRef × ArrayRef)) (v w : Value) : Prop :=
  ∃ r s, (r, s) ∈ assumed ∧ v = .array r ∧ w = .array s

/-- **Bisimilarity under assumptions**: some relation relates the two values, and
what it relates is assumed, or justified by what it relates. -/
def BisimilarGiven (h : Heap) (assumed : List (ArrayRef × ArrayRef)) (v w : Value) : Prop :=
  ∃ R, (∀ x y, R x y → Assumed assumed x y ∨ h.Related R x y) ∧ R v w

namespace BisimilarGiven

variable {assumed : List (ArrayRef × ArrayRef)} {r s : ArrayRef}

/-- Without assumptions it is bisimilarity. -/
theorem bisimilar (hvw : h.BisimilarGiven [] v w) : h.Bisimilar v w := by
  obtain ⟨R, hR, hvw⟩ := hvw
  refine ⟨R, fun x y hxy => ?_, hvw⟩
  obtain ⟨r, s, hnil, -⟩ | hrelated := hR x y hxy
  · exact absurd hnil List.not_mem_nil
  · exact hrelated

/-- What is assumed is given. -/
theorem of_assumed (hrs : (r, s) ∈ assumed) : h.BisimilarGiven assumed (.array r) (.array s) :=
  ⟨Assumed assumed, fun _ _ hxy => Or.inl hxy, r, s, hrs, rfl, rfl⟩

/-- What is justified without assumptions is justified with them. -/
theorem of_bisimilar (hvw : h.Bisimilar v w) : h.BisimilarGiven assumed v w :=
  ⟨h.Bisimilar, fun _ _ hxy => Or.inr hxy.related, hvw⟩

/-- **Two arrays need not be assumed** where their elements are found bisimilar
under that assumption. -/
theorem of_elements (hrs : List.Forall₂ (h.BisimilarGiven ((r, s) :: assumed)) (h.elements r)
    (h.elements s)) : h.BisimilarGiven assumed (.array r) (.array s) := by
  refine ⟨h.BisimilarGiven ((r, s) :: assumed), fun x y hxy => ?_,
    of_assumed List.mem_cons_self⟩
  obtain ⟨R, hR, hxy⟩ := hxy
  obtain ⟨r', s', hmem, rfl, rfl⟩ | hrelated := hR x y hxy
  · obtain heq | hmem := List.mem_cons.mp hmem
    -- the pair itself is justified by its elements
    · cases heq
      exact Or.inr (.elements hrs)
    · exact Or.inl ⟨r', s', hmem, rfl, rfl⟩
  · exact Or.inr (hrelated.mono fun x' y' hxy' => ⟨R, hR, hxy'⟩)

end BisimilarGiven

/-- **What two arrays are compared by**: their identity, what is assumed, and their
elements in order, for which the two are assumed to be equal. -/
theorem equalsGiven_array {assumed : List (ArrayRef × ArrayRef)} {r s : ArrayRef} :
    h.equalsGiven assumed (.array r) (.array s) = true ↔
      (r = s ∨ (r, s) ∈ assumed) ∨
        List.Forall₂ (fun v w => h.equalsGiven ((r, s) :: assumed) v w = true)
          (h.elements r) (h.elements s) := by
  rw [equalsGiven, List.forall₂_iff_zip]
  split
  · next hknown => exact iff_of_true rfl (Or.inl hknown)
  · next hnew => simp [hnew]

theorem equalsGiven_scalar (assumed : List (ArrayRef × ArrayRef))
    (harray : ∀ r s, v = .array r → w = .array s → False) :
    h.equalsGiven assumed v w = v.scalarEquals w := by
  rw [equalsGiven]
  exact harray

/-- **What is found equal is bisimilar** under the assumptions of the comparison. -/
theorem bisimilarGiven_of_equalsGiven {assumed : List (ArrayRef × ArrayRef)}
    (hv : h.FloatFree v) (hw : h.FloatFree w) (hvw : h.equalsGiven assumed v w = true) :
    h.BisimilarGiven assumed v w := by
  induction assumed, v, w using equalsGiven.induct h with
  | case1 assumed r s hknown =>
    obtain rfl | hmem := hknown
    · exact .of_bisimilar (.refl h _)
    · exact .of_assumed hmem
  | case2 assumed r s hnew ih =>
    have helements := (equalsGiven_array.mp hvw).resolve_left hnew
    obtain ⟨hlength, hpairs⟩ := List.forall₂_iff_zip.mp helements
    refine .of_elements (List.forall₂_iff_zip.mpr ⟨hlength, fun {x y} hxy => ?_⟩)
    obtain ⟨hx, hy⟩ := List.of_mem_zip hxy
    exact ih ⟨(x, y), hxy⟩ (hv.element hx) (hw.element hy) (hpairs hxy)
  | case3 assumed v w harray =>
    rw [equalsGiven_scalar assumed harray] at hvw
    have halike := (scalarEquals_iff hv.ne_float hw.ne_float harray).mp hvw
    exact .of_bisimilar ⟨Value.Alike, fun _ _ hxy => .alike hxy, halike⟩

/-- **What is bisimilar is found equal**, whatever is assumed. -/
theorem equalsGiven_of_bisimilar {assumed : List (ArrayRef × ArrayRef)}
    (hv : h.FloatFree v) (hw : h.FloatFree w) (hvw : h.Bisimilar v w) :
    h.equalsGiven assumed v w = true := by
  induction assumed, v, w using equalsGiven.induct h with
  | case1 assumed r s hknown => exact equalsGiven_array.mpr (Or.inl hknown)
  | case2 assumed r s hnew ih =>
    cases hvw.related with
    | same r => exact absurd (Or.inl rfl) hnew
    | elements hrs =>
      obtain ⟨hlength, hpairs⟩ := List.forall₂_iff_zip.mp hrs
      refine equalsGiven_array.mpr (Or.inr (List.forall₂_iff_zip.mpr ⟨hlength, fun hxy => ?_⟩))
      obtain ⟨hx, hy⟩ := List.of_mem_zip hxy
      exact ih ⟨_, hxy⟩ (hv.element hx) (hw.element hy) (hpairs hxy)
    | alike halike => exact halike.not_array.elim
  | case3 assumed v w harray =>
    rw [equalsGiven_scalar assumed harray]
    cases hvw.related with
    | same r => exact (harray r r rfl rfl).elim
    | elements _ => exact (harray _ _ rfl rfl).elim
    | alike halike => exact (scalarEquals_iff hv.ne_float hw.ne_float harray).mpr halike

/-- **Equality is bisimilarity** for values that hold no floating-point number. -/
theorem equals_iff_bisimilar (hv : h.FloatFree v) (hw : h.FloatFree w) :
    h.equals v w = true ↔ h.Bisimilar v w :=
  ⟨fun hvw => (bisimilarGiven_of_equalsGiven hv hw hvw).bisimilar,
    equalsGiven_of_bisimilar hv hw⟩

/-- **Equality is bisimilarity**, and therefore an equivalence. Whatever arrays a
heap has, and however they contain each other, every comparison of values that
hold no floating-point number has an answer: it is yes exactly if some relation
between values relates the two and relates only

* an array to itself;
* two arrays of the same length to each other, whose elements it relates in order;
* values that are no arrays, and that are strings with the same text, equal
  integers, or identical. -/
theorem equality_is_bisimilarity (h : Heap) :
    (∀ v w, h.FloatFree v → h.FloatFree w →
      (h.equals v w = true ↔ ∃ R, h.IsBisimulation R ∧ R v w)) ∧
    (∀ v, h.FloatFree v → h.equals v v = true) ∧
    (∀ v w, h.FloatFree v → h.FloatFree w → h.equals v w = true → h.equals w v = true) ∧
    ∀ u v w, h.FloatFree u → h.FloatFree v → h.FloatFree w →
      h.equals u v = true → h.equals v w = true → h.equals u w = true := by
  refine ⟨fun v w hv hw => equals_iff_bisimilar hv hw, fun v hv => ?_, fun v w hv hw hvw => ?_,
    fun u v w hu hv hw huv hvw => ?_⟩
  · exact (equals_iff_bisimilar hv hv).mpr (.refl h v)
  · exact (equals_iff_bisimilar hw hv).mpr ((equals_iff_bisimilar hv hw).mp hvw).symm
  · have huv' := (equals_iff_bisimilar hu hv).mp huv
    have hvw' := (equals_iff_bisimilar hv hw).mp hvw
    exact (equals_iff_bisimilar hu hw).mpr (huv'.trans hvw')

/-- A loop of one array and a loop of two, with strings of the same text in them:
no bisimulation is looked for, but there is one. -/
theorem loops_of_different_lengths_are_equal :
    let h : Heap := { Heap.empty with arrays :=
      #[[.string 0 "a", .array ⟨0⟩], [.string 1 "a", .array ⟨2⟩], [.string 2 "a", .array ⟨1⟩]] }
    h.FloatFree (.array ⟨0⟩) ∧ h.FloatFree (.array ⟨1⟩) ∧ h.FloatFree (.array ⟨2⟩) ∧
      (∃ R, h.IsBisimulation R ∧ R (.array ⟨0⟩) (.array ⟨1⟩)) ∧
      h.equals (.array ⟨1⟩) (.array ⟨0⟩) = true ∧ h.equals (.array ⟨1⟩) (.array ⟨1⟩) = true ∧
      h.equals (.array ⟨0⟩) (.array ⟨2⟩) = true := by
  intro h
  have helements : ∀ r, ∀ w ∈ h.elements r, ∀ x, w ≠ .float x := by
    rintro ⟨i⟩ w hw x rfl
    match i with
    | 0 | 1 | 2 | n + 3 => simp [h, elements] at hw
  have hfree (r : ArrayRef) : h.FloatFree (.array r) := .of_elements helements nofun
  have h01 : h.equals (.array ⟨0⟩) (.array ⟨1⟩) = true := by decide +kernel
  have h12 : h.equals (.array ⟨1⟩) (.array ⟨2⟩) = true := by decide +kernel
  obtain ⟨hiff, hrefl, hsymm, htrans⟩ := equality_is_bisimilarity h
  exact ⟨hfree _, hfree _, hfree _, (hiff _ _ (hfree _) (hfree _)).mp h01,
    hsymm _ _ (hfree _) (hfree _) h01, hrefl _ (hfree _),
    htrans _ _ _ (hfree _) (hfree _) (hfree _) h01 h12⟩

end Heap

end Garnet
