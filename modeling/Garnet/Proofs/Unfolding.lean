import Mathlib.Data.List.Basic
import Garnet.Interpreter.Methods.Main
import Garnet.Proofs.Outcomes

/-!
# The unfolding of a value

An array that is reached in several ways, or that contains itself, is one array
on the heap, but a text shows it in every place where it is met. What is shown is
a tree, the **unfolding** of a value: its places are the sequences of positions
that lead from the value into its elements, the elements of those, and so on.
Where an array contains itself there is no end to such sequences, and the tree
is cut off: nothing is shown below a place that leads to an array which is open
there already, because it was met on the way.

The places and what stands at them determine the tree (`Unfolding.ext`). Both
forms of a value that are printed are read off it: the developer form is its
rendering, and the lines are its leaves from left to right.
-/

namespace Garnet

/-! ## Trees -/

/-- **A tree that shows a value.** -/
inductive Unfolding where
  /-- A value that is no array. -/
  | leaf (v : Value)
  /-- An array that is open already. -/
  | again
  /-- An array, with what shows its elements. -/
  | array (parts : List Unfolding)

/-- **What stands at a place** of a tree. -/
inductive Shown where
  /-- A value that is no array. -/
  | leaf (v : Value)
  /-- An array that is open already. -/
  | again
  /-- An array whose elements are shown. -/
  | array

namespace Unfolding

/-- What stands at the root of a tree. -/
def shown : Unfolding → Shown
  | leaf v => .leaf v
  | again => .again
  | array _ => .array

/-- What stands at a place of a tree, if it has that place. -/
def shownAt? : Unfolding → List Nat → Option Shown
  | t, [] => some t.shown
  | array parts, i :: p => parts[i]?.bind fun t => t.shownAt? p
  | _, _ :: _ => none

/-- **The rendering of a tree**: the elements of an array with commas between
them, in brackets. -/
def text (h : Heap) : Unfolding → String
  | leaf v => v.scalarInspect h
  | again => "[...]"
  | array parts => "[" ++ ", ".intercalate (parts.map fun t => t.text h) ++ "]"

/-- **The leaves of a tree**, from left to right: the string forms of the values,
and dots for the arrays that are open already. -/
def leaves (h : Heap) : Unfolding → List String
  | leaf v => [h.toS v]
  | again => ["[...]"]
  | array parts => parts.flatMap fun t => t.leaves h

mutual

/-- **A tree is determined by what stands at its places.** -/
theorem ext : {t u : Unfolding} → (∀ p, t.shownAt? p = u.shownAt? p) → t = u
  | .leaf v, u, h => by
    have hroot := h []
    cases u <;> simp_all [shownAt?, shown]
  | .again, u, h => by
    have hroot := h []
    cases u <;> simp_all [shownAt?, shown]
  | .array ts, .array us, h => by
    have hparts : ts = us := extAll fun i p => h (i :: p)
    rw [hparts]
  | .array ts, .leaf v, h => nomatch h []
  | .array ts, .again, h => nomatch h []

/-- The same for the parts of an array. -/
theorem extAll : {ts us : List Unfolding} →
    (∀ (i : Nat) p, ts[i]?.bind (shownAt? · p) = us[i]?.bind (shownAt? · p)) → ts = us
  | [], [], _ => rfl
  | [], u :: us, h => by simpa [shownAt?] using h 0 []
  | t :: ts, [], h => by simpa [shownAt?] using h 0 []
  | t :: ts, u :: us, h => by
    have hhead : t = u := ext fun p => h 0 p
    have htail : ts = us := extAll fun i p => h (i + 1) p
    rw [hhead, htail]

end

end Unfolding

/-! ## Places -/

namespace Heap

/-- **The value at a place**: a sequence of positions leads from a value to one
of its elements, to an element of that, and so on. -/
def at? (h : Heap) : Value → List Nat → Option Value
  | v, [] => some v
  | .array r, i :: p => (h.elements r)[i]?.bind fun v => h.at? v p
  | _, _ :: _ => none

/-- **Whether an array is met at a place where it is open already**, because it
is one of `opened`, or was met on the way to that place. -/
def Reopens (h : Heap) (opened : List ArrayRef) (v : Value) (p : List Nat) : Prop :=
  ∃ r, h.at? v p = some (.array r) ∧
    (r ∈ opened ∨ ∃ q, q <+: p ∧ q ≠ p ∧ h.at? v q = some (.array r))

/-- **What is shown at a place of a value.** -/
inductive Shows (h : Heap) (opened : List ArrayRef) (v : Value) : List Nat → Shown → Prop where
  /-- A value that is no array is shown as it is. -/
  | leaf {p : List Nat} {w : Value} (hw : h.at? v p = some w) (harray : ∀ r, w ≠ .array r) :
    h.Shows opened v p (.leaf w)
  /-- An array that is open already is not opened again. -/
  | again {p : List Nat} (hp : h.Reopens opened v p) : h.Shows opened v p .again
  /-- Every other array is opened. -/
  | array {p : List Nat} {r : ArrayRef} (hr : h.at? v p = some (.array r))
    (hp : ¬h.Reopens opened v p) : h.Shows opened v p .array

/-- **Whether a place is not cut off**: no array is met again on the way to it. -/
def Visible (h : Heap) (opened : List ArrayRef) (v : Value) (p : List Nat) : Prop :=
  ∀ q, q <+: p → q ≠ p → ¬h.Reopens opened v q

/-- **Whether a tree is the unfolding of a value** inside the arrays of `opened`:
it shows what it has to show at the places that are not cut off, and has no other
places. -/
def IsUnfolding (h : Heap) (opened : List ArrayRef) (v : Value) (t : Unfolding) : Prop :=
  ∀ p m, t.shownAt? p = some m ↔ h.Shows opened v p m ∧ h.Visible opened v p

/-- **The unfolding of a value** inside the arrays of `opened`. -/
def unfoldIn (h : Heap) (opened : List ArrayRef) (v : Value) : Unfolding :=
  match v with
  | .array r =>
    if r ∈ opened then .again
    else .array ((h.elements r).attach.map fun w => h.unfoldIn (r :: opened) w.1)
  | v => .leaf v
termination_by unvisited h.arrayRefs opened
decreasing_by exact unvisited_cons_lt (mem_arrayRefs w.2) ‹r ∉ opened›

variable {h : Heap} {opened : List ArrayRef} {v : Value} {r : ArrayRef} {p : List Nat}

theorem unfoldIn_again (hr : r ∈ opened) : h.unfoldIn opened (.array r) = .again := by
  rw [unfoldIn, if_pos hr]

theorem unfoldIn_array (hr : r ∉ opened) :
    h.unfoldIn opened (.array r) = .array ((h.elements r).map (h.unfoldIn (r :: opened))) := by
  rw [unfoldIn, if_neg hr, List.attach_map_val]

theorem unfoldIn_leaf (hv : ∀ r, v ≠ .array r) : h.unfoldIn opened v = .leaf v := by
  rw [unfoldIn]
  exact hv

/-! ## What the unfolding shows -/

/-- At its root, a value is open if it was open before. -/
theorem reopens_nil : h.Reopens opened v [] ↔ ∃ r ∈ opened, v = .array r := by
  constructor
  · rintro ⟨r, hr, hopen | ⟨q, hq, hne, -⟩⟩
    · cases hr
      exact ⟨r, hopen, rfl⟩
    · exact absurd (List.prefix_nil.mp hq) hne
  · rintro ⟨r, hopen, rfl⟩
    exact ⟨r, rfl, Or.inl hopen⟩

/-- Below an array there are the places of its elements. -/
theorem at?_cons {i : Nat} {w : Value} (hw : (h.elements r)[i]? = some w) (p : List Nat) :
    h.at? (.array r) (i :: p) = h.at? w p := by
  rw [at?, hw]
  rfl

/-- **Below an array**, that array is one more that is open. -/
theorem reopens_cons {i : Nat} {w : Value} (hw : (h.elements r)[i]? = some w) :
    h.Reopens opened (.array r) (i :: p) ↔ h.Reopens (r :: opened) w p := by
  constructor
  · rintro ⟨s, hs, hopen⟩
    refine ⟨s, (at?_cons hw p).symm.trans hs, ?_⟩
    obtain hopen | ⟨q, hq, hne, hmet⟩ := hopen
    · exact Or.inl (List.mem_cons_of_mem r hopen)
    · obtain rfl | ⟨q, rfl, hqp⟩ := List.prefix_cons_iff.mp hq
      · cases hmet
        exact Or.inl List.mem_cons_self
      · exact Or.inr ⟨q, hqp, fun heq => hne (congrArg _ heq), (at?_cons hw q).symm.trans hmet⟩
  · rintro ⟨s, hs, hopen⟩
    refine ⟨s, (at?_cons hw p).trans hs, ?_⟩
    obtain hopen | ⟨q, hq, hne, hmet⟩ := hopen
    · obtain rfl | hopen := List.mem_cons.mp hopen
      · exact Or.inr ⟨[], List.nil_prefix, nofun, rfl⟩
      · exact Or.inl hopen
    · have hne' : i :: q ≠ i :: p := fun heq => hne ((List.cons_inj_right i).mp heq)
      have hprefix : i :: q <+: i :: p := List.cons_prefix_cons.mpr ⟨rfl, hq⟩
      exact Or.inr ⟨i :: q, hprefix, hne', (at?_cons hw q).trans hmet⟩

/-- The same for what is shown. -/
theorem shows_cons {i : Nat} {w : Value} (hw : (h.elements r)[i]? = some w) {m : Shown} :
    h.Shows opened (.array r) (i :: p) m ↔ h.Shows (r :: opened) w p m := by
  have hat := at?_cons hw p
  constructor
  · intro hm
    cases hm with
    | leaf hw harray => exact .leaf (hat.symm.trans hw) harray
    | again hp => exact .again ((reopens_cons hw).mp hp)
    | array hr hp => exact .array (hat.symm.trans hr) (mt (reopens_cons hw).mpr hp)
  · intro hm
    cases hm with
    | leaf hw harray => exact .leaf (hat.trans hw) harray
    | again hp => exact .again ((reopens_cons hw).mpr hp)
    | array hr hp => exact .array (hat.trans hr) (mt (reopens_cons hw).mp hp)

/-- Only places that lead somewhere show something. -/
theorem Shows.at_isSome {m : Shown} (hm : h.Shows opened v p m) : (h.at? v p).isSome := by
  cases hm with
  | leaf hw _ => exact Option.isSome_of_eq_some hw
  | again hp =>
    obtain ⟨r, hr, -⟩ := hp
    exact Option.isSome_of_eq_some hr
  | array hr _ => exact Option.isSome_of_eq_some hr

/-- **One thing is shown at a place.** -/
theorem Shows.unique {m n : Shown} (hm : h.Shows opened v p m) (hn : h.Shows opened v p n) :
    m = n := by
  cases hm with
  | leaf hw harray =>
    cases hn with
    | leaf hw' _ =>
      cases hw.symm.trans hw'
      rfl
    | again hp =>
      obtain ⟨r, hr, -⟩ := hp
      exact absurd (Option.some.inj (hw.symm.trans hr)) (harray r)
    | array hr _ => exact absurd (Option.some.inj (hw.symm.trans hr)) (harray _)
  | again hp =>
    cases hn with
    | leaf hw harray =>
      obtain ⟨r, hr, -⟩ := hp
      exact absurd (Option.some.inj (hw.symm.trans hr)) (harray r)
    | again _ => rfl
    | array _ hnew => exact absurd hp hnew
  | array hr hnew =>
    cases hn with
    | leaf hw harray => exact absurd (Option.some.inj (hw.symm.trans hr)) (harray _)
    | again hp => exact absurd hp hnew
    | array _ _ => rfl

/-- A value is an array, or it is none. -/
theorem array_or_leaf (v : Value) : (∃ r, v = .array r) ∨ ∀ r, v ≠ .array r :=
  (em (∃ r, v = .array r)).imp_right not_exists.mp

/-- The root of the unfolding shows the value. -/
theorem shows_shown_unfoldIn (h : Heap) (opened : List ArrayRef) (v : Value) :
    h.Shows opened v [] (h.unfoldIn opened v).shown := by
  obtain ⟨r, rfl⟩ | hleaf := array_or_leaf v
  · by_cases hr : r ∈ opened
    · rw [unfoldIn_again hr]
      exact .again (reopens_nil.mpr ⟨r, hr, rfl⟩)
    · rw [unfoldIn_array hr]
      refine .array rfl fun hp => ?_
      obtain ⟨s, hs, heq⟩ := reopens_nil.mp hp
      cases heq
      exact hr hs
  · rw [unfoldIn_leaf hleaf]
    exact .leaf rfl hleaf

/-- Above a place below an array that is not open yet, there is the array itself,
and what is above the place in its element. -/
theorem visible_cons {i : Nat} {w : Value} (hr : r ∉ opened)
    (hw : (h.elements r)[i]? = some w) :
    h.Visible opened (.array r) (i :: p) ↔ h.Visible (r :: opened) w p := by
  constructor
  · intro hp q hq hne hopen
    refine hp (i :: q) (List.cons_prefix_cons.mpr ⟨rfl, hq⟩) ?_ ((reopens_cons hw).mpr hopen)
    exact fun heq => hne ((List.cons_inj_right i).mp heq)
  · intro hp q hq hne hopen
    obtain rfl | ⟨q, rfl, hqp⟩ := List.prefix_cons_iff.mp hq
    · obtain ⟨s, hs, heq⟩ := reopens_nil.mp hopen
      cases heq
      exact hr hs
    · exact hp q hqp (fun heq => hne (congrArg _ heq)) ((reopens_cons hw).mp hopen)

/-- A value that is no array has no place but its root. -/
theorem at?_cons_of_leaf (hv : ∀ r, v ≠ .array r) (i : Nat) : h.at? v (i :: p) = none := by
  cases v with
  | array r => exact absurd rfl (hv r)
  | _ => rfl

/-- **The unfolding shows what it has to show**, place by place. -/
theorem isUnfolding_unfoldIn (h : Heap) (opened : List ArrayRef) (v : Value) :
    h.IsUnfolding opened v (h.unfoldIn opened v) := by
  intro p m
  induction p generalizing opened v with
  | nil =>
    have hnil : h.Visible opened v [] := fun q hq hne => absurd (List.prefix_nil.mp hq) hne
    have hroot := shows_shown_unfoldIn h opened v
    rw [Unfolding.shownAt?, Option.some.injEq, and_iff_left hnil]
    exact ⟨fun hm => hm ▸ hroot, hroot.unique⟩
  | cons i p ih =>
    obtain ⟨r, rfl⟩ | hleaf := array_or_leaf v
    · by_cases hr : r ∈ opened
      -- nothing is shown below an array that is not opened
      · rw [unfoldIn_again hr]
        refine iff_of_false nofun fun hm => ?_
        exact hm.2 [] List.nil_prefix nofun (reopens_nil.mpr ⟨r, hr, rfl⟩)
      · rw [unfoldIn_array hr, Unfolding.shownAt?, List.getElem?_map]
        cases hw : (h.elements r)[i]? with
        | none =>
          refine iff_of_false nofun fun hm => ?_
          have hsome := hm.1.at_isSome
          rw [at?, hw] at hsome
          cases hsome
        | some w =>
          rw [shows_cons hw, visible_cons hr hw]
          exact ih (r :: opened) w
    · rw [unfoldIn_leaf hleaf]
      refine iff_of_false nofun fun hm => ?_
      have hsome := hm.1.at_isSome
      rw [at?_cons_of_leaf hleaf] at hsome
      cases hsome

/-- **A value has one unfolding.** -/
theorem IsUnfolding.unique {t u : Unfolding} (ht : h.IsUnfolding opened v t)
    (hu : h.IsUnfolding opened v u) : t = u := by
  refine Unfolding.ext fun p => Option.ext fun m => ?_
  exact (ht p m).trans (hu p m).symm

/-! ## What is printed -/

/-- **The developer form is the rendering of the unfolding.** -/
theorem text_unfoldIn (h : Heap) (opened : List ArrayRef) (v : Value) :
    (h.unfoldIn opened v).text h = h.inspectIn opened v := by
  induction opened, v using unfoldIn.induct h with
  | case1 opened r hr =>
    rw [unfoldIn_again hr, inspectIn, if_pos hr, Unfolding.text]
    rfl
  | case2 opened r hr ih =>
    have hparts : ((h.elements r).map (h.unfoldIn (r :: opened))).map (·.text h)
        = (h.elements r).map (h.inspectIn (r :: opened)) := by
      rw [List.map_map]
      exact List.map_congr_left fun w hw => ih ⟨w, hw⟩
    rw [unfoldIn_array hr, inspectIn, if_neg hr, Unfolding.text, hparts]
    dsimp only
    rw [List.attach_map_val]
  | case3 opened v hv =>
    rw [unfoldIn_leaf hv, Unfolding.text, inspectIn]
    exact hv

/-- The string form of a value that is no array. -/
theorem toS_of_leaf (hv : ∀ r, v ≠ .array r) : h.toS v = v.scalarText h := by
  cases v with
  | array r => exact absurd rfl (hv r)
  | _ => rfl

/-- The leaves of an array are those of its parts. -/
theorem flatMap_leaves (hparts : ∀ w ∈ h.elements r,
      (h.unfoldIn (r :: opened) w).leaves h = h.linesIn (r :: opened) w) :
    ((h.elements r).map (h.unfoldIn (r :: opened))).flatMap (fun t => t.leaves h)
      = (h.elements r).attach.flatMap fun w => h.linesIn (r :: opened) w.1 := by
  rw [List.flatMap_map, ← List.flatMap_map Subtype.val, List.attach_map_subtype_val]
  exact List.flatMap_congr hparts

/-- **Inside an array, the lines are the leaves of the unfolding.** -/
theorem leaves_unfoldIn (h : Heap) (opened : List ArrayRef) (v : Value)
    (hopened : opened.isEmpty = false) : (h.unfoldIn opened v).leaves h = h.linesIn opened v := by
  induction opened, v using unfoldIn.induct h with
  | case1 opened r hr =>
    rw [unfoldIn_again hr, linesIn, if_pos hr, Unfolding.leaves]
    rfl
  | case2 opened r hr ih =>
    rw [unfoldIn_array hr, linesIn, if_neg hr, Unfolding.leaves, hopened, Bool.and_false,
      if_neg Bool.false_ne_true]
    exact flatMap_leaves fun w hw => ih ⟨w, hw⟩ rfl
  | case3 opened v hv =>
    rw [unfoldIn_leaf hv, linesIn, Unfolding.leaves, toS_of_leaf hv]
    exact hv

/-- **Whether a value is an empty array.** -/
def IsEmptyArray (h : Heap) (v : Value) : Prop :=
  ∃ r, v = .array r ∧ h.elements r = []

/-- An empty array is a line of its own. -/
theorem lines_of_empty (hv : h.IsEmptyArray v) : h.lines v = [""] := by
  obtain ⟨r, rfl, hr⟩ := hv
  rw [lines, linesIn, if_neg List.not_mem_nil, hr]
  rfl

/-- **Every other value has the leaves of its unfolding as its lines.** -/
theorem lines_of_not_empty (hv : ¬h.IsEmptyArray v) :
    h.lines v = (h.unfoldIn [] v).leaves h := by
  obtain ⟨r, rfl⟩ | hleaf := array_or_leaf v
  · have helements : (h.elements r).isEmpty = false :=
      List.isEmpty_eq_false_iff.mpr fun hnil => hv ⟨r, rfl, hnil⟩
    rw [unfoldIn_array List.not_mem_nil, lines, linesIn, if_neg List.not_mem_nil, helements,
      Bool.false_and, if_neg Bool.false_ne_true, Unfolding.leaves]
    exact (flatMap_leaves fun w _ => leaves_unfoldIn h [r] w rfl).symm
  · rw [unfoldIn_leaf hleaf, Unfolding.leaves, toS_of_leaf hleaf, lines, linesIn]
    exact hleaf

end Heap

/-- Printing lines appends them to what was printed, each with a line end. -/
theorem printLines_eq (ls : List String) (s : Interpreter) :
    printLines ls s
      = .ok () { s with printed := s.printed ++ String.join (ls.map (· ++ "\n")) } := by
  induction ls generalizing s with
  | nil =>
    have hnil : s.printed ++ String.join [] = s.printed := String.append_empty
    rw [List.map_nil, hnil]
    rfl
  | cons l ls ih =>
    have hl : Interpreter.printLine l s = .ok () { s with printed := s.printed ++ l ++ "\n" } := rfl
    have hjoin : s.printed ++ l ++ "\n" ++ String.join (ls.map (· ++ "\n"))
        = s.printed ++ String.join ((l :: ls).map (· ++ "\n")) := by
      rw [List.map_cons, String.join_cons]
      simp only [String.append_assoc]
    rw [← hjoin]
    exact (Outcome.bind_of_ok hl).trans (ih _)

/-- What `puts` does with one value. -/
theorem puts_one (v : Value) (s : Interpreter) :
    puts [v] s = .ok .nil
      { s with printed := s.printed ++ String.join ((s.heap.lines v).map (· ++ "\n")) } := by
  have hone : [v].flatMap s.heap.lines = s.heap.lines v := List.flatMap_singleton s.heap.lines v
  have hlines := printLines_eq ([v].flatMap s.heap.lines) s
  refine (Outcome.bind_of_ok hlines).trans ?_
  rw [hone]
  rfl

/-- **Printing shows the unfolding of a value.** Whatever arrays a heap has, and
however they contain each other, a value has one unfolding, in which an array is
shown with its elements at every place where it is not open already. The
developer form is the rendering of that tree. What `puts` prints are its leaves
from left to right, each on a line of its own, so an empty array inside another
one leaves no trace; an empty array by itself is an empty line. -/
theorem printing_shows_the_unfolding (h : Heap) (v : Value) :
    ∃ t : Unfolding, h.IsUnfolding [] v t ∧ (∀ u, h.IsUnfolding [] v u → u = t) ∧
      h.inspect v = t.text h ∧
      ∃ ls : List String, (h.IsEmptyArray v → ls = [""]) ∧
        (¬h.IsEmptyArray v → ls = t.leaves h) ∧
        ∀ s : Interpreter, s.heap = h →
          puts [v] s = .ok .nil
            { s with printed := s.printed ++ String.join (ls.map (· ++ "\n")) } := by
  have hunfolding := Heap.isUnfolding_unfoldIn h [] v
  refine ⟨h.unfoldIn [] v, hunfolding, fun u hu => hu.unique hunfolding,
    (Heap.text_unfoldIn h [] v).symm, h.lines v, Heap.lines_of_empty,
    Heap.lines_of_not_empty, ?_⟩
  rintro s rfl
  exact puts_one v s

/-- An array that stands twice in another one is shown twice, and only the array
that contains itself is cut off. -/
example :
    let h : Heap := { Heap.empty with
      arrays := #[[.int 1], [.array ⟨0⟩, .array ⟨0⟩, .array ⟨2⟩, .array ⟨1⟩], []] }
    h.inspect (.array ⟨1⟩) = "[[1], [1], [], [...]]" ∧
      h.lines (.array ⟨1⟩) = ["1", "1", "[...]"] := by
  decide +kernel

end Garnet
