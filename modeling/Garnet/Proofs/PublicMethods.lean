import Mathlib.Data.List.Forall2
import Garnet.Proofs.Ancestors
import Garnet.Proofs.Symbols

/-!
# The public methods of a class

A class lists the names of the methods that everyone may call on its instances.
The list is collected from the tables of its ancestors, one after the other, and
so it tells something else than a search. A search stops at the first table that
has a name; if the method there is private, then it hides what comes after it, and
the list names what is hidden. And the list stops at the ancestors, where a search
goes on to the classes beyond them.

Everywhere else the two agree.
-/

namespace Garnet

open Interpreter

namespace Heap

variable {h : Heap} {r : ClassRef} {name : String}

/-- **Whether a class has a method of its own** under a name that everyone may
call. -/
def Publishes (h : Heap) (name : String) (c : ClassRef) : Prop :=
  ∃ m, h.ownMethod? name c = some m ∧ (h.method m).visibility = .everyone

/-- **Whether a search finds a method of some visibility** for the instances of a
class. -/
def Finds (h : Heap) (r : ClassRef) (name : String) (visibility : Visibility) : Prop :=
  ∃ m, h.instanceMethod? r name = some m ∧ (h.method m).visibility = visibility

instance (h : Heap) (r : ClassRef) (name : String) (visibility : Visibility) :
    Decidable (h.Finds r name visibility) :=
  decidable_of_iff ((h.instanceMethod? r name).map (fun m => (h.method m).visibility)
    = some visibility) Option.map_eq_some_iff

/-! ## What is listed -/

/-- **The names of a table that everyone may call** are those under which it has
such a method. -/
theorem mem_publicNames {table : MethodTable} (hF : h.Files table) :
    name ∈ h.publicNames table ↔
      ∃ m, table.find? name = some m ∧ (h.method m).visibility = .everyone := by
  unfold publicNames
  constructor
  · intro hname
    obtain ⟨e, he, rfl⟩ := List.mem_map.mp hname
    obtain ⟨hmem, hpublic⟩ := List.mem_filter.mp he
    exact ⟨e.2, hF.sorted.find?_eq (hF.named e hmem ▸ hmem), eq_of_beq hpublic⟩
  · rintro ⟨m, hm, hpublic⟩
    have hmem : (name, m) ∈ table.entries := Bindings.mem_entries hm
    have hnamed : (h.method m).name = name := hF.named _ hmem
    exact List.mem_map.mpr ⟨_, List.mem_filter.mpr ⟨hmem, beq_iff_eq.mpr hpublic⟩, hnamed⟩

/-- Names that are brought into order. -/
theorem mem_foldr_insertName {ns : List String} : name ∈ ns.foldr insertName [] ↔ name ∈ ns := by
  induction ns with
  | nil => rfl
  | cons n ns ih => rw [List.foldr_cons, mem_insertName, ih, List.mem_cons]

/-- **A class lists what its ancestors publish.** -/
theorem Filed.mem_publicInstanceMethods (hF : h.Filed) :
    name ∈ h.publicInstanceMethods r ↔ ∃ c ∈ h.ancestors r, h.Publishes name c := by
  rw [publicInstanceMethods, mem_foldr_insertName, List.mem_flatMap]
  exact exists_congr fun c => and_congr_right fun _ => mem_publicNames (hF c)

/-- **The list is in alphabetical order**, and no name is twice in it. -/
theorem pairwise_publicInstanceMethods (h : Heap) (r : ClassRef) :
    (h.publicInstanceMethods r).Pairwise (· < ·) := by
  unfold publicInstanceMethods
  generalize ((h.ancestors r).flatMap fun c => h.publicNames (h.classAt c).methods) = ns
  induction ns with
  | nil => exact List.Pairwise.nil
  | cons n ns ih => exact pairwise_insertName n ih

/-! ## What is found -/

/-- A method is for everyone or private. -/
theorem finds_or_finds {m : MethodRef} (hm : h.instanceMethod? r name = some m) :
    h.Finds r name .everyone ∨ h.Finds r name .implicitReceiver := by
  cases hv : (h.method m).visibility with
  | everyone => exact Or.inl ⟨m, hm, hv⟩
  | implicitReceiver => exact Or.inr ⟨m, hm, hv⟩

/-- **A name is listed** exactly if a search finds a method that everyone may call,
or a private one that hides such a method; this is as far as the ancestors go. -/
theorem Filed.mem_publicInstanceMethods_iff_finds (hF : h.Filed) (hA : h.Acyclic)
    (hbeyond : ∀ q, h.IsBeyond q r → h.ownMethod? name q = none) :
    name ∈ h.publicInstanceMethods r ↔ h.Finds r name .everyone ∨
      h.Finds r name .implicitReceiver ∧ ∃ c ∈ h.ancestors r, h.Publishes name c := by
  rw [hF.mem_publicInstanceMethods]
  constructor
  · rintro ⟨c, hc, hpublic⟩
    have hsome : h.instanceMethod? r name ≠ none := by
      intro hnone
      obtain ⟨m, hm, -⟩ := hpublic
      rw [((hA.instanceMethod?_eq_none r name).mp hnone).1 c hc] at hm
      cases hm
    obtain ⟨m, hm⟩ := Option.ne_none_iff_exists'.mp hsome
    exact (finds_or_finds hm).imp_right fun hprivate => ⟨hprivate, c, hc, hpublic⟩
  · rintro (⟨m, hm, hpublic⟩ | ⟨-, hpublished⟩)
    · -- what is found stands in the table of an ancestor
      obtain hfound | ⟨_, -, q, hq, hown⟩ := hA.instanceMethod?_eq_or r name
      · rw [hm] at hfound
        obtain ⟨c, hc, hown⟩ := List.exists_of_findSome?_eq_some hfound.symm
        exact ⟨c, hc, m, hown, hpublic⟩
      · rw [hbeyond q hq] at hown
        cases hown
    · exact hpublished

end Heap

/-! ## What a class tells of its methods -/

namespace Interpreter

/-- The symbol of a name is the entry for it, and the other entries stay. -/
theorem intern_extends (name : String) (s : Interpreter) :
    ∃ id t, intern name s = .ok (.symbol id name) t ∧ t.symbols.find? name = some id ∧
      t.symbols.Extends s.symbols := by
  unfold intern
  cases hname : s.symbols.find? name with
  | some id => exact ⟨id, s, rfl, hname, Bindings.Extends.refl _⟩
  | none =>
    refine ⟨_, _, rfl, ?_, Bindings.extends_set hname s.heap.freshId.1⟩
    show (s.symbols.set name _).find? name = _
    rw [Bindings.find?_set, if_pos rfl]

/-- **The symbol of a name** in a table of symbols. -/
def IsSymbol (symbols : Bindings Nat) (v : Value) (name : String) : Prop :=
  ∃ id, v = .symbol id name ∧ symbols.find? name = some id

/-- The symbols of names. -/
theorem mapM_intern (names : List String) (s : Interpreter) :
    ∃ vs t, names.mapM intern s = .ok vs t ∧ List.Forall₂ (IsSymbol t.symbols) vs names ∧
      t.symbols.Extends s.symbols := by
  induction names generalizing s with
  | nil => exact ⟨[], s, rfl, .nil, Bindings.Extends.refl _⟩
  | cons name names ih =>
    obtain ⟨id, s', hname, hid, hs'⟩ := intern_extends name s
    obtain ⟨vs, t, hnames, hvs, ht⟩ := ih s'
    refine ⟨.symbol id name :: vs, t, ?_, .cons ⟨id, rfl, ht name id hid⟩ hvs, hs'.trans ht⟩
    rw [List.mapM_cons, Outcome.bind_of_ok hname, Outcome.bind_of_ok hnames]
    rfl

end Interpreter

/-- **A class tells its public methods** as an array of symbols. -/
theorem ClassMethod.call_instanceMethods (r : ClassRef) (s : Interpreter) :
    ∃ a t, ClassMethod.instanceMethods.call (.classValue r) [] s = .ok (.array a) t ∧
      List.Forall₂ (IsSymbol t.symbols) (t.heap.elements a) (s.heap.publicInstanceMethods r) := by
  obtain ⟨vs, t, hvs, hsymbols, -⟩ := mapM_intern (s.heap.publicInstanceMethods r) s
  refine ⟨(t.heap.newArray vs).1, { t with heap := (t.heap.newArray vs).2 }, ?_, ?_⟩
  · show ((s.heap.publicInstanceMethods r).mapM intern >>= newArray) s = _
    rw [Outcome.bind_of_ok hvs]
    rfl
  · rw [t.heap.elements_made vs]
    exact hsymbols

/-- **A class lists its public methods.** Whatever a host has made of an
interpreter, every class tells an array of symbols, the names of which

* are in alphabetical order, each of them once;
* are those under which an ancestor has a method of its own that everyone may call.

If no class is above itself, this agrees with the search for the instances of the
class, for every name that no class beyond the ancestors has. A name is listed if
the search finds a method that everyone may call; and if it is listed, the search
finds such a method, or else a private one that stands before one of these. -/
theorem listed_methods_are_public (s : Interpreter) (hs : s.Hosted) (r : ClassRef) :
    ∃ a t names, ClassMethod.instanceMethods.call (.classValue r) [] s = .ok (.array a) t ∧
      List.Forall₂ (IsSymbol t.symbols) (t.heap.elements a) names ∧
      names.Pairwise (· < ·) ∧
      (∀ name, name ∈ names ↔ ∃ c ∈ s.heap.ancestors r, s.heap.Publishes name c) ∧
      (s.heap.Acyclic → ∀ name,
        (∀ q, s.heap.IsBeyond q r → s.heap.ownMethod? name q = none) →
        (name ∈ names ↔ s.heap.Finds r name .everyone ∨
          s.heap.Finds r name .implicitReceiver ∧
            ∃ c ∈ s.heap.ancestors r, s.heap.Publishes name c)) := by
  obtain ⟨a, t, hcall, hsymbols⟩ := ClassMethod.call_instanceMethods r s
  exact ⟨a, t, _, hcall, hsymbols, s.heap.pairwise_publicInstanceMethods r,
    fun name => hs.filed.mem_publicInstanceMethods,
    fun hA name hbeyond => hs.filed.mem_publicInstanceMethods_iff_finds hA hbeyond⟩

/-- A new interpreter lists for symbols what they have of their own, and what they
have because they are objects. -/
theorem symbols_list_inherited_methods :
    let s := start "main.rb" [] []
    let r := s.classes.resolve "Symbol"
    Hosted s ∧ ∃ a t names,
      ClassMethod.instanceMethods.call (.classValue r) [] s = .ok (.array a) t ∧
      List.Forall₂ (IsSymbol t.symbols) (t.heap.elements a) names ∧
      "to_sym" ∈ names ∧ "respond_to?" ∈ names ∧ "def" ∉ names := by
  intro s r
  have hs : s.Hosted := Hosted.start "main.rb" [] []
  have hA : s.heap.Acyclic := (Heap.Ranked.start "main.rb" [] []).acyclic
  have hflat : s.heap.Flat := Heap.Flat.start "main.rb" [] []
  obtain ⟨a, t, names, hcall, hsymbols, -, -, hagree⟩ := listed_methods_are_public s hs r
  have hlisted (name : String) := hagree hA name fun q hq => absurd hq (hflat.not_isBeyond q r)
  refine ⟨hs, a, t, names, hcall, hsymbols, (hlisted _).mpr (.inl ?_), (hlisted _).mpr (.inl ?_),
    fun hname => ?_⟩
  · decide +kernel
  · decide +kernel
  · have hnone : ¬s.heap.Finds r "def" .everyone ∧ ¬s.heap.Finds r "def" .implicitReceiver := by
      decide +kernel
    exact ((hlisted _).mp hname).elim hnone.1 fun hprivate => hnone.2 hprivate.1

/-- **A method that is hidden can be listed**: a program that binds `Kernel` to the
class of symbols defines a private method there, which hides the public one for all
objects. -/
theorem hidden_method_is_listed :
    ∃ s, Hosted s ∧ s.heap.Acyclic ∧ ∃ r name, name ∈ s.heap.publicInstanceMethods r ∧
      ¬s.heap.Finds r name .everyone := by
  let host : Host := ⟨FileSystem.empty [], none, 1⟩
  let s := start "main.rb" [] []
  let request : Request := .run "Kernel = Symbol\ndef inspect\nend"
  have hranked : (Outcome.state (request.eval host 1 s)).heap.Ranked :=
    ((Interpreter.Invariant.of_heap Heap.Ranked.invariant).composes.request host 1 request
      (Heap.Ranked.start "main.rb" [] [])).1
  refine ⟨_, (Hosted.start "main.rb" [] []).step (.request host 1 request), hranked.acyclic,
    s.classes.resolve "Symbol", "inspect", ?_, ?_⟩
  · decide +kernel
  · decide +kernel

end Garnet
