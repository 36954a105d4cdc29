import Garnet.Interpreter.Start
import Garnet.Proofs.Growth
import Garnet.Proofs.Scopes
import Garnet.Proofs.Stretches

/-!
# The first file that is found is required

A unit is searched entry by entry in the array of the load path. An entry **leads
to** a file if it is a string and there is a regular file where the name of the unit
leads from there (`LeadsTo`); an entry that is no string, or where the name leads to
a directory or nowhere, is **passed over** (`IsPassedOver`).

The first entry that leads to a file settles how a `require` **begins**
(`Beginning`): whether it ends at once, with a value or an error, or runs a text.
Whatever the file is like, no later entry is tried, and what ends at once leaves the
interpreter as it was (`first_file_is_required`).
-/

namespace Garnet

open Interpreter

/-! ## Entries of the load path -/

section Entries

variable (files : FileSystem) (name : String) (v : Value)

/-- **Whether an entry of the load path leads to a file** for a unit, found under a
path at a place. -/
def LeadsTo (path : String) (place : Place) (bytes : ByteArray) : Prop :=
  ∃ dir, text? v = some dir ∧ path = pathWithin dir (unitFile name) ∧
    files.lookup path = .found place (.file bytes)

/-- **Whether an entry of the load path is passed over** for a unit: if it is a
string, there is a directory, or nothing, where a file would be looked for. -/
def IsPassedOver : Prop :=
  ∀ dir, text? v = some dir →
    (∃ place, files.lookup (pathWithin dir (unitFile name)) = .found place .directory) ∨
    ∃ e, files.lookup (pathWithin dir (unitFile name)) = .failed e

end Entries

section Search

variable {files : FileSystem} {name : String} {v : Value} {entries before after : List Value}

/-- **An entry is passed over or leads to a file**, if all of the file system is
known. -/
theorem passedOver_or_leadsTo (hcomplete : files.complete = true) (name : String) (v : Value) :
    IsPassedOver files name v ∨ ∃ path place bytes, LeadsTo files name v path place bytes := by
  cases hv : text? v with
  | none =>
    refine Or.inl fun dir hdir => ?_
    rw [hv] at hdir
    cases hdir
  | some dir =>
    cases hlookup : files.lookup (pathWithin dir (unitFile name)) with
    | found place entry =>
      cases entry with
      | file bytes => exact Or.inr ⟨_, place, bytes, dir, hv, rfl, hlookup⟩
      | directory =>
        refine Or.inl fun dir' hdir => ?_
        obtain rfl := Option.some.inj (hv.symm.trans hdir)
        exact Or.inl ⟨place, hlookup⟩
    | failed e =>
      refine Or.inl fun dir' hdir => ?_
      obtain rfl := Option.some.inj (hv.symm.trans hdir)
      exact Or.inr ⟨e, hlookup⟩
    | unexplored place =>
      rw [FileSystem.complete_eq_false_of_lookup hlookup] at hcomplete
      cases hcomplete

/-- **Entries that are passed over** are as good as none. -/
theorem search_append (h : ∀ w ∈ before, IsPassedOver files name w) (entries : List Value) :
    search files (unitFile name) ((before ++ entries).filterMap text?)
      = search files (unitFile name) (entries.filterMap text?) := by
  induction before with
  | nil => rfl
  | cons w before ih =>
    rw [List.forall_mem_cons] at h
    rw [List.cons_append, List.filterMap_cons]
    cases hw : text? w with
    | none => exact ih h.2
    | some dir =>
      show Found.ofLookup _ _ (files.lookup (pathWithin dir (unitFile name))) = _
      obtain ⟨place, hlookup⟩ | ⟨e, hlookup⟩ := h.1 dir hw
      · rw [hlookup]
        exact ih h.2
      · rw [hlookup]
        exact ih h.2

/-- **The first entry that leads to a file** is where the search ends. -/
theorem search_eq_file {path : String} {place : Place} {bytes : ByteArray}
    (h : ∀ w ∈ before, IsPassedOver files name w) (hv : LeadsTo files name v path place bytes)
    (after : List Value) :
    search files (unitFile name) ((before ++ v :: after).filterMap text?)
      = .file path place bytes := by
  obtain ⟨dir, hdir, rfl, hlookup⟩ := hv
  rw [search_append h, List.filterMap_cons, hdir]
  show Found.ofLookup _ _ (files.lookup (pathWithin dir (unitFile name))) = _
  rw [hlookup]
  rfl

/-- Where all entries are passed over, nothing is found. -/
theorem search_eq_nothing (h : ∀ w ∈ entries, IsPassedOver files name w) :
    search files (unitFile name) (entries.filterMap text?) = .nothing := by
  rw [← List.append_nil entries, search_append h]
  rfl

end Search

/-! ## How a require begins -/

/-- The interpreter after a unit is noted as loaded. -/
def Interpreter.noted (s : Interpreter) (feature : String) : Interpreter :=
  Outcome.state (markLoaded feature s)

/-- **How a `require` begins.** -/
inductive Beginning where
  /-- It ends at once, and nothing is run. -/
  | ends (result : Except Error Value)
  /-- A text is run as the unit of a path, noted as loaded under another one. -/
  | runs (path feature source : String)

/-- **What comes out of a `require`**, given how it begins. What ends at once leaves
the interpreter alone; a text is run where its unit is noted and is the present one. -/
def Beginning.outcome (run : String → Eval Value) (s : Interpreter) :
    Beginning → EStateM.Result Halt Interpreter Value
  | ends (.ok v) => .ok v s
  | ends (.error e) => .error (.raised e) s
  | runs path feature source =>
    Outcome.ofUnit feature (Outcome.mapState (fun t => { t with unitName := s.unitName })
      (run source { s.noted feature with unitName := path }))

section Require

variable {files : FileSystem} {name : String} {s : Interpreter}

theorem loadPath_eq {r : ArrayRef} (h : s.globals.find? "LOAD_PATH" = some (.array r)) :
    s.loadPath = (s.heap.elements r).filterMap text? := by
  unfold loadPath globalElements globalArray?
  rw [h]

/-- **A unit that is not found.** -/
theorem require_of_nothing (hname : name ≠ builtinFeature)
    (hfound : search files (unitFile name) s.loadPath = .nothing) (run : String → Eval Value) :
    require files run name s
      = .error (.raised ((Error.ofKind (.load name)).raisedAt s.stack)) s := by
  unfold require
  rw [if_neg hname, Outcome.get_bind, hfound]
  rfl

/-- **How the require of a file begins** that was found. -/
def beginningOf (name : String) (s : Interpreter) (path : String) (place : Place)
    (bytes : ByteArray) : Beginning :=
  if s.isLoaded place.path then .ends (.ok .false)
  else
    match String.fromUTF8? bytes with
    | none =>
      .ends (.error ((Error.ofKind (.loadRead name FileError.notText.message)).raisedAt s.stack))
    | some source => .runs path place.path source

theorem require_of_file (hname : name ≠ builtinFeature) {path : String} {place : Place}
    {bytes : ByteArray} (hfound : search files (unitFile name) s.loadPath = .file path place bytes)
    (run : String → Eval Value) :
    require files run name s = (beginningOf name s path place bytes).outcome run s := by
  unfold require beginningOf
  rw [if_neg hname, Outcome.get_bind, hfound]
  dsimp only
  cases s.isLoaded place.path with
  | true => rfl
  | false =>
    rw [if_neg Bool.false_ne_true, if_neg Bool.false_ne_true, Entry.text]
    cases String.fromUTF8? bytes with
    | none => rfl
    | some source =>
      obtain ⟨t, hmark, heffects⟩ := markLoaded_eq place.path s
      have hnoted : s.noted place.path = t := congrArg Outcome.state hmark
      have hunit : t.unitName = s.unitName := (Interpreter.SameScopes.of_effects heffects).unitName
      refine (Outcome.noted_unit (inUnit path (run source)) hmark).trans ?_
      rw [Outcome.inUnit_eq, hunit, Beginning.outcome, hnoted]

end Require

/-- **The first file that is found is required.** Take an interpreter whose load path
is an array, of strings and of anything else. All entries lead to a file or are passed
over, as soon as all of the file system is known.

If all entries are passed over, `require` fails and names the unit. Otherwise the first
entry that leads to a file settles what becomes of it: `require` returns `false` if the
place of the file is recorded as loaded, and else fails if the file is no text, and else
runs it with the path that led to it as the present unit. Only in the last case the
interpreter is not left as it was.

No entry matters but that one. In another interpreter, with the same active calls and the
same recorded units, whose load path has other entries after it, and others before it that
are passed over, `require` begins in the same way. -/
theorem first_file_is_required (files : FileSystem) {name : String} (hname : name ≠ builtinFeature)
    (s : Interpreter) {r : ArrayRef} (hr : s.globals.find? "LOAD_PATH" = some (.array r)) :
    (files.complete = true → ∀ v, IsPassedOver files name v ∨
      ∃ path place bytes, LeadsTo files name v path place bytes) ∧
    ((∀ v ∈ s.heap.elements r, IsPassedOver files name v) → ∀ run,
      require files run name s
        = .error (.raised ((Error.ofKind (.load name)).raisedAt s.stack)) s) ∧
    ∀ before v after path place bytes, s.heap.elements r = before ++ v :: after →
      (∀ w ∈ before, IsPassedOver files name w) → LeadsTo files name v path place bytes →
      (s.isLoaded place.path = true → ∀ run, require files run name s = .ok .false s) ∧
      (s.isLoaded place.path = false → String.fromUTF8? bytes = none → ∀ run,
        require files run name s = .error (.raised ((Error.ofKind
          (.loadRead name FileError.notText.message)).raisedAt s.stack)) s) ∧
      (∀ source, s.isLoaded place.path = false → String.fromUTF8? bytes = some source → ∀ run,
        require files run name s = Outcome.ofUnit place.path
          (Outcome.mapState (fun t => { t with unitName := s.unitName })
            (run source { s.noted place.path with unitName := path }))) ∧
      ∀ t r' before' after', t.globals.find? "LOAD_PATH" = some (.array r') →
        t.heap.elements r' = before' ++ v :: after' →
        (∀ w ∈ before', IsPassedOver files name w) → t.stack = s.stack → t.features = s.features →
        ∃ b : Beginning, ∀ run, require files run name s = b.outcome run s ∧
          require files run name t = b.outcome run t := by
  refine ⟨fun hcomplete v => passedOver_or_leadsTo hcomplete name v, fun hall run => ?_, ?_⟩
  · exact require_of_nothing hname ((loadPath_eq hr).symm ▸ search_eq_nothing hall) run
  intro before v after path place bytes helements hbefore hv
  have hs : ∀ run, require files run name s
      = (beginningOf name s path place bytes).outcome run s := by
    refine require_of_file hname ?_
    rw [loadPath_eq hr, helements]
    exact search_eq_file hbefore hv after
  refine ⟨fun hloaded run => ?_, fun hloaded htext run => ?_, fun source hloaded htext run => ?_,
    fun t r' before' after' hr' helements' hbefore' hstack hfeatures => ?_⟩
  · rw [hs, beginningOf, if_pos hloaded]
    rfl
  · rw [hs, beginningOf, hloaded, if_neg Bool.false_ne_true, htext]
    rfl
  · rw [hs, beginningOf, hloaded, if_neg Bool.false_ne_true, htext]
    rfl
  · have ht : ∀ run, require files run name t
        = (beginningOf name t path place bytes).outcome run t := by
      refine require_of_file hname ?_
      rw [loadPath_eq hr', helements']
      exact search_eq_file hbefore' hv after'
    -- how it begins depends on the active calls and on the recorded units only
    have hsame : beginningOf name t path place bytes = beginningOf name s path place bytes := by
      unfold beginningOf
      rw [isLoaded_eq, isLoaded_eq, hfeatures, hstack]
    exact ⟨_, fun run => ⟨hs run, hsame ▸ ht run⟩⟩

/-- Three places for one unit: a directory, a file that is no text, and a program. -/
def filesOfUnit : FileSystem :=
  FileSystem.empty []
    |>.write ["a", "unit.rb"] .directory
    |>.write ["b", "unit.rb"] (.file ⟨#[0xff]⟩)
    |>.write ["c", "unit.rb"] (.file "$unit = 1".toUTF8)

/-- A new interpreter with some entries in its load path. -/
def searching (entries : List Value) : Interpreter :=
  let s := start "main.rb" [] []
  { s with heap := (s.heap.newArray entries).2 }.bindGlobal "LOAD_PATH"
    (.array (s.heap.newArray entries).1)

theorem exists_elements_searching (entries : List Value) :
    ∃ r, (searching entries).globals.find? "LOAD_PATH" = some (.array r) ∧
      (searching entries).heap.elements r = entries := by
  refine ⟨_, (Bindings.find?_set ..).trans (if_pos rfl), ?_⟩
  show ((start "main.rb" [] []).heap.newArray entries).2.elements _ = entries
  unfold Heap.newArray Heap.elements
  rw [Array.getElem?_push_size]
  rfl

/-- A file that is no text is not passed over, also where a later entry leads to a
program; without that entry, and with others before, the unit is required alike. -/
theorem unreadable_file_is_required :
    let v := Value.string 1 "/b"
    let w := Value.string 2 "/c"
    let s := searching [.int 1, .string 0 "/a", v, w]
    let t := searching [.nil, v]
    let load := fun run => require filesOfUnit run "unit"
    LeadsTo filesOfUnit "unit" w "/c/unit.rb" ["c", "unit.rb"] "$unit = 1".toUTF8 ∧
    (∀ run, load run s = .error (.raised (.ofKind
      (.loadRead "unit" "stream did not contain valid UTF-8"))) s) ∧
    ∃ b : Beginning, ∀ run, load run s = b.outcome run s ∧ load run t = b.outcome run t := by
  intro v w s t load
  have hname : "unit" ≠ builtinFeature := by decide
  obtain ⟨r, hr, hs⟩ := exists_elements_searching [.int 1, .string 0 "/a", v, w]
  obtain ⟨r', hr', ht⟩ := exists_elements_searching [.nil, v]
  have hbefore : ∀ x ∈ [.int 1, .string 0 "/a"], IsPassedOver filesOfUnit "unit" x := by
    rintro x hx dir hdir
    obtain rfl | hx := List.mem_cons.mp hx
    · cases hdir
    · obtain rfl := List.mem_singleton.mp hx
      cases hdir
      exact Or.inl ⟨["a", "unit.rb"], rfl⟩
  have hbefore' : ∀ x ∈ [.nil], IsPassedOver filesOfUnit "unit" x := by
    rintro x hx dir hdir
    obtain rfl := List.mem_singleton.mp hx
    cases hdir
  have hv : LeadsTo filesOfUnit "unit" v "/b/unit.rb" ["b", "unit.rb"] ⟨#[0xff]⟩ :=
    ⟨"/b", rfl, rfl, rfl⟩
  obtain ⟨-, hunreadable, -, hothers⟩ := (first_file_is_required filesOfUnit hname s hr).2.2
    _ v [w] _ _ _ hs hbefore hv
  refine ⟨⟨"/c", rfl, rfl, rfl⟩, ?_, ?_⟩
  · exact hunreadable (by decide +kernel) (by decide +kernel)
  · exact hothers t r' _ [] hr' ht hbefore' rfl (by with_unfolding_all rfl)

end Garnet
