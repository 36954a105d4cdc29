import Garnet.Interpreter.State

/-!
# Loading units

A unit is a file of source text. `require` searches it in the directories of
the global `$LOAD_PATH` and evaluates it once: the absolute path of the file
is kept in the global `$LOADED_FEATURES`, from before the unit is evaluated –
so that a unit which requires itself stops there – and taken out again if the
unit fails. `load` evaluates a file every time, and searches nothing.

How a source text is run is a parameter here.
-/

namespace Garnet.Interpreter

/-! ### The globals of loading -/

/-- The array in a global, if there is one. -/
def globalArray? (s : Interpreter) (name : String) : Option ArrayRef :=
  match s.globals.find? name with
  | some (.array r) => some r
  | _ => none

/-- The elements of the array in a global, none if there is no array. -/
def globalElements (s : Interpreter) (name : String) : List Value :=
  match s.globalArray? name with
  | some r => s.heap.elements r
  | none => []

/-- The text of a string. -/
def text? : Value → Option String
  | .string _ text => some text
  | _ => none

/-- **The directories where units are searched**: the strings in the load
path. -/
def loadPath (s : Interpreter) : List String :=
  (s.globalElements "LOAD_PATH").filterMap text?

/-- Whether a value is a string with a text. -/
def isText (text : String) (v : Value) : Bool :=
  text? v == some text

/-- **Whether a unit was loaded**, or is being loaded. -/
def isLoaded (s : Interpreter) (feature : String) : Bool :=
  (s.globalElements "LOADED_FEATURES").any (isText feature)

/-- Notes that a unit is loaded, if there is an array for it. -/
def markLoaded (feature : String) : Eval Unit := do
  match (← get).globalArray? "LOADED_FEATURES" with
  | some r => do
    let v ← newString feature
    modify fun s => { s with heap := s.heap.setElements r (s.heap.elements r ++ [v]) }
  | none => return

/-- The interpreter for which a unit is not loaded. -/
def unmarkLoaded (feature : String) (s : Interpreter) : Interpreter :=
  match s.globalArray? "LOADED_FEATURES" with
  | some r =>
    { s with heap := s.heap.setElements r ((s.heap.elements r).filter (!isText feature ·)) }
  | none => s

/-! ### The search -/

/-- **What a search for a unit leads to.** -/
inductive Found where
  /-- A file, with the path that led to it, its place and its bytes. -/
  | file (path : String) (place : Place) (bytes : ByteArray)
  /-- Nothing. -/
  | nothing
  /-- A place that has not been looked at. -/
  | unexplored (place : Place)

/-- The path of a name in a directory. -/
def pathWithin (dir name : String) : String :=
  String.ofList (Path.within dir.toList name.toList)

/-- What looking up a path means for a search, which goes on to `next` if no
regular file is there. -/
def Found.ofLookup (path : String) (next : Found) : Lookup → Found
  | .found place (.file bytes) => .file path place bytes
  | .unexplored place => .unexplored place
  | _ => next

/-- **The first regular file** with a name in some directories. -/
def search (files : FileSystem) (name : String) : List String → Found
  | [] => .nothing
  | dir :: dirs =>
    let path := pathWithin dir name
    Found.ofLookup path (search files name dirs) (files.lookup path)

/-- A search meets a place that has not been looked at only where some have
not. -/
theorem complete_eq_false_of_search {files : FileSystem} {name : String} {dirs : List String}
    {place : Place} (h : search files name dirs = .unexplored place) :
    files.complete = false := by
  induction dirs with
  | nil => cases h
  | cons dir dirs ih =>
    rw [search] at h
    cases hl : files.lookup (pathWithin dir name) with
    | found place entry =>
      rw [hl] at h
      cases entry with
      | file bytes => cases h
      | directory => exact ih h
    | failed e =>
      rw [hl] at h
      exact ih h
    | unexplored place => exact FileSystem.complete_eq_false_of_lookup hl

/-- What a search finds is a file at the path it was found under. -/
theorem lookup_of_search {files : FileSystem} {name path : String} {dirs : List String}
    {place : Place} {bytes : ByteArray} (h : search files name dirs = .file path place bytes) :
    files.lookup path = .found place (.file bytes) := by
  induction dirs with
  | nil => cases h
  | cons dir dirs ih =>
    rw [search] at h
    cases hl : files.lookup (pathWithin dir name) with
    | found place entry =>
      rw [hl] at h
      cases entry with
      | file bytes =>
        cases h
        exact hl
      | directory => exact ih h
    | failed e =>
      rw [hl] at h
      exact ih h
    | unexplored place =>
      rw [hl] at h
      cases h

/-! ### Loading -/

variable (files : FileSystem) (run : String → Eval Value)

/-- The unit that the language names and does not need. -/
def builtinFeature : String := "rubygems"

/-- The file name of a unit. -/
def unitFile (name : String) : String :=
  name ++ ".rb"

/-- **Evaluates a unit that was not loaded before**, and returns whether it
did so. -/
def require (name : String) : Eval Value := do
  if name = builtinFeature then return .false
  let s ← get
  match search files (unitFile name) s.loadPath with
  | .nothing => raise (.load name)
  | .unexplored place => throw (.unexplored place)
  | .file path place bytes =>
    if s.isLoaded place.path then return .false
    match (Entry.file bytes).text with
    | .error e => raise (.loadRead name e.message)
    | .ok source => do
      markLoaded place.path
      let _ ← undoing (unmarkLoaded place.path) (inUnit path (run source))
      return .true

/-- The text of the file at a path. -/
def readText (files : FileSystem) (path : String) : Eval (Except FileError String) :=
  match files.lookup path with
  | .found _ entry => return entry.text
  | .failed e => return .error e
  | .unexplored place => throw (.unexplored place)

/-- **Evaluates the file at a path**, whether or not it was loaded before. -/
def load (path : String) : Eval Value := do
  match ← readText files path with
  | .error _ => raise (.load path)
  | .ok source => do
    let _ ← inUnit path (run source)
    return .true

/-- **Evaluates the file at a path as a program.** -/
def runFile (path : String) : Eval Value := do
  match ← readText files path with
  | .error e => raise (.loadRead path e.message)
  | .ok source => inUnit path (run source)

end Garnet.Interpreter
