import Garnet.Path

/-!
# Files

The files that programs can load. A place in the file system is the list of
names that leads to it from the root; a path is looked up name by name from
the root or from the working directory, and every name but the last has to
be that of a directory.

A file system normally lists everything there is. It can also stand for one
that has been looked at only in part; a path that leads to a place that has
not been looked at is then reported as unexplored.

What stands at a place is a directory, or a regular file that can be opened
and read. The rest of what a real one can hold is left out: symbolic links, so
that the place a path leads to can be read off its names; special files, which
are neither regular nor directories; and permissions, so that there is no file
that may not be opened – a search for a unit would pass over it, as it does
over a directory – and no directory that may not be entered. The working
directory is always there.
-/

namespace Garnet

/-- **What stands at a place.** -/
inductive Entry where
  /-- A regular file with its bytes. -/
  | file (bytes : ByteArray)
  /-- A directory. -/
  | directory

/-- **Why a file cannot be read.** -/
inductive FileError where
  /-- A name on the way is missing. -/
  | notFound
  /-- A name on the way is that of a file. -/
  | notDirectory
  /-- A directory was found instead of a file. -/
  | isDirectory
  /-- A name or the path is too long. -/
  | nameTooLong
  /-- The path contains a character that no path can contain. -/
  | nulInPath
  /-- The bytes of the file are no text. -/
  | notText
  deriving DecidableEq

/-- The message of a file error. -/
def FileError.message : FileError → String
  | notFound => "No such file or directory (os error 2)"
  | notDirectory => "Not a directory (os error 20)"
  | isDirectory => "Is a directory (os error 21)"
  | nameTooLong => "File name too long (os error 36)"
  | nulInPath => "file name contained an unexpected NUL byte"
  | notText => "stream did not contain valid UTF-8"

/-- **A place in a file system**: the names that lead to it from the root. -/
abbrev Place := List String

/-- The absolute path of a place. -/
def Place.path (place : Place) : String :=
  String.ofList (Path.absolute (place.map String.toList))

/-- The places above a place, below the root. -/
def Place.above (place : Place) : List Place :=
  ((List.range place.length).map fun n => place.take n).filter fun p => !p.isEmpty

/-- **What looking up a path leads to.** -/
inductive Lookup where
  /-- A place with something at it. -/
  | found (place : Place) (entry : Entry)
  /-- Nothing. -/
  | failed (e : FileError)
  /-- A place that has not been looked at. -/
  | unexplored (place : Place)

/-- **A file system.** -/
structure FileSystem where
  /-- The working directory. -/
  cwd : Place
  /-- What is known to stand at a place, or that nothing does; an earlier
  entry prevails over a later one. -/
  entries : List (Place × Option Entry)
  /-- Whether nothing stands at the places that are not listed. -/
  complete : Bool

namespace FileSystem

/-- The longest name, in bytes. -/
def nameLimit : Nat := 255

/-- The longest path, in bytes. -/
def pathLimit : Nat := 4095

/-- The path of the working directory. -/
def cwdPath (fs : FileSystem) : String :=
  fs.cwd.path

/-- What looking at a single place leads to. -/
def lookAt (fs : FileSystem) (place : Place) : Lookup :=
  match place, fs.entries.lookup place with
  | [], _ => .found [] .directory
  | _, some (some entry) => .found place entry
  | _, some none => .failed .notFound
  | _, none => if fs.complete then .failed .notFound else .unexplored place

/-- What a path leads to from a place, name by name. -/
def walk (fs : FileSystem) (place : Place) (entry : Entry) : List String → Lookup
  | [] => .found place entry
  | name :: names =>
    match entry with
    | .file _ => .failed .notDirectory
    | .directory =>
      if name = "" ∨ name = "." then fs.walk place .directory names
      else if name = ".." then fs.walk place.dropLast .directory names
      else if nameLimit < name.utf8ByteSize then .failed .nameTooLong
      else
        match fs.lookAt (place ++ [name]) with
        | .found place entry => fs.walk place entry names
        | failure => failure

/-- **What a path leads to.** -/
def lookup (fs : FileSystem) (path : String) : Lookup :=
  if path.toList.contains '\x00' then .failed .nulInPath
  else if path.isEmpty then .failed .notFound
  else if pathLimit < path.utf8ByteSize then .failed .nameTooLong
  else
    fs.walk (if path.toList.head? = some '/' then [] else fs.cwd) .directory
      ((Path.pieces path.toList).map String.ofList)

/-- A place is reported as unexplored only where not everything is listed. -/
theorem complete_eq_false_of_lookAt {fs : FileSystem} {place unknown : Place}
    (h : fs.lookAt place = .unexplored unknown) : fs.complete = false := by
  unfold lookAt at h
  split at h
  · cases h
  · cases h
  · cases h
  · split at h
    · cases h
    · next hc => exact eq_false_of_ne_true hc

/-- The same for a path that is looked up from a place. -/
theorem complete_eq_false_of_walk {fs : FileSystem} {names : List String} {place unknown : Place}
    {entry : Entry} (h : fs.walk place entry names = .unexplored unknown) :
    fs.complete = false := by
  induction names generalizing place entry with
  | nil => cases h
  | cons name names ih =>
    cases entry with
    | file bytes => cases h
    | directory =>
      rw [walk] at h
      split at h
      · exact ih h
      · split at h
        · exact ih h
        · split at h
          · cases h
          · split at h
            · exact ih h
            · exact complete_eq_false_of_lookAt h

/-- **Looking up a path in a complete file system never leads to a place that
has not been looked at.** -/
theorem complete_eq_false_of_lookup {fs : FileSystem} {path : String} {unknown : Place}
    (h : fs.lookup path = .unexplored unknown) : fs.complete = false := by
  unfold lookup at h
  split at h
  · cases h
  · split at h
    · cases h
    · split at h
      · cases h
      · exact complete_eq_false_of_walk h

/-- A file that is found at a place is listed there. -/
theorem mem_entries_of_lookAt {fs : FileSystem} {place found : Place} {bytes : ByteArray}
    (h : fs.lookAt place = .found found (.file bytes)) :
    (found, some (.file bytes)) ∈ fs.entries := by
  unfold lookAt at h
  split at h
  · cases h
  · next hl =>
    cases h
    obtain ⟨before, after, hentries, _⟩ := List.lookup_eq_some_iff.mp hl
    rw [hentries]
    exact List.mem_append_right _ List.mem_cons_self
  · cases h
  · split at h
    · cases h
    · cases h

/-- The same for a path that is looked up from a directory, or from a file that
is listed itself. -/
theorem mem_entries_of_walk {fs : FileSystem} {names : List String} {place found : Place}
    {entry : Entry} {bytes : ByteArray}
    (hplace : ∀ bytes, entry = .file bytes → (place, some entry) ∈ fs.entries)
    (h : fs.walk place entry names = .found found (.file bytes)) :
    (found, some (.file bytes)) ∈ fs.entries := by
  induction names generalizing place entry with
  | nil =>
    cases h
    exact hplace bytes rfl
  | cons name names ih =>
    cases entry with
    | file bytes => cases h
    | directory =>
      have hdirectory (place : Place) (bytes : ByteArray) (hd : Entry.directory = .file bytes) :
          (place, some Entry.directory) ∈ fs.entries := by
        cases hd
      rw [walk] at h
      split at h
      · exact ih (hdirectory _) h
      · split at h
        · exact ih (hdirectory _) h
        · split at h
          · cases h
          · split at h
            · next hl =>
              refine ih (fun bytes hb => ?_) h
              subst hb
              exact mem_entries_of_lookAt hl
            · next hl => exact absurd h (hl found (.file bytes))

/-- **A file that a path leads to is listed.** -/
theorem mem_entries_of_lookup {fs : FileSystem} {path : String} {place : Place}
    {bytes : ByteArray} (h : fs.lookup path = .found place (.file bytes)) :
    (place, some (.file bytes)) ∈ fs.entries := by
  unfold lookup at h
  split at h
  · cases h
  · split at h
    · cases h
    · split at h
      · cases h
      · exact mem_entries_of_walk (fun bytes hb => by cases hb) h

/-- Whether a path leads to a directory, unless that depends on a place that
has not been looked at. -/
def isDirectory (fs : FileSystem) (path : String) : Except Place Bool :=
  match fs.lookup path with
  | .found _ .directory => .ok true
  | .unexplored place => .error place
  | _ => .ok false

end FileSystem

/-- **The text of an entry**, which has to be a file that holds valid UTF-8. -/
def Entry.text : Entry → Except FileError String
  | file bytes =>
    match String.fromUTF8? bytes with
    | some s => .ok s
    | none => .error .notText
  | directory => .error .isDirectory

namespace FileSystem

/-- The file system with something else at a place. -/
def put (fs : FileSystem) (place : Place) (entry : Option Entry) : FileSystem :=
  { fs with entries := (place, entry) :: fs.entries }

/-- **The file system with an entry at a path** that is given by its names
from the working directory, and with the directories that lead to it. -/
def write (fs : FileSystem) (names : List String) (entry : Entry) : FileSystem :=
  let place := fs.cwd ++ names
  (Place.above place |>.foldl (fun fs p => fs.put p (some .directory)) fs).put place (some entry)

/-- **The empty file system** with a working directory. -/
def empty (cwd : Place) : FileSystem :=
  { cwd := cwd
    entries := (cwd :: Place.above cwd).map fun p => (p, some .directory)
    complete := true }

/-- The file system of which only the working directory is known. -/
def unexplored (cwd : Place) : FileSystem :=
  { empty cwd with complete := false }

end FileSystem

end Garnet
