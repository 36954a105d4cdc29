import Garnet.Text.Blank

/-!
# Paths as texts

What can be said of a path without looking at the files: how paths are
joined and taken apart, and what absolute path a path stands for. Names in a
path are separated by `/`; several in a row separate like one.
-/

namespace Garnet.Path

/-- Whether a character separates names. -/
def isSeparator (c : Char) : Bool :=
  c == '/'

/-- A path without the separators at its end. -/
def trimEnd (p : List Char) : List Char :=
  Text.dropEndWhile isSeparator p

/-! ### Joining -/

/-- Two paths with exactly one separator between them. -/
def joinTwo (p q : List Char) : List Char :=
  trimEnd p ++ '/' :: q.dropWhile isSeparator

/-- **Paths joined**, with exactly one separator at every seam. -/
def join : List (List Char) → List Char
  | [] => []
  | p :: ps => ps.foldl joinTwo p

/-- **A path seen from a directory**: an absolute path is itself, any other
follows the directory, with a separator between them unless one is there. -/
def within (dir path : List Char) : List Char :=
  if path.head? = some '/' || dir.isEmpty then path
  else if dir.getLast? = some '/' then dir ++ path
  else dir ++ '/' :: path

/-! ### Taking apart -/

/-- What stands after the last separator. -/
def lastName (p : List Char) : List Char :=
  (p.reverse.takeWhile (!isSeparator ·)).reverse

/-- A name without what stands from its last dot on, unless it starts with
that dot. -/
def withoutExtension (name : List Char) : List Char :=
  match name.reverse.dropWhile (· != '.') with
  | _ :: c :: r => (c :: r).reverse
  | _ => name

/-- A name without a suffix; a name that is the suffix is left whole, and the
suffix `.*` stands for any extension. -/
def withoutSuffix (name suffix : List Char) : List Char :=
  if suffix = ['.', '*'] then withoutExtension name
  else if name = suffix then name
  else if suffix.isSuffixOf name then name.take (name.length - suffix.length)
  else name

/-- **The last name of a path.** A path of separators alone is its own last
name, shortened to one separator. -/
def basename (p : List Char) : List Char :=
  if (trimEnd p).isEmpty then p.take 1 else lastName (trimEnd p)

/-- The last name of a path, without a suffix. -/
def basenameWithout (p suffix : List Char) : List Char :=
  if (trimEnd p).isEmpty then p.take 1 else withoutSuffix (lastName (trimEnd p)) suffix

/-- **The directory of a path**: what stands before its last name, `.` if
nothing does. -/
def dirname (p : List Char) : List Char :=
  let trimmed := trimEnd p
  if trimmed.isEmpty then (if p.isEmpty then ['.'] else ['/'])
  else if !trimmed.any isSeparator then ['.']
  else
    match trimEnd (trimmed.take (trimmed.length - (lastName trimmed).length)) with
    | [] => ['/']
    | dir => dir

/-! ### Absolute paths -/

/-- The pieces between separators, among them the empty ones. -/
def pieces : List Char → List (List Char)
  | [] => [[]]
  | c :: cs =>
    if isSeparator c then [] :: pieces cs
    else
      match pieces cs with
      | [] => [[c]]
      | p :: ps => (c :: p) :: ps

/-- **The names a path goes through**: pieces that are empty or `.` lead
nowhere, and `..` leads back from the last name, or stays at the root. -/
def follow (place : List (List Char)) : List (List Char) → List (List Char)
  | [] => place
  | p :: ps =>
    if p = [] ∨ p = ['.'] then follow place ps
    else if p = ['.', '.'] then follow place.dropLast ps
    else follow (place ++ [p]) ps

/-- The absolute path that goes through some names. -/
def absolute (place : List (List Char)) : List Char :=
  match place with
  | [] => ['/']
  | _ => place.flatMap ('/' :: ·)

/-- A path with a `~` at its front replaced by the home directory, if the
`~` stands alone or before a separator. There is no such path if there is no
home directory. -/
def expandHome (home : Option String) (p : List Char) : Option (List Char) :=
  match p with
  | '~' :: r =>
    if r.isEmpty || r.head? = some '/' then
      home.map fun h => within h.toList (r.dropWhile isSeparator)
    else some p
  | _ => some p

/-- **The absolute path that a path stands for** when it is seen from `base`,
which itself is seen from the working directory. -/
def expand (cwd : List Char) (home : Option String) (base : Option (List Char))
    (p : List Char) : Option (List Char) := do
  let dir ← match base with
    | some b => (expandHome home b).map (within cwd)
    | none => some cwd
  let path ← expandHome home p
  return absolute (follow [] (pieces (within dir path)))

end Garnet.Path
