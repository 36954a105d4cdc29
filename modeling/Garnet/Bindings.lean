/-!
# Tables of names

A table binds names to values. Its entries are kept in alphabetical order, so
that the names can be listed in that order; a name has at most one entry in
a table that is built from the empty one.
-/

namespace Garnet

/-- **A table of names.** -/
structure Bindings (α : Type) where
  /-- The names and what they are bound to, in alphabetical order. -/
  entries : List (String × α)

namespace Bindings

variable {α : Type}

/-- The table without names. -/
def empty : Bindings α :=
  ⟨[]⟩

/-- What a name is bound to. -/
def find? (b : Bindings α) (name : String) : Option α :=
  b.entries.lookup name

/-- Entries with a name bound anew. -/
def insertEntry (name : String) (a : α) : List (String × α) → List (String × α)
  | [] => [(name, a)]
  | (n, c) :: r =>
    if name = n then (name, a) :: r
    else if name < n then (name, a) :: (n, c) :: r
    else (n, c) :: insertEntry name a r

/-- **The table with a name bound anew.** -/
def set (b : Bindings α) (name : String) (a : α) : Bindings α :=
  ⟨insertEntry name a b.entries⟩

/-- The names of a table, in alphabetical order. -/
def names (b : Bindings α) : List String :=
  b.entries.map Prod.fst

/-- The values of a table, in the alphabetical order of their names. -/
def values (b : Bindings α) : List α :=
  b.entries.map Prod.snd

/-- The table of a list of pairs; a later pair prevails over an earlier one
of the same name. -/
def ofList (pairs : List (String × α)) : Bindings α :=
  pairs.foldl (fun b p => b.set p.1 p.2) empty

theorem lookup_cons_ite (n other : String) (c : α) (es : List (String × α)) :
    ((n, c) :: es).lookup other = if other = n then some c else es.lookup other := by
  by_cases h : other = n
  · simp [h]
  · rw [List.lookup_cons, beq_false_of_ne h, if_neg h]

theorem lookup_insertEntry (name other : String) (a : α) (es : List (String × α)) :
    (insertEntry name a es).lookup other
      = if other = name then some a else es.lookup other := by
  induction es with
  | nil => rw [insertEntry, lookup_cons_ite]
  | cons e r ih =>
    obtain ⟨n, c⟩ := e
    rw [insertEntry]
    split
    · next hn => subst hn; simp only [lookup_cons_ite]; split <;> rfl
    · next hn =>
      split
      · simp only [lookup_cons_ite]
      · simp only [lookup_cons_ite, ih]
        by_cases h : other = name
        · subst h; simp [hn]
        · simp [h]

/-- **Reading after binding**: the name that was bound has its new value,
and every other name what it had. -/
@[simp] theorem find?_set (b : Bindings α) (name other : String) (a : α) :
    (b.set name a).find? other = if other = name then some a else b.find? other :=
  lookup_insertEntry name other a b.entries

end Bindings

end Garnet
