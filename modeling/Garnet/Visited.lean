/-!
# What is left to visit

Some traversals note what they visit and stop where they meet it again: the
printing of an array that contains itself, the comparison of two arrays that
contain each other, the loading of units that require each other. They come
to an end because with each note less is left to visit. This module counts
what is left.
-/

namespace Garnet

variable {α : Type} [DecidableEq α]

/-- **How much of `all` is left to visit** once what is listed in `visited` has
been. -/
def unvisited (all visited : List α) : Nat :=
  all.countP (· ∉ visited)

/-- There is never more left than there is altogether. -/
theorem unvisited_le_length (all visited : List α) : unvisited all visited ≤ all.length :=
  List.countP_le_length

/-- What has been visited stays visited, so what is left does not grow. -/
theorem unvisited_anti (all : List α) {visited later : List α} (h : visited ⊆ later) :
    unvisited all later ≤ unvisited all visited := by
  refine List.countP_mono_left fun a _ ha => ?_
  rw [decide_eq_true_eq] at ha ⊢
  exact fun hmem => ha (h hmem)

/-- **Visiting something new leaves less.** -/
theorem unvisited_lt {all visited later : List α} {a : α} (hall : a ∈ all) (hnew : a ∉ visited)
    (hlater : a ∈ later) (h : visited ⊆ later) : unvisited all later < unvisited all visited := by
  obtain ⟨before, after, rfl⟩ := List.append_of_mem hall
  have hbefore := unvisited_anti before h
  have hafter := unvisited_anti after h
  unfold unvisited at hbefore hafter ⊢
  rw [List.countP_append, List.countP_append, List.countP_cons_of_neg (by simpa using hlater),
    List.countP_cons_of_pos (by simpa using hnew)]
  omega

/-- The case in which what is new is the only thing that is visited. -/
theorem unvisited_cons_lt {all visited : List α} {a : α} (hall : a ∈ all) (hnew : a ∉ visited) :
    unvisited all (a :: visited) < unvisited all visited :=
  unvisited_lt hall hnew List.mem_cons_self (List.subset_cons_self a visited)

end Garnet
