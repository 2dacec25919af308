/-!
# `Backplane.Data.Runs`: sorting within runs

Some events of one moment come about in an order that means nothing,
among others whose order counts. Such a list is brought into a fixed
order by sorting each of its runs. The main statements:

* `sortRuns_perm`: sorting moves items and changes none.
-/

set_option autoImplicit false

namespace Backplane

variable {α : Type}

/-- Sorts the runs of a list that follows a run, which is given newest
item first. -/
def sortRunsAfter (p : α → Bool) (le : α → α → Bool) (run : List α) : List α → List α
  | [] => run.reverse.mergeSort le
  | x :: rest =>
    if p x then sortRunsAfter p le (x :: run) rest
    else run.reverse.mergeSort le ++ x :: sortRunsAfter p le [] rest

/-- Sorts every longest run of items that pass a test and leaves the other
items in their places. -/
def sortRuns (p : α → Bool) (le : α → α → Bool) (xs : List α) : List α :=
  sortRunsAfter p le [] xs

theorem sortRunsAfter_perm (p : α → Bool) (le : α → α → Bool) (run xs : List α) :
    (sortRunsAfter p le run xs).Perm (run.reverse ++ xs) := by
  induction xs generalizing run with
  | nil => simpa [sortRunsAfter] using List.mergeSort_perm run.reverse le
  | cons x rest ih =>
    rw [sortRunsAfter]
    split
    · simpa using ih (x :: run)
    · exact (List.mergeSort_perm _ _).append ((ih []).cons x)

/-- Sorting moves items and changes none. -/
theorem sortRuns_perm (p : α → Bool) (le : α → α → Bool) (xs : List α) :
    (sortRuns p le xs).Perm xs :=
  sortRunsAfter_perm p le [] xs

end Backplane
