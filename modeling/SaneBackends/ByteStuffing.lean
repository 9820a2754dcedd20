import Mathlib.Data.List.Basic

/-!
# Stuffed data

Behind every element that is equal to a mark stands a filler.  Data of a known length can be read
from the front of a stream, whatever they are and whatever follows.
-/

namespace SaneBackends.ByteStuffing

variable {α : Type*} [DecidableEq α] {mark fill : α} {xs ys rest : List α}

def stuff (mark fill : α) : List α → List α
  | [] => []
  | x :: xs => if x = mark then x :: fill :: stuff mark fill xs else x :: stuff mark fill xs

attribute [grind =] stuff

/-- Reads `n` elements and leaves the rest of the stream. -/
def unstuff (mark fill : α) : Nat → List α → Option (List α × List α)
  | 0, ys => some ([], ys)
  | _ + 1, [] => none
  | n + 1, y :: ys =>
    if y = mark then
      match ys with
      | [] => none
      | z :: ys =>
        if z = fill then (unstuff mark fill n ys).map fun (xs, rest) => (y :: xs, rest) else none
    else (unstuff mark fill n ys).map fun (xs, rest) => (y :: xs, rest)

theorem unstuff_stuff (xs rest : List α) :
    unstuff mark fill xs.length (stuff mark fill xs ++ rest) = some (xs, rest) := by
  induction xs with
  | nil => rfl
  | cons x xs ih =>
    rw [stuff]
    split
    · rename_i hx
      simp only [List.cons_append, List.length_cons, unstuff, if_pos hx, if_true, ih,
        Option.map_some]
    · rename_i hx
      simp only [List.cons_append, List.length_cons, unstuff, if_neg hx, ih, Option.map_some]

/-- Stuffing may double the length. -/
theorem length_stuff_le (xs : List α) : (stuff mark fill xs).length ≤ 2 * xs.length := by
  induction xs with
  | nil => exact Nat.le_refl _
  | cons x xs ih =>
    rw [stuff]
    split
    · simp only [List.length_cons]
      omega
    · simp only [List.length_cons]
      omega

end SaneBackends.ByteStuffing
