import Mathlib.Data.List.Basic

/-!
# The last entry of a list

A list that grows at its end.  The entry that came last is found by its place, and it alone is
changed.
-/

namespace SaneBackends.LastEntry

variable {α : Type*}

/-- The last entry with its place. -/
def last? (xs : List α) : Option (Nat × α) := xs.getLast?.map fun x => (xs.length - 1, x)

/-- Change the last entry, if there is one. -/
def onLast (f : α → α) (xs : List α) : List α :=
  match xs.getLast? with
  | none => []
  | some x => xs.dropLast ++ [f x]

variable {xs : List α} {x : α} {i : Nat}

@[simp] theorem last?_nil : last? ([] : List α) = none := rfl

@[simp] theorem last?_concat (xs : List α) (x : α) : last? (xs ++ [x]) = some (xs.length, x) := by
  rw [last?, List.getLast?_concat, List.length_append]
  rfl

@[simp] theorem onLast_nil (f : α → α) : onLast f [] = [] := rfl

@[simp] theorem onLast_concat (f : α → α) (xs : List α) (x : α) :
    onLast f (xs ++ [x]) = xs ++ [f x] := by
  rw [onLast, List.getLast?_concat, List.dropLast_concat]

theorem last?_eq_some (h : last? xs = some (i, x)) : ∃ ys, xs = ys ++ [x] ∧ ys.length = i := by
  rcases List.eq_nil_or_concat' xs with rfl | ⟨ys, y, rfl⟩
  · cases h
  · rw [last?_concat] at h
    cases h
    exact ⟨ys, rfl, rfl⟩

theorem last?_eq_none (h : last? xs = none) : xs = [] := by
  rcases List.eq_nil_or_concat' xs with rfl | ⟨ys, y, rfl⟩
  · rfl
  · rw [last?_concat] at h
    cases h

/-- The place of the last entry is kept when that entry changes. -/
theorem last?_onLast (f : α → α) (xs : List α) :
    last? (onLast f xs) = (last? xs).map fun p => (p.1, f p.2) := by
  rcases List.eq_nil_or_concat' xs with rfl | ⟨ys, y, rfl⟩
  · rfl
  · rw [onLast_concat, last?_concat, last?_concat]
    rfl

theorem getElem?_last (h : last? xs = some (i, x)) : xs[i]? = some x := by
  obtain ⟨ys, rfl, rfl⟩ := last?_eq_some h
  exact List.getElem?_concat_length

/-- To store at the place of the last entry is to change it. -/
theorem set_last (f : α → α) (h : last? xs = some (i, x)) : xs.set i (f x) = onLast f xs := by
  obtain ⟨ys, rfl, rfl⟩ := last?_eq_some h
  rw [onLast_concat, List.set_append_right _ _ (Nat.le_refl _), Nat.sub_self]
  rfl

theorem onLast_same {f : α → α} (hf : ∀ i x, last? xs = some (i, x) → f x = x) :
    onLast f xs = xs := by
  rcases List.eq_nil_or_concat' xs with rfl | ⟨ys, y, rfl⟩
  · rfl
  · rw [onLast_concat, hf _ y (last?_concat ys y)]

end SaneBackends.LastEntry
