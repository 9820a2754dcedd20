import Mathlib.Data.List.Basic

/-!
# Overwriting a stretch of a list

A block of memory is a list of cells.  `overwrite mem i xs` is the memory after
the cells from `i` on have been replaced by `xs`: the cells before and behind the
stretch are the old ones, the stretch itself reads back as `xs`.
-/

namespace SaneBackends.Overwrite

variable {α : Type*}

/-- The memory after `xs` has been stored from index `i` on. -/
def overwrite (mem : List α) (i : Nat) (xs : List α) : List α :=
  mem.take i ++ xs ++ mem.drop (i + xs.length)

theorem length_overwrite {mem : List α} {i : Nat} {xs : List α}
    (h : i + xs.length ≤ mem.length) : (overwrite mem i xs).length = mem.length := by
  simp only [overwrite, List.length_append, List.length_take, List.length_drop]
  omega

/-- Up to the end of the stretch the memory is its old beginning and the new cells. -/
theorem take_overwrite {mem : List α} {i : Nat} {xs : List α} (h : i ≤ mem.length) :
    (overwrite mem i xs).take (i + xs.length) = mem.take i ++ xs := by
  have hlen : (mem.take i ++ xs).length = i + xs.length := by
    simp only [List.length_append, List.length_take]
    omega
  rw [overwrite, ← hlen, List.take_left]

theorem overwrite_nil (mem : List α) (i : Nat) : overwrite mem i [] = mem := by
  simp [overwrite]

/-- A stretch can be replaced cell by cell. -/
theorem overwrite_cons {mem : List α} {i : Nat} {x : α} {xs : List α} (h : i < mem.length) :
    overwrite mem i (x :: xs) = overwrite (mem.set i x) (i + 1) xs := by
  have hset : mem.set i x = (mem.take i ++ [x]) ++ mem.drop (i + 1) := by
    rw [List.set_eq_take_append_cons_drop, if_pos h, List.append_assoc, List.singleton_append]
  have hlen : (mem.take i ++ [x]).length = i + 1 := by
    rw [List.length_append, List.length_take, List.length_singleton]
    omega
  have hrest : (mem.set i x).drop (i + 1 + xs.length) = mem.drop (i + (xs.length + 1)) := by
    rw [hset, List.drop_append, hlen, List.drop_eq_nil_of_le (by omega), List.nil_append,
      List.drop_drop]
    congr 1
    omega
  rw [overwrite, overwrite, hrest, hset, List.take_left' hlen, List.length_cons]
  simp only [List.append_assoc, List.cons_append, List.nil_append]

theorem take_overwrite_zero (mem xs : List α) :
    (overwrite mem 0 xs).take xs.length = xs := by
  simp [overwrite]

/-- A cell in the stretch holds what was stored there. -/
theorem getElem?_overwrite_mid {mem : List α} {i : Nat} {xs : List α} {k : Nat}
    (hi : i ≤ mem.length) (hk : k < xs.length) :
    (overwrite mem i xs)[i + k]? = xs[k]? := by
  have hlen : (mem.take i).length = i := by rw [List.length_take]; omega
  rw [overwrite, List.append_assoc, List.getElem?_append_right (by omega), hlen,
    Nat.add_sub_cancel_left, List.getElem?_append_left hk]

theorem getElem?_overwrite_before {mem : List α} {i : Nat} {xs : List α} {k : Nat}
    (hi : i ≤ mem.length) (hk : k < i) : (overwrite mem i xs)[k]? = mem[k]? := by
  have hlen : (mem.take i).length = i := by rw [List.length_take]; omega
  rw [overwrite, List.append_assoc, List.getElem?_append_left (by omega),
    List.getElem?_take_of_lt hk]

theorem getElem?_overwrite_after {mem : List α} {i : Nat} {xs : List α} {k : Nat}
    (hi : i ≤ mem.length) (hk : i + xs.length ≤ k) :
    (overwrite mem i xs)[k]? = mem[k]? := by
  have hlen : (mem.take i ++ xs).length = i + xs.length := by
    rw [List.length_append, List.length_take]
    omega
  rw [overwrite, List.getElem?_append_right (by omega), hlen, List.getElem?_drop]
  congr 1
  omega

/-! ### Stretches -/

/-- The `n` cells from index `i` on. -/
def stretch (mem : List α) (i n : Nat) : List α := (mem.drop i).take n

theorem length_stretch {mem : List α} {i n : Nat} (h : i + n ≤ mem.length) :
    (stretch mem i n).length = n := by
  rw [stretch, List.length_take, List.length_drop]
  omega

theorem stretch_add (mem : List α) (i m n : Nat) :
    stretch mem i (m + n) = stretch mem i m ++ stretch mem (i + m) n := by
  rw [stretch, List.take_add, List.drop_drop]
  rfl

theorem take_stretch {mem : List α} {i m n : Nat} (h : m ≤ n) :
    (stretch mem i n).take m = stretch mem i m := by
  rw [stretch, List.take_take, Nat.min_eq_left h]
  rfl

theorem drop_stretch (mem : List α) (i m n : Nat) :
    (stretch mem i n).drop m = stretch mem (i + m) (n - m) := by
  rw [stretch, List.drop_take, List.drop_drop]
  rfl

/-- What has been stored reads back. -/
theorem stretch_overwrite {mem : List α} {i : Nat} {xs : List α} (h : i ≤ mem.length) :
    stretch (overwrite mem i xs) i xs.length = xs := by
  have hlen : (mem.take i).length = i := by rw [List.length_take]; omega
  rw [stretch, overwrite, List.append_assoc, List.drop_left' hlen, List.take_left]

/-- Cells in front of what is stored keep their contents. -/
theorem stretch_overwrite_before {mem : List α} {i n j : Nat} {xs : List α} (h : i + n ≤ j)
    (hj : j ≤ mem.length) : stretch (overwrite mem j xs) i n = stretch mem i n := by
  apply List.ext_getElem?
  intro k
  simp only [stretch, List.getElem?_take, List.getElem?_drop]
  split
  · exact getElem?_overwrite_before hj (by omega)
  · rfl

/-- Storing inside a stretch. -/
theorem stretch_overwrite_inside {mem : List α} {i n o : Nat} {xs : List α}
    (h : i + n ≤ mem.length) (ho : o + xs.length ≤ n) :
    stretch (overwrite mem (i + o) xs) i n = overwrite (stretch mem i n) o xs := by
  have hsplit : n = o + (xs.length + (n - (o + xs.length))) := by omega
  have hbehind : stretch (overwrite mem (i + o) xs) (i + o + xs.length) (n - (o + xs.length))
      = stretch mem (i + o + xs.length) (n - (o + xs.length)) := by
    apply List.ext_getElem?
    intro k
    simp only [stretch, List.getElem?_take, List.getElem?_drop]
    split
    · exact getElem?_overwrite_after (by omega) (by omega)
    · rfl
  conv_lhs => rw [hsplit]
  rw [stretch_add, stretch_add, stretch_overwrite_before (Nat.le_refl _) (by omega),
    stretch_overwrite (by omega), hbehind, overwrite, take_stretch (by omega), drop_stretch,
    Nat.add_assoc, List.append_assoc]

end SaneBackends.Overwrite
