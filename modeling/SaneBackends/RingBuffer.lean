import SaneBackends.Overwrite
import Mathlib.Data.List.Rotate
import Mathlib.Data.Nat.ModEq

/-!
# Ring buffers

A list of cells is read and written in a circle.  `ring buf r k` are the `k` cells from
`r` on, with the first cell following the last one.  What is stored behind the cells in
use comes out behind them, and taking cells out at the front leaves the rest.
-/

namespace SaneBackends.RingBuffer

open Overwrite

variable {α : Type*}

/-- The `k` cells from position `r` on, around the end of the buffer. -/
def ring (buf : List α) (r k : Nat) : List α := (buf.rotate r).take k

attribute [grind =] ring

/-- The position behind `i`. -/
def next (n i : Nat) : Nat := if n ≤ i + 1 then 0 else i + 1

/-- Store cells one after the other from position `i` on, around the end. -/
def store (buf : List α) (i : Nat) : List α → List α × Nat
  | [] => (buf, i)
  | x :: xs => store (buf.set i x) (next buf.length i) xs

attribute [grind =] store

variable {buf xs : List α} {r i j k : Nat}

theorem length_ring (hk : k ≤ buf.length) : (ring buf r k).length = k := by
  rw [ring, List.length_take, List.length_rotate, min_eq_left hk]

@[simp] theorem ring_zero : ring buf r 0 = [] := List.take_zero

/-- The start of a ring is a position of the buffer. -/
theorem ring_mod : ring buf (r % buf.length) k = ring buf r k := by
  rw [ring, List.rotate_mod, ring]

/-- In front of the end of the buffer a ring is a stretch of it. -/
theorem ring_eq_stretch (h : r + k ≤ buf.length) : ring buf r k = (buf.drop r).take k := by
  rw [ring, List.rotate_eq_drop_append_take (by omega), List.take_append_of_le_length]
  rw [List.length_drop]
  omega

theorem take_ring (hjk : j ≤ k) : (ring buf r k).take j = ring buf r j := by
  rw [ring, List.take_take, min_eq_left hjk, ring]

/-- Taking out `j` cells at the front. -/
theorem drop_ring (hjk : j ≤ k) (hk : k ≤ buf.length) :
    (ring buf r k).drop j = ring buf (r + j) (k - j) := by
  have hlen : (buf.rotate r).length = buf.length := List.length_rotate ..
  have hrotate : (buf.rotate (r + j)) = (buf.rotate r).drop j ++ (buf.rotate r).take j := by
    rw [← List.rotate_rotate, List.rotate_eq_drop_append_take (by omega)]
  rw [ring, ring, hrotate, List.take_append_of_le_length (by rw [List.length_drop]; omega),
    List.drop_take]

/-! ### Storing -/

theorem next_mod (hi : i < buf.length) : next buf.length i = (i + 1) % buf.length := by
  unfold next
  split_ifs with h
  · rw [show i + 1 = buf.length by omega, Nat.mod_self]
  · rw [Nat.mod_eq_of_lt (by omega)]

/-- A cell of the buffer and its place in the circle from `r` on. -/
theorem set_rotate (hj : j < buf.length) (x : α) :
    (buf.set ((r + j) % buf.length) x).rotate r = (buf.rotate r).set j x := by
  have hpos : 0 < buf.length := by omega
  apply List.ext_getElem?
  intro m
  by_cases hm : m < buf.length
  · rw [List.getElem?_rotate (by rwa [List.length_set]), List.getElem?_set, List.getElem?_set,
      List.length_set, List.length_rotate, List.getElem?_rotate hm]
    have hplace : (r + j) % buf.length = (m + r) % buf.length ↔ j = m := by
      constructor
      · intro h
        rw [Nat.add_comm m r] at h
        have hmod : j ≡ m [MOD buf.length] := Nat.ModEq.add_left_cancel' r h
        rwa [Nat.ModEq, Nat.mod_eq_of_lt hj, Nat.mod_eq_of_lt hm] at hmod
      · rintro rfl
        rw [Nat.add_comm]
    simp only [hplace, Nat.mod_lt _ hpos, hj, if_true]
  · rw [List.getElem?_eq_none (by simpa using hm), List.getElem?_eq_none (by simpa using hm)]

@[simp] theorem length_store : (store buf i xs).1.length = buf.length := by
  induction xs generalizing buf i with
  | nil => rfl
  | cons x xs ih => rw [store, ih, List.length_set]

theorem store_append (ys : List α) :
    store buf i (xs ++ ys) = store (store buf i xs).1 (store buf i xs).2 ys := by
  induction xs generalizing buf i with
  | nil => rfl
  | cons x xs ih => exact ih

/-- Storing around the end is overwriting a stretch of the circle. -/
theorem store_rotate (hj : j + xs.length ≤ buf.length) :
    (store buf ((r + j) % buf.length) xs).1.rotate r = overwrite (buf.rotate r) j xs := by
  induction xs generalizing buf j with
  | nil => rw [store, overwrite_nil]
  | cons x xs ih =>
    rw [List.length_cons] at hj
    have hrest := @ih (buf.set ((r + j) % buf.length) x) (j + 1)
      (by rw [List.length_set]; omega)
    rw [List.length_set] at hrest
    rw [store, next_mod (Nat.mod_lt _ (by omega)), Nat.mod_add_mod, Nat.add_assoc, hrest,
      set_rotate (by omega), overwrite_cons (by rw [List.length_rotate]; omega)]

/-- Storing in front of the end is overwriting a stretch of the buffer. -/
theorem store_eq_overwrite (h : i + xs.length ≤ buf.length) :
    (store buf i xs).1 = overwrite buf i xs := by
  induction xs generalizing buf i with
  | nil => rw [store, overwrite_nil]
  | cons x xs ih =>
    rw [List.length_cons] at h
    rw [store, overwrite_cons (by omega)]
    cases xs with
    | nil => rw [store, overwrite_nil]
    | cons y ys =>
      rw [List.length_cons] at h
      rw [next, if_neg (by omega), ih (by rw [List.length_set, List.length_cons]; omega)]

/-- What is stored behind `j` cells comes out behind them. -/
theorem ring_store (hj : j + xs.length ≤ buf.length) :
    ring (store buf ((r + j) % buf.length) xs).1 r (j + xs.length) = ring buf r j ++ xs := by
  rw [ring, store_rotate hj, take_overwrite (by rw [List.length_rotate]; omega), ring]

/-- What is stored at the front comes out first; the cells behind it are the old ones. -/
theorem ring_store_front (hk : xs.length + k ≤ buf.length) :
    ring (store buf (r % buf.length) xs).1 r (xs.length + k) =
      xs ++ (ring buf r (xs.length + k)).drop xs.length := by
  have hstore := @store_rotate _ buf xs r 0 (by omega)
  rw [Nat.add_zero] at hstore
  rw [ring, hstore, overwrite, List.take_zero, List.nil_append, Nat.zero_add,
    List.take_length_add_append, ring, List.drop_take, Nat.add_sub_cancel_left]

end SaneBackends.RingBuffer
