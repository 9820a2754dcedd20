import Mathlib.Data.List.Range

/-!
# A ring in a memory

A memory is a function from addresses to cells.  The first `n` addresses are used in a circle:
`ring mem n off len` are the `len` cells from `off` on, with the first cell following the
last one.
-/

namespace SaneBackends.RingMemory

variable {α : Type*} {mem : Nat → α} {n off len : Nat} {xs : List α}

/-- The `len` cells from `off` on, around the end. -/
def ring (mem : Nat → α) (n off len : Nat) : List α :=
  (List.range len).map fun j => mem ((off + j) % n)

/-- The memory after `xs` has been stored from address `i` on. -/
def put (mem : Nat → α) (i : Nat) (xs : List α) : Nat → α :=
  fun j => if i ≤ j then (xs[j - i]?).getD (mem j) else mem j

@[simp] theorem length_ring : (ring mem n off len).length = len := by
  rw [ring, List.length_map, List.length_range]

@[simp] theorem ring_zero : ring mem n off 0 = [] := rfl

theorem getElem?_ring {j : Nat} (h : j < len) :
    (ring mem n off len)[j]? = some (mem ((off + j) % n)) := by
  rw [ring, List.getElem?_map, List.getElem?_range h]
  rfl

/-- Taking `k` cells off the front. -/
theorem drop_ring {k : Nat} (h : k ≤ len) :
    (ring mem n off len).drop k = ring mem n ((off + k) % n) (len - k) := by
  apply List.ext_getElem?
  intro j
  rw [List.getElem?_drop]
  by_cases hj : j < len - k
  · rw [getElem?_ring (by omega), getElem?_ring hj, Nat.mod_add_mod, Nat.add_assoc]
  · rw [List.getElem?_eq_none (by rw [length_ring]; omega),
      List.getElem?_eq_none (by rw [length_ring]; omega)]

theorem put_before {i j : Nat} (h : j < i) : put mem i xs j = mem j := by
  rw [put, if_neg (by omega)]

theorem put_behind {i j : Nat} (h : i + xs.length ≤ j) : put mem i xs j = mem j := by
  rw [put, List.getElem?_eq_none (by omega)]
  split <;> rfl

theorem put_mid {i j : Nat} (h : j < xs.length) : put mem i xs (i + j) = xs[j] := by
  rw [put, if_pos (Nat.le_add_right i j), Nat.add_sub_cancel_left, List.getElem?_eq_getElem h]
  rfl

/-- An address in the circle. -/
theorem mod_cases {i : Nat} (h : i < 2 * n) : i % n = if i < n then i else i - n := by
  split
  · rename_i hlt
    exact Nat.mod_eq_of_lt hlt
  · rename_i hge
    rw [Nat.mod_eq_sub_mod (by omega), Nat.mod_eq_of_lt (by omega)]

/-- What is stored behind the tail, up to the end of the circle or up to the head, comes behind
    the cells in use. -/
theorem ring_put (hoff : off < n) (hlen : len + xs.length ≤ n)
    (hfit : (off + len) % n + xs.length ≤ n) :
    ring (put mem ((off + len) % n) xs) n off (len + xs.length) = ring mem n off len ++ xs := by
  rcases Nat.eq_zero_or_pos xs.length with hnil | hpos
  · have hxs : xs = [] := List.eq_nil_of_length_eq_zero hnil
    subst hxs
    rw [List.length_nil, Nat.add_zero, List.append_nil, ring, ring]
    apply List.map_congr_left
    intro j _
    rw [put]
    split <;> rfl
  have htail := mod_cases (show off + len < 2 * n by omega)
  apply List.ext_getElem?
  intro j
  by_cases hold : j < len
  · have hplace := mod_cases (show off + j < 2 * n by omega)
    rw [getElem?_ring (by omega), List.getElem?_append_left (by rwa [length_ring]),
      getElem?_ring hold]
    congr 1
    generalize (off + j) % n = p at hplace
    generalize (off + len) % n = t at htail hfit
    rcases Nat.lt_or_ge p t with hlt | hge
    · exact put_before hlt
    · apply put_behind
      split_ifs at hplace htail <;> omega
  · rw [List.getElem?_append_right (by rw [length_ring]; omega), length_ring]
    by_cases hnew : j < len + xs.length
    · have hplace : (off + j) % n = (off + len) % n + (j - len) := by
        rw [mod_cases (show off + j < 2 * n by omega)]
        generalize (off + len) % n = t at htail hfit
        split_ifs at htail ⊢ <;> omega
      rw [getElem?_ring hnew, hplace, put_mid (by omega), List.getElem?_eq_getElem (by omega)]
    · rw [List.getElem?_eq_none (by rw [length_ring]; omega), List.getElem?_eq_none (by omega)]

end SaneBackends.RingMemory
