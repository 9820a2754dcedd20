import Mathlib.Data.Set.Function
import Mathlib.Order.Interval.Set.Defs

/-!
# Interleaving segments

A line of `n * m` pixels consists of `n` segments of `m` pixels.  Interleaved, each group of `n`
pixels takes one pixel of each segment.
-/

namespace SaneBackends.Interleave

/-- Where pixel `i` of the segments goes. -/
def place (n m i : Nat) : Nat := n * (i % m) + i / m

/-- Which pixel of the segments comes to place `k`. -/
def source (n m k : Nat) : Nat := k % n * m + k / n

variable {n m w i k : Nat}

theorem place_lt (h : n * m = w) (hi : i < w) : place n m i < w := by
  have hrow : i / m < n := by
    apply Nat.div_lt_of_lt_mul
    rwa [Nat.mul_comm, h]
  have hpos : 0 < m := Nat.pos_of_mul_pos_left (h.symm ▸ Nat.zero_lt_of_lt hi)
  have hcol := Nat.mul_le_mul_left n (show i % m + 1 ≤ m from Nat.mod_lt _ hpos)
  rw [Nat.mul_succ, h] at hcol
  rw [place]
  omega

theorem source_lt (h : n * m = w) (hk : k < w) : source n m k < w := by
  have hn : 0 < n := Nat.pos_of_mul_pos_right (h.symm ▸ Nat.zero_lt_of_lt hk)
  have hrow := Nat.mul_le_mul_right m (show k % n + 1 ≤ n from Nat.mod_lt _ hn)
  have hcol : k / n < m := Nat.div_lt_of_lt_mul (h.symm ▸ hk)
  rw [Nat.succ_mul, h] at hrow
  rw [source]
  omega

/-- The two are inverse. -/
theorem eq_place_iff (h : n * m = w) (hi : i < w) (hk : k < w) :
    k = place n m i ↔ source n m k = i := by
  have hn : 0 < n := Nat.pos_of_mul_pos_right (h.symm ▸ Nat.zero_lt_of_lt hk)
  have hpos : 0 < m := Nat.pos_of_mul_pos_left (h.symm ▸ Nat.zero_lt_of_lt hi)
  have hrow : i / m < n := by
    apply Nat.div_lt_of_lt_mul
    rwa [Nat.mul_comm, h]
  have hcol : k / n < m := Nat.div_lt_of_lt_mul (h.symm ▸ hk)
  rw [place, source]
  constructor
  · rintro rfl
    rw [Nat.mul_add_mod, Nat.mod_eq_of_lt hrow, Nat.mul_add_div hn, Nat.div_eq_of_lt hrow,
      Nat.add_zero, Nat.mul_comm]
    exact Nat.div_add_mod i m
  · rintro rfl
    rw [Nat.mul_comm (k % n), Nat.mul_add_mod, Nat.mod_eq_of_lt hcol, Nat.mul_add_div hpos,
      Nat.div_eq_of_lt hcol, Nat.add_zero]
    exact (Nat.div_add_mod k n).symm

/-- Every pixel has a place, and every place one pixel. -/
theorem bijOn_place (h : n * m = w) : Set.BijOn (place n m) (Set.Iio w) (Set.Iio w) := by
  refine ⟨fun i hi => place_lt h hi, fun i hi j hj heq => ?_, fun k hk => ?_⟩
  · have hplace := (eq_place_iff h hi (place_lt h hi)).mp rfl
    rw [heq, (eq_place_iff h hj (place_lt h hj)).mp rfl] at hplace
    exact hplace.symm
  · exact ⟨source n m k, source_lt h hk, ((eq_place_iff h (source_lt h hk) hk).mpr rfl).symm⟩

/-- Group `g` takes pixel `g` of each segment. -/
theorem place_segment {g r : Nat} (hg : g < m) : place n m (r * m + g) = n * g + r := by
  have hpos : 0 < m := Nat.zero_lt_of_lt hg
  rw [place, Nat.mul_comm r m, Nat.mul_add_mod, Nat.mod_eq_of_lt hg, Nat.mul_add_div hpos,
    Nat.div_eq_of_lt hg, Nat.add_zero]

end SaneBackends.Interleave
