import SaneBackends.Overwrite
import Mathlib.Data.List.Infix

/-!
# The last elements of a stream in a circle

A buffer of cells keeps the elements of a list as they come, each at its place modulo the
size, so that the last ones are there at any time.  A cell that nothing has been stored
in is `none`.
-/

namespace SaneBackends.RingWindow

open Overwrite

variable {α : Type*} {cells : List (Option α)} {w xs : List α} {t i : Nat}

/-- The cells hold the last of the first `t` elements of `w`, each at its place. -/
def Window (cells : List (Option α)) (w : List α) (t : Nat) : Prop :=
  ∀ i, i < t → t ≤ i + cells.length → cells[i % cells.length]? = some w[i]?

theorem window_zero : Window cells w 0 :=
  fun i hi => absurd hi (Nat.not_lt_zero i)

theorem mod_of_round {n q i : Nat} (hle : n * q ≤ i) (hlt : i < n * q + n) :
    i % n = i - n * q := by
  have heq : i = n * q + (i - n * q) := by omega
  conv_lhs => rw [heq]
  rw [Nat.mul_add_mod, Nat.mod_eq_of_lt (by omega)]

/-- The next elements are stored behind the last ones, up to the end of the cells. -/
theorem Window.store (h : Window cells w t) (hxs : xs <+: w.drop t)
    (hfit : t % cells.length + xs.length ≤ cells.length) :
    Window (overwrite cells (t % cells.length) (xs.map some)) w (t + xs.length) := by
  have hmap : (xs.map some).length = xs.length := List.length_map ..
  have hlen : (overwrite cells (t % cells.length) (xs.map some)).length = cells.length :=
    length_overwrite (by rwa [hmap])
  have hdiv := Nat.div_add_mod t cells.length
  intro i hi hrecent
  rw [hlen] at hrecent ⊢
  generalize t / cells.length = q at hdiv
  generalize t % cells.length = a at hdiv hfit ⊢
  rcases Nat.lt_or_ge i t with hold | hnew
  · rw [← h i hold (by omega)]
    rcases Nat.lt_or_ge i (cells.length * q) with hbefore | hbehind
    · -- an element of the round before, behind the new ones
      obtain ⟨p, rfl⟩ : ∃ p, q = p + 1 := by
        apply Nat.exists_eq_succ_of_ne_zero
        rintro rfl
        omega
      rw [Nat.mul_succ] at hdiv hbefore
      rw [mod_of_round (q := p) (by omega) (by omega)]
      apply getElem?_overwrite_after
      · omega
      · rw [hmap]
        omega
    · rw [mod_of_round hbehind (by omega)]
      apply getElem?_overwrite_before
      · omega
      · omega
  · have hmod : i % cells.length = a + (i - t) := by
      rw [mod_of_round (q := q) (by omega) (by omega)]
      omega
    obtain ⟨rest, hrest⟩ := hxs
    have hget : w[i]? = xs[i - t]? := by
      have hdrop : w[i]? = (w.drop t)[i - t]? := by
        rw [List.getElem?_drop, Nat.add_sub_cancel' hnew]
      rw [hdrop, ← hrest, List.getElem?_append_left (by omega)]
    rw [hmod, getElem?_overwrite_mid (by omega) (by rw [hmap]; omega), hget, List.getElem?_map,
      List.getElem?_eq_getElem (by omega)]
    rfl

end SaneBackends.RingWindow
