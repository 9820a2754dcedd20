import Mathlib.Data.List.Range
import Mathlib.Algebra.BigOperators.Group.List.Basic
import Mathlib.Tactic.Ring

/-!
# Looking for the first place

The search for the first place at which a test fires, and the sums over a window that slides
along a line.  Two searches find the same place exactly if their tests agree up to the first
place at which both fire.
-/

namespace SaneBackends.EdgeScan

/-! ### The search -/

/-- The first of the `n` places from `t` on at which the test fires, or the place behind them. -/
def firstFrom (fires : Nat → Bool) : Nat → Nat → Nat
  | t, 0 => t
  | t, n + 1 => if fires t then t else firstFrom fires (t + 1) n

attribute [grind =] firstFrom

/-- The tests differ only behind a place at which both fire. -/
def AgreeToFirst (P Q : Nat → Bool) (t n : Nat) : Prop :=
  ∀ u, t ≤ u → u < t + n → P u ≠ Q u → ∃ v, t ≤ v ∧ v < u ∧ P v = true ∧ Q v = true

variable {P Q : Nat → Bool}

theorem le_firstFrom (t n : Nat) : t ≤ firstFrom P t n := by
  induction n generalizing t with
  | zero => exact Nat.le_refl t
  | succ n ih =>
    rw [firstFrom]
    split
    · exact Nat.le_refl t
    · exact Nat.le_of_succ_le (ih (t + 1))

theorem firstFrom_congr {t n : Nat} (h : ∀ u, t ≤ u → u < t + n → P u = Q u) :
    firstFrom P t n = firstFrom Q t n := by
  induction n generalizing t with
  | zero => rfl
  | succ n ih =>
    rw [firstFrom, firstFrom, h t (Nat.le_refl t) (by omega),
      ih fun u hu hn => h u (by omega) (by omega)]

theorem firstFrom_eq_iff (t n : Nat) :
    firstFrom P t n = firstFrom Q t n ↔ AgreeToFirst P Q t n := by
  induction n generalizing t with
  | zero =>
    constructor
    · intro _ u hu hn
      omega
    · exact fun _ => rfl
  | succ n ih =>
    rw [firstFrom, firstFrom]
    cases hP : P t with
    | true =>
      cases hQ : Q t with
      | true =>
        rw [if_pos rfl, if_pos rfl]
        constructor
        · intro _ u hu _ hne
          rcases Nat.eq_or_lt_of_le hu with rfl | hlt
          · exact absurd (hP.trans hQ.symm) hne
          · exact ⟨t, Nat.le_refl t, hlt, hP, hQ⟩
        · exact fun _ => rfl
      | false =>
        rw [if_pos rfl, if_neg Bool.false_ne_true]
        constructor
        · intro h
          have := le_firstFrom (P := Q) (t + 1) n
          omega
        · intro h
          obtain ⟨v, hv, hlt, _⟩ := h t (Nat.le_refl t) (by omega) (by rw [hP, hQ]; decide)
          omega
    | false =>
      cases hQ : Q t with
      | true =>
        rw [if_neg Bool.false_ne_true, if_pos rfl]
        constructor
        · intro h
          have := le_firstFrom (P := P) (t + 1) n
          omega
        · intro h
          obtain ⟨v, hv, hlt, _⟩ := h t (Nat.le_refl t) (by omega) (by rw [hP, hQ]; decide)
          omega
      | false =>
        rw [if_neg Bool.false_ne_true, if_neg Bool.false_ne_true, ih]
        constructor
        · intro h u hu hn hne
          rcases Nat.eq_or_lt_of_le hu with rfl | hlt
          · exact absurd (hP.trans hQ.symm) hne
          · obtain ⟨v, hv, hvu, hboth⟩ := h u hlt (by omega) hne
            exact ⟨v, Nat.le_of_succ_le hv, hvu, hboth⟩
        · intro h u hu hn hne
          obtain ⟨v, hv, hvu, hPv, hQv⟩ := h u (by omega) (by omega) hne
          rcases Nat.eq_or_lt_of_le hv with rfl | hlt
          · rw [hP] at hPv
            exact nomatch hPv
          · exact ⟨v, hlt, hvu, hPv, hQv⟩

theorem AgreeToFirst.of_eq {t n : Nat} (h : ∀ u, t ≤ u → u < t + n → P u = Q u) :
    AgreeToFirst P Q t n :=
  fun u hu hn hne => absurd (h u hu hn) hne

/-! ### Sliding sums -/

/-- The sum over the nine places up to `t`; places before the first one count as the first. -/
def windowSum (s : Nat → Int) (t : Nat) : Int := ((List.range 9).map fun v => s (t - v)).sum

attribute [grind =] windowSum

variable (s : Nat → Int)

theorem windowSum_zero : windowSum s 0 = 9 * s 0 := by
  simp only [windowSum, List.range, List.range.loop, List.map_cons, List.map_nil, List.sum_cons,
    List.sum_nil, Nat.zero_sub]
  ring

/-- The window moves on by one place. -/
theorem windowSum_succ (t : Nat) :
    windowSum s (t + 1) = windowSum s t - s (t + 1 - 9) + s (t + 1) := by
  simp only [windowSum, List.range, List.range.loop, List.map_cons, List.map_nil, List.sum_cons,
    List.sum_nil, Nat.sub_zero, Nat.reduceSubDiff, Nat.add_one_sub_one]
  ring

/-- A window that follows nine places behind. -/
theorem windowSum_behind (t : Nat) :
    windowSum s (t + 1 - 9) = windowSum s (t - 9) - s (t + 1 - 18) + s (t + 1 - 9) := by
  rcases Nat.lt_or_ge t 9 with h | h
  · have hnext : t + 1 - 9 = 0 := by omega
    have hthis : t - 9 = 0 := by omega
    have hlast : t + 1 - 18 = 0 := by omega
    rw [hnext, hthis, hlast]
    ring
  · obtain ⟨u, rfl⟩ := Nat.exists_eq_add_of_le' h
    have hnext : u + 9 + 1 - 9 = u + 1 := by omega
    have hlast : u + 9 + 1 - 18 = u + 1 - 9 := by omega
    rw [hnext, hlast, Nat.add_sub_cancel]
    exact windowSum_succ s u

end SaneBackends.EdgeScan
