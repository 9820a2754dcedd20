import Mathlib.Data.Nat.ModEq
import Mathlib.Data.List.Basic

/-!
# Delay lines

A circle of `d + 1` slots delays a stream by `d` elements: the slot that is read runs `d`
places ahead of the one that is written to, so that it holds the element that came `d`
elements before.  `Recent R slots d lo hi` says that the elements from `lo` up to `hi` are
there, each as the relation `R` wants it.
-/

namespace SaneBackends.DelaySlots

variable {α : Type*} {R : Nat → α → Prop} {slots : List α} {d lo lo' hi j k n s : Nat} {x : α}

/-- The slot of element `k`. -/
def place (d k : Nat) : Nat := (k + d) % (d + 1)

/-- The elements from `lo` up to `hi` are in their slots. -/
def Recent (R : Nat → α → Prop) (slots : List α) (d lo hi : Nat) : Prop :=
  ∀ k, lo ≤ k → k < hi → ∃ x, slots[place d k]? = some x ∧ R k x

theorem place_lt : place d k < d + 1 := Nat.mod_lt _ (Nat.succ_pos d)

/-- Numbers that are less than a round apart have different places. -/
theorem mod_ne {m : Nat} (hlt : j < k) (hround : k < j + m) : j % m ≠ k % m := by
  intro h
  have hdvd : m ∣ k - j := (Nat.modEq_iff_dvd' hlt.le).mp h
  have hle := Nat.le_of_dvd (by omega) hdvd
  omega

theorem recent_empty (h : hi ≤ lo) : Recent R slots d lo hi := by
  intro k hlo hhi
  omega

theorem Recent.mono (h : Recent R slots d lo hi) (hlo : lo ≤ lo') : Recent R slots d lo' hi :=
  fun k hk => h k (hlo.trans hk)

/-- A slot that holds none of the elements may be changed. -/
theorem Recent.set_other (h : Recent R slots d lo hi)
    (hother : ∀ k, lo ≤ k → k < hi → place d k ≠ s) : Recent R (slots.set s x) d lo hi := by
  intro k hlo hhi
  rw [List.getElem?_set_ne (hother k hlo hhi).symm]
  exact h k hlo hhi

/-- The next element is stored in its slot. -/
theorem Recent.store (h : Recent R slots d lo hi) (hlen : slots.length = d + 1) (hx : R hi x)
    (hfit : hi ≤ lo + d) : Recent R (slots.set (place d hi) x) d lo (hi + 1) := by
  intro k hlo hhi
  rcases Nat.lt_succ_iff_lt_or_eq.mp hhi with hold | rfl
  · have hne : place d k ≠ place d hi := mod_ne (by omega) (by omega)
    rw [List.getElem?_set_ne hne.symm]
    exact h k hlo hold
  · refine ⟨x, ?_, hx⟩
    rw [List.getElem?_set_self]
    rw [hlen]
    exact place_lt

/-- The slot that is read in turn `n` holds none of the elements that are kept for the turns
    behind it. -/
theorem place_ne_read (hold : n < k + d) (hnew : k ≤ n) : place d k ≠ n % (d + 1) :=
  (mod_ne hold (by omega)).symm

/-- It holds the element that came `d` elements before. -/
theorem place_read (h : d ≤ n) : place d (n - d) = n % (d + 1) := by
  rw [place, Nat.sub_add_cancel h]

/-- A slot further on holds a later element. -/
theorem place_ahead {m : Nat} (h : d ≤ n) : place d (n - d + m) = (n % (d + 1) + m) % (d + 1) := by
  rw [place, Nat.mod_add_mod]
  congr 1
  omega

end SaneBackends.DelaySlots
