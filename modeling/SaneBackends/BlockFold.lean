import Mathlib.Data.List.Basic

/-!
# Folding over blocks

A list is cut into blocks of `n` elements, and every full block is taken into a state.  When the
first part of a list consists of full blocks, the rest of the list is taken in behind it.
-/

namespace SaneBackends.BlockFold

variable {σ α : Type*} {f : σ → List α → σ} {n : Nat} {s : σ} {xs ys : List α}

/-- Takes in the first `k` blocks. -/
def foldBlocks (f : σ → List α → σ) (n : Nat) : Nat → σ → List α → σ
  | 0, s, _ => s
  | k + 1, s, xs => foldBlocks f n k (f s (xs.take n)) (xs.drop n)

/-- Takes in all full blocks. -/
def absorb (f : σ → List α → σ) (n : Nat) (s : σ) (xs : List α) : σ :=
  foldBlocks f n (xs.length / n) s xs

theorem foldBlocks_succ (k : Nat) :
    foldBlocks f n (k + 1) s xs = foldBlocks f n k (f s (xs.take n)) (xs.drop n) := rfl

theorem foldBlocks_append {j : Nat} (h : xs.length = n * j) (k : Nat) :
    foldBlocks f n (j + k) s (xs ++ ys) = foldBlocks f n k (foldBlocks f n j s xs) ys := by
  induction j generalizing s xs with
  | zero =>
    rw [List.eq_nil_of_length_eq_zero h, List.nil_append, Nat.zero_add]
    rfl
  | succ j ih =>
    have hn : n ≤ xs.length := by
      rw [h, Nat.mul_succ]
      exact Nat.le_add_left n (n * j)
    have hrest : (xs.drop n).length = n * j := by
      rw [List.length_drop, h, Nat.mul_succ, Nat.add_sub_cancel]
    rw [Nat.succ_add, foldBlocks_succ, foldBlocks_succ, List.take_append_of_le_length hn,
      List.drop_append_of_le_length hn, ih hrest]

/-- Behind full blocks. -/
theorem absorb_append (hn : 0 < n) (h : n ∣ xs.length) :
    absorb f n s (xs ++ ys) = absorb f n (absorb f n s xs) ys := by
  obtain ⟨j, hj⟩ := h
  rw [absorb, absorb, absorb, List.length_append, hj, Nat.mul_add_div hn,
    Nat.mul_div_cancel_left j hn, foldBlocks_append hj]

theorem absorb_nil : absorb f n s [] = s := by
  rw [absorb, List.length_nil, Nat.zero_div]
  rfl

end SaneBackends.BlockFold
