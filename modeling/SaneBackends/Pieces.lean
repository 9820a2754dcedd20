import Mathlib.Data.List.Basic
import Mathlib.Tactic.Common

/-!
# A sequence made of pieces

Pieces follow one another, some of them empty.  A position is a number of pieces; what lies in
front of it grows with the position.  The first `k` elements are the same whatever pieces the
sequence has been put together from.
-/

namespace SaneBackends.Pieces

variable {α : Type*} {piece : Nat → List α} {out out' : List α} {m n k : Nat}

/-- The first `n` pieces, one after the other. -/
def upTo (piece : Nat → List α) (n : Nat) : List α := (List.range n).flatMap piece

@[simp] theorem upTo_zero : upTo piece 0 = [] := rfl

theorem upTo_succ (piece : Nat → List α) (n : Nat) :
    upTo piece (n + 1) = upTo piece n ++ piece n := by
  simp [upTo, List.range_succ]

theorem upTo_one (piece : Nat → List α) : upTo piece 1 = piece 0 := by
  rw [upTo_succ, upTo_zero, List.nil_append]

theorem upTo_add (piece : Nat → List α) (m n : Nat) :
    upTo piece (m + n) = upTo piece m ++ upTo (fun i => piece (m + i)) n := by
  simp [upTo, List.range_add, List.flatMap_map]

theorem upTo_congr {piece' : Nat → List α} (h : ∀ i < n, piece i = piece' i) :
    upTo piece n = upTo piece' n := by
  apply List.flatMap_congr
  intro i hi
  exact h i (List.mem_range.mp hi)

/-- Each of `n` pieces may be made of `k` pieces itself. -/
theorem upTo_mul (piece : Nat → List α) (n k : Nat) :
    upTo piece (n * k) = upTo (fun l => upTo (fun c => piece (l * k + c)) k) n := by
  induction n with
  | zero => rw [Nat.zero_mul, upTo_zero, upTo_zero]
  | succ n ih => rw [Nat.succ_mul, upTo_add, ih, upTo_succ]

theorem upTo_singleton (g : Nat → α) (n : Nat) :
    upTo (fun j => [g j]) n = (List.range n).map g := by
  rw [upTo, List.map_eq_flatMap]

/-- Rows of `k` elements each. -/
theorem upTo_rows (g : Nat → α) (n k : Nat) :
    upTo (fun c => (List.range k).map fun i => g (c * k + i)) n = (List.range (n * k)).map g := by
  rw [← upTo_singleton, upTo_mul]
  simp only [upTo_singleton]

theorem upTo_isPrefix (h : m ≤ n) : upTo piece m <+: upTo piece n := by
  obtain ⟨d, rfl⟩ := Nat.exists_eq_add_of_le h
  rw [upTo_add]
  exact List.prefix_append _ _

theorem length_upTo_mono (piece : Nat → List α) (h : m ≤ n) :
    (upTo piece m).length ≤ (upTo piece n).length :=
  (upTo_isPrefix h).length_le

/-- The pieces do not come to an end when a nonempty one follows every position. -/
theorem exists_length_upTo (h : ∀ m, ∃ n, m ≤ n ∧ piece n ≠ []) (k : Nat) :
    ∃ n, k ≤ (upTo piece n).length := by
  induction k with
  | zero => exact ⟨0, Nat.zero_le _⟩
  | succ k ih =>
    obtain ⟨m, hm⟩ := ih
    obtain ⟨n, hmn, hne⟩ := h m
    refine ⟨n + 1, ?_⟩
    have hpos := List.length_pos_iff.mpr hne
    have hlen := length_upTo_mono piece hmn
    rw [upTo_succ, List.length_append]
    omega

/-- The first `k` elements of what the pieces make. -/
structure First (piece : Nat → List α) (k : Nat) (out : List α) : Prop where
  length_eq : out.length = k
  isPrefix : ∃ n, out <+: upTo piece n

/-- They are the first ones of any number of pieces that has as many. -/
theorem First.eq_take (h : First piece k out) (hk : k ≤ (upTo piece n).length) :
    out = (upTo piece n).take k := by
  obtain ⟨m, hm⟩ := h.isPrefix
  have hpre : out <+: upTo piece (max m n) := hm.trans (upTo_isPrefix (Nat.le_max_left m n))
  have hpre' : upTo piece n <+: upTo piece (max m n) := upTo_isPrefix (Nat.le_max_right m n)
  have hle : out <+: upTo piece n :=
    List.prefix_of_prefix_length_le hpre hpre' (h.length_eq ▸ hk)
  rw [← h.length_eq]
  exact List.prefix_iff_eq_take.mp hle

theorem First.unique (h : First piece k out) (h' : First piece k out') : out = out' := by
  obtain ⟨n, hn⟩ := h'.isPrefix
  have hk : k ≤ (upTo piece n).length := h'.length_eq ▸ hn.length_le
  rw [h.eq_take hk, h'.eq_take hk]

end SaneBackends.Pieces
