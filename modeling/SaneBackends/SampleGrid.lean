import SaneBackends.Cells
import SaneBackends.CountLoops
import SaneBackends.SaneTypes

/-!
# Samples in a block of bytes

A sample is a byte, or two bytes with the low one in front.  A loop nest that stores into the first
samples of each row of a block changes these and no others.
-/

namespace SaneBackends.SampleGrid

open CountLoops FaultState

/-! ### Samples -/

/-- The bytes of a sample. -/
def width (wide : Bool) : Nat := if wide then 2 else 1

/-- The number of values of a sample. -/
def values (wide : Bool) : Nat := if wide then 65536 else 256

/-- Sample `q` of the block. -/
def sampleAt (wide : Bool) (mem : List SaneByte) (q : Nat) : Nat :=
  if wide then (mem.getD (q * 2) 0).toNat + (mem.getD (q * 2 + 1) 0).toNat * 256
  else (mem.getD q 0).toNat

/-- The sample whose first byte is byte `o`. -/
def loadSample (wide : Bool) (mem : List SaneByte) (o : Nat) : Except Fault Nat := do
  let low ← cellAt mem o
  if wide then return low.toNat + (← cellAt mem (o + 1)).toNat * 256 else return low.toNat

def storeSample (wide : Bool) (mem : List SaneByte) (o v : Nat) : Except Fault (List SaneByte) := do
  let mem ← setCell mem o (BitVec.ofNat 8 v)
  if wide then setCell mem (o + 1) (BitVec.ofNat 8 (v / 256)) else return mem

variable {wide : Bool} {mem mem' : List SaneByte} {q v : Nat}

theorem sampleAt_false : sampleAt false mem q = (mem.getD q 0).toNat := rfl

theorem sampleAt_true :
    sampleAt true mem q = (mem.getD (q * 2) 0).toNat + (mem.getD (q * 2 + 1) 0).toNat * 256 := rfl

theorem width_pos : 0 < width wide := by
  cases wide <;> decide

theorem getD_of_lt {i : Nat} (h : i < mem.length) : mem.getD i 0 = mem[i] := by
  rw [List.getD_eq_getElem?_getD, List.getElem?_eq_getElem h, Option.getD_some]

theorem sampleAt_lt : sampleAt wide mem q < values wide := by
  rw [sampleAt, values]
  cases wide with
  | false => exact BitVec.isLt _
  | true =>
    have hlow := BitVec.isLt (mem.getD (q * 2) 0)
    have hhigh := BitVec.isLt (mem.getD (q * 2 + 1) 0)
    simp only [if_true]
    omega

theorem loadSample_eq (h : (q + 1) * width wide ≤ mem.length) :
    loadSample wide mem (q * width wide) = .ok (sampleAt wide mem q) := by
  rw [loadSample, sampleAt]
  cases wide with
  | false =>
    rw [width, if_neg (by decide), Nat.mul_one] at h
    rw [width, if_neg (by decide), Nat.mul_one, cellAt_of_lt h, ok_bind, getD_of_lt h]
    rfl
  | true =>
    rw [width, if_pos rfl] at h
    have hlow : q * 2 < mem.length := by omega
    have hhigh : q * 2 + 1 < mem.length := by omega
    rw [width, if_pos rfl, cellAt_of_lt hlow, ok_bind, if_pos rfl, cellAt_of_lt hhigh, ok_bind,
      if_pos rfl, getD_of_lt hlow, getD_of_lt hhigh]
    rfl

/-- What storing a sample leaves. -/
structure Stores (wide : Bool) (mem mem' : List SaneByte) (q v : Nat) : Prop where
  length : mem'.length = mem.length
  sample : ∀ q', sampleAt wide mem' q' = if q' = q then v % values wide else sampleAt wide mem q'

theorem getD_set {i j : Nat} {x : SaneByte} (h : i < mem.length) :
    (mem.set i x).getD j 0 = if j = i then x else mem.getD j 0 := by
  rw [List.getD_eq_getElem?_getD, List.getElem?_set]
  by_cases hj : j = i
  · rw [if_pos hj.symm, if_pos hj, if_pos h, Option.getD_some]
  · rw [if_neg (Ne.symm hj), if_neg hj, List.getD_eq_getElem?_getD]

theorem storeSample_eq (v : Nat) (h : (q + 1) * width wide ≤ mem.length) :
    ∃ mem', storeSample wide mem (q * width wide) v = .ok mem' ∧ Stores wide mem mem' q v := by
  rw [storeSample]
  cases wide with
  | false =>
    rw [width, if_neg (by decide), Nat.mul_one] at h
    rw [width, if_neg (by decide), Nat.mul_one, setCell_of_lt h, ok_bind]
    refine ⟨_, rfl, List.length_set, fun q' => ?_⟩
    rw [sampleAt_false, sampleAt_false, getD_set h]
    by_cases hq : q' = q
    · rw [if_pos hq, if_pos hq]
      exact BitVec.toNat_ofNat v 8
    · rw [if_neg hq, if_neg hq]
  | true =>
    rw [width, if_pos rfl] at h
    have hlow : q * 2 < mem.length := by omega
    have hhigh : q * 2 + 1 < (mem.set (q * 2) (BitVec.ofNat 8 v)).length := by
      rw [List.length_set]
      omega
    rw [width, if_pos rfl, setCell_of_lt hlow, ok_bind, if_pos rfl, setCell_of_lt hhigh]
    refine ⟨_, rfl, ?_, fun q' => ?_⟩
    · rw [List.length_set, List.length_set]
    · rw [sampleAt_true, sampleAt_true, getD_set hhigh, getD_set hlow, getD_set hhigh,
        getD_set hlow, values, if_pos rfl]
      by_cases hq : q' = q
      · rw [if_pos hq, if_neg (by omega), if_pos (by omega), if_pos (by omega), BitVec.toNat_ofNat,
          BitVec.toNat_ofNat]
        omega
      · rw [if_neg hq, if_neg (by omega), if_neg (by omega), if_neg (by omega), if_neg (by omega)]

/-! ### Grids -/

variable {base stride cols rows k j : Nat} {value : Nat → Nat → Nat} {old : Nat → Nat}

/-- The samples when row `k` of the grid has been filled up to column `j`. -/
def filled (old : Nat → Nat) (base stride cols : Nat) (value : Nat → Nat → Nat) (k j q : Nat) :
    Nat :=
  let p := q - base
  if base ≤ q ∧ p % stride < cols ∧ (p / stride < k ∨ p / stride = k ∧ p % stride < j) then
    value (p / stride) (p % stride)
  else old q

theorem filled_start : filled old base stride cols value 0 0 q = old q :=
  if_neg fun h => h.2.2.elim (Nat.not_lt_zero _) fun h => Nat.not_lt_zero _ h.2

theorem filled_row_end :
    filled old base stride cols value k cols q = filled old base stride cols value (k + 1) 0 q := by
  unfold filled
  dsimp only
  split_ifs <;> first | rfl | omega

theorem index_div (hj : j < stride) : (k * stride + j) / stride = k := by
  rw [Nat.mul_comm, Nat.mul_add_div (by omega), Nat.div_eq_of_lt hj, Nat.add_zero]

theorem index_mod (hj : j < stride) : (k * stride + j) % stride = j := by
  rw [Nat.mul_comm, Nat.mul_add_mod, Nat.mod_eq_of_lt hj]

/-- A cell is filled. -/
theorem filled_step (hj : j < cols) (hcols : cols ≤ stride) :
    filled old base stride cols value k (j + 1) q =
      if q = base + (k * stride + j) then value k j
      else filled old base stride cols value k j q := by
  have hdiv := @index_div stride k j (by omega)
  have hmod := @index_mod stride k j (by omega)
  unfold filled
  dsimp only
  by_cases hq : q = base + (k * stride + j)
  · have hp : q - base = k * stride + j := by omega
    rw [if_pos hq, hp, hdiv, hmod, if_pos ⟨by omega, hj, .inr ⟨rfl, Nat.lt_succ_self j⟩⟩]
  · rw [if_neg hq]
    have hiff : base ≤ q ∧ (q - base) % stride < cols ∧
        ((q - base) / stride < k ∨ (q - base) / stride = k ∧ (q - base) % stride < j + 1) ↔
        base ≤ q ∧ (q - base) % stride < cols ∧
        ((q - base) / stride < k ∨ (q - base) / stride = k ∧ (q - base) % stride < j) := by
      have hne : base ≤ q → ¬ ((q - base) / stride = k ∧ (q - base) % stride = j) := by
        rintro hle ⟨hk, hr⟩
        have hsplit := Nat.div_add_mod (q - base) stride
        rw [hk, hr, Nat.mul_comm] at hsplit
        omega
      omega
    simp only [hiff]

/-- A cell of the grid. -/
theorem filled_at (hj : j < cols) (hcols : cols ≤ stride) {rows : Nat} (hk : k < rows) :
    filled old base stride cols value rows 0 (base + (k * stride + j)) = value k j := by
  have hp : base + (k * stride + j) - base = k * stride + j := by omega
  unfold filled
  dsimp only
  rw [hp, index_div (by omega), index_mod (by omega), if_pos ⟨by omega, hj, .inl hk⟩]

/-- A cell beside the grid. -/
theorem filled_beside (hj : j < stride) (hcols : cols ≤ j) (k' j' : Nat) :
    filled old base stride cols value k' j' (base + (k * stride + j)) =
      old (base + (k * stride + j)) := by
  have hp : base + (k * stride + j) - base = k * stride + j := by omega
  unfold filled
  dsimp only
  rw [hp, index_mod hj, if_neg (by omega)]

theorem filled_before (h : q < base) (k' j' : Nat) :
    filled old base stride cols value k' j' q = old q :=
  if_neg fun h' => by omega

theorem filled_behind (hpos : 0 < stride) (h : base + rows * stride ≤ q) :
    filled old base stride cols value rows 0 q = old q := by
  unfold filled
  refine if_neg fun h' => ?_
  have hle : rows ≤ (q - base) / stride := by
    rw [Nat.le_div_iff_mul_le hpos]
    omega
  rcases h'.2.2 with hlt | ⟨-, hlt⟩
  · exact absurd hlt (Nat.not_lt.mpr hle)
  · exact absurd hlt (Nat.not_lt_zero _)

/-- A loop nest that stores `value k j` as sample `base + k * stride + j` leaves the filled grid. -/
theorem grid_ok {body : Nat → Nat → List SaneByte → Except Fault (List SaneByte)}
    (hcols : cols ≤ stride)
    (h : ∀ k < rows, ∀ j < cols, ∀ m, m.length = mem.length →
      (∀ q, sampleAt wide m q = filled (sampleAt wide mem) base stride cols value k j q) →
      ∃ m', body k j m = .ok m' ∧ m'.length = m.length ∧ ∀ q, sampleAt wide m' q =
        if q = base + (k * stride + j) then value k j else sampleAt wide m q) :
    ∃ mem', turns (fun k => turns (fun j => body k j) cols) rows mem = .ok mem' ∧
      mem'.length = mem.length ∧
      ∀ q, sampleAt wide mem' q = filled (sampleAt wide mem) base stride cols value rows 0 q := by
  refine turns_ok (I := fun k m => m.length = mem.length ∧ ∀ q, sampleAt wide m q =
    filled (sampleAt wide mem) base stride cols value k 0 q) ⟨rfl, fun q => ?_⟩ fun k hk m hm => ?_
  · exact (filled_start).symm
  · obtain ⟨m', hrun, hlen, hfilled⟩ := turns_ok (n := cols) (f := fun j => body k j)
      (I := fun j m => m.length = mem.length ∧ ∀ q, sampleAt wide m q =
        filled (sampleAt wide mem) base stride cols value k j q) hm fun j hj m hm => by
        obtain ⟨m', hbody, hlen, hsample⟩ := h k hk j hj m hm.1 hm.2
        refine ⟨m', hbody, hlen.trans hm.1, fun q => ?_⟩
        rw [hsample, filled_step hj hcols, hm.2]
    exact ⟨m', hrun, hlen, fun q => (hfilled q).trans filled_row_end⟩

end SaneBackends.SampleGrid
