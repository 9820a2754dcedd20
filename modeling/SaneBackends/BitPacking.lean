import Mathlib.Data.BitVec

/-!
# Packing bits into words

A word is made of bits that are shifted in one after the other, the first of them becoming the
topmost one.  In a row of words bit `j` goes into word `j / w`.
-/

namespace SaneBackends.BitPacking

variable {w : Nat} {α ι σ : Type*}

/-- The word with these bits, from the topmost one on. -/
def wordOf (w : Nat) (f : Nat → Bool) : BitVec w :=
  (BitVec.ofBoolListBE ((List.range w).map f)).cast
    (by rw [List.length_map, List.length_range])

theorem getMsbD_wordOf {i : Nat} (hi : i < w) (f : Nat → Bool) : (wordOf w f).getMsbD i = f i := by
  rw [wordOf, BitVec.getMsbD_cast, BitVec.getMsbD_ofBoolListBE]
  simp [hi]

theorem wordOf_congr {f g : Nat → Bool} (h : ∀ i < w, f i = g i) : wordOf w f = wordOf w g := by
  apply BitVec.eq_of_getMsbD_eq
  intro i hi
  rw [getMsbD_wordOf hi, getMsbD_wordOf hi, h i hi]

theorem wordOf_getMsbD (b : BitVec w) : wordOf w b.getMsbD = b := by
  apply BitVec.eq_of_getMsbD_eq
  intro i hi
  rw [getMsbD_wordOf hi]

/-- A bit is shifted in from below. -/
def shiftIn (b : BitVec w) (bit : Bool) : BitVec w := if bit then (b <<< 1) ||| 1 else b <<< 1

theorem getLsbD_shiftIn {i : Nat} (hi : i < w) (b : BitVec w) (bit : Bool) :
    (shiftIn b bit).getLsbD i = if i = 0 then bit else b.getLsbD (i - 1) := by
  rw [shiftIn]
  cases i with
  | zero => cases bit <;> simp [hi]
  | succ i =>
    have hlt : i < w := Nat.lt_of_succ_lt hi
    cases bit <;> simp [hi, BitVec.getLsbD_eq_getElem hlt]

theorem getLsbD_foldl_shiftIn {i : Nat} (hi : i < w) (f : Nat → Bool) (t : Nat) :
    ((List.range t).foldl (fun b j => shiftIn b (f j)) (0 : BitVec w)).getLsbD i =
      (decide (i < t) && f (t - 1 - i)) := by
  induction t generalizing i with
  | zero => simp
  | succ t ih =>
    rw [List.range_succ, List.foldl_append, List.foldl_cons, List.foldl_nil, getLsbD_shiftIn hi]
    cases i with
    | zero => simp
    | succ i =>
      rw [if_neg (Nat.succ_ne_zero i), Nat.add_sub_cancel, ih (Nat.lt_of_succ_lt hi)]
      have hindex : t + 1 - 1 - (i + 1) = t - 1 - i := by omega
      rw [hindex]
      simp

/-- A word that is filled up. -/
theorem foldl_shiftIn (f : Nat → Bool) :
    (List.range w).foldl (fun b j => shiftIn b (f j)) (0 : BitVec w) =
      wordOf w f := by
  apply BitVec.eq_of_getMsbD_eq
  intro i hi
  have hlt : w - 1 - i < w := by omega
  have hindex : w - 1 - (w - 1 - i) = i := by omega
  rw [getMsbD_wordOf hi, BitVec.getMsbD_eq_getLsbD, getLsbD_foldl_shiftIn hlt, hindex]
  simp [hi, hlt]

/-! ### Rows of words -/

theorem foldl_range_mul (g : σ → Nat → σ) (s : σ) (a b : Nat) :
    (List.range a).foldl (fun s i => (List.range b).foldl (fun s n => g s (i * b + n)) s) s =
      (List.range (a * b)).foldl g s := by
  induction a with
  | zero => simp
  | succ a ih =>
    rw [List.range_succ, List.foldl_append, ih, List.foldl_cons, List.foldl_nil, Nat.succ_mul,
      List.range_add, List.foldl_append, List.foldl_map]

theorem foldl_modify_same (is : List ι) (m : Nat) (g : ι → α → α) (l : List α) :
    is.foldl (fun l i => l.modify m (g i)) l =
      l.modify m fun b => is.foldl (fun b i => g i b) b := by
  induction is generalizing l with
  | nil => exact (List.modify_id m l).symm
  | cons i is ih =>
    rw [List.foldl_cons, ih, List.modify_modify_eq]
    rfl

theorem getElem?_foldl_modify (g : Nat → α → α) (l : List α) (k i : Nat) :
    ((List.range k).foldl (fun l m => l.modify m (g m)) l)[i]? =
      if i < k then l[i]?.map (g i) else l[i]? := by
  induction k with
  | zero => simp
  | succ k ih =>
    rw [List.range_succ, List.foldl_append, List.foldl_cons, List.foldl_nil,
      List.getElem?_modify, ih]
    by_cases hik : k = i
    · subst hik
      simp
    · have hlt : i < k ↔ i < k + 1 := by omega
      simp [hik, hlt]

/-- `n` words that are filled up. -/
theorem foldl_pack (bit : Nat → Bool) (n : Nat) :
    (List.range (n * w)).foldl (fun l j => l.modify (j / w) (shiftIn · (bit j)))
        (List.replicate n (0 : BitVec w)) =
      (List.range n).map fun m => wordOf w fun i => bit (m * w + i) := by
  have hword : ∀ (l : List (BitVec w)) (m : Nat),
      (List.range w).foldl
          (fun l t => l.modify ((m * w + t) / w) (shiftIn · (bit (m * w + t)))) l =
        l.modify m fun b => (List.range w).foldl (fun b t => shiftIn b (bit (m * w + t))) b := by
    intro l m
    rw [← foldl_modify_same]
    apply List.foldl_ext
    intro l t ht
    have ht : t < w := List.mem_range.mp ht
    rw [Nat.mul_comm, Nat.mul_add_div (by omega), Nat.div_eq_of_lt ht, Nat.add_zero]
  rw [← foldl_range_mul]
  simp only [hword]
  apply List.ext_getElem?
  intro i
  rw [getElem?_foldl_modify]
  by_cases hi : i < n
  · rw [if_pos hi, List.getElem?_replicate_of_lt hi, Option.map_some, foldl_shiftIn]
    simp [hi]
  · simp [hi]

end SaneBackends.BitPacking
