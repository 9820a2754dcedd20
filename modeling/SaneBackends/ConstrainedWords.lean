import SaneBackends.ConstraintSound

/-!
# Constraining words of any size

The arithmetic of `sanei_constrain_value` for all words, also when a difference or a sum does
not fit in a `SANE_Word`: what becomes of an element of a range, and which word of a list is
taken.
-/

namespace SaneBackends

open FaultState GridRounding SignedWords

/-! ### Ranges -/

/-- A range that is not empty, with steps that are not negative. -/
structure RangeProper (r : SaneRange) : Prop where
  min_le : r.min.toInt ≤ r.max.toInt
  quant : 0 ≤ r.quant.toInt

/-- The number between the ends of the range. -/
def clampInt (r : SaneRange) (x : Int) : Int := min (max x r.min.toInt) r.max.toInt

/-- The sum that is divided. -/
def roundOffset (r : SaneRange) (x : Int) : Int := x - r.min.toInt + r.quant.toInt / 2

variable {r : SaneRange} {a b : SaneWord}

theorem RangeProper.clamped_toInt (hr : RangeProper r) (a : SaneWord) :
    (clamped r a).toInt = clampInt r a.toInt :=
  SaneBackends.clamped_toInt hr.min_le a

theorem RangeProper.clampInt_mem (hr : RangeProper r) (x : Int) :
    r.min.toInt ≤ clampInt r x ∧ clampInt r x ≤ r.max.toInt := by
  have hle := hr.min_le
  rw [clampInt]
  omega

theorem RangeProper.quant_pos (hr : RangeProper r) (hq : r.quant ≠ 0) : 0 < r.quant.toInt := by
  have hne := mt quant_eq_zero.mpr hq
  have hnonneg := hr.quant
  omega

/-- Rounding with words: the sum is taken without its sign and may lose its highest bit. -/
theorem quantize_wrap (hq : 0 < r.quant.toInt) (hb : r.min.toInt ≤ b.toInt) :
    (quantize r b).toInt = (r.min.toInt +
      roundOffset r b.toInt % 2 ^ 32 / r.quant.toInt * r.quant.toInt).bmod (2 ^ 32) := by
  have htwo : (2 : SaneWord).toInt = 2 := by decide
  have hhalf := toInt_sdiv_of_pos (v := 2) (Int.le_of_lt hq) (by omega)
  rw [htwo] at hhalf
  have hdiff := toNat_sub_of_le hb
  have hhalfNat : ((r.quant.sdiv 2).toNat : Int) = r.quant.toInt / 2 := by
    have hpos : ¬ (r.quant.sdiv 2).toInt < 0 := by omega
    have := (toNat_of_nonneg hpos).1
    omega
  have hquantNat : (r.quant.toNat : Int) = r.quant.toInt := by
    have hpos : ¬ r.quant.toInt < 0 := by omega
    have := (toNat_of_nonneg hpos).1
    omega
  have hsum : ((b - r.min + r.quant.sdiv 2).toNat : Int) = roundOffset r b.toInt % 2 ^ 32 := by
    rw [BitVec.toNat_add, roundOffset, Int.natCast_mod, Int.natCast_add, hdiff, hhalfNat]
    rfl
  have hquot : (((b - r.min + r.quant.sdiv 2) / r.quant).toNat : Int) =
      roundOffset r b.toInt % 2 ^ 32 / r.quant.toInt := by
    rw [BitVec.toNat_udiv, Int.natCast_ediv, hsum, hquantNat]
  have hle : roundOffset r b.toInt % 2 ^ 32 / r.quant.toInt * r.quant.toInt ≤
      roundOffset r b.toInt % 2 ^ 32 := Int.ediv_mul_le _ (by omega)
  have hprod : ((((b - r.min + r.quant.sdiv 2) / r.quant) * r.quant).toNat : Int) =
      roundOffset r b.toInt % 2 ^ 32 / r.quant.toInt * r.quant.toInt := by
    rw [BitVec.toNat_mul, Int.natCast_mod, Int.natCast_mul, hquot, hquantNat]
    exact Int.emod_eq_of_lt (Int.mul_nonneg (Int.ediv_nonneg (by omega) (by omega)) (by omega))
      (by omega)
  have hword : (((b - r.min + r.quant.sdiv 2) / r.quant) * r.quant).toInt =
      (roundOffset r b.toInt % 2 ^ 32 / r.quant.toInt * r.quant.toInt).bmod (2 ^ 32) := by
    rw [BitVec.toInt_eq_toNat_bmod, hprod]
  rw [quantize, BitVec.toInt_add, hword, Int.bmod_add_bmod, Int.add_comm]

theorem roundOffset_nonneg (hr : RangeProper r) (x : Int) : 0 ≤ roundOffset r (clampInt r x) := by
  have hmem := hr.clampInt_mem x
  have hquant := hr.quant
  rw [roundOffset]
  omega

theorem constrained_quant_zero (hr : RangeProper r) (hq : r.quant = 0) (a : SaneWord) :
    (constrained r a).toInt = clampInt r a.toInt := by
  rw [constrained_eq, if_pos hq, hr.clamped_toInt]

/-- The sum loses its highest bit: the element becomes the least one. -/
theorem constrained_of_carry (hr : RangeProper r) (hq : r.quant ≠ 0)
    (h : 2 ^ 32 ≤ roundOffset r (clampInt r a.toInt)) : constrained r a = r.min := by
  have hpos := hr.quant_pos hq
  have hmem := hr.clampInt_mem a.toInt
  have hmin := toInt_bounds r.min
  have hmax := toInt_bounds r.max
  have hquant := toInt_bounds r.quant
  apply BitVec.eq_of_toInt_eq
  rw [constrained_eq, if_neg hq, quantize_wrap hpos (by rw [hr.clamped_toInt]; exact hmem.1),
    hr.clamped_toInt]
  have hsmall : roundOffset r (clampInt r a.toInt) % 2 ^ 32 < r.quant.toInt := by
    rw [roundOffset] at h ⊢
    omega
  rw [Int.ediv_eq_zero_of_lt (Int.emod_nonneg _ (by decide)) hsmall, Int.zero_mul, Int.add_zero]
  exact bmod_of_fits hmin.1 hmin.2

/-- Otherwise it is rounded to the grid. -/
theorem constrained_of_no_carry (hr : RangeProper r) (hq : r.quant ≠ 0)
    (h : roundOffset r (clampInt r a.toInt) < 2 ^ 32) :
    (constrained r a).toInt =
      (roundGrid r.min.toInt r.quant.toInt (clampInt r a.toInt)).bmod (2 ^ 32) := by
  have hpos := hr.quant_pos hq
  have hmem := hr.clampInt_mem a.toInt
  have hsame : roundOffset r (clampInt r a.toInt) % 2 ^ 32 =
      roundOffset r (clampInt r a.toInt) :=
    Int.emod_eq_of_lt (roundOffset_nonneg hr _) h
  rw [constrained_eq, if_neg hq, quantize_wrap hpos (by rw [hr.clamped_toInt]; exact hmem.1),
    hr.clamped_toInt, hsame]
  rfl

/-- How far rounding goes. -/
theorem roundGrid_bounds (hr : RangeProper r) (hq : r.quant ≠ 0) (x : Int) :
    r.min.toInt ≤ roundGrid r.min.toInt r.quant.toInt (clampInt r x) ∧
      roundGrid r.min.toInt r.quant.toInt (clampInt r x) ≤
        r.min.toInt + roundOffset r (clampInt r x) := by
  have hpos := hr.quant_pos hq
  have hmem := hr.clampInt_mem x
  refine ⟨le_roundGrid hpos hmem.1, ?_⟩
  have hle : roundGrid r.min.toInt r.quant.toInt (clampInt r x) ≤
      clampInt r x + r.quant.toInt / 2 := roundGrid_le_add hpos
  rw [roundOffset]
  omega

/-- If the point fits in a word the element becomes that point. -/
theorem constrained_of_fits (hr : RangeProper r) (hq : r.quant ≠ 0)
    (h : roundOffset r (clampInt r a.toInt) < 2 ^ 32)
    (hfits : roundGrid r.min.toInt r.quant.toInt (clampInt r a.toInt) < 2 ^ 31) :
    (constrained r a).toInt = roundGrid r.min.toInt r.quant.toInt (clampInt r a.toInt) := by
  have hbounds := roundGrid_bounds hr hq a.toInt
  have hmin := toInt_bounds r.min
  rw [constrained_of_no_carry hr hq h, bmod_of_fits (by omega) hfits]

/-- If it does not fit the element becomes less than the least one. -/
theorem constrained_of_not_fits (hr : RangeProper r) (hq : r.quant ≠ 0)
    (h : roundOffset r (clampInt r a.toInt) < 2 ^ 32)
    (hfits : 2 ^ 31 ≤ roundGrid r.min.toInt r.quant.toInt (clampInt r a.toInt)) :
    (constrained r a).toInt < r.min.toInt := by
  have hbounds := roundGrid_bounds hr hq a.toInt
  have hmin := toInt_bounds r.min
  rw [constrained_of_no_carry hr hq h, bmod_of_above hfits (by omega)]
  omega

/-! ### Proper constraints -/

/-- The constraint can be met, and the size of a value that is checked word by word holds a
    word.  Nothing is said of sums that overflow. -/
structure SaneOptionDescriptor.ConstraintProper (d : SaneOptionDescriptor) : Prop where
  range : d.constraintType = SANE_CONSTRAINT_RANGE → ∃ r, d.constraint = .range r ∧ RangeProper r
  wordList : d.constraintType = SANE_CONSTRAINT_WORD_LIST →
    ∃ n ws, d.constraint = .wordList (n :: ws) ∧ n.toInt = ws.length ∧ ws ≠ []
  stringList : d.constraintType = SANE_CONSTRAINT_STRING_LIST →
    ∃ blocks, d.constraint = .stringList (stringBlocks blocks) ∧ blocks ≠ [] ∧
      ∀ s ∈ blocks, 0 ∈ s
  size : d.constraintType = SANE_CONSTRAINT_RANGE ∨
    d.constraintType = SANE_CONSTRAINT_NONE ∧ d.type = SANE_TYPE_BOOL →
    0 < d.size.toInt → 4 ≤ d.size.toInt

theorem SaneOptionDescriptor.ConstraintProper.elementCount_pos {d : SaneOptionDescriptor}
    (h : d.ConstraintProper) (htype : d.constraintType = SANE_CONSTRAINT_RANGE ∨
      d.constraintType = SANE_CONSTRAINT_NONE ∧ d.type = SANE_TYPE_BOOL) :
    0 < elementCount d.size := by
  unfold elementCount
  split_ifs with hpos
  · have hsize := h.size htype hpos
    have hnat := toNat_of_nonneg (k := d.size) (by omega)
    omega
  · exact Nat.one_pos

/-! ### Word lists -/

/-- The difference by which `sanei_constrain_value` compares words. -/
def wordDistance (w x : SaneWord) : Int := (w - x).abs.toInt

/-- It is the distance of the two numbers if that is less than `2 ^ 31`. -/
theorem wordDistance_near {w x : SaneWord} (h : (w.toInt - x.toInt).natAbs < 2 ^ 31) :
    wordDistance w x = (w.toInt - x.toInt).natAbs := by
  rw [wordDistance, toInt_abs, toInt_sub_wrap, bmod_of_fits (by omega) (by omega)]
  rw [if_neg (by omega)]

theorem wordDistance_far {w x : SaneWord} (h : 2 ^ 31 < (w.toInt - x.toInt).natAbs) :
    wordDistance w x = 2 ^ 32 - (w.toInt - x.toInt).natAbs := by
  have hw := toInt_bounds w
  have hx := toInt_bounds x
  rw [wordDistance, toInt_abs, toInt_sub_wrap]
  rcases Int.lt_or_le (w.toInt - x.toInt) 0 with hneg | hpos
  · rw [bmod_of_below (by omega) (by omega), if_neg (by omega)]
    omega
  · rw [bmod_of_above (by omega) (by omega), if_neg (by omega)]
    omega

/-- Words that are `2 ^ 31` apart have the least difference of all. -/
theorem wordDistance_opposite {w x : SaneWord} (h : (w.toInt - x.toInt).natAbs = 2 ^ 31) :
    wordDistance w x = -2 ^ 31 := by
  rw [wordDistance, toInt_abs, toInt_sub_wrap]
  rcases Int.lt_or_le (w.toInt - x.toInt) 0 with hneg | hpos
  · rw [bmod_of_fits (by omega) (by omega), if_pos (by omega)]
  · rw [bmod_of_above (by omega) (by omega), if_pos (by omega)]

/-- The word at `k` is the first one with the least difference among those in front of `i`. -/
def FirstLeast (ws : List SaneWord) (w : SaneWord) (i k : Nat) (y : SaneWord) : Prop :=
  ws[k]? = some y ∧ ∀ j z, 1 ≤ j → j < i → ws[j]? = some z →
    wordDistance w y ≤ wordDistance w z ∧ (j < k → wordDistance w y < wordDistance w z)

theorem nearestWord_first {ws : List SaneWord} {w y : SaneWord} {n i k k' : Nat}
    (hk : k ≤ i) (hfirst : FirstLeast ws w i k y)
    (h : nearestWord ws w n i k (w - y).abs = .ok k') :
    ∃ y', FirstLeast ws w (i + n) k' y' := by
  induction n generalizing i k y with
  | zero =>
    cases h
    exact ⟨y, hfirst⟩
  | succ n ih =>
    obtain ⟨x, hx, h⟩ := bind_eq_ok.mp h
    have hx := wordIn_eq_ok.mp hx
    obtain ⟨hy, hleast⟩ := hfirst
    have hcount : i + (n + 1) = i + 1 + n := by omega
    rw [hcount]
    dsimp only at h
    split_ifs at h with hlt
    · rw [BitVec.slt_iff_toInt_lt] at hlt
      refine ih (Nat.le_succ i) ⟨hx, fun j z hj hji hz => ?_⟩ h
      rcases Nat.lt_or_ge j i with hlt' | hge
      · have hz := (hleast j z hj hlt' hz).1
        exact ⟨Int.le_of_lt (Int.lt_of_lt_of_le hlt hz), fun _ => Int.lt_of_lt_of_le hlt hz⟩
      · obtain rfl : j = i := by omega
        rw [hx] at hz
        cases hz
        exact ⟨Int.le_refl _, fun hno => absurd hno (Nat.lt_irrefl _)⟩
    · rw [BitVec.slt_iff_toInt_lt, Int.not_lt] at hlt
      refine ih (Nat.le_succ_of_le hk) ⟨hy, fun j z hj hji hz => ?_⟩ h
      rcases Nat.lt_or_ge j i with hlt' | hge
      · exact hleast j z hj hlt' hz
      · obtain rfl : j = i := by omega
        rw [hx] at hz
        cases hz
        exact ⟨hlt, fun hno => absurd hno (by omega)⟩

/-- The search ends if all the words are there. -/
theorem nearestWord_ok {ws : List SaneWord} {w v : SaneWord} {n i k : Nat}
    (hlen : i + n ≤ ws.length) : ∃ k', nearestWord ws w n i k v = .ok k' := by
  induction n generalizing i k v with
  | zero => exact ⟨k, rfl⟩
  | succ n ih =>
    have hx : wordIn ws i = .ok ws[i] := wordIn_eq_ok.mpr (List.getElem?_eq_getElem _)
    rw [nearestWord, hx]
    change ∃ k', (if (w - ws[i]).abs.slt v then nearestWord ws w n (i + 1) i (w - ws[i]).abs
      else nearestWord ws w n (i + 1) k v) = .ok k'
    split_ifs
    · exact ih (by omega)
    · exact ih (by omega)

/-- The word that the search takes: the first one with the least difference. -/
def Taken (ws : List SaneWord) (w : SaneWord) (k : Nat) (y : SaneWord) : Prop :=
  ws[k]? = some y ∧ ∀ (j : Nat) z, ws[j]? = some z →
    wordDistance w y ≤ wordDistance w z ∧ (j < k → wordDistance w y < wordDistance w z)

theorem FirstLeast.taken {n : SaneWord} {ws : List SaneWord} {w y : SaneWord} {k : Nat}
    (h : FirstLeast (n :: ws) w (ws.length + 1) (k + 1) y) : Taken ws w k y := by
  obtain ⟨hy, hleast⟩ := h
  refine ⟨hy, fun j z hz => ?_⟩
  have hj : j < ws.length := (List.getElem?_eq_some_iff.mp hz).1
  obtain ⟨hle, hlt⟩ := hleast (j + 1) z (by omega) (by omega) hz
  exact ⟨hle, fun hjk => hlt (by omega)⟩

/-! ### Values -/

theorem storeWord_ok {value : List SaneByte} {i : Nat} (h : 4 * i + 4 ≤ value.length)
    (v : SaneWord) : ∃ value', storeWord value i v = .ok value' := ⟨_, if_pos h⟩

/-- All the elements are constrained if they are in the buffer. -/
theorem constrainElements_ok {range : Ptr SaneRange} {r : SaneRange}
    (hr : followPtr range = .ok r) {n i : Nat} {value : List SaneByte}
    (hlen : 0 < n → 4 * (i + n) ≤ value.length) (info : Option SaneWord) :
    ∃ value' info', constrainElements range n i value info = .ok (value', info') := by
  induction n generalizing i value info with
  | zero => exact ⟨value, info, rfl⟩
  | succ n ih =>
    have hlen := hlen (Nat.succ_pos n)
    have hfit : 4 * i + 4 ≤ value.length := by omega
    obtain ⟨a, ha⟩ := loadWord_ok hfit
    obtain ⟨stored, hstored⟩ := storeWord_ok hfit (constrainElement r a info).1
    have hlength := length_storeWord hstored
    have hrest : 0 < n → 4 * (i + 1 + n) ≤ stored.length := fun _ => by omega
    obtain ⟨value', info', hrun⟩ := ih hrest (constrainElement r a info).2
    exact ⟨value', info', bind_eq_ok.mpr ⟨a, ha, bind_eq_ok.mpr ⟨r, hr,
      bind_eq_ok.mpr ⟨stored, hstored, hrun⟩⟩⟩⟩

/-- What the word list case does: it stores the word that is taken, unless it is there already. -/
theorem constrainWord_run {opt : SaneOptionDescriptor} {n w : SaneWord} {ws : List SaneWord}
    {value : List SaneByte} (htype : opt.constraintType = SANE_CONSTRAINT_WORD_LIST)
    (hws : opt.constraint = .wordList (n :: ws)) (hn : n.toInt = ws.length) (hne : ws ≠ [])
    (hw : loadWord value 0 = .ok w) (info : Option SaneWord) :
    ∃ k y, Taken ws w k y ∧
      (w = y ∧ saneiConstrainValue opt value info = .ok (.good, value, info) ∨
        w ≠ y ∧ ∃ value', storeWord value 0 y = .ok value' ∧
          saneiConstrainValue opt value info = .ok (.good, value', inexact info)) := by
  have hrange : opt.constraintType ≠ SANE_CONSTRAINT_RANGE := by rw [htype]; decide
  obtain ⟨first, rest, rfl⟩ := List.exists_cons_of_ne_nil hne
  have hfirst : wordIn (n :: first :: rest) 1 = .ok first := rfl
  have hcount : wordIn (n :: first :: rest) 0 = .ok n := rfl
  have hlen : 1 + n.toInt.toNat ≤ (n :: first :: rest).length := by
    simp only [List.length_cons] at hn ⊢
    omega
  obtain ⟨k', hk'⟩ := @nearestWord_ok _ w (w - first).abs _ _ 1 hlen
  have hstart : FirstLeast (n :: first :: rest) w 1 1 first :=
    ⟨rfl, fun j z h₁ h₂ => absurd h₂ (by omega)⟩
  obtain ⟨y, hleast⟩ := nearestWord_first (Nat.le_refl 1) hstart hk'
  have hone : 1 ≤ k' := by rcases nearestWord_spec hk' with rfl | ⟨h, -⟩ <;> omega
  obtain ⟨k, rfl⟩ : ∃ k, k' = k + 1 := ⟨k' - 1, by omega⟩
  have hend : 1 + n.toInt.toNat = (first :: rest).length + 1 := by omega
  rw [hend] at hleast
  have hy : wordIn (n :: first :: rest) (k + 1) = .ok y := wordIn_eq_ok.mpr hleast.1
  have hrun : saneiConstrainValue opt value info =
      if w ≠ y then (do return (.good, ← storeWord value 0 y, inexact info))
      else .ok (.good, value, info) := by
    rw [saneiConstrainValue, if_neg hrange, if_pos htype, hw, hws]
    simp only [bind, Except.bind, SaneConstraint.asWordList, followPtr, hfirst, hcount, hk', hy]
    rfl
  refine ⟨k, y, hleast.taken, ?_⟩
  by_cases heq : w = y
  · exact .inl ⟨heq, by rw [hrun, if_neg (not_not.mpr heq)]⟩
  · obtain ⟨value', hstored⟩ := storeWord_ok (loadWord_eq_ok hw) y
    refine .inr ⟨heq, value', hstored, ?_⟩
    rw [hrun, if_pos heq, hstored]
    rfl

end SaneBackends
