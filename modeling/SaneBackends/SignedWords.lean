import Mathlib.Data.BitVec

/-!
# Words as signed integers

The arithmetic of 32-bit words is that of the integers as long as the results fit.
-/

namespace SaneBackends.SignedWords

theorem ofNat_of_lt {n : Nat} (h : n < 2 ^ 31) :
    (BitVec.ofNat 32 n).toNat = n ∧ (BitVec.ofNat 32 n).toInt = n := by
  have hnat : (BitVec.ofNat 32 n).toNat = n := by
    rw [BitVec.toNat_ofNat]
    omega
  exact ⟨hnat, by rw [BitVec.toInt_eq_toNat_of_lt (by omega), hnat]⟩

/-- A word that is not negative is the same number in both readings. -/
theorem toNat_of_nonneg {k : BitVec 32} (h : ¬ k.toInt < 0) :
    k.toInt.toNat = k.toNat ∧ BitVec.ofNat 32 k.toInt.toNat = k := by
  have hlt : 2 * k.toNat < 2 ^ 32 := by
    by_contra hge
    rw [BitVec.toInt_eq_toNat_cond, if_neg hge] at h
    omega
  have hnat : k.toInt.toNat = k.toNat := by rw [BitVec.toInt_eq_toNat_of_lt hlt, Int.toNat_natCast]
  exact ⟨hnat, by rw [hnat, BitVec.ofNat_toNat, BitVec.setWidth_eq]⟩

theorem toInt_bounds (v : BitVec 32) : -2 ^ 31 ≤ v.toInt ∧ v.toInt < 2 ^ 31 := by
  have h₁ := BitVec.le_toInt v
  have h₂ := BitVec.toInt_lt (x := v)
  simp only [Nat.add_one_sub_one] at h₁ h₂
  exact ⟨h₁, h₂⟩

theorem toInt_add_of_fits {u v : BitVec 32} (h₁ : -2 ^ 31 ≤ u.toInt + v.toInt)
    (h₂ : u.toInt + v.toInt < 2 ^ 31) : (u + v).toInt = u.toInt + v.toInt := by
  apply BitVec.toInt_add_of_not_saddOverflow
  simp only [BitVec.saddOverflow, Nat.add_one_sub_one, ge_iff_le, Bool.or_eq_true,
    decide_eq_true_eq]
  omega

theorem toInt_sub_of_fits {u v : BitVec 32} (h₁ : -2 ^ 31 ≤ u.toInt - v.toInt)
    (h₂ : u.toInt - v.toInt < 2 ^ 31) : (u - v).toInt = u.toInt - v.toInt := by
  apply BitVec.toInt_sub_of_not_ssubOverflow
  simp only [BitVec.ssubOverflow, Nat.add_one_sub_one, ge_iff_le, Bool.or_eq_true,
    decide_eq_true_eq]
  omega

theorem toInt_mul_of_fits {u v : BitVec 32} (h₁ : -2 ^ 31 ≤ u.toInt * v.toInt)
    (h₂ : u.toInt * v.toInt < 2 ^ 31) : (u * v).toInt = u.toInt * v.toInt := by
  apply BitVec.toInt_mul_of_not_smulOverflow
  simp only [BitVec.smulOverflow, Nat.add_one_sub_one, ge_iff_le, Bool.or_eq_true,
    decide_eq_true_eq]
  omega

theorem toInt_sdiv_of_pos {u v : BitVec 32} (hu : 0 ≤ u.toInt) (hv : 0 < v.toInt) :
    (u.sdiv v).toInt = u.toInt / v.toInt := by
  have hne : v ≠ -1#32 := by
    rintro rfl
    exact absurd hv (by decide)
  rw [BitVec.toInt_sdiv_of_ne_or_ne u v (.inr hne), Int.tdiv_eq_ediv_of_nonneg hu]

/-- Unsigned division of words that are not negative. -/
theorem toInt_div {u v : BitVec 32} (hu : 0 ≤ u.toInt) (hv : 0 ≤ v.toInt) :
    (u / v).toInt = u.toInt / v.toInt := by
  have hnat : ∀ {x : BitVec 32}, 0 ≤ x.toInt → x.toInt = x.toNat := by
    intro x hx
    have := toNat_of_nonneg (k := x) (by omega)
    omega
  have hmsb : u.msb = false := by
    rw [BitVec.msb_eq_toInt]
    simpa using hu
  rw [BitVec.toInt_udiv_of_msb hmsb, hnat hu, hnat hv]

/-! ### Results that do not fit -/

/-- A number that fits in a word. -/
theorem bmod_of_fits {x : Int} (h₁ : -2 ^ 31 ≤ x) (h₂ : x < 2 ^ 31) : x.bmod (2 ^ 32) = x := by
  rw [Int.bmod_eq_emod]
  split <;> omega

/-- One that is too large. -/
theorem bmod_of_above {x : Int} (h₁ : 2 ^ 31 ≤ x) (h₂ : x < 2 ^ 31 + 2 ^ 32) :
    x.bmod (2 ^ 32) = x - 2 ^ 32 := by
  rw [Int.bmod_eq_emod]
  split <;> omega

/-- One that is too small. -/
theorem bmod_of_below {x : Int} (h₁ : -2 ^ 31 - 2 ^ 32 ≤ x) (h₂ : x < -2 ^ 31) :
    x.bmod (2 ^ 32) = x + 2 ^ 32 := by
  rw [Int.bmod_eq_emod]
  split <;> omega

theorem toInt_sub_wrap (u v : BitVec 32) : (u - v).toInt = (u.toInt - v.toInt).bmod (2 ^ 32) :=
  BitVec.toInt_sub ..

/-- The difference to a smaller word, read without its sign. -/
theorem toNat_sub_of_le {u v : BitVec 32} (h : v.toInt ≤ u.toInt) :
    ((u - v).toNat : Int) = u.toInt - v.toInt := by
  have hu := u.isLt
  have hv := v.isLt
  rw [BitVec.toInt_eq_toNat_cond, BitVec.toInt_eq_toNat_cond] at h ⊢
  rw [BitVec.toNat_sub]
  split at h <;> split at h <;> simp_all <;> omega

/-- `abs` of the least word is that word. -/
theorem toInt_abs (v : BitVec 32) :
    v.abs.toInt = if v.toInt = -2 ^ 31 then -2 ^ 31 else (v.toInt.natAbs : Int) := by
  have hmin : (BitVec.intMin 32).toInt = -2 ^ 31 := by decide
  have hiff : v = BitVec.intMin 32 ↔ v.toInt = -2 ^ 31 := by
    rw [← hmin, BitVec.toInt_inj]
  rw [BitVec.toInt_abs_eq_natAbs, hmin]
  simp only [hiff]

end SaneBackends.SignedWords
