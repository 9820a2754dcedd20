import Mathlib.Data.BitVec

/-!
# Common prefixes of bit strings

Two words agree in their first `n` bits exactly when they are equal under the mask of these
bits.  For strings of bytes the mask is one of bytes: as many full ones as fit, then one with the
bits that are left, then empty ones.
-/

namespace SaneBackends.BitPrefixes

variable {w : Nat}

/-- The word whose first `n` bits are set. -/
def prefixMask (w n : Nat) : BitVec w := ~~~(BitVec.allOnes w >>> n)

theorem getMsbD_prefixMask {n i : Nat} (hi : i < w) :
    (prefixMask w n).getMsbD i = decide (i < n) := by
  rw [prefixMask, BitVec.getMsbD_not, BitVec.getMsbD_ushiftRight]
  by_cases hn : i < n
  · simp [hi, hn]
  · have hlt : i - n < w := by omega
    simp [hi, hn, hlt, BitVec.getMsbD_eq_getLsbD, BitVec.getLsbD_allOnes]
    omega

/-- The first `n` bits are the same. -/
def SamePrefix (n : Nat) (a b : BitVec w) : Prop := ∀ i < n, a.getMsbD i = b.getMsbD i

instance (n : Nat) (a b : BitVec w) : Decidable (SamePrefix n a b) :=
  inferInstanceAs (Decidable (∀ i < n, _))

theorem and_prefixMask_eq_iff {n : Nat} {a b : BitVec w} :
    a &&& prefixMask w n = b &&& prefixMask w n ↔ SamePrefix n a b := by
  constructor
  · intro h i hn
    by_cases hi : i < w
    · have hbit := congrArg (fun c => c.getMsbD i) h
      simpa [BitVec.getMsbD_and, getMsbD_prefixMask hi, hn] using hbit
    · rw [BitVec.getMsbD_of_ge _ _ (by omega), BitVec.getMsbD_of_ge _ _ (by omega)]
  · intro h
    apply BitVec.eq_of_getMsbD_eq
    intro i hi
    rw [BitVec.getMsbD_and, BitVec.getMsbD_and, getMsbD_prefixMask hi]
    by_cases hn : i < n
    · rw [h i hn]
    · simp [hn]

/-! ### Bytes -/

/-- Bit `i` of a string of bytes, most significant bits first. -/
def bitAt (bs : List (BitVec 8)) (i : Nat) : Bool := (bs.getD (i / 8) 0).getMsbD (i % 8)

/-- The first `n` bits are the same. -/
def SameBits (n : Nat) (as bs : List (BitVec 8)) : Prop := ∀ i < n, bitAt as i = bitAt bs i

instance (n : Nat) (as bs : List (BitVec 8)) : Decidable (SameBits n as bs) :=
  inferInstanceAs (Decidable (∀ i < n, _))

/-- The bits can be compared byte by byte. -/
theorem sameBits_iff {n : Nat} {as bs : List (BitVec 8)} :
    SameBits n as bs ↔ ∀ k, SamePrefix (n - 8 * k) (as.getD k 0) (bs.getD k 0) := by
  constructor
  · intro h k i hi
    by_cases hlt : i < 8
    · have hbit := h (8 * k + i) (by omega)
      have hdiv : (8 * k + i) / 8 = k := by omega
      have hmod : (8 * k + i) % 8 = i := by omega
      rwa [bitAt, bitAt, hdiv, hmod] at hbit
    · rw [BitVec.getMsbD_of_ge _ _ (by omega), BitVec.getMsbD_of_ge _ _ (by omega)]
  · intro h i hi
    exact h (i / 8) (i % 8) (by omega)

end SaneBackends.BitPrefixes
