import Mathlib.Data.Int.Log
import Mathlib.Data.Rat.Floor
import Mathlib.Tactic.FieldSimp
import Mathlib.Tactic.Linarith
import Mathlib.Tactic.Positivity
import Mathlib.Tactic.Ring

/-!
# Rounding to double precision

An operation of `double` rounds its exact result to 53 significant bits, halves to the even
neighbour.  The exponents are not bounded here: the numbers that are rounded are far from the
ends of the range.
-/

namespace SaneBackends.DoubleRounding

/-- The nearest integer; a half goes to the even neighbour. -/
def nearestEven (x : ℚ) : Int :=
  if x - ⌊x⌋ < 1 / 2 then ⌊x⌋
  else if 1 / 2 < x - ⌊x⌋ then ⌊x⌋ + 1
  else if ⌊x⌋ % 2 = 0 then ⌊x⌋ else ⌊x⌋ + 1

/-- The weight of the last of the 53 bits of a positive number. -/
def lastBit (x : ℚ) : ℚ := 2 ^ (Int.log 2 x - 52)

def roundDouble (x : ℚ) : ℚ := nearestEven (x / lastBit x) * lastBit x

variable {x : ℚ}

theorem abs_nearestEven_sub_le (x : ℚ) : |(nearestEven x : ℚ) - x| ≤ 1 / 2 := by
  have hlow := Int.floor_le x
  have hhigh := Int.lt_floor_add_one x
  rw [abs_le, nearestEven]
  split_ifs with hless hmore heven
  · constructor <;> linarith
  · rw [Int.cast_add, Int.cast_one]
    constructor <;> linarith
  · constructor <;> linarith
  · rw [Int.cast_add, Int.cast_one]
    constructor <;> linarith

theorem nearestEven_intCast (n : Int) : nearestEven (n : ℚ) = n := by
  rw [nearestEven, Int.floor_intCast, sub_self, if_pos (by norm_num)]

theorem lastBit_pos (x : ℚ) : 0 < lastBit x := zpow_pos (by norm_num) _

theorem lastBit_le (hx : 0 < x) : lastBit x ≤ x / 2 ^ 52 := by
  have hlog : ((2 : Nat) : ℚ) ^ Int.log 2 x ≤ x := Int.zpow_log_le_self (by decide) hx
  rw [lastBit, zpow_sub₀ (by norm_num)]
  exact div_le_div_of_nonneg_right hlog (by positivity)

/-- The error is half of the last bit. -/
theorem abs_roundDouble_sub_le (hx : 0 < x) : |roundDouble x - x| ≤ x / 2 ^ 53 := by
  have hbit := lastBit_pos x
  have herror := abs_nearestEven_sub_le (x / lastBit x)
  have hsplit : roundDouble x - x = (nearestEven (x / lastBit x) - x / lastBit x) * lastBit x := by
    rw [roundDouble, sub_mul, div_mul_cancel₀ x hbit.ne']
  have hle := lastBit_le hx
  calc |roundDouble x - x|
      = |nearestEven (x / lastBit x) - x / lastBit x| * lastBit x := by
        rw [hsplit, abs_mul, abs_of_pos hbit]
    _ ≤ 1 / 2 * (x / 2 ^ 52) := mul_le_mul herror hle hbit.le (by norm_num)
    _ = x / 2 ^ 53 := by ring

theorem roundDouble_le (hx : 0 < x) : roundDouble x ≤ x * (1 + 1 / 2 ^ 53) := by
  have h := (abs_le.mp (abs_roundDouble_sub_le hx)).2
  linarith

theorem le_roundDouble (hx : 0 < x) : x * (1 - 1 / 2 ^ 53) ≤ roundDouble x := by
  have h := (abs_le.mp (abs_roundDouble_sub_le hx)).1
  linarith

theorem roundDouble_pos (hx : 0 < x) : 0 < roundDouble x :=
  lt_of_lt_of_le (mul_pos hx (by norm_num)) (le_roundDouble hx)

/-- A natural number of at most 53 bits is not changed. -/
theorem roundDouble_natCast {n : Nat} (hpos : 0 < n) (hlt : n < 2 ^ 53) :
    roundDouble (n : ℚ) = n := by
  have hlog : Nat.log 2 n < 53 := Nat.log_lt_of_lt_pow hpos.ne' hlt
  obtain ⟨k, hk⟩ : ∃ k, 52 = Nat.log 2 n + k := ⟨52 - Nat.log 2 n, by omega⟩
  have hexp : (Nat.log 2 n : Int) - 52 = -(k : Int) := by omega
  have hbit : lastBit (n : ℚ) = (2 ^ k)⁻¹ := by
    rw [lastBit, Int.log_natCast, hexp, zpow_neg, zpow_natCast]
  have hquot : (n : ℚ) / lastBit n = ((n * 2 ^ k : Nat) : Int) := by
    rw [hbit, div_inv_eq_mul]
    push_cast
    rfl
  rw [roundDouble, hquot, nearestEven_intCast, ← hquot, div_mul_cancel₀ _ (lastBit_pos _).ne']

theorem roundDouble_one : roundDouble 1 = 1 := by
  simpa using roundDouble_natCast Nat.one_pos (by norm_num)

/-! ### The reciprocal of a quotient -/

/-- `(int)(1.0 / ((double)a / (double)b) * k)`. -/
def scaledReciprocal (a b k : Nat) : Nat :=
  ⌊roundDouble (roundDouble (1 / roundDouble ((a : ℚ) / b)) * k)⌋₊

theorem scaledReciprocal_self {a k : Nat} (ha : 0 < a) (hk : 0 < k) (hlt : k < 2 ^ 53) :
    scaledReciprocal a a k = k := by
  have hne : (a : ℚ) ≠ 0 := by positivity
  rw [scaledReciprocal, div_self hne, roundDouble_one, div_one, roundDouble_one, one_mul,
    roundDouble_natCast hk hlt, Nat.floor_natCast]

/-- The reciprocal of a rounded quotient, up to the errors of three operations. -/
theorem roundDouble_reciprocal_le {q : ℚ} (hq : 0 < q) :
    roundDouble (1 / roundDouble q) ≤ q⁻¹ * (1 + 1 / 2 ^ 51) := by
  have hpos : 0 < roundDouble q := roundDouble_pos hq
  have hinv : 1 / roundDouble q ≤ q⁻¹ * (1 + 1 / 2 ^ 52) := by
    have hstep : q⁻¹ * (1 + 1 / 2 ^ 52) * (q * (1 - 1 / 2 ^ 53))
        ≤ q⁻¹ * (1 + 1 / 2 ^ 52) * roundDouble q :=
      mul_le_mul_of_nonneg_left (le_roundDouble hq) (by positivity)
    have hone : q⁻¹ * (1 + 1 / 2 ^ 52) * (q * (1 - 1 / 2 ^ 53))
        = (1 + 1 / 2 ^ 52) * (1 - 1 / 2 ^ 53) := by
      field_simp
    rw [div_le_iff₀ hpos]
    refine le_trans ?_ (hone ▸ hstep)
    norm_num
  calc roundDouble (1 / roundDouble q)
      ≤ 1 / roundDouble q * (1 + 1 / 2 ^ 53) := roundDouble_le (by positivity)
    _ ≤ q⁻¹ * (1 + 1 / 2 ^ 52) * (1 + 1 / 2 ^ 53) := mul_le_mul_of_nonneg_right hinv (by norm_num)
    _ = q⁻¹ * ((1 + 1 / 2 ^ 52) * (1 + 1 / 2 ^ 53)) := mul_assoc _ _ _
    _ ≤ q⁻¹ * (1 + 1 / 2 ^ 51) := mul_le_mul_of_nonneg_left (by norm_num) (by positivity)

/-- The roundings never lift the result over the next integer. -/
theorem scaledReciprocal_mul_le {a b k : Nat} (ha : 0 < a) (hb : 0 < b) (hk : 0 < k)
    (hlt : k * b < 2 ^ 50) : scaledReciprocal a b k * a ≤ k * b := by
  have haq : (0 : ℚ) < a := by positivity
  have hkq : (0 : ℚ) < k := by positivity
  have hratio : (0 : ℚ) < (a : ℚ) / b := by positivity
  set i := roundDouble (1 / roundDouble ((a : ℚ) / b)) with hi
  have hrpos := roundDouble_pos hratio
  have hipos : 0 < i := roundDouble_pos (by positivity)
  have hile : i ≤ (b : ℚ) / a * (1 + 1 / 2 ^ 51) := by
    have h := roundDouble_reciprocal_le hratio
    rwa [inv_div] at h
  -- the error is smaller than the distance of the exact value to the next multiple of `1 / a`
  have hsmall : (k : ℚ) * b * ((1 + 1 / 2 ^ 51) * (1 + 1 / 2 ^ 53)) < k * b + 1 := by
    have hbound : (k : ℚ) * b < 2 ^ 50 := by exact_mod_cast hlt
    norm_num at hbound ⊢
    linarith
  have hproduct : roundDouble (i * k) < ((k * b + 1 : Nat) : ℚ) / a := by
    calc roundDouble (i * k)
        ≤ i * k * (1 + 1 / 2 ^ 53) := roundDouble_le (by positivity)
      _ ≤ (b : ℚ) / a * (1 + 1 / 2 ^ 51) * k * (1 + 1 / 2 ^ 53) :=
          mul_le_mul_of_nonneg_right (mul_le_mul_of_nonneg_right hile hkq.le) (by norm_num)
      _ = (k : ℚ) * b * ((1 + 1 / 2 ^ 51) * (1 + 1 / 2 ^ 53)) / a := by ring
      _ < ((k : ℚ) * b + 1) / a := div_lt_div_of_pos_right hsmall haq
      _ = ((k * b + 1 : Nat) : ℚ) / a := by push_cast; rfl
  have hfloor : ((scaledReciprocal a b k : Nat) : ℚ) ≤ roundDouble (i * k) :=
    Nat.floor_le (roundDouble_pos (mul_pos hipos hkq)).le
  have hmul := lt_of_le_of_lt hfloor hproduct
  rw [lt_div_iff₀ haq] at hmul
  exact Nat.lt_succ_iff.mp (by exact_mod_cast hmul)

end SaneBackends.DoubleRounding
