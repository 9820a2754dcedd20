import SaneBackends.SaneTypes
import Mathlib.Data.Nat.Init
import Mathlib.Tactic.Common
import Mathlib.Order.Monotone.Defs

/-!
# The offsets of an HP ScanJet 3500

The first calibration loop of `rts8801_scan` in `backend/hp3500.c` looks for the offset from which
on a channel reaches the target.  The three channels are searched in one loop, and with each scan
all three intervals are halved; a channel whose next offset is the last one is left out.
-/

namespace SaneBackends.Hp3500

/-! ### The loop -/

/-- `aiLow[i]` and `aiHigh[i]`. -/
structure OffsetRange where
  aiLow : Nat
  aiHigh : Nat
deriving DecidableEq, Repr

def iCalibTarget : Nat := 550

def iCalibPixels : Nat := 50

/-- The sum of `n` pixels of a channel. -/
def sumChannel (p : List SaneByte) (n : Nat) (bytwo : Bool) : Nat :=
  ((List.range n).map fun k => (p.getD (k * (if bytwo then 6 else 3)) 0).toNat).sum

/-- `aiBestOffset[i]` -/
def OffsetRange.best (r : OffsetRange) : Nat := (r.aiHigh + r.aiLow + 1) / 2

/-- `calib_info` with these offsets. -/
def calibInfo (best : Fin 3 → Nat) : List SaneByte :=
  (List.finRange 3).flatMap fun i => [BitVec.ofNat 8 (best i), BitVec.ofNat 8 (best i), 1]

/-- One turn of the loop.  `scan` is what a scan with some `calib_info` leaves in `calibbuf`. -/
def calibrationPass (scan : List SaneByte → List SaneByte) (rs : Fin 3 → OffsetRange) :
    Fin 3 → OffsetRange :=
  let calibbuf := scan (calibInfo fun i => (rs i).best)
  fun i =>
    if (rs i).best ≥ 255 then rs i
    else if sumChannel (calibbuf.drop i) iCalibPixels false ≥ iCalibTarget then
      { rs i with aiHigh := (rs i).best }
    else { rs i with aiLow := (rs i).best }

/-- The condition of the loop, as it is written. -/
def calibrationGoesOn (rs : Fin 3 → OffsetRange) : Bool :=
  (rs 0).aiLow < (rs 0).aiHigh - 1 ∧ (rs 1).aiLow < (rs 1).aiHigh - 1 ∧
    (rs 1).aiLow < (rs 1).aiHigh + 1

/-- The loop, at most so many turns. -/
def calibrateOffsets (scan : List SaneByte → List SaneByte) :
    Nat → (Fin 3 → OffsetRange) → Option (Fin 3 → OffsetRange)
  | 0, _ => none
  | turns + 1, rs =>
    if calibrationGoesOn (calibrationPass scan rs) then
      calibrateOffsets scan turns (calibrationPass scan rs)
    else some (calibrationPass scan rs)

def firstRanges : Fin 3 → OffsetRange := fun _ => ⟨0, 256⟩

/-! ### One channel -/

/-- The sum of a channel is a function of its own offset. -/
structure Responds (scan : List SaneByte → List SaneByte) (response : Fin 3 → Nat → Nat) :
    Prop where
  sum : ∀ best : Fin 3 → Nat, (∀ i, best i < 256) → ∀ i : Fin 3,
    sumChannel ((scan (calibInfo best)).drop i) iCalibPixels false = response i (best i)
  mono : ∀ i, Monotone (response i)

/-- What a turn does to the range of a channel. -/
def OffsetRange.narrow (f : Nat → Nat) (r : OffsetRange) : OffsetRange :=
  if r.best ≥ 255 then r
  else if f r.best ≥ iCalibTarget then { r with aiHigh := r.best }
  else { r with aiLow := r.best }

/-- An end that has been moved has been tried. -/
structure OffsetRange.Brackets (r : OffsetRange) (f : Nat → Nat) : Prop where
  lt : r.aiLow < r.aiHigh
  low : 0 < r.aiLow → f r.aiLow < iCalibTarget
  high : r.aiHigh < 256 → iCalibTarget ≤ f r.aiHigh

/-- After `k` turns a range is one of the `2 ^ k` parts of the first one. -/
structure OffsetRange.Part (r : OffsetRange) (f : Nat → Nat) (k : Nat) : Prop where
  brackets : r.Brackets f
  low_le : r.aiHigh ≤ 256
  part : ∃ q, r.aiLow = q * 2 ^ (8 - k) ∧ r.aiHigh = (q + 1) * 2 ^ (8 - k)

variable {scan : List SaneByte → List SaneByte} {response : Fin 3 → Nat → Nat} {f : Nat → Nat}
  {r : OffsetRange} {k : Nat}

/-- The middle of a part, which is not the last offset while there are four offsets or more. -/
theorem OffsetRange.Part.best_eq (h : r.Part f k) (hk : k < 8) :
    r.best = r.aiLow + 2 ^ (7 - k) ∧ r.aiHigh = r.aiLow + 2 * 2 ^ (7 - k) := by
  obtain ⟨q, hlow, hhigh⟩ := h.part
  have hpow : 2 ^ (8 - k) = 2 * 2 ^ (7 - k) := by
    rw [← Nat.pow_succ', Nat.succ_eq_add_one]
    congr 1
    omega
  rw [Nat.succ_mul, ← hlow, hpow] at hhigh
  rw [OffsetRange.best]
  omega

/-- A turn halves a part unless it would try the last offset. -/
theorem OffsetRange.Part.narrow (h : r.Part f k) (hk : k < 8) (hbest : r.best < 255) :
    (r.narrow f).Part f (k + 1) := by
  obtain ⟨hmid, hhigh⟩ := h.best_eq hk
  obtain ⟨q, hlow, -⟩ := h.part
  have hpow : 2 ^ (8 - k) = 2 * 2 ^ (7 - k) := by
    rw [← Nat.pow_succ', Nat.succ_eq_add_one]
    congr 1
    omega
  have hnext : 8 - (k + 1) = 7 - k := by omega
  have hpos : 0 < 2 ^ (7 - k) := Nat.two_pow_pos _
  have hle := h.low_le
  have hplace : r.aiLow = 2 * q * 2 ^ (7 - k) := by
    rw [hlow, hpow, Nat.mul_left_comm, Nat.mul_assoc]
  rw [OffsetRange.narrow, if_neg (Nat.not_le_of_lt hbest)]
  split
  · rename_i hreach
    refine ⟨⟨?_, h.brackets.low, fun _ => hreach⟩, ?_, 2 * q, ?_, ?_⟩
    · dsimp only
      omega
    · dsimp only
      omega
    · rw [hnext]
      exact hplace
    · rw [hnext, Nat.succ_mul, ← hplace]
      exact hmid
  · rename_i hmiss
    refine ⟨⟨?_, fun _ => Nat.lt_of_not_le hmiss, h.brackets.high⟩, hle, 2 * q + 1, ?_, ?_⟩
    · dsimp only
      omega
    · rw [hnext, Nat.succ_mul, ← hplace]
      exact hmid
    · rw [hnext, Nat.succ_mul, Nat.succ_mul, ← hplace]
      dsimp only
      omega

/-- While there are four offsets or more, the middle one is not the last. -/
theorem OffsetRange.Part.best_lt (h : r.Part f k) (hk : k < 7) : r.best < 255 := by
  obtain ⟨hmid, hhigh⟩ := h.best_eq (Nat.lt_succ_of_lt hk)
  have hle := h.low_le
  have hpow : 2 ^ 1 ≤ 2 ^ (7 - k) := Nat.pow_le_pow_right (by decide) (by omega)
  omega

theorem OffsetRange.Part.best_lt_last (h : r.Part f k) (hk : k < 8) : r.best < 256 := by
  obtain ⟨hmid, hhigh⟩ := h.best_eq hk
  have hle := h.low_le
  have hpos : 0 < 2 ^ (7 - k) := Nat.two_pow_pos _
  omega

theorem part_first (f : Nat → Nat) : OffsetRange.Part ⟨0, 256⟩ f 0 :=
  ⟨⟨by decide, fun h => absurd h (by decide), fun h => absurd h (by decide)⟩, le_rfl, 0, rfl, rfl⟩

/-- The first seven turns halve the range. -/
theorem part_iterate (hk : k ≤ 7) : ((OffsetRange.narrow f)^[k] ⟨0, 256⟩).Part f k := by
  induction k with
  | zero => exact part_first f
  | succ k ih =>
    have hpart := ih (Nat.le_of_succ_le hk)
    rw [Function.iterate_succ_apply']
    exact hpart.narrow (Nat.lt_succ_of_lt hk) (hpart.best_lt hk)

/-- The eighth one leaves a range of width one, or tries nothing. -/
theorem narrow_eight (hf : Monotone f) :
    if iCalibTarget ≤ f 254 then
      ((OffsetRange.narrow f)^[8] ⟨0, 256⟩).aiHigh =
          ((OffsetRange.narrow f)^[8] ⟨0, 256⟩).aiLow + 1 ∧
        ((OffsetRange.narrow f)^[8] ⟨0, 256⟩).Brackets f
    else (OffsetRange.narrow f)^[8] ⟨0, 256⟩ = ⟨254, 256⟩ := by
  have hpart : ((OffsetRange.narrow f)^[7] ⟨0, 256⟩).Part f 7 := part_iterate le_rfl
  rw [Function.iterate_succ_apply']
  generalize (OffsetRange.narrow f)^[7] ⟨0, 256⟩ = r at hpart
  obtain ⟨hmid, hhigh⟩ := hpart.best_eq (by decide)
  obtain ⟨q, hlow, -⟩ := hpart.part
  have hle := hpart.low_le
  have hpow : 2 ^ (8 - 7) = 2 := rfl
  have hpow' : 2 ^ (7 - 7) = 1 := rfl
  rw [hpow] at hlow
  rw [hpow'] at hmid hhigh
  split
  · rename_i hreach
    have hbest : r.best < 255 := by
      by_contra hge
      have hlow254 : r.aiLow = 254 := by omega
      have hmiss := hpart.brackets.low (by omega)
      rw [hlow254] at hmiss
      exact absurd hreach (Nat.not_le_of_lt hmiss)
    obtain ⟨hbrackets, -, p, hp, hp'⟩ := hpart.narrow (by decide) hbest
    refine ⟨?_, hbrackets⟩
    rw [hp, hp', Nat.succ_mul]
    rfl
  · rename_i hmiss
    have hhigh256 : r.aiHigh = 256 := by
      by_contra hne
      have hreach := hpart.brackets.high (by omega)
      exact hmiss (hreach.trans (hf (by omega)))
    have hr : r = ⟨254, 256⟩ := by
      cases r
      simp only at hhigh256 hhigh
      simp only [OffsetRange.mk.injEq]
      omega
    rw [hr]
    rfl

/-! ### The three channels together -/

theorem calibrationPass_eq (h : Responds scan response) {rs : Fin 3 → OffsetRange}
    (hrs : ∀ i, (rs i).best < 256) :
    calibrationPass scan rs = fun i => (rs i).narrow (response i) := by
  funext i
  rw [calibrationPass]
  dsimp only
  rw [h.sum _ hrs i]
  rfl

/-- The first eight turns are turns of each channel by itself. -/
theorem iterate_calibrationPass (h : Responds scan response) (hk : k ≤ 8) :
    (calibrationPass scan)^[k] firstRanges =
      fun i => (OffsetRange.narrow (response i))^[k] ⟨0, 256⟩ := by
  induction k with
  | zero => rfl
  | succ k ih =>
    rw [Function.iterate_succ_apply', ih (Nat.le_of_succ_le hk), calibrationPass_eq h]
    · funext i
      rw [Function.iterate_succ_apply']
    · intro i
      exact (part_iterate (Nat.le_of_succ_le_succ hk)).best_lt_last hk

/-- The loop is not left before. -/
theorem calibrateOffsets_early (h : Responds scan response) (hk : k ≤ 7) (turns : Nat) :
    calibrateOffsets scan (k + turns) firstRanges =
      calibrateOffsets scan turns ((calibrationPass scan)^[k] firstRanges) := by
  induction k generalizing turns with
  | zero => rw [Nat.zero_add]; rfl
  | succ k ih =>
    have hgoes : calibrationGoesOn ((calibrationPass scan)^[k + 1] firstRanges) = true := by
      rw [iterate_calibrationPass h (Nat.le_succ_of_le hk)]
      have hwidth : ∀ i : Fin 3,
          ((OffsetRange.narrow (response i))^[k + 1] ⟨0, 256⟩).aiLow + 2 ≤
            ((OffsetRange.narrow (response i))^[k + 1] ⟨0, 256⟩).aiHigh := by
        intro i
        obtain ⟨q, hlow, hhigh⟩ := (part_iterate (f := response i) hk).part
        have hpow : 2 ^ 1 ≤ 2 ^ (8 - (k + 1)) := Nat.pow_le_pow_right (by decide) (by omega)
        rw [hlow, hhigh, Nat.succ_mul]
        omega
      have h0 := hwidth 0
      have h1 := hwidth 1
      rw [calibrationGoesOn, decide_eq_true_iff]
      omega
    have hsum : k + 1 + turns = k + (turns + 1) := by omega
    rw [Function.iterate_succ_apply'] at hgoes ⊢
    rw [hsum, ih (Nat.le_of_succ_le hk), calibrateOffsets, if_pos hgoes]

/-- Two channels that wait for the last offset wait for ever. -/
theorem calibrateOffsets_stuck {rs : Fin 3 → OffsetRange} (h0 : rs 0 = ⟨254, 256⟩)
    (h1 : rs 1 = ⟨254, 256⟩) (turns : Nat) : calibrateOffsets scan turns rs = none := by
  induction turns generalizing rs with
  | zero => rfl
  | succ turns ih =>
    have hkept : ∀ i, rs i = ⟨254, 256⟩ → calibrationPass scan rs i = ⟨254, 256⟩ := by
      intro i hi
      have hbest : (rs i).best ≥ 255 := by rw [hi]; decide
      rw [calibrationPass]
      dsimp only
      rw [if_pos hbest, hi]
    have hgoes : calibrationGoesOn (calibrationPass scan rs) = true := by
      rw [calibrationGoesOn, hkept 0 h0, hkept 1 h1]
      decide
    rw [calibrateOffsets, if_pos hgoes]
    exact ih (hkept 0 h0) (hkept 1 h1)

/-- Whether the loop goes on after eight turns. -/
theorem goesOn_eight (h : Responds scan response) :
    calibrationGoesOn (fun i => (OffsetRange.narrow (response i))^[8] ⟨0, 256⟩) = true ↔
      response 0 254 < iCalibTarget ∧ response 1 254 < iCalibTarget := by
  have height : ∀ i : Fin 3,
      (((OffsetRange.narrow (response i))^[8] ⟨0, 256⟩).aiLow <
        ((OffsetRange.narrow (response i))^[8] ⟨0, 256⟩).aiHigh - 1 ↔
          response i 254 < iCalibTarget) ∧
      ((OffsetRange.narrow (response i))^[8] ⟨0, 256⟩).aiLow <
        ((OffsetRange.narrow (response i))^[8] ⟨0, 256⟩).aiHigh + 1 := by
    intro i
    have hi := narrow_eight (h.mono i)
    split at hi
    · rename_i hreach
      rw [hi.1]
      omega
    · rename_i hmiss
      rw [hi]
      refine ⟨⟨fun _ => Nat.lt_of_not_le hmiss, fun _ => by decide⟩, by decide⟩
  rw [calibrationGoesOn, decide_eq_true_iff, (height 0).1, (height 1).1]
  exact ⟨fun hall => ⟨hall.1, hall.2.1⟩, fun hboth => ⟨hboth.1, hboth.2, (height 1).2⟩⟩

theorem calibrateOffsets_short (h : Responds scan response) {turns : Nat} (hturns : turns ≤ 7) :
    calibrateOffsets scan turns firstRanges = none := by
  have hearly := calibrateOffsets_early h hturns 0
  rw [Nat.add_zero] at hearly
  rw [hearly, calibrateOffsets]

theorem calibrateOffsets_long (h : Responds scan response) (turns : Nat) :
    calibrateOffsets scan (8 + turns) firstRanges =
      if calibrationGoesOn (fun i => (OffsetRange.narrow (response i))^[8] ⟨0, 256⟩) then
        calibrateOffsets scan turns fun i => (OffsetRange.narrow (response i))^[8] ⟨0, 256⟩
      else some fun i => (OffsetRange.narrow (response i))^[8] ⟨0, 256⟩ := by
  have hsum : 8 + turns = 7 + (turns + 1) := by omega
  rw [hsum, calibrateOffsets_early h le_rfl, calibrateOffsets,
    ← Function.iterate_succ_apply' (calibrationPass scan) 7, iterate_calibrationPass h le_rfl]

/-- The loop never ends when the first two channels miss the target before the last offset. -/
theorem calibrateOffsets_diverges (h : Responds scan response)
    (h0 : response 0 254 < iCalibTarget) (h1 : response 1 254 < iCalibTarget) (turns : Nat) :
    calibrateOffsets scan turns firstRanges = none := by
  have hstuck : ∀ i : Fin 3, response i 254 < iCalibTarget →
      (OffsetRange.narrow (response i))^[8] ⟨0, 256⟩ = ⟨254, 256⟩ := by
    intro i hi
    have height := narrow_eight (h.mono i)
    rwa [if_neg (Nat.not_le_of_lt hi)] at height
  rcases Nat.lt_or_ge turns 8 with hlt | hge
  · exact calibrateOffsets_short h (Nat.le_of_lt_succ hlt)
  · obtain ⟨m, rfl⟩ := Nat.exists_eq_add_of_le hge
    rw [calibrateOffsets_long h, if_pos ((goesOn_eight h).mpr ⟨h0, h1⟩)]
    exact calibrateOffsets_stuck (hstuck 0 h0) (hstuck 1 h1) m

/-- A loop that is left is left after eight turns. -/
theorem calibrateOffsets_eight (h : Responds scan response) {turns : Nat}
    {rs : Fin 3 → OffsetRange} (hrs : calibrateOffsets scan turns firstRanges = some rs) :
    rs = fun i => (OffsetRange.narrow (response i))^[8] ⟨0, 256⟩ := by
  by_cases hgoes :
      calibrationGoesOn (fun i => (OffsetRange.narrow (response i))^[8] ⟨0, 256⟩) = true
  · obtain ⟨h0, h1⟩ := (goesOn_eight h).mp hgoes
    rw [calibrateOffsets_diverges h h0 h1] at hrs
    cases hrs
  · rcases Nat.lt_or_ge turns 8 with hlt | hge
    · rw [calibrateOffsets_short h (Nat.le_of_lt_succ hlt)] at hrs
      cases hrs
    · obtain ⟨m, rfl⟩ := Nat.exists_eq_add_of_le hge
      rw [calibrateOffsets_long h, if_neg hgoes] at hrs
      exact (Option.some.inj hrs).symm

/-- The loop ends with ranges of width one that bracket the target exactly when all three channels
    reach the target before the last offset. -/
theorem calibrateOffsets_iff (h : Responds scan response) :
    (∃ turns rs, calibrateOffsets scan turns firstRanges = some rs ∧
      ∀ i, (rs i).aiHigh - (rs i).aiLow ≤ 1 ∧ (rs i).Brackets (response i)) ↔
        ∀ i, iCalibTarget ≤ response i 254 := by
  constructor
  · rintro ⟨turns, rs, hrs, hall⟩ i
    by_contra hmiss
    have height := narrow_eight (h.mono i)
    rw [if_neg hmiss] at height
    have hwidth := (hall i).1
    rw [calibrateOffsets_eight h hrs] at hwidth
    dsimp only at hwidth
    rw [height] at hwidth
    exact absurd hwidth (by decide)
  · intro hreach
    have height : ∀ i : Fin 3,
        ((OffsetRange.narrow (response i))^[8] ⟨0, 256⟩).aiHigh =
            ((OffsetRange.narrow (response i))^[8] ⟨0, 256⟩).aiLow + 1 ∧
          ((OffsetRange.narrow (response i))^[8] ⟨0, 256⟩).Brackets (response i) := by
      intro i
      have hi := narrow_eight (h.mono i)
      rwa [if_pos (hreach i)] at hi
    have hstop := mt (goesOn_eight h).mp fun hmiss => absurd (hreach 0) (Nat.not_le_of_lt hmiss.1)
    refine ⟨8 + 0, _, ?_, fun i => ⟨?_, (height i).2⟩⟩
    · rw [calibrateOffsets_long h, if_neg hstop]
    · rw [(height i).1]
      exact (Nat.add_sub_cancel_left ..).le

/-- A scan in which every pixel has the value of its channel's offset. -/
def plainScan (info : List SaneByte) : List SaneByte :=
  (List.range 600).map fun k => info.getD (k % 3 * 3) 0

/-- A scan in which every pixel is dark. -/
def darkScan (_ : List SaneByte) : List SaneByte := List.replicate 600 0

theorem getD_calibInfo (best : Fin 3 → Nat) (i : Fin 3) :
    (calibInfo best).getD (i.val * 3) 0 = BitVec.ofNat 8 (best i) := by
  match i with
  | 0 => rfl
  | 1 => rfl
  | 2 => rfl

theorem sumChannel_const {p : List SaneByte} {v : Nat}
    (h : ∀ k < iCalibPixels, (p.getD (k * 3) 0).toNat = v) :
    sumChannel p iCalibPixels false = 50 * v := by
  have hpixel : ∀ k ∈ List.range iCalibPixels, (p.getD (k * 3) 0).toNat = v :=
    fun k hk => h k (List.mem_range.mp hk)
  rw [sumChannel]
  simp only [Bool.false_eq_true, if_false]
  rw [List.map_congr_left hpixel, List.map_const', List.length_range, List.sum_replicate_nat]
  rfl

theorem responds_plainScan : Responds plainScan fun _ b => 50 * b where
  sum best hbest i := by
    apply sumChannel_const
    intro k hk
    have hi := i.isLt
    have hk : k < 50 := hk
    have hlt : i.val + k * 3 < 600 := by omega
    have hchannel : (i.val + k * 3) % 3 = i.val := by omega
    rw [List.getD_eq_getElem?_getD, List.getElem?_drop, plainScan, List.getElem?_map,
      List.getElem?_range hlt, Option.map_some, Option.getD_some, hchannel, getD_calibInfo,
      BitVec.toNat_ofNat, Nat.mod_eq_of_lt (hbest i)]
  mono _ a b hab := Nat.mul_le_mul_left 50 hab

theorem responds_darkScan : Responds darkScan fun _ _ => 0 where
  sum best _ i := by
    refine (sumChannel_const (v := 0) ?_).trans (Nat.mul_zero 50)
    intro k hk
    have hi := i.isLt
    have hk : k < 50 := hk
    have hlt : i.val + k * 3 < 600 := by omega
    rw [List.getD_eq_getElem?_getD, List.getElem?_drop, darkScan, List.getElem?_replicate,
      if_pos hlt]
    rfl
  mono _ _ _ _ := le_rfl

theorem calibrateOffsets_plain :
    ∃ turns rs, calibrateOffsets plainScan turns firstRanges = some rs ∧
      ∀ i, (rs i).aiHigh - (rs i).aiLow ≤ 1 ∧ (rs i).Brackets fun b => 50 * b :=
  (calibrateOffsets_iff responds_plainScan).mpr fun _ => by decide

/-- Channels that never reach the target keep the loop going for ever. -/
theorem calibrateOffsets_dark : Responds darkScan (fun _ _ => 0) ∧
    ∀ turns, calibrateOffsets darkScan turns firstRanges = none :=
  ⟨responds_darkScan, calibrateOffsets_diverges responds_darkScan (by decide) (by decide)⟩

end SaneBackends.Hp3500
