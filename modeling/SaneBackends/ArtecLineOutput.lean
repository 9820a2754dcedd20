import SaneBackends.ArtecLine

/-!
# What the Artec output lines contain

The second pass of `copy_scan_line` stops in front of the last gap, and its black and white branch
counts one pixel less than there are.
-/

namespace SaneBackends.ArtecLine

open BitPrefixes CountLoops FaultState SampleGrid

namespace Scan

variable {s : Scan} {wide : Bool} {channels : Nat} {line : CurrentLine} {mem : List SaneByte}

/-! ### The first pass -/

/-- A sample of the current line as it is stored. -/
def stored (wide : Bool) (line : CurrentLine) (i j : Nat) : Nat :=
  (if wide then line j i else line j i / 257) % values wide

theorem step_pos : 0 < s.step := by
  rw [step]
  split <;> decide

theorem index_le {rows cols stride k j : Nat} (hk : k < rows) (hj : j < cols)
    (hcols : cols ≤ stride) : k * stride + j + 1 ≤ rows * stride := by
  have hmul := Nat.mul_le_mul_right stride (show k + 1 ≤ rows from hk)
  rw [Nat.succ_mul] at hmul
  omega

theorem copyPixels_eq (hlen : s.xs * (channels * s.step) * width wide ≤ mem.length) :
    ∃ mem', s.copyPixels wide channels line mem = .ok mem' ∧ mem'.length = mem.length ∧
      ∀ q, sampleAt wide mem' q = filled (sampleAt wide mem) 0 (channels * s.step) channels
        (fun k j => stored wide line (s.xs - 1 - k) j) s.xs 0 q := by
  have hcols : channels ≤ channels * s.step := Nat.le_mul_of_pos_right _ step_pos
  refine grid_ok hcols fun k hk j hj m hm _ => ?_
  have hindex : (k * (channels * s.step) + j + 1) * width wide ≤ m.length := by
    rw [hm]
    exact Nat.le_trans (Nat.mul_le_mul_right _ (index_le hk hj hcols)) hlen
  obtain ⟨m', hrun, hstores⟩ := storeSample_eq
    (if wide then line j (s.xs - 1 - k) else line j (s.xs - 1 - k) / 257) hindex
  refine ⟨m', hrun, hstores.length, fun q => ?_⟩
  rw [hstores.sample, Nat.zero_add]
  rfl

/-! ### The second pass -/

/-- A sample in front of the gap that is being filled, or behind it. -/
theorem filled_pixel {value : Nat → Nat → Nat} {old : Nat → Nat} {k j : Nat} (hj : j < channels)
    (k' j' : Nat) :
    filled old channels (2 * channels) channels value k' j' (k * (2 * channels) + j) =
      old (k * (2 * channels) + j) := by
  cases k with
  | zero => exact filled_before (by omega) k' j'
  | succ k =>
    have hindex : (k + 1) * (2 * channels) + j =
        channels + (k * (2 * channels) + (channels + j)) := by
      rw [Nat.succ_mul]
      omega
    rw [hindex]
    exact filled_beside (by omega) (by omega) k' j'

theorem fillGaps_eq {count : Nat}
    (hlen : (count * (2 * channels) + channels) * width wide ≤ mem.length) :
    ∃ mem', fillGaps wide channels count mem = .ok mem' ∧ mem'.length = mem.length ∧
      ∀ q, sampleAt wide mem' q = filled (sampleAt wide mem) channels (2 * channels) channels
        (fun k j => (sampleAt wide mem (k * (2 * channels) + j) +
          sampleAt wide mem ((k + 1) * (2 * channels) + j)) / 2) count 0 q := by
  refine grid_ok (by omega) fun k hk j hj m hm hfilled => ?_
  have hpixel : ∀ k, sampleAt wide m (k * (2 * channels) + j) =
      sampleAt wide mem (k * (2 * channels) + j) := by
    intro k'
    rw [hfilled, filled_pixel hj]
  have hend : ∀ q, q < count * (2 * channels) + channels →
      (q + 1) * width wide ≤ m.length := by
    intro q hq
    rw [hm]
    exact Nat.le_trans (Nat.mul_le_mul_right _ hq) hlen
  have hrow := @index_le count channels (2 * channels) k j hk hj (by omega)
  have hnext : (k + 1) * (2 * channels) ≤ count * (2 * channels) := Nat.mul_le_mul_right _ hk
  have hvalue2 : (k * (2 * channels) + j) * width wide + 2 * channels * width wide =
      ((k + 1) * (2 * channels) + j) * width wide := by
    rw [← Nat.add_mul, Nat.succ_mul k (2 * channels), Nat.add_right_comm]
  have hgap : (k * (2 * channels) + j) * width wide + channels * width wide =
      (channels + (k * (2 * channels) + j)) * width wide := by
    rw [← Nat.add_mul, Nat.add_comm]
  have hload1 := loadSample_eq (hend (k * (2 * channels) + j) (by omega))
  have hload2 := loadSample_eq (hend ((k + 1) * (2 * channels) + j) (by omega))
  have hlt1 := @sampleAt_lt wide mem (k * (2 * channels) + j)
  have hlt2 := @sampleAt_lt wide mem ((k + 1) * (2 * channels) + j)
  rw [hpixel] at hload1 hload2
  generalize sampleAt wide mem (k * (2 * channels) + j) = value1 at *
  generalize sampleAt wide mem ((k + 1) * (2 * channels) + j) = value2 at *
  obtain ⟨m', hrun, hstores⟩ := storeSample_eq
    (min ((value1 + value2) / 2) (if wide then 65535 else 255))
    (hend (channels + (k * (2 * channels) + j)) (by omega))
  have hmean : min ((value1 + value2) / 2) (if wide then 65535 else 255) % values wide =
      (value1 + value2) / 2 := by
    have hvalues : values wide = (if wide then 65535 else 255) + 1 := by cases wide <;> rfl
    rw [hvalues] at hlt1 hlt2 ⊢
    rw [Nat.min_eq_left (by omega), Nat.mod_eq_of_lt (by omega)]
  refine ⟨m', ?_, hstores.length, fun q => ?_⟩
  · rw [averageSample, hload1, ok_bind, hvalue2, hload2, ok_bind, hgap]
    exact hrun
  · rw [hstores.sample, hmean]

/-! ### Both passes -/

/-- What the two passes leave in a buffer. -/
structure Copied (s : Scan) (wide : Bool) (channels : Nat) (line : CurrentLine)
    (mem out : List SaneByte) : Prop where
  length : out.length = mem.length
  pixel : ∀ k < s.xs, ∀ j < channels,
    sampleAt wide out (k * s.step * channels + j) = stored wide line (s.xs - 1 - k) j
  gap : s.interpolate = true → ∀ k, k + 1 < s.xs → ∀ j < channels,
    sampleAt wide out ((2 * k + 1) * channels + j) =
      (stored wide line (s.xs - 1 - k) j + stored wide line (s.xs - 1 - (k + 1)) j) / 2
  last : s.interpolate = true → ∀ j < channels,
    sampleAt wide out ((2 * s.xs - 1) * channels + j) =
      sampleAt wide mem ((2 * s.xs - 1) * channels + j)

theorem step_of_interpolate (h : s.interpolate = true) : s.step = 2 := if_pos h

theorem copySamples_eq (hlen : s.xs * (channels * s.step) * width wide ≤ mem.length) :
    ∃ out, s.copySamples wide channels line mem = .ok out ∧
      s.Copied wide channels line mem out := by
  obtain ⟨mid, hmid, hlenMid, hsample⟩ := @copyPixels_eq s wide channels line mem hlen
  have hcols : channels ≤ channels * s.step := Nat.le_mul_of_pos_right _ step_pos
  have hcopied : ∀ k < s.xs, ∀ j < channels,
      sampleAt wide mid (k * (channels * s.step) + j) = stored wide line (s.xs - 1 - k) j := by
    intro k hk j hj
    have hat := @filled_at 0 (channels * s.step) channels k j
      (fun k j => stored wide line (s.xs - 1 - k) j) (sampleAt wide mem) hj hcols s.xs hk
    rw [Nat.zero_add] at hat
    rw [hsample, hat]
  rw [copySamples, hmid, ok_bind]
  by_cases hinter : s.interpolate = true
  · rw [if_pos hinter]
    have hstep := step_of_interpolate hinter
    have hpos := s.xs_pos
    rw [hstep, Nat.mul_comm channels 2] at hlen hcopied
    have hroom : ((s.xs - 1) * (2 * channels) + channels) * width wide ≤ mid.length := by
      rw [hlenMid]
      refine Nat.le_trans (Nat.mul_le_mul_right _ ?_) hlen
      have hsplit : s.xs * (2 * channels) = (s.xs - 1) * (2 * channels) + 2 * channels := by
        rw [← Nat.succ_mul, Nat.succ_eq_add_one, Nat.sub_add_cancel hpos]
      omega
    obtain ⟨out, hout, hlenOut, hfilled⟩ := fillGaps_eq hroom
    refine ⟨out, hout, hlenOut.trans hlenMid, fun k hk j hj => ?_, fun _ k hk j hj => ?_,
      fun _ j hj => ?_⟩
    · have hindex : k * s.step * channels + j = k * (2 * channels) + j := by
        rw [hstep, Nat.mul_assoc]
      rw [hindex, hfilled, filled_pixel hj, hcopied k hk j hj]
    · have hindex : (2 * k + 1) * channels + j = channels + (k * (2 * channels) + j) := by
        rw [Nat.succ_mul, Nat.mul_assoc, Nat.mul_left_comm]
        omega
      rw [hindex, hfilled, filled_at hj (by omega) (by omega : k < s.xs - 1),
        hcopied k (by omega) j hj, hcopied (k + 1) hk j hj]
    · have hindex : (2 * s.xs - 1) * channels + j =
          channels + ((s.xs - 1) * (2 * channels) + j) := by
        have hsplit : 2 * s.xs - 1 = 2 * (s.xs - 1) + 1 := by omega
        rw [hsplit, Nat.succ_mul, Nat.mul_assoc, Nat.mul_left_comm]
        omega
      have hbeside : channels + ((s.xs - 1) * (2 * channels) + j) =
          0 + ((s.xs - 1) * (channels * s.step) + (channels + j)) := by
        rw [hstep, Nat.mul_comm channels 2]
        omega
      rw [hindex, hfilled, filled_behind (by omega) (by omega), hsample, hbeside,
        filled_beside (by rw [hstep]; omega) (by omega)]
  · rw [if_neg hinter]
    have hstep : s.step = 1 := if_neg hinter
    refine ⟨mid, rfl, hlenMid, fun k hk j hj => ?_, fun h => absurd h hinter,
      fun h => absurd h hinter⟩
    rw [hstep, Nat.mul_one] at hcopied ⊢
    exact hcopied k hk j hj

/-! ### Bits -/

theorem bitAt_set {c i : Nat} {x : SaneByte} (h : c < mem.length) :
    bitAt (mem.set c x) i = if i / 8 = c then x.getMsbD (i % 8) else bitAt mem i := by
  rw [bitAt, getD_set h]
  split
  · rfl
  · rfl

theorem getMsbD_setBit (x : SaneByte) {b i : Nat} (hb : b < 8) (hi : i < 8) :
    (x ||| (1 : SaneByte) <<< (7 - b)).getMsbD i = (x.getMsbD i || decide (i = b)) := by
  have hbit : ∀ b < 8, ∀ i < 8, ((1 : SaneByte) <<< (7 - b)).getMsbD i = decide (i = b) := by
    decide
  rw [BitVec.getMsbD_or, hbit b hb i hi]

/-- Whether sample `i` is black. -/
def black (s : Scan) (lineart : List SaneByte) (i : Nat) : Bool :=
  decide ((((lineart.getD i 0).toNat : Nat) : Int) ≤ s.blackLevel)

/-- What the first `n` turns leave: their bits, and zeros in the rest of the byte. -/
structure Packed (s : Scan) (lineart mem mem' : List SaneByte) (n : Nat) : Prop where
  length : mem'.length = mem.length
  bits : ∀ i < n, bitAt mem' i = s.black lineart i
  rest : ∀ i, n ≤ i → bitAt mem' i = if i / 8 = n / 8 ∧ n % 8 ≠ 0 then false else bitAt mem i

theorem packBit_eq {lineart m : List SaneByte} {n : Nat} (hm : s.Packed lineart mem m n)
    (hmem : n / 8 < mem.length) (hlineart : n < lineart.length) :
    ∃ m', s.packBit lineart n (m, n / 8, n % 8) = .ok (m', (n + 1) / 8, (n + 1) % 8) ∧
      s.Packed lineart mem m' (n + 1) := by
  have hlt : n / 8 < m.length := by rw [hm.length]; exact hmem
  have hmod : n % 8 < 8 := Nat.mod_lt n (by decide)
  -- the byte is cleared before its first bit
  obtain ⟨m₁, hclear, hlen₁, hbits₁, hrest₁⟩ : ∃ m₁,
      clearByte m (n / 8) (n % 8) = .ok m₁ ∧
      m₁.length = mem.length ∧ (∀ i < n, bitAt m₁ i = s.black lineart i) ∧
      ∀ i, n ≤ i → bitAt m₁ i = if i / 8 = n / 8 then false else bitAt mem i := by
    by_cases hzero : n % 8 = 0
    · refine ⟨m.set (n / 8) 0, by rw [clearByte, if_pos hzero, setCell_of_lt hlt], ?_, ?_, ?_⟩
      · rw [List.length_set, hm.length]
      · intro i hi
        rw [bitAt_set hlt, if_neg (by omega), hm.bits i hi]
      · intro i hi
        rw [bitAt_set hlt, hm.rest i hi]
        split
        · exact BitVec.getMsbD_zero
        · rw [if_neg (by omega)]
    · refine ⟨m, if_neg hzero, hm.length, hm.bits, fun i hi => ?_⟩
      rw [hm.rest i hi]
      by_cases hbyte : i / 8 = n / 8
      · rw [if_pos ⟨hbyte, hzero⟩, if_pos hbyte]
      · rw [if_neg fun h => hbyte h.1, if_neg hbyte]
  have hlt₁ : n / 8 < m₁.length := by rw [hlen₁]; exact hmem
  obtain ⟨m₂, hset, hlen₂, hbits₂⟩ : ∃ m₂,
      s.setBit lineart[n] m₁ (n / 8) (n % 8) = .ok m₂ ∧ m₂.length = mem.length ∧
      ∀ i, bitAt m₂ i = (bitAt m₁ i || (s.black lineart n && decide (i = n))) := by
    have hblack : s.black lineart n = decide (((lineart[n].toNat : Nat) : Int) ≤ s.blackLevel) := by
      rw [black, getD_of_lt hlineart]
    rw [hblack, setBit]
    by_cases hle : ((lineart[n].toNat : Nat) : Int) ≤ s.blackLevel
    · rw [if_pos hle, cellAt_of_lt hlt₁, ok_bind, setCell_of_lt hlt₁]
      refine ⟨_, rfl, by rw [List.length_set, hlen₁], fun i => ?_⟩
      rw [bitAt_set hlt₁, decide_eq_true hle, Bool.true_and]
      by_cases hbyte : i / 8 = n / 8
      · rw [if_pos hbyte, getMsbD_setBit _ hmod (Nat.mod_lt i (by decide)), bitAt, hbyte,
          getD_of_lt hlt₁]
        congr 1
        exact decide_eq_decide.mpr ⟨fun h => by omega, fun h => by rw [h]⟩
      · have hne : i ≠ n := fun h => hbyte (by rw [h])
        rw [if_neg hbyte, decide_eq_false hne, Bool.or_false]
    · rw [if_neg hle]
      refine ⟨m₁, rfl, hlen₁, fun i => ?_⟩
      rw [decide_eq_false hle, Bool.false_and, Bool.or_false]
  refine ⟨m₂, ?_, hlen₂, ?_, ?_⟩
  · rw [packBit]
    rw [hclear, ok_bind, cellAt_of_lt hlineart, ok_bind, hset, ok_bind]
    by_cases hlast : 7 < n % 8 + 1
    · rw [if_pos hlast]
      have hnext : (n + 1) / 8 = n / 8 + 1 ∧ (n + 1) % 8 = 0 := by omega
      rw [hnext.1, hnext.2]
      rfl
    · rw [if_neg hlast]
      have hnext : (n + 1) / 8 = n / 8 ∧ (n + 1) % 8 = n % 8 + 1 := by omega
      rw [hnext.1, hnext.2]
      rfl
  · intro i hi
    rw [hbits₂]
    rcases Nat.lt_succ_iff_lt_or_eq.mp hi with hless | rfl
    · rw [hbits₁ i hless, decide_eq_false (by omega), Bool.and_false, Bool.or_false]
    · rw [hrest₁ i (Nat.le_refl i), if_pos rfl, Bool.false_or, decide_eq_true rfl, Bool.and_true]
  · intro i hi
    rw [hbits₂, decide_eq_false (by omega), Bool.and_false, Bool.or_false, hrest₁ i (by omega)]
    by_cases hbyte : i / 8 = n / 8
    · rw [if_pos hbyte, if_pos (by omega)]
    · rw [if_neg hbyte, if_neg (by omega)]

theorem packBits_eq {lineart : List SaneByte} {n : Nat} (hmem : n ≤ mem.length * 8)
    (hlineart : n ≤ lineart.length) :
    ∃ mem', turns (s.packBit lineart) n (mem, 0, 0) = .ok (mem', n / 8, n % 8) ∧
      s.Packed lineart mem mem' n := by
  obtain ⟨st, hrun, m, rfl, hpacked⟩ := turns_ok (n := n) (f := s.packBit lineart)
    (s := (mem, 0, 0)) (I := fun i st => ∃ m, st = (m, i / 8, i % 8) ∧ s.Packed lineart mem m i)
    ⟨mem, rfl, rfl, fun i hi => absurd hi (Nat.not_lt_zero i), fun i _ => by
      rw [if_neg fun h => h.2 rfl]⟩ fun i hi st hst => by
      obtain ⟨m, rfl, hm⟩ := hst
      obtain ⟨m', hstep, hm'⟩ := packBit_eq hm (by omega) (by omega)
      exact ⟨_, hstep, m', rfl, hm'⟩
  exact ⟨m, hrun, hpacked⟩

/-! ### The whole line -/

def isWide (s : Scan) : Bool := decide (8 < s.depth)

def colors (s : Scan) : Nat := if s.color then 3 else 1

theorem le_scanBpl : s.xs * width s.isWide ≤ s.scanBpl := by
  rw [scanBpl, isWide]
  rcases s.depth_cases with h | h
  · simp only [h, width, Nat.reduceEqDiff, if_false, Nat.lt_irrefl, decide_false,
      Bool.false_eq_true]
    split <;> omega
  · simp only [h, width, if_true, Nat.reduceLT, decide_true]
    split <;> omega

/-- The line buffer has room for all samples. -/
theorem le_lineBufferSize : s.xs * (s.colors * s.step) * width s.isWide ≤ s.lineBufferSize := by
  have hbpl := @le_scanBpl s
  rw [Nat.mul_right_comm]
  generalize s.xs * width s.isWide = bytes at hbpl
  rw [colors, step, lineBufferSize]
  cases s.color <;> cases s.interpolate <;> simp <;> omega

theorem copyScanLine_samples (h : s.lineart = false) (b : s.Buffers) :
    s.copyScanLine line b = do
      return (← s.copySamples s.isWide s.colors line b.lineBuffer, b.lineartBuffer) := by
  rw [copyScanLine, h, isWide, colors]
  by_cases hdepth : 8 < s.depth
  · simp only [if_pos hdepth, decide_eq_true hdepth]
    cases s.color <;> rfl
  · simp only [if_neg hdepth, decide_eq_false hdepth]
    cases s.color <;> rfl

theorem copyScanLine_lineart (h : s.lineart = true) (b : s.Buffers) :
    ∃ out lineart, s.copyScanLine line b = .ok (out, lineart) ∧
      s.Copied false 1 line b.lineartBuffer lineart ∧
      s.Packed lineart b.lineBuffer out (s.xs * s.step - 1) := by
  obtain ⟨hgray, hdepth⟩ := s.lineart_gray h
  have hpos := s.xs_pos
  have hlineart : b.lineartBuffer.length = s.xs * 2 := by
    rw [b.length_lineart, lineartBufferSize, if_pos h]
  have hstep : s.step ≤ 2 := by
    rw [step]
    split <;> decide
  have hpixels : s.xs * s.step ≤ s.xs * 2 := Nat.mul_le_mul_left _ hstep
  have hroom : s.xs * (1 * s.step) * width false ≤ b.lineartBuffer.length := by
    rw [hlineart, Nat.one_mul, width, if_neg (by decide), Nat.mul_one]
    exact hpixels
  obtain ⟨lineart, hcopy, hcopied⟩ := @copySamples_eq s false 1 line b.lineartBuffer hroom
  have hline : s.xs * s.step - 1 ≤ b.lineBuffer.length * 8 := by
    have hsize := @le_lineBufferSize s
    rw [colors, hgray, if_neg (by decide), Nat.one_mul, ← b.length_line] at hsize
    have hwidth := Nat.le_mul_of_pos_right (s.xs * s.step) (@width_pos s.isWide)
    omega
  obtain ⟨out, hpack, hpacked⟩ := @packBits_eq s b.lineBuffer lineart (s.xs * s.step - 1) hline
    (by rw [hcopied.length, hlineart]; omega)
  refine ⟨out, lineart, ?_, hcopied, hpacked⟩
  have hcount : s.interpolate = true → (s.xs * s.step - 1 - 2 + 1) / 2 = s.xs - 1 := by
    intro hinter
    rw [step_of_interpolate hinter]
    omega
  have hcopy' : s.copySamples false 1 line b.lineartBuffer = (do
      let mem ← s.copyPixels false 1 line b.lineartBuffer
      if s.interpolate then fillGaps false 1 ((s.xs * s.step - 1 - 2 + 1) / 2) mem
      else pure mem) := by
    rw [copySamples]
    by_cases hinter : s.interpolate = true
    · rw [hcount hinter]
    · simp only [if_neg hinter]
  rw [hcopy'] at hcopy
  obtain ⟨mid, hmid, hfill⟩ := bind_eq_ok.mp hcopy
  rw [copyScanLine, hgray, if_neg (by decide), hdepth, if_neg (by decide), h, if_neg (by decide),
    copyLineart, hmid, ok_bind]
  dsimp only
  have hrest : (if s.interpolate = true then
      fillGaps false 1 ((s.xs * s.step - 1 - 2 + 1) / 2) mid else pure mid) = .ok lineart := hfill
  by_cases hinter : s.interpolate = true
  · rw [if_pos hinter] at hrest ⊢
    rw [hrest, ok_bind, hpack]
    rfl
  · rw [if_neg hinter] at hrest ⊢
    rw [hrest, ok_bind, hpack]
    rfl

end Scan

end SaneBackends.ArtecLine
