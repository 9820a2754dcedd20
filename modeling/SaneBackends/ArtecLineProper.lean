import SaneBackends.ArtecLineOutput
import Mathlib.Algebra.Ring.Parity

/-!
# When an Artec output line is right

A line is right if it is made of the current line alone, each pixel in its place and each pixel
between two others between their values; the last pixel of an interpolated line has one neighbour.
-/

namespace SaneBackends.ArtecLine

open BitPrefixes SampleGrid

namespace Scan

variable {s : Scan} {line : CurrentLine}

/-- The value of a pixel of the output line in channel `j`; a bit counts as 0 or 1. -/
def component (s : Scan) (out : List SaneByte) (k j : Nat) : Nat :=
  if s.lineart then (bitAt out k).toNat else sampleAt s.isWide out (k * s.colors + j)

/-- The value of a pixel of the current line. -/
def input (s : Scan) (line : CurrentLine) (i j : Nat) : Nat :=
  if s.lineart then (decide (((stored false line i j : Nat) : Int) ≤ s.blackLevel)).toNat
  else stored s.isWide line i j

def Between (a b c : Nat) : Prop := min a b ≤ c ∧ c ≤ max a b

/-- What is wanted of the output line, whatever the buffers contain before. -/
structure LineProper (s : Scan) (line : CurrentLine) : Prop where
  pixels : ∀ b : s.Buffers, ∃ out lineart, s.copyScanLine line b = .ok (out, lineart) ∧
    ∀ k < s.xs, ∀ j < s.colors,
      s.component out (k * s.step) j = s.input line (s.xs - 1 - k) j
  between : ∀ (b : s.Buffers) out lineart, s.copyScanLine line b = .ok (out, lineart) →
    s.interpolate = true → ∀ k < s.xs, ∀ j < s.colors,
      Between (s.component out (2 * k) j) (s.component out (2 * min (k + 1) (s.xs - 1)) j)
        (s.component out (2 * k + 1) j)
  current : ∀ (b b' : s.Buffers) out lineart out' lineart',
    s.copyScanLine line b = .ok (out, lineart) → s.copyScanLine line b' = .ok (out', lineart') →
    ∀ k < s.xs * s.step, ∀ j < s.colors, s.component out k j = s.component out' k j

/-- The lines that come out right: without interpolation, and black and white lines whose last
    output pixel is white, unless that pixel begins a byte. -/
def LineFits (s : Scan) (line : CurrentLine) : Prop :=
  if s.lineart then
    s.blackLevel < ((stored false line 0 0 : Nat) : Int) ∧
      (s.interpolate = false → ¬ 8 ∣ s.xs - 1)
  else s.interpolate = false

/-- The buffers with the same byte everywhere. -/
def buffersOf (s : Scan) (x : SaneByte) : s.Buffers where
  lineBuffer := List.replicate s.lineBufferSize x
  lineartBuffer := List.replicate s.lineartBufferSize x
  length_line := List.length_replicate
  length_lineart := List.length_replicate

theorem getD_replicate {n i : Nat} {x : SaneByte} (h : i < n) :
    (List.replicate n x).getD i 0 = x := by
  rw [getD_of_lt (by rwa [List.length_replicate]), List.getElem_replicate]

/-! ### Gray and colour lines -/

theorem samples_ok (h : s.lineart = false) (b : s.Buffers) :
    ∃ out, s.copyScanLine line b = .ok (out, b.lineartBuffer) ∧
      s.Copied s.isWide s.colors line b.lineBuffer out := by
  have hsize := @le_lineBufferSize s
  rw [← b.length_line] at hsize
  obtain ⟨out, hrun, hcopied⟩ := @copySamples_eq s s.isWide s.colors line b.lineBuffer hsize
  refine ⟨out, ?_, hcopied⟩
  rw [copyScanLine_samples h, hrun]
  rfl

theorem colors_pos : 0 < s.colors := by
  rw [colors]
  split <;> decide

theorem samples_proper_iff (h : s.lineart = false) :
    s.LineProper line ↔ s.interpolate = false := by
  have hcomponent : ∀ out k j, s.component out k j = sampleAt s.isWide out (k * s.colors + j) :=
    fun out k j => if_neg (by rw [h]; decide)
  have hinput : ∀ i j, s.input line i j = stored s.isWide line i j :=
    fun i j => if_neg (by rw [h]; decide)
  constructor
  · intro hproper
    by_contra hinter
    have hinter : s.interpolate = true := by simpa using hinter
    -- the last pixel is the one that was there before
    obtain ⟨out, hrun, hcopied⟩ := @samples_ok s line h (s.buffersOf 0)
    obtain ⟨out', hrun', hcopied'⟩ := @samples_ok s line h (s.buffersOf 1)
    have hpos := s.xs_pos
    have hsame := hproper.current _ _ _ _ _ _ hrun hrun' (2 * s.xs - 1)
      (by rw [step_of_interpolate hinter]; omega) 0 colors_pos
    rw [hcomponent, hcomponent, hcopied.last hinter 0 colors_pos,
      hcopied'.last hinter 0 colors_pos] at hsame
    have hsize := @le_lineBufferSize s
    have hindex : (2 * s.xs - 1) * s.colors + 0 + 1 ≤ s.xs * (s.colors * s.step) := by
      have hsplit : s.xs * (s.colors * s.step) = (2 * s.xs - 1) * s.colors + s.colors := by
        rw [step_of_interpolate hinter, ← Nat.succ_mul, Nat.mul_left_comm, Nat.mul_comm s.colors,
          Nat.succ_eq_add_one, Nat.sub_add_cancel (by omega), Nat.mul_comm s.xs]
      have hcolors := @colors_pos s
      omega
    have hinside := Nat.le_trans (Nat.mul_le_mul_right (width s.isWide) hindex) hsize
    generalize (2 * s.xs - 1) * s.colors + 0 = q at hsame hinside
    cases hwide : s.isWide with
    | false =>
      rw [hwide, width, if_neg (by decide)] at hinside
      rw [hwide, sampleAt_false, sampleAt_false, buffersOf, buffersOf,
        getD_replicate (by omega), getD_replicate (by omega)] at hsame
      exact absurd hsame (by decide)
    | true =>
      rw [hwide, width, if_pos rfl] at hinside
      rw [hwide, sampleAt_true, sampleAt_true, buffersOf, buffersOf,
        getD_replicate (by omega), getD_replicate (by omega), getD_replicate (by omega),
        getD_replicate (by omega)] at hsame
      exact absurd hsame (by decide)
  · intro hinter
    have hstep : s.step = 1 := if_neg (by rw [hinter]; decide)
    have hpixels : ∀ (b : s.Buffers) out lineart, s.copyScanLine line b = .ok (out, lineart) →
        ∀ k < s.xs, ∀ j < s.colors,
          s.component out (k * s.step) j = s.input line (s.xs - 1 - k) j := by
      intro b out lineart hrun k hk j hj
      obtain ⟨out', hrun', hcopied⟩ := @samples_ok s line h b
      rw [hrun'] at hrun
      cases hrun
      rw [hcomponent, hinput]
      exact hcopied.pixel k hk j hj
    refine ⟨fun b => ?_, fun _ _ _ _ h' => absurd h' (by rw [hinter]; decide), ?_⟩
    · obtain ⟨out, hrun, _⟩ := @samples_ok s line h b
      exact ⟨out, _, hrun, hpixels b out _ hrun⟩
    · intro b b' out lineart out' lineart' hrun hrun' k hk j hj
      rw [hstep, Nat.mul_one] at hk
      have hone := hpixels b out lineart hrun k hk j hj
      have htwo := hpixels b' out' lineart' hrun' k hk j hj
      rw [hstep, Nat.mul_one] at hone htwo
      rw [hone, htwo]

/-! ### Black and white lines -/

/-- Bit `i` of a black and white line that is in front of the last one. -/
theorem black_eq (s : Scan) (lineart : List SaneByte) (i : Nat) :
    s.black lineart i = decide (((sampleAt false lineart i : Nat) : Int) ≤ s.blackLevel) := rfl

theorem mean_between (a b : Nat) : min a b ≤ (a + b) / 2 ∧ (a + b) / 2 ≤ max a b := by
  omega

/-- A threshold keeps a mean between its bits. -/
theorem between_threshold (level : Int) (a b : Nat) :
    Between (decide ((a : Int) ≤ level)).toNat (decide ((b : Int) ≤ level)).toNat
      (decide ((((a + b) / 2 : Nat) : Int) ≤ level)).toNat := by
  have hmean := mean_between a b
  rw [Between]
  by_cases ha : (a : Int) ≤ level
  · by_cases hb : (b : Int) ≤ level
    · rw [decide_eq_true ha, decide_eq_true hb, decide_eq_true (by omega)]
      decide
    · rw [decide_eq_true ha, decide_eq_false hb]
      exact ⟨Nat.zero_le _, Bool.toNat_le _⟩
  · by_cases hb : (b : Int) ≤ level
    · rw [decide_eq_false ha, decide_eq_true hb]
      exact ⟨Nat.zero_le _, Bool.toNat_le _⟩
    · rw [decide_eq_false ha, decide_eq_false hb, decide_eq_false (by omega)]
      decide

/-- The bits of a black and white line. -/
structure LineartBits (s : Scan) (line : CurrentLine) (old out : List SaneByte) : Prop where
  pixel : ∀ k, k * s.step < s.xs * s.step - 1 →
    bitAt out (k * s.step) =
      decide (((stored false line (s.xs - 1 - k) 0 : Nat) : Int) ≤ s.blackLevel)
  gap : s.interpolate = true → ∀ k, k + 1 < s.xs → bitAt out (2 * k + 1) =
    decide ((((stored false line (s.xs - 1 - k) 0 + stored false line (s.xs - 1 - (k + 1)) 0) / 2 :
      Nat) : Int) ≤ s.blackLevel)
  last : bitAt out (s.xs * s.step - 1) =
    if 8 ∣ s.xs * s.step - 1 then bitAt old (s.xs * s.step - 1) else false

theorem lineart_ok (h : s.lineart = true) (b : s.Buffers) :
    ∃ out lineart, s.copyScanLine line b = .ok (out, lineart) ∧
      s.LineartBits line b.lineBuffer out := by
  obtain ⟨out, lineart, hrun, hcopied, hpacked⟩ := @copyScanLine_lineart s line h b
  refine ⟨out, lineart, hrun, fun k hk => ?_, fun hinter k hk => ?_, ?_⟩
  · have hlt : k < s.xs := Nat.lt_of_mul_lt_mul_right (Nat.lt_of_lt_of_le hk (Nat.sub_le _ _))
    have hpixel := hcopied.pixel k hlt 0 Nat.one_pos
    rw [Nat.mul_one, Nat.add_zero] at hpixel
    rw [hpacked.bits _ hk, black_eq, hpixel]
  · have hgap := hcopied.gap hinter k hk 0 Nat.one_pos
    rw [Nat.mul_one, Nat.add_zero] at hgap
    rw [hpacked.bits _ (by rw [step_of_interpolate hinter]; omega), black_eq, hgap]
  · rw [hpacked.rest _ (Nat.le_refl _)]
    by_cases hdvd : 8 ∣ s.xs * s.step - 1
    · rw [if_neg fun h => h.2 (Nat.mod_eq_zero_of_dvd hdvd), if_pos hdvd]
    · rw [if_pos ⟨rfl, fun hmod => hdvd (Nat.dvd_of_mod_eq_zero hmod)⟩, if_neg hdvd]

theorem bitAt_replicate {n i : Nat} {x : SaneByte} (h : i / 8 < n) :
    bitAt (List.replicate n x) i = x.getMsbD (i % 8) := by
  rw [bitAt, getD_replicate h]

theorem xs_le_lineBufferSize : s.xs ≤ s.lineBufferSize := by
  refine Nat.le_trans ?_ (@le_lineBufferSize s)
  rw [Nat.mul_assoc]
  exact Nat.le_mul_of_pos_right _
    (Nat.mul_pos (Nat.mul_pos colors_pos step_pos) width_pos)

theorem step_cases : s.interpolate = true ∧ s.step = 2 ∨ s.interpolate = false ∧ s.step = 1 := by
  cases h : s.interpolate with
  | false => exact .inr ⟨rfl, if_neg (by rw [h]; decide)⟩
  | true => exact .inl ⟨rfl, step_of_interpolate h⟩

/-- A line whose last bit is a right one. -/
theorem lineart_bits_determined {b : s.Buffers} {out : List SaneByte}
    (hbits : s.LineartBits line b.lineBuffer out)
    (hwhite : s.blackLevel < ((stored false line 0 0 : Nat) : Int))
    (hbegin : s.interpolate = false → ¬ 8 ∣ s.xs - 1) :
    (∀ k < s.xs, bitAt out (k * s.step) =
      decide (((stored false line (s.xs - 1 - k) 0 : Nat) : Int) ≤ s.blackLevel)) ∧
    bitAt out (s.xs * s.step - 1) = false := by
  have hpos := s.xs_pos
  have hlast : bitAt out (s.xs * s.step - 1) = false := by
    rw [hbits.last]
    rcases @step_cases s with ⟨_, hstep⟩ | ⟨hinter, hstep⟩
    · rw [hstep, if_neg (by omega)]
    · rw [hstep, Nat.mul_one, if_neg (hbegin hinter)]
  refine ⟨fun k hk => ?_, hlast⟩
  by_cases hlt : k * s.step < s.xs * s.step - 1
  · exact hbits.pixel k hlt
  · rcases @step_cases s with ⟨_, hstep⟩ | ⟨_, hstep⟩
    · rw [hstep] at hlt
      omega
    · rw [hstep, Nat.mul_one, Nat.mul_one] at hlt
      rw [hstep, Nat.mul_one] at hlast ⊢
      have hend : k = s.xs - 1 := by omega
      rw [hend, hlast, Nat.sub_self, decide_eq_false (by omega)]

theorem lineart_proper_iff (h : s.lineart = true) :
    s.LineProper line ↔ s.blackLevel < ((stored false line 0 0 : Nat) : Int) ∧
      (s.interpolate = false → ¬ 8 ∣ s.xs - 1) := by
  have hpos := s.xs_pos
  have hcomponent : ∀ out k j, s.component out k j = (bitAt out k).toNat :=
    fun out k j => if_pos h
  have hinput : ∀ i j, s.input line i j =
      (decide (((stored false line i j : Nat) : Int) ≤ s.blackLevel)).toNat :=
    fun i j => if_pos h
  have hcolors : s.colors = 1 := by rw [colors, (s.lineart_gray h).1, if_neg (by decide)]
  have hroom : (s.xs - 1) / 8 < s.lineBufferSize := by
    have hsize := @xs_le_lineBufferSize s
    omega
  constructor
  · intro hproper
    constructor
    · by_contra hblack
      obtain ⟨out, lineart, hrun, hbits⟩ := @lineart_ok s line h (s.buffersOf 0)
      obtain ⟨out', lineart', hrun', hpixels⟩ := hproper.pixels (s.buffersOf 0)
      rw [hrun] at hrun'
      cases hrun'
      have hlastPixel := hpixels (s.xs - 1) (by omega) 0 colors_pos
      rw [hcomponent, hinput, Nat.sub_self, decide_eq_true (by omega)] at hlastPixel
      rcases @step_cases s with ⟨hinter, hstep⟩ | ⟨_, hstep⟩
      · have hbetween := hproper.between _ _ _ hrun hinter (s.xs - 1) (by omega) 0 colors_pos
        have hlast := hbits.last
        have hindex : 2 * (s.xs - 1) + 1 = s.xs * s.step - 1 := by
          rw [hstep]
          omega
        rw [hstep, if_neg (by omega), ← hstep] at hlast
        rw [Nat.min_eq_right (by omega), Between, hcomponent, hcomponent, hindex, hlast,
          Nat.mul_comm 2, ← hstep, hlastPixel] at hbetween
        exact absurd hbetween.1 (by decide)
      · have hlast := hbits.last
        rw [hstep, Nat.mul_one, buffersOf, bitAt_replicate hroom] at hlast
        rw [hstep, Nat.mul_one, hlast] at hlastPixel
        split at hlastPixel
        · rw [show (0 : SaneByte).getMsbD ((s.xs - 1) % 8) = false from BitVec.getMsbD_zero]
            at hlastPixel
          exact absurd hlastPixel (by decide)
        · exact absurd hlastPixel (by decide)
    · intro hinter hdvd
      have hstep : s.step = 1 := if_neg (by rw [hinter]; decide)
      obtain ⟨out, lineart, hrun, hbits⟩ := @lineart_ok s line h (s.buffersOf 0)
      obtain ⟨out', lineart', hrun', hbits'⟩ := @lineart_ok s line h (s.buffersOf 0xff)
      have hsame := hproper.current _ _ _ _ _ _ hrun hrun' (s.xs - 1)
        (by rw [hstep]; omega) 0 colors_pos
      have hlast := hbits.last
      have hlast' := hbits'.last
      rw [hstep, Nat.mul_one, if_pos hdvd, buffersOf, bitAt_replicate hroom] at hlast hlast'
      rw [hcomponent, hcomponent, hlast, hlast', Nat.mod_eq_zero_of_dvd hdvd] at hsame
      exact absurd hsame (by decide)
  · rintro ⟨hwhite, hbegin⟩
    refine ⟨fun b => ?_, ?_, ?_⟩
    · obtain ⟨out, lineart, hrun, hbits⟩ := @lineart_ok s line h b
      obtain ⟨hpixels, _⟩ := lineart_bits_determined hbits hwhite hbegin
      refine ⟨out, lineart, hrun, fun k hk j hj => ?_⟩
      have hj0 : j = 0 := by omega
      rw [hcomponent, hinput, hpixels k hk, hj0]
    · intro b out lineart hrun hinter k hk j hj
      obtain ⟨out', lineart', hrun', hbits⟩ := @lineart_ok s line h b
      rw [hrun'] at hrun
      cases hrun
      obtain ⟨hpixels, hlast⟩ := lineart_bits_determined hbits hwhite hbegin
      have hstep := step_of_interpolate hinter
      rw [hstep] at hpixels hlast
      rw [hcomponent, hcomponent, hcomponent, Nat.mul_comm 2 k, hpixels k hk]
      by_cases hend : k + 1 < s.xs
      · rw [Nat.min_eq_left (by omega), Nat.mul_comm 2 (k + 1), hpixels (k + 1) hend,
          Nat.mul_comm k 2, hbits.gap hinter k hend]
        exact between_threshold _ _ _
      · have hk1 : k = s.xs - 1 := by omega
        have hindex : k * 2 + 1 = s.xs * 2 - 1 := by omega
        rw [hindex, hlast, Nat.min_eq_right (by omega), ← hk1, Nat.mul_comm 2 k, hpixels k hk, hk1,
          Nat.sub_self, decide_eq_false (by omega)]
        exact ⟨Nat.le_refl 0, Nat.le_refl 0⟩
    · intro b b' out lineart out' lineart' hrun hrun' k hk j hj
      obtain ⟨_, _, hrun₁, hbits⟩ := @lineart_ok s line h b
      obtain ⟨_, _, hrun₂, hbits'⟩ := @lineart_ok s line h b'
      rw [hrun₁] at hrun
      rw [hrun₂] at hrun'
      cases hrun
      cases hrun'
      obtain ⟨hpixels, hlast⟩ := lineart_bits_determined hbits hwhite hbegin
      obtain ⟨hpixels', hlast'⟩ := lineart_bits_determined hbits' hwhite hbegin
      rw [hcomponent, hcomponent]
      rcases @step_cases s with ⟨hinter, hstep⟩ | ⟨_, hstep⟩
      · rw [hstep] at hk hpixels hpixels' hlast hlast'
        -- the bit of a pixel, that of a gap, or the last one
        rcases Nat.even_or_odd' k with ⟨i, rfl | rfl⟩
        · rw [Nat.mul_comm, hpixels i (by omega), hpixels' i (by omega)]
        · by_cases hend : i + 1 < s.xs
          · rw [hbits.gap hinter i hend, hbits'.gap hinter i hend]
          · have hindex : 2 * i + 1 = s.xs * 2 - 1 := by omega
            rw [hindex, hlast, hlast']
      · rw [hstep, Nat.mul_one] at hk
        have hone := hpixels k hk
        have htwo := hpixels' k hk
        rw [hstep, Nat.mul_one] at hone htwo
        rw [hone, htwo]

/-- The output line is made of the current line alone, for every line and width, exactly in this
    case. -/
theorem lineProper_iff (s : Scan) (line : CurrentLine) : s.LineProper line ↔ s.LineFits line := by
  rw [LineFits]
  cases h : s.lineart with
  | false => exact samples_proper_iff h
  | true => exact lineart_proper_iff h

theorem eight_bits : (8 : Nat) = 8 ∨ (8 : Nat) = 16 := .inl rfl

/-- Two gray pixels with 1200 dpi. -/
def twoPixels : Scan where
  color := false
  depth := 8
  lineart := false
  ydpi := 1200
  isEpro := false
  blackLevel := 127
  xs := 2
  xs_pos := Nat.two_pos
  depth_cases := eight_bits
  lineart_gray := fun h => nomatch h

/-- The fourth output pixel is the one of the line before. -/
theorem last_pixel_left_over :
    (∀ b : twoPixels.Buffers, ∃ out lineart,
      twoPixels.copyScanLine (fun _ i => 257 * (10 + 20 * i)) b = .ok (out, lineart) ∧
        twoPixels.component out 0 0 = 30 ∧ twoPixels.component out 1 0 = 20 ∧
        twoPixels.component out 2 0 = 10 ∧
        twoPixels.component out 3 0 = twoPixels.component b.lineBuffer 3 0) ∧
      ¬ twoPixels.LineProper fun _ i => 257 * (10 + 20 * i) := by
  constructor
  · intro b
    obtain ⟨out, hrun, hcopied⟩ :=
      @samples_ok twoPixels (fun _ i => 257 * (10 + 20 * i)) rfl b
    exact ⟨out, _, hrun, hcopied.pixel 0 (by decide) 0 (by decide),
      hcopied.gap rfl 0 (by decide) 0 (by decide), hcopied.pixel 1 (by decide) 0 (by decide),
      hcopied.last rfl 0 (by decide)⟩
  · intro h
    have hinter := (samples_proper_iff rfl).mp h
    exact absurd hinter (by decide)

end Scan

end SaneBackends.ArtecLine
