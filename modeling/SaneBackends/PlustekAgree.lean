import SaneBackends.PlustekScaling
import Mathlib.Tactic.SplitIfs

/-!
# Plustek-USB: do the scaling functions agree

A scaling function should take each output pixel from its own source pixel, a gray line from colour
should be a channel of the colour line, and for equal resolutions the line should be the copied
one.  The functions for which this holds are the sound ones.
-/

namespace SaneBackends.PlustekLine

open FaultState LineWalk

variable {host : Host} {scan : ScanDef} {buf buf' : ScanBuf} {user : UserLine} {kind : LineKind}
  {c : Channel} {averages swap : Bool}

/-! ### Averaging inside the line -/

/-- What an averaging function leaves. -/
structure Averaged (scan : ScanDef) (buf buf' : ScanBuf) : Prop where
  length : buf'.length = buf.length
  same : scan.averages = false → buf' = buf

theorem averaged_of_ok {m : Except Fault ScanBuf}
    (h : scan.averages = true → ∃ buf', m = .ok buf' ∧ buf'.length = buf.length) :
    ∃ buf', (if scan.averages then m else .ok buf) = .ok buf' ∧ Averaged scan buf buf' := by
  cases hav : scan.averages with
  | false => exact ⟨buf, if_neg (by decide), rfl, fun _ => rfl⟩
  | true =>
    obtain ⟨buf', hrun, hlen⟩ := h hav
    refine ⟨buf', ?_, hlen, fun h => absurd (hav.symm.trans h) (by decide)⟩
    rw [if_pos rfl, hrun]

/-- The averaging functions for colour take the samples of a plane for interleaved ones. -/
def LineKind.AveragesInside (kind : LineKind) (averages : Bool) : Prop :=
  averages = true → kind ≠ .color16_2 ∧ kind ≠ .colorGray_2 ∧ kind ≠ .colorGray16_2

/-- The functions that average do not leave the line. -/
theorem prepareScale_ok (host : Host) (hinside : kind.AveragesInside scan.averages)
    (hline : kind.Holds scan buf) :
    ∃ buf', kind.prepareScale host scan buf = .ok buf' ∧ Averaged scan buf buf' := by
  have hlast := fun x (hx : x ∈ kind.starts scan) => hline x hx
  have hplane : ∀ {P : Prop}, kind = .color16_2 ∨ kind = .colorGray_2 ∨ kind = .colorGray16_2 →
      scan.averages = true → P := by
    intro P hk hav
    obtain ⟨h₁, h₂, h₃⟩ := hinside hav
    rcases hk with hk | hk | hk
    · exact absurd hk h₁
    · exact absurd hk h₂
    · exact absurd hk h₃
  cases kind with
  | color8 => exact averaged_of_ok fun _ => averageBytes_ok hlast
  | color8_2 => exact ⟨buf, rfl, rfl, fun _ => rfl⟩
  | color16 => exact averaged_of_ok fun _ => averageWords_ok hlast
  | color16_2 => exact averaged_of_ok fun hav => hplane (Or.inl rfl) hav
  | colorPseudo16 => exact averaged_of_ok fun _ => averageBytes_ok hlast
  | colorGray => exact averaged_of_ok fun _ => averageBytes_ok hlast
  | colorGray_2 => exact averaged_of_ok fun hav => hplane (Or.inr (Or.inl rfl)) hav
  | colorGray16 =>
    refine averaged_of_ok fun _ => averageBytes_ok fun x hx => ?_
    have hx := hlast x hx
    simp only [LineKind.stride, LineKind.width] at hx
    omega
  | colorGray16_2 => exact averaged_of_ok fun hav => hplane (Or.inr (Or.inr rfl)) hav
  | gray8 => exact averaged_of_ok fun _ => averageBytes_ok hlast
  | gray16 => exact averaged_of_ok fun _ => averageWords_ok hlast
  | grayPseudo16 => exact averaged_of_ok fun _ => averageBytes_ok hlast

theorem Averaged.holds (h : Averaged scan buf buf') (hline : kind.Holds scan buf) :
    kind.Holds scan buf' := fun x hx => h.length ▸ hline x hx

/-! ### What the functions should do -/

/-- The gray pixel of a channel. -/
def UserPixel.channel (c : Channel) : UserPixel → UserPixel
  | .gray v => .gray v
  | .rgb r g b => .gray (match c with | .red => r | .green => g | .blue => b)

/-- The channel is the chosen one, and `dwBytes` is what `usb_GetImageInfo` makes of `dwPixels` for
    a gray line. -/
structure LineKind.Fits (kind : LineKind) (scan : ScanDef) (c : Channel) : Prop where
  chooses : kind.Chooses scan c
  bytes : kind = .gray8 → scan.dwBytes = scan.dwPixels

/-- What is asked of a scaling function, for every content of the scan buffer and of the line of
    the user, which has `dwPixels` pixels. -/
structure ScalesRight (kind : LineKind) (host : Host) (scan : ScanDef) (c : Channel) : Prop where
  /-- No source pixel lies beyond the physical line. -/
  within : ∀ p < scan.dwPixels, p * usbGetScaler scan / scaler < scan.dwPhyPixels
  /-- The whole line is written, pixel `p` from source pixel `p * izoom / 1000`. -/
  sampled : ∀ (buf : ScanBuf) (user : UserLine), kind.Holds scan buf →
    user.length = scan.dwPixels →
    ∃ buf', kind.prepareScale host scan buf = .ok buf' ∧ Averaged scan buf buf' ∧
      kind.scale host scan buf user = .ok (buf', walked scan.backwards scan.dwPixels fun p =>
        kind.pixel host scan buf' (p * usbGetScaler scan / scaler))
  /-- A gray line from colour is a channel of the colour line. -/
  chosen : ∀ k ∈ kind.colour, ∀ (buf : ScanBuf) (user user' : UserLine), kind.Holds scan buf →
    user.length = scan.dwPixels → user'.length = scan.dwPixels →
    ∃ buf₁ buf₂ line, k.scale host scan buf user = .ok (buf₁, line) ∧
      kind.scale host scan buf user' = .ok (buf₂, line.map (UserPixel.channel c))
  /-- For equal resolutions the line is the copied one. -/
  copied : scan.userDpi = scan.phyDpi → ∀ (buf : ScanBuf) (user user' : UserLine),
    kind.Holds scan buf → user.length = scan.dwPixels → user'.length = scan.dwPixels →
    ∃ buf₁ buf₂ line, kind.scale host scan buf user = .ok (buf₁, line) ∧
      kind.duplicate host scan buf user' = .ok (buf₂, line)

/-- The functions that do so.  `swap` says that the host has the low byte first, `averages` that
    neighbouring pixels are averaged. -/
def LineKind.Sound (kind : LineKind) (c : Channel) (swap averages : Bool) : Prop :=
  match kind with
  | .color8 | .color8_2 | .colorGray | .gray8 | .gray16 | .grayPseudo16 => True
  | .color16 => swap = true
  | .colorGray16 => swap = true ∧ averages = false
  | .color16_2 | .colorGray_2 => averages = false
  | .colorGray16_2 => (c = .red → swap = true) ∧ averages = false
  | .colorPseudo16 => False

/-! ### The sound functions -/

theorem LineKind.Sound.readsOwn (h : kind.Sound c host.swap averages) : kind.ReadsOwn host c := by
  cases kind with
  | colorPseudo16 => exact h.elim
  | color16 => exact ⟨fun _ => h, nofun, nofun⟩
  | colorGray16 => exact ⟨fun _ => h.1, nofun, nofun⟩
  | colorGray16_2 => exact ⟨nofun, nofun, fun _ => h.1⟩
  | color8 => exact ⟨nofun, nofun, nofun⟩
  | color8_2 => exact ⟨nofun, nofun, nofun⟩
  | color16_2 => exact ⟨nofun, nofun, nofun⟩
  | colorGray => exact ⟨nofun, nofun, nofun⟩
  | colorGray_2 => exact ⟨nofun, nofun, nofun⟩
  | gray8 => exact ⟨nofun, nofun, nofun⟩
  | gray16 => exact ⟨nofun, nofun, nofun⟩
  | grayPseudo16 => exact ⟨nofun, nofun, nofun⟩

theorem LineKind.Sound.averagesInside (h : kind.Sound c swap averages) :
    kind.AveragesInside averages := by
  rintro rfl
  refine ⟨?_, ?_, ?_⟩
  · rintro rfl
    exact Bool.noConfusion (h : true = false)
  · rintro rfl
    exact Bool.noConfusion (h : true = false)
  · rintro rfl
    exact Bool.noConfusion h.2

/-- In front of the copying function the same is averaged. -/
theorem LineKind.Sound.prepareCopy_eq (h : kind.Sound c swap scan.averages) :
    kind.prepareCopy host scan buf = kind.prepareScale host scan buf := by
  have hnone : scan.averages = false →
      usbAverageColorWord host scan buf = usbAverageColorByte scan buf := by
    intro hav
    rw [usbAverageColorWord, usbAverageColorByte, if_neg (by rw [hav]; decide),
      if_neg (by rw [hav]; decide)]
  cases kind with
  | colorGray16 => exact hnone h.2
  | colorGray16_2 => exact hnone h.2
  | _ => rfl

/-! ### The colour function beside a function for gray from colour -/

section Colour

variable {k : LineKind} (hk : k ∈ kind.colour)

include hk

theorem pixel_channel (q : Nat) :
    kind.pixel host scan buf q = (k.pixel host scan buf q).channel scan.grayChannel := by
  cases kind with
  | colorGray =>
    cases hk
    simp only [LineKind.pixel, LineKind.value, LineKind.sample, UserPixel.channel, LineKind.stride]
    cases scan.grayChannel <;> rfl
  | colorGray_2 =>
    cases hk
    simp only [LineKind.pixel, LineKind.value, LineKind.sample, UserPixel.channel, LineKind.stride]
    cases scan.grayChannel <;> rfl
  | colorGray16 =>
    cases hk
    simp only [LineKind.pixel, LineKind.value, LineKind.sample, UserPixel.channel, LineKind.stride]
    cases scan.grayChannel <;> rfl
  | colorGray16_2 =>
    cases hk
    simp only [LineKind.pixel, LineKind.value, LineKind.sample, UserPixel.channel, LineKind.stride]
    cases scan.grayChannel <;> rfl
  | _ => cases hk

theorem holds_colour (h : kind.Holds scan buf) : k.Holds scan buf := by
  cases kind with
  | colorGray => cases hk; exact h
  | colorGray_2 => cases hk; exact h
  | colorGray16 => cases hk; exact h
  | colorGray16_2 => cases hk; exact h
  | _ => cases hk

theorem readsOwn_colour (h : kind.ReadsOwn host c) : k.ReadsOwn host c := by
  cases kind with
  | colorGray => cases hk; exact ⟨h.1, nofun, nofun⟩
  | colorGray_2 => cases hk; exact ⟨h.1, nofun, nofun⟩
  | colorGray16 => cases hk; exact ⟨h.1, nofun, nofun⟩
  | colorGray16_2 => cases hk; exact ⟨h.1, nofun, nofun⟩
  | _ => cases hk

/-- Both functions average the same, or nothing. -/
theorem prepareScale_colour (h : kind.Sound c swap scan.averages) :
    k.prepareScale host scan buf = kind.prepareScale host scan buf := by
  have hbyte : scan.averages = false → usbAverageColorByte scan buf = .ok buf :=
    fun hav => if_neg (by rw [hav]; decide)
  have hword : scan.averages = false → usbAverageColorWord host scan buf = .ok buf :=
    fun hav => if_neg (by rw [hav]; decide)
  cases kind with
  | colorGray => cases hk; rfl
  | colorGray_2 => cases hk; exact (hbyte h).symm
  | colorGray16 => cases hk; exact (hword h.2).trans (hbyte h.2).symm
  | colorGray16_2 => cases hk; exact (hword h.2).trans (hbyte h.2).symm
  | _ => cases hk

theorem chooses_colour : k.Chooses scan c := by
  intro h
  cases kind with
  | colorGray => cases hk; cases h
  | colorGray_2 => cases hk; cases h
  | colorGray16 => cases hk; cases h
  | colorGray16_2 => cases hk; cases h
  | _ => cases hk

end Colour

theorem chooses_code {k : LineKind} (hk : k ∈ kind.colour) (h : kind.Chooses scan c) :
    scan.grayChannel = c := by
  refine grayChannel_of_code (h ?_)
  rw [Option.mem_def.mp hk]
  rfl

/-- A sound function does what is asked of it. -/
theorem LineKind.Sound.scalesRight (h : kind.Sound c host.swap scan.averages)
    (hfits : kind.Fits scan c)
    (hpixels : scan.dwPixels ≤ scan.dwPhyPixels * scan.userDpi / scan.phyDpi) :
    ScalesRight kind host scan c := by
  have hpixels := (Nat.le_div_iff_mul_le scan.phyDpi_pos).mp hpixels
  have hin := fun p hp => source_lt (p := p) hpixels hp
  have hrun : ∀ (buf : ScanBuf) (user : UserLine), kind.Holds scan buf →
      user.length = scan.dwPixels →
      ∃ buf', kind.prepareScale host scan buf = .ok buf' ∧ Averaged scan buf buf' ∧
        kind.scale host scan buf user = .ok (buf', walked scan.backwards scan.dwPixels fun p =>
          kind.pixel host scan buf' (p * usbGetScaler scan / scaler)) := by
    intro buf user hline huser
    obtain ⟨buf', hprepare, hav⟩ := prepareScale_ok host h.averagesInside hline
    exact ⟨buf', hprepare, hav,
      scale_eq hfits.chooses h.readsOwn hprepare (hav.holds hline) hin huser⟩
  refine ⟨hin, hrun, ?_, ?_⟩
  · intro k hk buf user user' hline huser huser'
    obtain ⟨buf', hprepare, hav, hgray⟩ := hrun buf user' hline huser'
    refine ⟨buf', buf', _, scale_eq (chooses_colour hk) (readsOwn_colour hk h.readsOwn)
      ((prepareScale_colour hk h).trans hprepare) (holds_colour hk (hav.holds hline)) hin huser, ?_⟩
    have hchannel : ∀ q, kind.pixel host scan buf' q = (k.pixel host scan buf' q).channel c := by
      intro q
      rw [pixel_channel hk, chooses_code hk hfits.chooses]
    rw [hgray, map_walked]
    simp only [hchannel]
  · intro hdpi buf user user' hline huser huser'
    obtain ⟨buf', hprepare, hav, hscale⟩ := hrun buf user hline huser
    have hle : scan.dwPixels ≤ scan.dwPhyPixels := by
      rw [hdpi] at hpixels
      exact Nat.le_of_mul_le_mul_right hpixels scan.phyDpi_pos
    refine ⟨buf', buf', _, hscale, ?_⟩
    rw [copy_eq hfits.chooses h.readsOwn.1 (h.prepareCopy_eq.trans hprepare) (hav.holds hline) hle
      hfits.bytes huser']
    have hsource : ∀ p, p * usbGetScaler scan / scaler = p := by
      intro p
      rw [usbGetScaler_eq hdpi, Nat.mul_div_cancel p (by decide)]
    simp only [hsource]

/-! ### The functions that are not sound -/

/-- Two pixels at equal resolutions, from a negative or not. -/
def equalScan (averages : Bool) (c : Channel) (red green blue : Nat) : ScanDef where
  bSource := if averages then .negative else .reflection
  phyDpi := 1200
  userDpi := 1200
  dwPixels := 2
  dwPhyPixels := 2
  dwBytes := 2
  rightAlign := false
  fGrayFromColor := c.code
  red := red
  green := green
  blue := blue
  phyDpi_pos := by decide
  phyDpi_lt := by decide
  userDpi_pos := by decide
  dwPhyPixels_pos := Nat.two_pos

/-- A line of the user with two pixels. -/
def blankLine : UserLine := [.gray 0, .gray 0]

theorem averages_equalScan {red green blue : Nat} :
    (equalScan averages c red green blue).averages = averages := by
  cases averages <;> rfl

theorem fits_equalScan {red green blue : Nat} :
    kind.Fits (equalScan averages c red green blue) c :=
  ⟨fun _ => rfl, fun _ => rfl⟩

theorem ScalesRight.line_eq (h : ScalesRight kind host scan c) (buf : ScanBuf)
    (user : UserLine) (hline : kind.Holds scan buf)
    (huser : user.length = scan.dwPixels) :
    (kind.scale host scan buf user).toOption.map Prod.snd
      = (kind.prepareScale host scan buf).toOption.map fun buf' =>
          walked scan.backwards scan.dwPixels fun p =>
            kind.pixel host scan buf' (p * usbGetScaler scan / scaler) := by
  obtain ⟨buf', hprepare, -, hrun⟩ := h.sampled buf user hline huser
  rw [hprepare, hrun]
  rfl

theorem ScalesRight.copy_eq (h : ScalesRight kind host scan c) (buf : ScanBuf)
    (user : UserLine) (hdpi : scan.userDpi = scan.phyDpi) (hline : kind.Holds scan buf)
    (huser : user.length = scan.dwPixels) :
    (kind.scale host scan buf user).toOption.map Prod.snd
      = (kind.duplicate host scan buf user).toOption.map Prod.snd := by
  obtain ⟨buf₁, buf₂, line, hscale, hcopy⟩ := h.copied hdpi buf user user hline huser huser
  rw [hscale, hcopy]
  rfl

theorem ScalesRight.copy_ok (h : ScalesRight kind host scan c) (buf : ScanBuf)
    (user : UserLine) (hdpi : scan.userDpi = scan.phyDpi) (hline : kind.Holds scan buf)
    (huser : user.length = scan.dwPixels) :
    (kind.duplicate host scan buf user).toOption.isSome = true := by
  obtain ⟨buf₁, buf₂, line, -, hcopy⟩ := h.copied hdpi buf user user hline huser huser
  rw [hcopy]
  rfl

instance : Decidable (kind.Holds scan buf) :=
  inferInstanceAs (Decidable (∀ x ∈ kind.starts scan, _))

/-- What the other functions do to two pixels that are only copied. -/
theorem not_right_of_not_sound (h : ¬ kind.Sound c swap averages) : ∃ red green blue,
    ¬ ScalesRight kind ⟨swap, 0, 0⟩ (equalScan averages c red green blue) c := by
  let words : ScanBuf := [10, 0, 20, 0, 30, 0, 40, 0, 50, 0, 60, 0]
  cases kind with
  | colorPseudo16 =>
    -- the first pixel of the scaled line is made of other channels, too
    refine ⟨0, 1, 2, fun hright => ?_⟩
    have heq := hright.copy_eq [0, 0, 10, 0, 0, 10] blankLine rfl
      (by cases c <;> cases averages <;> decide) rfl
    revert heq
    cases c <;> cases averages <;> cases swap <;> decide +kernel
  | color16 =>
    -- the word behind the first one of red is taken for the second one
    obtain rfl := Bool.eq_false_of_not_eq_true h
    refine ⟨0, 2, 4, fun hright => ?_⟩
    have heq := hright.line_eq words blankLine (by cases c <;> cases averages <;> decide) rfl
    revert heq
    cases c <;> cases averages <;> decide +kernel
  | color16_2 =>
    -- the averaging functions leave the last plane
    obtain rfl := Bool.eq_true_of_not_eq_false h
    refine ⟨0, 4, 8, fun hright => ?_⟩
    have hok := hright.copy_ok (List.replicate 12 0) blankLine rfl (by cases c <;> decide) rfl
    revert hok
    cases c <;> cases swap <;> decide +kernel
  | colorGray_2 =>
    obtain rfl := Bool.eq_true_of_not_eq_false h
    refine ⟨0, 2, 4, fun hright => ?_⟩
    have hok := hright.copy_ok (List.replicate 6 0) blankLine rfl (by cases c <;> decide) rfl
    revert hok
    cases c <;> cases swap <;> decide +kernel
  | colorGray16 =>
    refine ⟨0, 2, 4, fun hright => ?_⟩
    cases averages with
    | true =>
      -- the scaling function averages bytes, the copying one words
      have heq := hright.copy_eq words blankLine rfl (by cases c <;> decide) rfl
      revert heq
      cases c <;> cases swap <;> decide +kernel
    | false =>
      obtain rfl := Bool.eq_false_of_not_eq_true fun hswap => h ⟨hswap, rfl⟩
      have heq := hright.line_eq words blankLine (by cases c <;> decide) rfl
      revert heq
      cases c <;> decide +kernel
  | colorGray16_2 =>
    refine ⟨0, 4, 8, fun hright => ?_⟩
    cases averages with
    | true =>
      have hok := hright.copy_ok (List.replicate 12 0) blankLine rfl (by cases c <;> decide) rfl
      revert hok
      cases c <;> cases swap <;> decide +kernel
    | false =>
      -- the number of the pixels left is taken for the index of red
      obtain ⟨rfl, hswap⟩ := Classical.not_imp.mp fun hred => h ⟨hred, rfl⟩
      obtain rfl := Bool.eq_false_of_not_eq_true hswap
      have heq := hright.line_eq words blankLine (by decide) rfl
      revert heq
      decide +kernel
  | _ => exact absurd trivial h

/-- For every line and all resolutions, exactly the sound functions do what is asked of them. -/
theorem scalesRight_iff_sound (kind : LineKind) (c : Channel) (swap averages : Bool) :
    (∀ (host : Host) (scan : ScanDef), host.swap = swap → scan.averages = averages →
      kind.Fits scan c → scan.dwPixels ≤ scan.dwPhyPixels * scan.userDpi / scan.phyDpi →
      ScalesRight kind host scan c) ↔ kind.Sound c swap averages := by
  constructor
  · intro h
    by_contra hsound
    obtain ⟨red, green, blue, hright⟩ := not_right_of_not_sound hsound
    exact hright (h ⟨swap, 0, 0⟩ (equalScan averages c red green blue) rfl averages_equalScan
      fits_equalScan (show 2 ≤ 2 * 1200 / 1200 by decide))
  · rintro h host scan rfl rfl hfits hpixels
    exact h.scalesRight hfits hpixels

/-- Two pixels out of four, from 600 to 300 dpi. -/
def halfScan : ScanDef where
  bSource := .reflection
  phyDpi := 600
  userDpi := 300
  dwPixels := 2
  dwPhyPixels := 4
  dwBytes := 6
  rightAlign := false
  fGrayFromColor := 0
  red := 0
  green := 1
  blue := 2
  phyDpi_pos := by decide
  phyDpi_lt := by decide
  userDpi_pos := by decide
  dwPhyPixels_pos := by decide

/-- A line that is blue all over: the first pixel has green in it. -/
theorem pseudo16_blue_line_has_green :
    LineKind.colorPseudo16.Fits halfScan .green ∧
    halfScan.dwPixels ≤ halfScan.dwPhyPixels * halfScan.userDpi / halfScan.phyDpi ∧
    (usbColorScalePseudo16 ⟨true, 2, 7⟩ halfScan [0, 0, 10, 0, 0, 10, 0, 0, 10, 0, 0, 10]
      blankLine).toOption.map Prod.snd = some [.rgb 0 1280 1280, .rgb 0 0 2560] ∧
    ¬ ScalesRight .colorPseudo16 ⟨true, 2, 7⟩ halfScan .green := by
  refine ⟨⟨nofun, nofun⟩, by decide, by decide +kernel, fun h => ?_⟩
  have heq := h.line_eq [0, 0, 10, 0, 0, 10, 0, 0, 10, 0, 0, 10] blankLine (by decide) rfl
  revert heq
  decide +kernel

end SaneBackends.PlustekLine
