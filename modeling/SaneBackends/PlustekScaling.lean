import SaneBackends.PlustekSampling

/-!
# Plustek-USB: the scaled lines

For each pair of functions: where the samples of a source pixel lie, what a pixel of the user is
made of, and the lines that the two functions leave.
-/

namespace SaneBackends.PlustekLine

open FaultState LineWalk

variable {host : Host} {scan : ScanDef} {buf buf' : ScanBuf} {user : UserLine} {kind : LineKind}

/-! ### The layout of the physical line -/

/-- Bytes from a sample to the next one of its channel. -/
def LineKind.stride : LineKind → Nat
  | .color8 | .colorPseudo16 | .colorGray => 3
  | .color16 | .colorGray16 => 6
  | .color16_2 | .colorGray16_2 | .gray16 => 2
  | .color8_2 | .colorGray_2 | .gray8 | .grayPseudo16 => 1

/-- Bytes of a sample. -/
def LineKind.width : LineKind → Nat
  | .color16 | .colorGray16 | .color16_2 | .colorGray16_2 | .gray16 => 2
  | _ => 1

/-- The channels of the physical line. -/
def LineKind.starts (scan : ScanDef) : LineKind → List Nat
  | .gray8 | .gray16 | .grayPseudo16 => [scan.green]
  | _ => [scan.red, scan.green, scan.blue]

/-- The buffer holds the physical line; nothing is known of what lies behind. -/
def LineKind.Holds (kind : LineKind) (scan : ScanDef) (buf : ScanBuf) : Prop :=
  ∀ x ∈ kind.starts scan, x + kind.stride * (scan.dwPhyPixels - 1) + kind.width ≤ buf.length

/-- The sample of source pixel `q` of the channel that begins at byte `x`.  The functions for gray
    words read the low byte first on a host that does not swap. -/
def LineKind.sample (kind : LineKind) (host : Host) (scan : ScanDef) (buf : ScanBuf) (x q : Nat) :
    Nat :=
  match kind with
  | .color16 | .colorGray16 | .color16_2 | .colorGray16_2 =>
    wordOf buf (x + kind.stride * q) >>> scan.ls host
  | .gray16 =>
    (if host.swap then wordOf buf (x + kind.stride * q)
      else byteOf buf (x + kind.stride * q + 1) * 256 + byteOf buf (x + kind.stride * q))
      >>> scan.ls host
  | _ => byteOf buf (x + kind.stride * q)

/-- What the sample becomes.  The pseudo 16 bit functions add the source pixel before it, the first
    one to itself. -/
def LineKind.value (kind : LineKind) (host : Host) (scan : ScanDef) (buf : ScanBuf) (x q : Nat) :
    Nat :=
  match kind with
  | .colorPseudo16 | .grayPseudo16 =>
    pseudo host (kind.sample host scan buf x (q - 1)) (kind.sample host scan buf x q)
  | _ => kind.sample host scan buf x q

/-- The pixel of the user that is made of source pixel `q`. -/
def LineKind.pixel (kind : LineKind) (host : Host) (scan : ScanDef) (buf : ScanBuf) (q : Nat) :
    UserPixel :=
  match kind with
  | .gray8 | .gray16 | .grayPseudo16 => .gray (kind.value host scan buf scan.green q)
  | .colorGray | .colorGray_2 | .colorGray16 | .colorGray16_2 =>
    .gray (kind.value host scan buf (scan.start scan.grayChannel) q)
  | _ => .rgb (kind.value host scan buf scan.red q) (kind.value host scan buf scan.green q)
      (kind.value host scan buf scan.blue q)

/-- The functions for colour beside the functions that take a gray line from colour. -/
def LineKind.colour : LineKind → Option LineKind
  | .colorGray => some .color8
  | .colorGray_2 => some .color8_2
  | .colorGray16 => some .color16
  | .colorGray16_2 => some .color16_2
  | _ => none

/-! ### Reading one source pixel -/

theorem pb_eq {x q : Nat} (h : x + 1 * q < buf.length) :
    pb buf x q = .ok (byteOf buf (x + 1 * q)) := by
  rw [Nat.one_mul] at h ⊢
  exact byteAt_eq h

theorem colorWord_eq (hswap : host.swap = true) {x q : Nat} (h : x + 6 * q + 1 < buf.length) :
    colorWord host scan buf x q = .ok (wordOf buf (x + 6 * q) >>> scan.ls host) := by
  rw [colorWord, if_pos hswap, pcw, hiLoWord_eq h]
  rfl

/-- Both byte orders read the word with the high byte first. -/
theorem planeWord_eq {x q : Nat} (h : x + 2 * q + 1 < buf.length) :
    planeWord host scan buf x q = .ok (wordOf buf (x + 2 * q) >>> scan.ls host) := by
  rw [planeWord]
  split
  · rw [philo, hiLoWord_eq h]
    rfl
  · rename_i hswap
    rw [pw, hostWord, if_neg hswap, hiLoWord_eq h]
    rfl

theorem grayWord_eq {q : Nat} (h : scan.green + 2 * q + 1 < buf.length) :
    grayWord host scan buf q = .ok ((if host.swap then wordOf buf (scan.green + 2 * q)
      else byteOf buf (scan.green + 2 * q + 1) * 256 + byteOf buf (scan.green + 2 * q))
      >>> scan.ls host) := by
  rw [grayWord]
  split
  · rw [philo, hiLoWord_eq h]
    rfl
  · rw [loHiWord_eq h]
    rfl

/-- A sample of the line lies in the buffer. -/
theorem LineKind.Holds.sample_le (h : kind.Holds scan buf) {x q : Nat} (hx : x ∈ kind.starts scan)
    (hq : q < scan.dwPhyPixels) : x + kind.stride * q + kind.width ≤ buf.length := by
  have hle : kind.stride * q ≤ kind.stride * (scan.dwPhyPixels - 1) :=
    Nat.mul_le_mul_left _ (Nat.le_sub_one_of_lt hq)
  have hx := h x hx
  omega

theorem start_mem (c : Channel) : scan.start c ∈ [scan.red, scan.green, scan.blue] := by
  cases c <;> simp [ScanDef.start]

/-- How the functions read a sample. -/
def LineKind.load (kind : LineKind) (host : Host) (scan : ScanDef) (buf : ScanBuf) (x q : Nat) :
    Except Fault Nat :=
  match kind with
  | .color8 | .colorPseudo16 | .colorGray => pcb buf x q 0
  | .color8_2 | .colorGray_2 | .gray8 | .grayPseudo16 => pb buf x q
  | .color16 | .colorGray16 => colorWord host scan buf x q
  | .color16_2 | .colorGray16_2 => planeWord host scan buf x q
  | .gray16 => grayWord host scan buf q

/-- The functions for interleaved words read the words of other channels, too, on a host that does
    not swap. -/
def LineKind.LoadsOwn (kind : LineKind) (host : Host) : Prop :=
  kind.stride = 6 → host.swap = true

theorem LineKind.load_eq (hown : kind.LoadsOwn host) (h : kind.Holds scan buf) {x q : Nat}
    (hx : x ∈ kind.starts scan) (hq : q < scan.dwPhyPixels) :
    kind.load host scan buf x q = .ok (kind.sample host scan buf x q) := by
  have hle := h.sample_le hx hq
  cases kind with
  | color8 => exact byteAt_eq hle
  | colorPseudo16 => exact byteAt_eq hle
  | colorGray => exact byteAt_eq hle
  | color8_2 => exact pb_eq hle
  | colorGray_2 => exact pb_eq hle
  | gray8 => exact pb_eq hle
  | grayPseudo16 => exact pb_eq hle
  | color16 => exact colorWord_eq (hown rfl) hle
  | colorGray16 => exact colorWord_eq (hown rfl) hle
  | color16_2 => exact planeWord_eq hle
  | colorGray16_2 => exact planeWord_eq hle
  | gray16 =>
    obtain rfl : x = scan.green := List.mem_singleton.mp hx
    exact grayWord_eq hle

/-- The pixel of a colour line. -/
theorem rgb_load (hown : kind.LoadsOwn host) (h : kind.Holds scan buf)
    (hstarts : kind.starts scan = [scan.red, scan.green, scan.blue]) {q : Nat}
    (hq : q < scan.dwPhyPixels) :
    rgbOf scan (fun x => kind.load host scan buf x q)
      = .ok (.rgb (kind.sample host scan buf scan.red q) (kind.sample host scan buf scan.green q)
          (kind.sample host scan buf scan.blue q)) := by
  have hload := fun x hx => LineKind.load_eq (x := x) hown h hx hq
  rw [hstarts] at hload
  rw [rgbOf, hload scan.red (start_mem .red), ok_bind, hload scan.green (start_mem .green),
    ok_bind, hload scan.blue (start_mem .blue), ok_bind]
  rfl

/-- The pixel of a gray line. -/
theorem gray_load (hown : kind.LoadsOwn host) (h : kind.Holds scan buf) {x q : Nat}
    (hx : x ∈ kind.starts scan) (hq : q < scan.dwPhyPixels) :
    grayOf (kind.load host scan buf x q) = .ok (.gray (kind.sample host scan buf x q)) := by
  rw [grayOf, LineKind.load_eq hown h hx hq]
  rfl

/-! ### The lines -/

/-- The averaging in front of the function that scales. -/
def LineKind.prepareScale (kind : LineKind) (host : Host) (scan : ScanDef) (buf : ScanBuf) :
    Except Fault ScanBuf :=
  match kind with
  | .color8_2 => .ok buf
  | .color16 | .color16_2 => usbAverageColorWord host scan buf
  | .gray8 | .grayPseudo16 => usbAverageGrayByte scan buf
  | .gray16 => usbAverageGrayWord host scan buf
  | _ => usbAverageColorByte scan buf

/-- The averaging in front of the function that copies. -/
def LineKind.prepareCopy (kind : LineKind) (host : Host) (scan : ScanDef) (buf : ScanBuf) :
    Except Fault ScanBuf :=
  match kind with
  | .colorGray16 | .colorGray16_2 => usbAverageColorWord host scan buf
  | _ => kind.prepareScale host scan buf

/-- The function that scales reads the samples of its source pixel. -/
def LineKind.ReadsOwn (kind : LineKind) (host : Host) (c : Channel) : Prop :=
  kind.LoadsOwn host ∧ kind ≠ .colorPseudo16 ∧
    (kind = .colorGray16_2 → c = .red → host.swap = true)

theorem scaleGray16Word_eq {c : Channel} (hred : c = .red → host.swap = true) (q dw : Nat) :
    scaleGray16Word host scan buf c q dw = planeWord host scan buf (scan.start c) q := by
  rw [scaleGray16Word, if_neg]
  intro h
  simp only [Bool.and_eq_true, decide_eq_true_eq, Bool.not_eq_true'] at h
  rw [hred h.1] at h
  exact absurd h.2 (by decide)

/-- The function for a gray line from colour is asked for channel `c`. -/
def LineKind.Chooses (kind : LineKind) (scan : ScanDef) (c : Channel) : Prop :=
  kind.colour.isSome = true → scan.fGrayFromColor = c.code

theorem grayCase_of_code {c : Channel} (h : scan.fGrayFromColor = c.code) :
    scan.grayCase = some c := by
  rw [ScanDef.grayCase, h]
  cases c <;> rfl

theorem grayChannel_of_code {c : Channel} (h : scan.fGrayFromColor = c.code) :
    scan.grayChannel = c := by
  rw [ScanDef.grayChannel, h]
  cases c <;> rfl

variable {c : Channel}

/-- The line that the scaling function leaves. -/
theorem scale_eq (hchoose : kind.Chooses scan c) (hown : kind.ReadsOwn host c)
    (hprepare : kind.prepareScale host scan buf = .ok buf') (hline : kind.Holds scan buf')
    (hin : ∀ p < scan.dwPixels, p * usbGetScaler scan / scaler < scan.dwPhyPixels)
    (huser : user.length = scan.dwPixels) :
    kind.scale host scan buf user = .ok (buf', walked scan.backwards scan.dwPixels fun p =>
      kind.pixel host scan buf' (p * usbGetScaler scan / scaler)) := by
  obtain ⟨hload, hpseudo, hred⟩ := hown
  have hrgb := fun hstarts q (hq : q < scan.dwPhyPixels) (_ : Nat) =>
    rgb_load hload hline hstarts hq
  have hgray := fun x hx q (hq : q < scan.dwPhyPixels) (_ : Nat) =>
    gray_load (x := x) hload hline hx hq
  cases kind with
  | color8 =>
    have hpixel : ∀ q < scan.dwPhyPixels, ∀ _ : Nat, (rgbOf scan fun x => pcb buf' x q 0)
      = .ok (LineKind.color8.pixel host scan buf' q) := hrgb rfl
    replace hprepare : usbAverageColorByte scan buf = .ok buf' := hprepare
    rw [LineKind.scale, usbColorScale8, hprepare, ok_bind, scaleLine_eq hin hpixel huser]
    rfl
  | color8_2 =>
    have hpixel : ∀ q < scan.dwPhyPixels, ∀ _ : Nat, (rgbOf scan fun x => pb buf' x q)
      = .ok (LineKind.color8_2.pixel host scan buf' q) := hrgb rfl
    cases hprepare
    rw [LineKind.scale, usbColorScale8_2, scaleLine_eq hin hpixel huser]
    rfl
  | color16 =>
    have hpixel : ∀ q < scan.dwPhyPixels, ∀ _ : Nat,
      (rgbOf scan fun x => colorWord host scan buf' x q)
        = .ok (LineKind.color16.pixel host scan buf' q) := hrgb rfl
    replace hprepare : usbAverageColorWord host scan buf = .ok buf' := hprepare
    rw [LineKind.scale, usbColorScale16, hprepare, ok_bind, scaleLine_eq hin hpixel huser]
    rfl
  | color16_2 =>
    have hpixel : ∀ q < scan.dwPhyPixels, ∀ _ : Nat,
      (rgbOf scan fun x => planeWord host scan buf' x q)
        = .ok (LineKind.color16_2.pixel host scan buf' q) := hrgb rfl
    replace hprepare : usbAverageColorWord host scan buf = .ok buf' := hprepare
    rw [LineKind.scale, usbColorScale16_2, hprepare, ok_bind, scaleLine_eq hin hpixel huser]
    rfl
  | colorPseudo16 => exact absurd rfl hpseudo
  | colorGray =>
    have hpixel : ∀ q < scan.dwPhyPixels, ∀ _ : Nat,
      grayOf (pcb buf' (scan.start scan.grayChannel) q 0)
        = .ok (LineKind.colorGray.pixel host scan buf' q) := hgray _ (start_mem _)
    replace hprepare : usbAverageColorByte scan buf = .ok buf' := hprepare
    rw [LineKind.scale, usbColorScaleGray, hprepare, ok_bind, scaleLine_eq hin hpixel huser]
    rfl
  | colorGray_2 =>
    have hpixel : ∀ q < scan.dwPhyPixels, ∀ _ : Nat,
      grayOf (pb buf' (scan.start scan.grayChannel) q)
        = .ok (LineKind.colorGray_2.pixel host scan buf' q) := hgray _ (start_mem _)
    replace hprepare : usbAverageColorByte scan buf = .ok buf' := hprepare
    rw [LineKind.scale, usbColorScaleGray_2, hprepare, ok_bind, scaleLine_eq hin hpixel huser]
    rfl
  | colorGray16 =>
    have hpixel : ∀ q < scan.dwPhyPixels, ∀ _ : Nat,
        grayOf (colorWord host scan buf' (scan.start c) q)
          = .ok (LineKind.colorGray16.pixel host scan buf' q) := by
      rw [← grayChannel_of_code (hchoose rfl)]
      exact hgray _ (start_mem _)
    replace hprepare : usbAverageColorByte scan buf = .ok buf' := hprepare
    rw [LineKind.scale, usbColorScaleGray16, hprepare, ok_bind, grayCase_of_code (hchoose rfl)]
    simp only [scaleLine_eq hin hpixel huser]
    rfl
  | colorGray16_2 =>
    have hpixel : ∀ q < scan.dwPhyPixels, ∀ dw,
        grayOf (scaleGray16Word host scan buf' c q dw)
          = .ok (LineKind.colorGray16_2.pixel host scan buf' q) := by
      intro q hq dw
      rw [scaleGray16Word_eq (hred rfl), ← grayChannel_of_code (hchoose rfl)]
      exact hgray _ (start_mem _) q hq dw
    replace hprepare : usbAverageColorByte scan buf = .ok buf' := hprepare
    rw [LineKind.scale, usbColorScaleGray16_2, hprepare, ok_bind, grayCase_of_code (hchoose rfl)]
    simp only [scaleLine_eq hin hpixel huser]
    rfl
  | gray8 =>
    have hpixel : ∀ q < scan.dwPhyPixels, ∀ _ : Nat, grayOf (pb buf' scan.green q)
      = .ok (LineKind.gray8.pixel host scan buf' q) := hgray _ List.mem_cons_self
    replace hprepare : usbAverageGrayByte scan buf = .ok buf' := hprepare
    rw [LineKind.scale, usbGrayScale8, hprepare, ok_bind, scaleLine_eq hin hpixel huser]
    rfl
  | gray16 =>
    have hpixel : ∀ q < scan.dwPhyPixels, ∀ _ : Nat, grayOf (grayWord host scan buf' q)
      = .ok (LineKind.gray16.pixel host scan buf' q) := hgray _ List.mem_cons_self
    replace hprepare : usbAverageGrayWord host scan buf = .ok buf' := hprepare
    rw [LineKind.scale, usbGrayScale16, hprepare, ok_bind, scaleLine_eq hin hpixel huser]
    rfl
  | grayPseudo16 =>
    have hpb : ∀ q < scan.dwPhyPixels, pb buf' scan.green q
      = .ok (LineKind.grayPseudo16.sample host scan buf' scan.green q) :=
        fun q hq => LineKind.load_eq hload hline List.mem_cons_self hq
    replace hprepare : usbAverageGrayByte scan buf = .ok buf' := hprepare
    rw [LineKind.scale, usbGrayScalePseudo16, hprepare, ok_bind, hpb 0 scan.dwPhyPixels_pos,
      ok_bind, @scaleKeeping_eq scan user Nat (LineKind.grayPseudo16.pixel host scan buf')
        (fun q => LineKind.grayPseudo16.sample host scan buf' scan.green (q - 1)) _ _
        scan.dwPhyPixels hin (fun q hq _ => by rw [hpb q hq]; rfl) (fun q hq => hpb q hq) huser]
    rfl

/-- `memcpy` of a whole gray line. -/
theorem copyBytes_eq {x n : Nat} (hline : x + n ≤ buf.length) (huser : user.length = n) :
    copyBytes buf x n user = .ok ((List.range n).map fun q => .gray (byteOf buf (x + q))) := by
  have hcells : (Overwrite.stretch buf x n).map (fun v => UserPixel.gray v.toNat)
      = (List.range n).map fun q => .gray (byteOf buf (x + q)) := by
    refine List.ext_getElem? fun q => ?_
    rw [List.getElem?_map, List.getElem?_map, Overwrite.stretch, List.getElem?_take]
    by_cases hq : q < n
    · have hlt : x + q < buf.length := by omega
      have hbyte : byteOf buf (x + q) = buf[x + q].toNat := by
        rw [byteOf, List.getD_eq_getElem?_getD, List.getElem?_eq_getElem hlt, Option.getD_some]
      rw [if_pos hq, List.getElem?_drop, List.getElem?_range hq, List.getElem?_eq_getElem hlt,
        Option.map_some, Option.map_some, hbyte]
    · rw [if_neg hq, List.getElem?_eq_none (by rw [List.length_range]; omega)]
      rfl
  have hlen : ((List.range n).map fun q => UserPixel.gray (byteOf buf (x + q))).length = n := by
    rw [List.length_map, List.length_range]
  rw [copyBytes, loadCells, if_pos hline, ok_bind, hcells, storeCells,
    if_pos (by rw [hlen, huser, Nat.zero_add]), Overwrite.overwrite, List.take_zero,
    List.nil_append, List.drop_eq_nil_of_le (by rw [hlen, huser, Nat.zero_add]), List.append_nil]

/-- What is kept behind the source pixels of a pseudo 16 bit line in colour. -/
def pseudoKept (host : Host) (scan : ScanDef) (buf : ScanBuf) (q : Nat) : Nat × Nat × Nat :=
  (LineKind.colorPseudo16.sample host scan buf scan.red (q - 1),
    LineKind.colorPseudo16.sample host scan buf scan.green (q - 1),
    LineKind.colorPseudo16.sample host scan buf scan.blue (q - 1))

/-- The line that the copying function leaves. -/
theorem copy_eq (hchoose : kind.Chooses scan c) (hown : kind.LoadsOwn host)
    (hprepare : kind.prepareCopy host scan buf = .ok buf') (hline : kind.Holds scan buf')
    (hin : scan.dwPixels ≤ scan.dwPhyPixels)
    (hbytes : kind = .gray8 → scan.dwBytes = scan.dwPixels)
    (huser : user.length = scan.dwPixels) :
    kind.duplicate host scan buf user
      = .ok (buf', walked scan.backwards scan.dwPixels (kind.pixel host scan buf')) := by
  have hrgb := fun hstarts q (hq : q < scan.dwPixels) =>
    rgb_load hown hline hstarts (Nat.lt_of_lt_of_le hq hin)
  have hgray := fun x hx q (hq : q < scan.dwPixels) =>
    gray_load (x := x) hown hline hx (Nat.lt_of_lt_of_le hq hin)
  cases kind with
  | color8 =>
    have hpixel : ∀ q < scan.dwPixels, (rgbOf scan fun x => pcb buf' x q 0)
      = .ok (LineKind.color8.pixel host scan buf' q) := hrgb rfl
    replace hprepare : usbAverageColorByte scan buf = .ok buf' := hprepare
    rw [LineKind.duplicate, usbColorDuplicate8, hprepare, ok_bind, copyLine_eq hpixel huser]
    rfl
  | color8_2 =>
    have hpixel : ∀ q < scan.dwPixels, (rgbOf scan fun x => pb buf' x q)
      = .ok (LineKind.color8_2.pixel host scan buf' q) := hrgb rfl
    cases hprepare
    rw [LineKind.duplicate, usbColorDuplicate8_2, copyLine_eq hpixel huser]
    rfl
  | color16 =>
    have hpixel : ∀ q < scan.dwPixels, (rgbOf scan fun x => colorWord host scan buf' x q)
      = .ok (LineKind.color16.pixel host scan buf' q) := hrgb rfl
    replace hprepare : usbAverageColorWord host scan buf = .ok buf' := hprepare
    rw [LineKind.duplicate, usbColorDuplicate16, hprepare, ok_bind, copyLine_eq hpixel huser]
    rfl
  | color16_2 =>
    have hpixel : ∀ q < scan.dwPixels, (rgbOf scan fun x => planeWord host scan buf' x q)
      = .ok (LineKind.color16_2.pixel host scan buf' q) := hrgb rfl
    replace hprepare : usbAverageColorWord host scan buf = .ok buf' := hprepare
    rw [LineKind.duplicate, usbColorDuplicate16_2, hprepare, ok_bind, copyLine_eq hpixel huser]
    rfl
  | colorPseudo16 =>
    have hpcb : ∀ x ∈ [scan.red, scan.green, scan.blue], ∀ q < scan.dwPhyPixels,
      pcb buf' x q 0 = .ok (LineKind.colorPseudo16.sample host scan buf' x q) :=
        fun x hx q hq => LineKind.load_eq hown hline hx hq
    have hkeep : ∀ q < scan.dwPixels,
        pseudoKeep scan buf' q = .ok (pseudoKept host scan buf' (q + 1)) := by
      intro q hq
      have hq := Nat.lt_of_lt_of_le hq hin
      rw [pseudoKeep, hpcb scan.red (start_mem .red) q hq, ok_bind,
        hpcb scan.green (start_mem .green) q hq, ok_bind, hpcb scan.blue (start_mem .blue) q hq,
        ok_bind]
      rfl
    have hpixel : ∀ q < scan.dwPixels,
        pseudoPixel host scan buf' (pseudoKept host scan buf' q) q
          = .ok (LineKind.colorPseudo16.pixel host scan buf' q) := by
      intro q hq
      have hq := Nat.lt_of_lt_of_le hq hin
      rw [pseudoPixel, hpcb scan.red (start_mem .red) q hq, ok_bind,
        hpcb scan.green (start_mem .green) q hq, ok_bind, hpcb scan.blue (start_mem .blue) q hq,
        ok_bind]
      rfl
    replace hprepare : usbAverageColorByte scan buf = .ok buf' := hprepare
    have hpos := scan.dwPhyPixels_pos
    have hcopy := copyKeeping_eq hpixel hkeep huser
    rw [pseudoKept] at hcopy
    rw [LineKind.duplicate, usbColorDuplicatePseudo16, hprepare, ok_bind,
      hpcb scan.red (start_mem .red) 0 hpos, ok_bind,
      hpcb scan.green (start_mem .green) 0 hpos, ok_bind,
      hpcb scan.blue (start_mem .blue) 0 hpos, ok_bind, hcopy]
    rfl
  | colorGray =>
    have hpixel : ∀ q < scan.dwPixels, grayOf (pcb buf' (scan.start c) q 0)
        = .ok (LineKind.colorGray.pixel host scan buf' q) := by
      rw [← grayChannel_of_code (hchoose rfl)]
      exact hgray _ (start_mem _)
    replace hprepare : usbAverageColorByte scan buf = .ok buf' := hprepare
    rw [LineKind.duplicate, usbColorDuplicateGray, hprepare, ok_bind,
      grayCase_of_code (hchoose rfl)]
    simp only [copyLine_eq hpixel huser]
    rfl
  | colorGray_2 =>
    have hpixel : ∀ q < scan.dwPixels, grayOf (pb buf' (scan.start scan.grayChannel) q)
      = .ok (LineKind.colorGray_2.pixel host scan buf' q) := hgray _ (start_mem _)
    replace hprepare : usbAverageColorByte scan buf = .ok buf' := hprepare
    rw [LineKind.duplicate, usbColorDuplicateGray_2, hprepare, ok_bind, copyLine_eq hpixel huser]
    rfl
  | colorGray16 =>
    have hpixel : ∀ q < scan.dwPixels, grayOf (colorWord host scan buf' (scan.start c) q)
        = .ok (LineKind.colorGray16.pixel host scan buf' q) := by
      rw [← grayChannel_of_code (hchoose rfl)]
      exact hgray _ (start_mem _)
    replace hprepare : usbAverageColorWord host scan buf = .ok buf' := hprepare
    rw [LineKind.duplicate, usbColorDuplicateGray16, hprepare, ok_bind,
      grayCase_of_code (hchoose rfl)]
    simp only [copyLine_eq hpixel huser]
    rfl
  | colorGray16_2 =>
    have hpixel : ∀ q < scan.dwPixels, grayOf (planeWord host scan buf' (scan.start c) q)
        = .ok (LineKind.colorGray16_2.pixel host scan buf' q) := by
      rw [← grayChannel_of_code (hchoose rfl)]
      exact hgray _ (start_mem _)
    replace hprepare : usbAverageColorWord host scan buf = .ok buf' := hprepare
    rw [LineKind.duplicate, usbColorDuplicateGray16_2, hprepare, ok_bind,
      grayCase_of_code (hchoose rfl)]
    simp only [copyLine_eq hpixel huser]
    rfl
  | gray8 =>
    have hpixel : ∀ q < scan.dwPixels, grayOf (pb buf' scan.green q)
      = .ok (LineKind.gray8.pixel host scan buf' q) := hgray _ List.mem_cons_self
    replace hprepare : usbAverageGrayByte scan buf = .ok buf' := hprepare
    rw [LineKind.duplicate, usbGrayDuplicate8, hprepare, ok_bind]
    cases hback : scan.backwards with
    | true =>
      rw [if_pos rfl, copyLine_eq hpixel huser, hback]
      rfl
    | false =>
      have hlast := LineKind.Holds.sample_le hline (x := scan.green) List.mem_cons_self
        (Nat.sub_lt scan.dwPhyPixels_pos Nat.one_pos)
      have hle : scan.green + scan.dwPixels ≤ buf'.length := by
        simp only [LineKind.stride, LineKind.width] at hlast
        omega
      rw [if_neg (by decide), hbytes rfl, copyBytes_eq hle huser]
      have hwalk : walked false scan.dwPixels (LineKind.gray8.pixel host scan buf')
          = (List.range scan.dwPixels).map fun q => .gray (byteOf buf' (scan.green + q)) := by
        refine List.map_congr_left fun q _ => ?_
        change UserPixel.gray (byteOf buf' (scan.green + 1 * q)) = _
        rw [Nat.one_mul]
      rw [hwalk]
      rfl
  | gray16 =>
    have hpixel : ∀ q < scan.dwPixels, grayOf (grayWord host scan buf' q)
      = .ok (LineKind.gray16.pixel host scan buf' q) := hgray _ List.mem_cons_self
    replace hprepare : usbAverageGrayWord host scan buf = .ok buf' := hprepare
    rw [LineKind.duplicate, usbGrayDuplicate16, hprepare, ok_bind, copyLine_eq hpixel huser]
    rfl
  | grayPseudo16 =>
    have hpb : ∀ q < scan.dwPhyPixels, pb buf' scan.green q
      = .ok (LineKind.grayPseudo16.sample host scan buf' scan.green q) :=
        fun q hq => LineKind.load_eq hown hline List.mem_cons_self hq
    replace hprepare : usbAverageGrayByte scan buf = .ok buf' := hprepare
    rw [LineKind.duplicate, usbGrayDuplicatePseudo16, hprepare, ok_bind,
      hpb 0 scan.dwPhyPixels_pos, ok_bind,
      @copyKeeping_eq scan user Nat (LineKind.grayPseudo16.pixel host scan buf')
        (fun q => LineKind.grayPseudo16.sample host scan buf' scan.green (q - 1)) _ _
        (fun q hq => by rw [hpb q (Nat.lt_of_lt_of_le hq hin)]; rfl)
        (fun q hq => hpb q (Nat.lt_of_lt_of_le hq hin)) huser]
    rfl

end SaneBackends.PlustekLine
