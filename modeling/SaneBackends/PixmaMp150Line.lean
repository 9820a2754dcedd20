import SaneBackends.Interleave
import SaneBackends.LineStages
import SaneBackends.PixmaLineart
import Mathlib.Tactic.IntervalCases
import Mathlib.Tactic.Ring

/-!
# The lines of an MP150 scan

`shift_colors`, `reorder_pixels` and the loop body of `post_process_image_data` of
`backend/pixma_mp150.c`.  Each raw line is shifted, reordered, cropped and converted where it
stands in the buffer, behind the lines that are ready.
-/

namespace SaneBackends.Pixma

open InPlace LineStages Overwrite

/-! ### The scan -/

inductive Source where
  | flatbed | adf | tpu | adfdup
deriving DecidableEq, Repr

def MP800_PID := 0x170d
def MP800R_PID := 0x170e
def MP830_PID := 0x1713
def MP160_PID := 0x1714
def MP600_PID := 0x1718
def MP600R_PID := 0x1719
def MX7600_PID := 0x171c
def MP220_PID := 0x1722
def MP140_PID := 0x172b
def MP250_PID := 0x173a
def MX360_PID := 0x174d
def MG5300_PID := 0x1754
def MX370_PID := 0x1759

def ALIGN_SUP (x n : Nat) : Nat := (x + n - 1) / n * n

/-- The scanner and the parameters of a scan as `mp150_check_param` leaves them.  Its last call
    changes the resolution no more.  There is no black and white scan of transparencies; only
    scanners with a CCD sensor have a transparency unit. -/
structure Mp150Setup extends LineartParam where
  pid : Nat
  ccd : Bool
  source : Source
  channels : Nat
  softwareLineart : Bool
  x : Nat
  w : Nat
  ydpi : Nat
  w_pos : 0 < w
  channels_cases : channels = 1 ∨ channels = 3
  lineart_cases : softwareLineart = true → channels = 1 ∧ 8 ∣ w ∧ source ≠ .tpu
  tpu_ccd : source = .tpu → ccd = true
  xdpi_eq : ∃ j ≤ 6, xdpi = 75 * 2 ^ j

namespace Mp150Setup

/-- `generation`, as `mp150_open` sets it. -/
def generation (setup : Mp150Setup) : Nat :=
  if setup.pid = MP140_PID then 2
  else if MP250_PID ≤ setup.pid then 4
  else if MX7600_PID ≤ setup.pid then 3
  else if MP160_PID ≤ setup.pid then 2
  else 1

/-- The bits of a component, as they are sent. -/
def depth (setup : Mp150Setup) : Nat :=
  if setup.softwareLineart then 8 else if setup.source = .tpu then 16 else 8

def xs (setup : Mp150Setup) : Nat := if 2 ≤ setup.generation then setup.x % 32 else 0

/-- `calc_raw_width`. -/
def wx (setup : Mp150Setup) : Nat :=
  if 2 ≤ setup.generation then ALIGN_SUP (setup.w + setup.xs) 32
  else if setup.channels = 1 then ALIGN_SUP (setup.w + setup.xs) 12
  else ALIGN_SUP (setup.w + setup.xs) 4

def isCcdGrayscale (setup : Mp150Setup) : Bool :=
  setup.ccd && setup.channels == 1 && !setup.softwareLineart

def isCcdLineart (setup : Mp150Setup) : Bool := setup.ccd && setup.softwareLineart

/-- `line_size` of the parameters. -/
def paramLineSize (setup : Mp150Setup) : Nat := setup.w * setup.channels * (setup.depth / 8)

/-- `get_cis_ccd_line_size`. -/
def lineSize (setup : Mp150Setup) : Nat :=
  (if setup.wx ≠ 0 then setup.paramLineSize / setup.w * setup.wx else setup.paramLineSize) *
    if setup.isCcdGrayscale || setup.isCcdLineart then 3 else 1

def isScanningFromAdf (setup : Mp150Setup) : Bool :=
  setup.source == .adf || setup.source == .adfdup

/-- The scanners whose colours and stripes are shifted. -/
def shifted (setup : Mp150Setup) : Bool :=
  setup.pid == MP800_PID || setup.pid == MP800R_PID || setup.pid == MP830_PID

def stripeShift (setup : Mp150Setup) : Nat :=
  if setup.shifted && setup.xdpi == 2400 then if setup.source = .tpu then 6 else 3 else 0

def colorShift (setup : Mp150Setup) : Nat :=
  if 75 < setup.ydpi && setup.shifted then
    if setup.source = .tpu then setup.ydpi / 75
    else setup.ydpi / if setup.ydpi < 1200 then 150 else 75
  else 0

/-- `shift`, for red, green and blue. -/
def shift (setup : Mp150Setup) (k : Nat) : Nat :=
  let one := setup.colorShift * setup.lineSize
  match k with
  | 0 => if setup.isScanningFromAdf then 0 else 2 * one
  | 1 => one
  | _ => if setup.isScanningFromAdf then 2 * one else 0

/-- What `calc_shifting` returns: the lines that must follow a line. -/
def calcShifting (setup : Mp150Setup) : Nat := 2 * setup.colorShift + setup.stripeShift

/-- The bytes of a pixel. -/
def c (setup : Mp150Setup) : Nat :=
  (if setup.isCcdGrayscale || setup.isCcdLineart then 3 else setup.channels) * setup.depth / 8

/-- The pixels of a raw line that stand one after the other in the image are `m` apart. -/
def n (setup : Mp150Setup) : Nat :=
  if setup.pid = MP600_PID ∨ setup.pid = MP600R_PID then setup.xdpi / 1200
  else if 3 ≤ setup.generation then setup.xdpi / 600
  else setup.xdpi / 2400

def m (setup : Mp150Setup) : Nat := if 0 < setup.n then setup.wx / setup.n else 1

def cw (setup : Mp150Setup) : Nat := setup.c * setup.w
def cx (setup : Mp150Setup) : Nat := setup.c * setup.xs

/-- Whether `shift_colors` is called. -/
def shifts (setup : Mp150Setup) : Bool := setup.pid ≠ MG5300_PID && 3 ≤ setup.c

/-- Whether `reorder_pixels` is called. -/
def reorders (setup : Mp150Setup) : Bool :=
  setup.pid ≠ MP220_PID && setup.pid ≠ MX360_PID && setup.pid ≠ MX370_PID &&
    setup.pid ≠ MG5300_PID && 0 < setup.n

end Mp150Setup

/-! ### A line -/

/-- How far ahead `shift_colors` reads byte `i` of a line. -/
def shiftOffset (c : Nat) (colshft : Nat → Nat) (strshft i : Nat) : Nat :=
  let s := componentBytes c
  colshft (i % (3 * s) / s) + if i / (3 * s) % 2 = 0 then strshft else 0

/-- `shift_colors`: the memory and the pointer that is returned. -/
def shiftColors (mem : List SaneByte) (dptr sptr w c : Nat) (colshft : Nat → Nat)
    (strshft : Nat) : Option (List SaneByte × Nat) := do
  let size := w * (3 * componentBytes c)
  let mem ← storeEach 1 (fun i mem => load mem (dptr + i + shiftOffset c colshft strshft i) 1)
    sptr 0 size mem
  some (mem, dptr + size)

/-- `reorder_pixels`: the line buffer and the memory. -/
def reorderPixels (linebuf mem : List SaneByte) (sptr c n m w lineSize : Nat) :
    Option (List SaneByte × List SaneByte) :=
  if m = 0 then none
  else do
    let linebuf ← scatter c (fun i => n * (i % m) + i / m) mem sptr w linebuf
    let mem ← store mem sptr (← load linebuf 0 lineSize)
    some (linebuf, mem)

/-- The buffers and the pointers of `post_process_image_data`. -/
structure LineState where
  mem : List SaneByte
  linebuf : List SaneByte
  dptr : Nat
  cptr : Nat

variable (setup : Mp150Setup)

def shiftStep (sptr : Nat) (s : LineState) : Option LineState :=
  if setup.shifts then
    (shiftColors s.mem s.dptr sptr setup.wx setup.c setup.shift setup.stripeShift).map fun r =>
      { s with mem := r.1, dptr := r.2 }
  else some s

def reorderStep (sptr : Nat) (s : LineState) : Option LineState :=
  if setup.reorders then
    (reorderPixels s.linebuf s.mem sptr setup.c setup.n setup.m setup.wx setup.lineSize).map
      fun r => { s with linebuf := r.1, mem := r.2 }
  else some s

def cropStep (sptr : Nat) (s : LineState) : Option LineState :=
  (memmove s.mem s.cptr (sptr + setup.cx) setup.cw).map fun mem => { s with mem := mem }

def convertStep (s : LineState) : Option LineState :=
  if setup.softwareLineart then
    (pixmaBinarizeLine setup.toLineartParam s.mem s.cptr s.cptr setup.w setup.c).map fun r =>
      { s with mem := r.1, cptr := r.2 }
  else if setup.isCcdGrayscale then
    (pixmaRgbToGray s.mem s.cptr s.cptr setup.w setup.c).map fun r =>
      { s with mem := r.1, cptr := r.2 }
  else some { s with cptr := s.cptr + setup.cw }

/-- A turn of the loop of `post_process_image_data`. -/
def processLine (sptr : Nat) (s : LineState) : Option LineState := do
  let s ← shiftStep setup sptr s
  let s ← reorderStep setup sptr s
  let s ← cropStep setup sptr s
  convertStep setup s

/-- The first turns. -/
def processLines : Nat → LineState → Option LineState
  | 0, s => some s
  | i + 1, s => do
    let s ← processLines i s
    processLine setup (i * setup.lineSize) s

/-! ### Sizes -/

theorem le_ALIGN_SUP {x n : Nat} (hn : 0 < n) : x ≤ ALIGN_SUP x n := by
  have h := Nat.div_add_mod (x + n - 1) n
  have hmod := Nat.mod_lt (x + n - 1) hn
  rw [ALIGN_SUP, Nat.mul_comm]
  omega

/-- If the segments make up the line, `reorder_pixels` writes every pixel of the line buffer. -/
theorem reorderPixels_eq {linebuf mem : List SaneByte} {sptr c n m w lineSize : Nat}
    (hw : 0 < w) (hwhole : n * m = w) (hsize : c * w = lineSize)
    (hbuf : linebuf.length = lineSize) (hfit : sptr + lineSize ≤ mem.length) :
    let line := (List.range w).flatMap fun k =>
      stretch mem (sptr + c * Interleave.source n m k) c
    line.length = lineSize ∧
      reorderPixels linebuf mem sptr c n m w lineSize = some (line, overwrite mem sptr line) := by
  intro line
  have hm : ¬ m = 0 := by
    rw [← hwhole] at hw
    exact (Nat.pos_of_mul_pos_left hw).ne'
  have hscatter : scatter c (fun i => n * (i % m) + i / m) mem sptr w linebuf = some line :=
    scatter_eq (by omega) (by omega) (fun i hi => Interleave.place_lt hwhole hi)
      (fun k hk => Interleave.source_lt hwhole hk)
      (fun i hi k hk => Interleave.eq_place_iff hwhole hi hk)
  have hall : ∀ k ∈ List.range w,
      (stretch mem (sptr + c * Interleave.source n m k) c).length = c := by
    intro k hk
    have hlt := Nat.mul_le_mul_left c (Interleave.source_lt hwhole (List.mem_range.mp hk))
    rw [Nat.succ_eq_add_one, Nat.mul_succ, hsize] at hlt
    exact length_stretch (by omega)
  have hlen : line.length = lineSize := by
    rw [List.length_flatMap, List.map_congr_left hall, List.map_const', List.sum_replicate_nat,
      List.length_range, Nat.mul_comm, hsize]
  refine ⟨hlen, ?_⟩
  rw [reorderPixels, if_neg hm, hscatter]
  simp only [Option.bind_eq_bind, Option.bind_some]
  rw [load_eq (by omega), stretch, List.drop_zero, List.take_of_length_le hlen.le]
  simp only [Option.bind_some]
  rw [store_eq (by omega)]
  rfl

namespace Mp150Setup

variable {setup}

theorem le_wx : setup.w + setup.xs ≤ setup.wx := by
  rw [wx]
  split_ifs
  · exact le_ALIGN_SUP (by decide)
  · exact le_ALIGN_SUP (by decide)
  · exact le_ALIGN_SUP (by decide)

theorem wx_pos : 0 < setup.wx := by
  have hw := setup.w_pos
  have hle := setup.le_wx
  omega

theorem c_cases : setup.c = 1 ∨ setup.c = 3 ∨ setup.c = 6 := by
  have hlineart := setup.lineart_cases
  have htpu := setup.tpu_ccd
  rw [c, depth, isCcdGrayscale, isCcdLineart]
  rcases setup.channels_cases with h | h
  · rw [h]
    cases hl : setup.softwareLineart <;> cases hccd : setup.ccd
    · by_cases hs : setup.source = .tpu
      · simp [htpu hs] at hccd
      · simp [hs]
    · by_cases hs : setup.source = .tpu <;> simp [hs]
    · simp
    · simp
  · rw [h]
    cases hl : setup.softwareLineart
    · by_cases hs : setup.source = .tpu <;> simp [hs]
    · have := (hlineart hl).1
      omega

theorem lineSize_eq : setup.lineSize = setup.wx * setup.c := by
  have hlineart := setup.lineart_cases
  have hparam : setup.paramLineSize / setup.w = setup.channels * (setup.depth / 8) := by
    rw [paramLineSize, Nat.mul_assoc, Nat.mul_div_cancel_left _ setup.w_pos]
  have hdepth : setup.depth = 8 * (setup.depth / 8) := by
    rw [depth]
    split_ifs <;> rfl
  rw [lineSize, if_pos setup.wx_pos.ne', hparam, c]
  rw [hdepth]
  generalize setup.depth / 8 = d
  by_cases hgray : (setup.isCcdGrayscale || setup.isCcdLineart) = true
  · have hone : setup.channels = 1 := by
      rw [isCcdGrayscale, isCcdLineart] at hgray
      cases hl : setup.softwareLineart
      · simp only [hl, Bool.not_false, Bool.and_true, Bool.and_false, Bool.or_false,
          Bool.and_eq_true, beq_iff_eq] at hgray
        exact hgray.2
      · exact (hlineart hl).1
    rw [if_pos hgray, if_pos hgray, hone, Nat.mul_div_cancel_left _ (by decide),
      Nat.mul_left_comm, Nat.mul_div_cancel_left _ (by decide)]
    ring
  · rw [if_neg hgray, if_neg hgray, Nat.mul_div_cancel_left _ (by decide), Nat.mul_left_comm,
      Nat.mul_div_cancel_left _ (by decide)]
    ring

theorem c_pos : 0 < setup.c := by
  rcases setup.c_cases with h | h | h <;> rw [h] <;> decide

theorem lineSize_pos : 0 < setup.lineSize := by
  rw [lineSize_eq]
  exact Nat.mul_pos setup.wx_pos setup.c_pos

theorem crop_le : setup.cx + setup.cw ≤ setup.lineSize := by
  rw [cx, cw, lineSize_eq, ← Nat.mul_add, Nat.mul_comm, Nat.add_comm]
  exact Nat.mul_le_mul_right _ setup.le_wx

/-- Three components in a pixel, when colours are shifted. -/
theorem c_of_shifts (h : setup.shifts = true) : setup.c = 3 * componentBytes setup.c := by
  have hge : 3 ≤ setup.c := by
    simp only [shifts, Bool.and_eq_true, decide_eq_true_eq] at h
    exact h.2
  rcases setup.c_cases with hc | hc | hc
  · omega
  · rw [hc]
    rfl
  · rw [hc]
    rfl

theorem generation_of_lt (h : setup.generation < 2) : setup.pid < MP160_PID := by
  rw [generation] at h
  split_ifs at h <;> omega

theorem dvd_wx (h : 0 < setup.n) : setup.n ∣ setup.wx := by
  obtain ⟨j, hj, hxdpi⟩ := setup.xdpi_eq
  by_cases hgen : 2 ≤ setup.generation
  · have hwx : 32 ∣ setup.wx := by
      rw [wx, if_pos hgen]
      exact Nat.dvd_mul_left _ _
    refine Nat.dvd_trans ?_ hwx
    rw [n, hxdpi] at h ⊢
    interval_cases j <;> split_ifs at h ⊢ <;> simp at h ⊢
  · have hwx : 4 ∣ setup.wx := by
      rw [wx, if_neg hgen]
      split
      · exact Nat.dvd_mul_left_of_dvd (by decide) _
      · exact Nat.dvd_mul_left _ _
    have hpid := generation_of_lt (Nat.lt_of_not_le hgen)
    have hother : ¬ (setup.pid = MP600_PID ∨ setup.pid = MP600R_PID) := by
      simp only [MP160_PID, MP600_PID, MP600R_PID] at hpid ⊢
      omega
    refine Nat.dvd_trans ?_ hwx
    rw [n, if_neg hother, if_neg (by omega), hxdpi] at h ⊢
    interval_cases j <;> simp at h ⊢

/-! ### What becomes of a line -/

/-- A line with the colours and stripes of the lines that follow. -/
def shiftedLine (setup : Mp150Setup) (window : List SaneByte) : List SaneByte :=
  if setup.shifts then
    (List.range setup.lineSize).map fun i =>
      window.getD (i + shiftOffset setup.c setup.shift setup.stripeShift i) 0
  else window.take setup.lineSize

/-- A line whose pixels are in their order. -/
def reorderedLine (setup : Mp150Setup) (l : List SaneByte) : List SaneByte :=
  if setup.reorders then
    (List.range setup.wx).flatMap fun k =>
      stretch l (setup.c * (k % setup.n * setup.m + k / setup.n)) setup.c
  else l

/-- A line within the selected borders. -/
def croppedLine (setup : Mp150Setup) (window : List SaneByte) : List SaneByte :=
  stretch (setup.reorderedLine (setup.shiftedLine window)) setup.cx setup.cw

/-- A black and white or a gray line. -/
def convertedLine (setup : Mp150Setup) (l : List SaneByte) : List SaneByte :=
  if setup.softwareLineart then (binarizeLine setup.toLineartParam setup.c setup.w l).getD []
  else if setup.isCcdGrayscale then grayLine setup.c setup.w l
  else l

/-- A line of the image, and how many lines must follow it. -/
def lineStage (setup : Mp150Setup) : LineStage SaneByte where
  lineIn := setup.lineSize
  ahead := setup.calcShifting
  line window := setup.convertedLine (setup.croppedLine window)

/-- The bytes of a line of the image. -/
def outSize (setup : Mp150Setup) : Nat :=
  if setup.softwareLineart then setup.w / 8
  else if setup.isCcdGrayscale then setup.w * componentBytes setup.c
  else setup.cw

/-- A black and white line has some contrast. -/
def Contrast (setup : Mp150Setup) (window : List SaneByte) : Prop :=
  setup.softwareLineart = true → ¬ Flat setup.c setup.w (setup.croppedLine window)

instance (setup : Mp150Setup) (window : List SaneByte) : Decidable (setup.Contrast window) :=
  inferInstanceAs (Decidable (_ → _))

/-- No threshold is computed of bytes behind a line. -/
def Steady (setup : Mp150Setup) : Prop :=
  setup.softwareLineart = true → setup.thresholdCurve = 0 ∨ setup.windowX < setup.cw

/-! ### The steps -/

theorem shiftOffset_lt {i : Nat} (hi : i < setup.lineSize) :
    i + shiftOffset setup.c setup.shift setup.stripeShift i
      < (setup.calcShifting + 1) * setup.lineSize := by
  have hshift : ∀ k, setup.shift k ≤ 2 * (setup.colorShift * setup.lineSize) := by
    intro k
    unfold shift
    dsimp only
    split
    · split <;> omega
    · omega
    · split <;> omega
  have hstripe : setup.stripeShift ≤ setup.stripeShift * setup.lineSize :=
    Nat.le_mul_of_pos_right _ setup.lineSize_pos
  have hsize : (setup.calcShifting + 1) * setup.lineSize
      = 2 * (setup.colorShift * setup.lineSize) + setup.stripeShift * setup.lineSize
        + setup.lineSize := by
    rw [calcShifting]
    ring
  have hone := hshift (i % (3 * componentBytes setup.c) / componentBytes setup.c)
  rw [hsize, shiftOffset]
  split <;> omega

theorem length_shiftedLine {window : List SaneByte}
    (h : window.length = (setup.calcShifting + 1) * setup.lineSize) :
    (setup.shiftedLine window).length = setup.lineSize := by
  rw [shiftedLine]
  split
  · rw [List.length_map, List.length_range]
  · rw [List.length_take, h, Nat.succ_mul]
    omega

theorem shiftStep_eq {s : LineState} {sptr : Nat}
    (hfit : sptr + (setup.calcShifting + 1) * setup.lineSize ≤ s.mem.length)
    (hdptr : setup.shifts = true → s.dptr = sptr) : ∃ dptr, shiftStep setup sptr s =
      some { s with
        mem := overwrite s.mem sptr (setup.shiftedLine
          (stretch s.mem sptr ((setup.calcShifting + 1) * setup.lineSize)))
        dptr := dptr } ∧ (setup.shifts = true → dptr = sptr + setup.lineSize) := by
  have hline : setup.lineSize ≤ (setup.calcShifting + 1) * setup.lineSize :=
    Nat.le_mul_of_pos_left _ (Nat.succ_pos _)
  by_cases h : setup.shifts = true
  · have hsize : setup.wx * (3 * componentBytes setup.c) = setup.lineSize := by
      rw [← c_of_shifts h, lineSize_eq]
    have hloop : storeEach 1 (fun i mem => load mem
        (sptr + i + shiftOffset setup.c setup.shift setup.stripeShift i) 1) sptr 0 setup.lineSize
        s.mem = some (overwrite s.mem sptr (setup.shiftedLine
          (stretch s.mem sptr ((setup.calcShifting + 1) * setup.lineSize)))) := by
      rw [shiftedLine, if_pos h, List.map_eq_flatMap]
      apply storeEach_eq
      · intro i _
        rfl
      · omega
      · intro i hi mem' hlen hdrop
        have hlt := shiftOffset_lt hi
        generalize shiftOffset setup.c setup.shift setup.stripeShift i = offset at hlt
        have hcell : sptr + (i + offset) < s.mem.length := by omega
        have hget : (stretch s.mem sptr ((setup.calcShifting + 1) * setup.lineSize))[i + offset]?
            = some s.mem[sptr + (i + offset)] := by
          rw [stretch, List.getElem?_take_of_lt hlt, List.getElem?_drop,
            List.getElem?_eq_getElem hcell]
        rw [load_eq (by omega), stretch_of_drop hdrop (by omega), List.getD_eq_getElem?_getD, hget,
          Nat.add_assoc, stretch, List.take_one, List.head?_drop, List.getElem?_eq_getElem hcell]
        rfl
    refine ⟨sptr + setup.lineSize, ?_, fun _ => rfl⟩
    rw [shiftStep, if_pos h, shiftColors, hdptr h, hsize, hloop]
    rfl
  · refine ⟨s.dptr, ?_, fun h' => absurd h' h⟩
    rw [shiftStep, if_neg h, shiftedLine, if_neg h, take_stretch hline,
      overwrite_stretch (by omega)]

theorem n_pos_of_reorders (h : setup.reorders = true) : 0 < setup.n := by
  simp only [reorders, Bool.and_eq_true, decide_eq_true_eq] at h
  exact h.2

/-- The pixels of a line are `n` rows of `m`. -/
theorem n_mul_m (h : 0 < setup.n) : setup.n * setup.m = setup.wx := by
  rw [m, if_pos h]
  exact Nat.mul_div_cancel' (dvd_wx h)

theorem length_reorderedLine {l : List SaneByte} (h : l.length = setup.lineSize) :
    (setup.reorderedLine l).length = setup.lineSize := by
  rw [reorderedLine]
  split
  · rename_i hreorders
    have hall : ∀ k ∈ List.range setup.wx, (stretch l
        (setup.c * (k % setup.n * setup.m + k / setup.n)) setup.c).length = setup.c := by
      intro k hk
      have hlt : _ < setup.wx :=
        Interleave.source_lt (n_mul_m (n_pos_of_reorders hreorders)) (List.mem_range.mp hk)
      apply length_stretch
      rw [h, lineSize_eq, Nat.mul_comm setup.wx, ← Nat.mul_succ]
      exact Nat.mul_le_mul_left _ hlt
    rw [List.length_flatMap, List.map_congr_left hall, List.map_const', List.sum_replicate_nat,
      List.length_range, lineSize_eq]
  · exact h

theorem reorderStep_eq {s : LineState} {sptr : Nat}
    (hfit : sptr + setup.lineSize ≤ s.mem.length) (hbuf : s.linebuf.length = setup.lineSize) :
    ∃ linebuf, linebuf.length = setup.lineSize ∧ reorderStep setup sptr s =
      some { s with
        mem := overwrite s.mem sptr (setup.reorderedLine (stretch s.mem sptr setup.lineSize))
        linebuf := linebuf } := by
  by_cases h : setup.reorders = true
  · have hn := n_pos_of_reorders h
    have hsize : setup.c * setup.wx = setup.lineSize := by rw [lineSize_eq, Nat.mul_comm]
    have hordered : ((List.range setup.wx).flatMap fun k => stretch s.mem
        (sptr + setup.c * Interleave.source setup.n setup.m k) setup.c)
        = setup.reorderedLine (stretch s.mem sptr setup.lineSize) := by
      rw [reorderedLine, if_pos h]
      apply List.flatMap_congr
      intro k hk
      have hlt := Nat.mul_le_mul_left setup.c
        (Interleave.source_lt (n_mul_m hn) (List.mem_range.mp hk))
      rw [Nat.succ_eq_add_one, Nat.mul_succ, hsize, Interleave.source] at hlt
      rw [Interleave.source]
      generalize setup.c * (k % setup.n * setup.m + k / setup.n) = o at hlt
      rw [stretch, stretch, stretch, List.drop_take, List.drop_drop, List.take_take,
        Nat.min_eq_left (by omega)]
    obtain ⟨hlen, hrun⟩ := reorderPixels_eq setup.wx_pos (n_mul_m hn) hsize hbuf hfit
    rw [hordered] at hlen hrun
    refine ⟨_, hlen, ?_⟩
    rw [reorderStep, if_pos h, hrun]
    rfl
  · refine ⟨s.linebuf, hbuf, ?_⟩
    rw [reorderStep, if_neg h, reorderedLine, if_neg h, overwrite_stretch hfit]

theorem outSize_le : setup.outSize ≤ setup.cw := by
  have hc := setup.c_pos
  have hle : setup.w ≤ setup.cw := Nat.le_mul_of_pos_left _ hc
  rw [outSize]
  split_ifs with hlineart hgray
  · omega
  · rw [cw, Nat.mul_comm]
    apply Nat.mul_le_mul_right
    rcases setup.c_cases with h | h | h <;> rw [h] <;> decide
  · exact le_rfl

theorem c_of_lineart (h : setup.softwareLineart = true) : setup.c = 1 ∨ setup.c = 3 := by
  obtain ⟨hone, -, -⟩ := setup.lineart_cases h
  rw [c, depth, if_pos h, hone]
  split
  · exact .inr rfl
  · exact .inl rfl

theorem c_of_gray (h : setup.isCcdGrayscale = true) : setup.c = 3 * componentBytes setup.c := by
  have hc : setup.c = 3 * setup.depth / 8 := by
    rw [c, h]
    rfl
  rcases setup.c_cases with h1 | h3 | h6
  · rw [depth] at hc
    split_ifs at hc <;> omega
  · rw [h3]
    rfl
  · rw [h6]
    rfl

/-- The width of the sliding window is small. -/
theorem windowX_lt (setup : Mp150Setup) : setup.windowX < 256 := by
  obtain ⟨j, hj, hxdpi⟩ := setup.xdpi_eq
  have hpow : 2 ^ j ≤ 2 ^ 6 := Nat.pow_le_pow_right (by decide) hj
  rw [LineartParam.windowX]
  split <;> omega

/-- The conversion of a cropped line, which is at `pre.length`. -/
theorem convertStep_eq (hsteady : setup.Steady) {s : LineState} {pre l rest : List SaneByte}
    (hmem : s.mem = pre ++ l ++ rest) (hl : l.length = setup.cw) (hcptr : s.cptr = pre.length)
    (hroom : setup.softwareLineart = true → 256 ≤ (l ++ rest).length) :
    ((setup.softwareLineart = true ∧ Flat setup.c setup.w l) ∧ convertStep setup s = none) ∨
    ¬ (setup.softwareLineart = true ∧ Flat setup.c setup.w l) ∧ ∃ l', l'.length = l.length ∧
      l'.take setup.outSize = setup.convertedLine l ∧ convertStep setup s =
        some { s with mem := pre ++ l' ++ rest, cptr := pre.length + setup.outSize } := by
  have hl' : l.length = setup.w * setup.c := by rw [hl, cw, Nat.mul_comm]
  rw [convertStep, hmem, hcptr, outSize, convertedLine]
  cases hlineart : setup.softwareLineart with
  | true =>
    have hwindow := setup.windowX_lt
    have hbehind := hroom hlineart
    have hsum : setup.thresholdCurve = 0 ∨ setup.windowX < l.length := by
      rw [hl]
      exact hsteady hlineart
    rcases pixmaBinarizeLine_within (c_of_lineart hlineart) hl' setup.w_pos hsum with
      ⟨hflat, -, hrun⟩ | ⟨hcontrast, l', hlen, hself, hrun⟩
    · left
      refine ⟨⟨rfl, hflat⟩, ?_⟩
      rw [if_pos rfl, hrun]
      rfl
    · right
      refine ⟨fun h => hcontrast h.2, l', hlen, ?_, ?_⟩
      · rw [if_pos rfl, if_pos rfl, hself]
        rfl
      · rw [if_pos rfl, if_pos rfl, hrun pre rest (by omega)]
        rfl
  | false =>
    right
    refine ⟨fun h => Bool.false_ne_true h.1, ?_⟩
    simp only [Bool.false_eq_true, if_false]
    cases hgray : setup.isCcdGrayscale with
    | true =>
      have hpixels : l.length = setup.w * (3 * componentBytes setup.c) := by
        rw [← c_of_gray hgray, hl']
      have hgrayLen := length_grayLine setup.c setup.w l
      have hfit : (grayLine setup.c setup.w l).length ≤ l.length := by
        rw [hgrayLen, hpixels]
        exact Nat.mul_le_mul_left _ (by omega)
      refine ⟨overwrite l 0 (grayLine setup.c setup.w l), length_overwrite (by omega), ?_, ?_⟩
      · rw [if_pos rfl, if_pos rfl, ← hgrayLen]
        exact take_overwrite_zero l _
      · rw [if_pos rfl, if_pos rfl, pixmaRgbToGray_within hpixels]
        rfl
    | false =>
      simp only [Bool.false_eq_true, if_false]
      refine ⟨l, rfl, List.take_of_length_le hl.le, ?_⟩
      rw [← hmem, ← hcptr]

/-! ### A turn of the loop -/

/-- What is done in a turn: a line of the image stands behind those before it, and the raw lines
    behind it are as they were. -/
structure LineDone (setup : Mp150Setup) (sptr : Nat) (s s' : LineState) (line : List SaneByte) :
    Prop where
  length_mem : s'.mem.length = s.mem.length
  length_linebuf : s'.linebuf.length = setup.lineSize
  dptr : setup.shifts = true → s'.dptr = sptr + setup.lineSize
  cptr : s'.cptr = s.cptr + setup.outSize
  ready : s'.mem.take s'.cptr = s.mem.take s.cptr ++ line
  behind : s'.mem.drop (sptr + setup.lineSize) = s.mem.drop (sptr + setup.lineSize)

theorem processLine_eq (hsteady : setup.Steady) {s : LineState} {sptr : Nat}
    (hfit : sptr + (setup.calcShifting + 1) * setup.lineSize ≤ s.mem.length)
    (hbuf : s.linebuf.length = setup.lineSize) (hdptr : setup.shifts = true → s.dptr = sptr)
    (hcptr : s.cptr ≤ sptr)
    (hroom : setup.softwareLineart = true → s.cptr + 256 ≤ s.mem.length) :
    (¬ setup.Contrast (stretch s.mem sptr ((setup.calcShifting + 1) * setup.lineSize)) ∧
      processLine setup sptr s = none) ∨
    setup.Contrast (stretch s.mem sptr ((setup.calcShifting + 1) * setup.lineSize)) ∧
      ∃ s', processLine setup sptr s = some s' ∧ LineDone setup sptr s s'
        (setup.lineStage.line
          (stretch s.mem sptr ((setup.calcShifting + 1) * setup.lineSize))) := by
  have hwindow : (stretch s.mem sptr ((setup.calcShifting + 1) * setup.lineSize)).length
      = (setup.calcShifting + 1) * setup.lineSize := length_stretch hfit
  have hline : setup.lineSize ≤ (setup.calcShifting + 1) * setup.lineSize :=
    Nat.le_mul_of_pos_left _ (Nat.succ_pos _)
  have hcrop := setup.crop_le
  have hout := setup.outSize_le
  obtain ⟨dptr, hshift, hdptr'⟩ := shiftStep_eq hfit hdptr
  generalize hW : stretch s.mem sptr ((setup.calcShifting + 1) * setup.lineSize) = window
    at hshift hwindow
  -- the line is shifted
  have hshifted := length_shiftedLine hwindow
  have hlen₁ : (overwrite s.mem sptr (setup.shiftedLine window)).length = s.mem.length :=
    length_overwrite (by omega)
  have hread₁ : stretch (overwrite s.mem sptr (setup.shiftedLine window)) sptr setup.lineSize
      = setup.shiftedLine window := by
    rw [← hshifted]
    exact stretch_overwrite (by omega)
  have hdrop₁ : (overwrite s.mem sptr (setup.shiftedLine window)).drop (sptr + setup.lineSize)
      = s.mem.drop (sptr + setup.lineSize) := drop_overwrite (by omega) (by omega)
  have htake₁ : (overwrite s.mem sptr (setup.shiftedLine window)).take s.cptr
      = s.mem.take s.cptr := take_overwrite_before hcptr (by omega)
  generalize overwrite s.mem sptr (setup.shiftedLine window) = mem₁
    at hshift hlen₁ hread₁ hdrop₁ htake₁
  -- its pixels are reordered
  obtain ⟨linebuf, hbuf', hreorder⟩ := @reorderStep_eq setup { s with mem := mem₁, dptr := dptr }
    sptr (by dsimp only; omega) hbuf
  dsimp only at hreorder
  rw [hread₁] at hreorder
  have hordered := length_reorderedLine hshifted
  have hlen₂ : (overwrite mem₁ sptr (setup.reorderedLine (setup.shiftedLine window))).length
      = s.mem.length := by rw [length_overwrite (by omega), hlen₁]
  have hread₂ : stretch (overwrite mem₁ sptr (setup.reorderedLine (setup.shiftedLine window)))
      (sptr + setup.cx) setup.cw = setup.croppedLine window :=
    stretch_overwrite_part (by omega) (by omega)
  have hdrop₂ : (overwrite mem₁ sptr (setup.reorderedLine (setup.shiftedLine window))).drop
      (sptr + setup.lineSize) = s.mem.drop (sptr + setup.lineSize) := by
    rw [drop_overwrite (by omega) (by omega), hdrop₁]
  have htake₂ : (overwrite mem₁ sptr (setup.reorderedLine (setup.shiftedLine window))).take s.cptr
      = s.mem.take s.cptr := by rw [take_overwrite_before hcptr (by omega), htake₁]
  generalize overwrite mem₁ sptr (setup.reorderedLine (setup.shiftedLine window)) = mem₂
    at hreorder hlen₂ hread₂ hdrop₂ htake₂
  -- it is cropped and stands behind the lines that are ready
  have hcropped : (setup.croppedLine window).length = setup.cw := by
    rw [← hread₂]
    exact length_stretch (by omega)
  have hmove : cropStep setup sptr ⟨mem₂, linebuf, dptr, s.cptr⟩ =
      some ⟨overwrite mem₂ s.cptr (setup.croppedLine window), linebuf, dptr, s.cptr⟩ := by
    rw [cropStep, memmove_eq (by dsimp only; omega) (by dsimp only; omega)]
    dsimp only
    rw [hread₂]
    rfl
  have hpre : (mem₂.take s.cptr).length = s.cptr := List.length_take_of_le (by omega)
  have hconvert := @convertStep_eq setup hsteady
    ⟨overwrite mem₂ s.cptr (setup.croppedLine window), linebuf, dptr, s.cptr⟩ (mem₂.take s.cptr)
    (setup.croppedLine window) (mem₂.drop (s.cptr + (setup.croppedLine window).length)) rfl
    hcropped hpre.symm (fun h => by
      have := hroom h
      rw [List.length_append, List.length_drop]
      omega)
  have hstart : processLine setup sptr s = convertStep setup
      ⟨overwrite mem₂ s.cptr (setup.croppedLine window), linebuf, dptr, s.cptr⟩ := by
    rw [processLine, hshift]
    simp only [Option.bind_eq_bind, Option.bind_some, hreorder, hmove]
  rw [hstart]
  rcases hconvert with ⟨⟨hlineart, hflat⟩, hnone⟩ | ⟨hcontrast, l', hlen, htake, hsome⟩
  · left
    exact ⟨fun h => h hlineart hflat, hnone⟩
  · right
    rw [hpre] at hsome
    refine ⟨fun h hflat => hcontrast ⟨h, hflat⟩, _, hsome, ?_, hbuf', hdptr', rfl, ?_, ?_⟩
    · simp only [List.length_append, hpre, List.length_drop]
      omega
    · dsimp only
      rw [List.append_assoc, List.take_append, hpre, List.take_of_length_le (by omega),
        Nat.add_sub_cancel_left, List.take_append_of_le_length (by omega), htake, htake₂]
      rfl
    · obtain ⟨d, hd⟩ := Nat.exists_eq_add_of_le
        (show s.cptr + setup.cw ≤ sptr + setup.lineSize by omega)
      have hfront : (mem₂.take s.cptr ++ l').length = s.cptr + setup.cw := by
        rw [List.length_append, hpre, hlen, hcropped]
      dsimp only
      rw [hcropped, hd, ← List.drop_drop, List.drop_left' hfront, List.drop_drop, ← hd, hdrop₂]

/-! ### The loop -/

/-- Black and white lines are much shorter than raw lines. -/
theorem lineart_room (h : setup.softwareLineart = true) (i : Nat) :
    8 * (i * setup.outSize) ≤ i * setup.lineSize := by
  have hle : 8 * setup.outSize ≤ setup.lineSize := by
    have hw : setup.w ≤ setup.cw := Nat.le_mul_of_pos_left _ setup.c_pos
    have hcrop := setup.crop_le
    rw [outSize, if_pos h]
    omega
  rw [Nat.mul_left_comm]
  exact Nat.mul_le_mul_left i hle

/-- After `i` turns the first lines of the image are ready. -/
structure LinesDone (setup : Mp150Setup) (i : Nat) (s s' : LineState) : Prop where
  length_mem : s'.mem.length = s.mem.length
  length_linebuf : s'.linebuf.length = setup.lineSize
  dptr : setup.shifts = true → s'.dptr = i * setup.lineSize
  cptr : s'.cptr = i * setup.outSize
  ready : s'.mem.take s'.cptr = setup.lineStage.lines i s.mem
  behind : s'.mem.drop (i * setup.lineSize) = s.mem.drop (i * setup.lineSize)

/-- The lines that are needed have some contrast. -/
abbrev Contrasts (setup : Mp150Setup) (i : Nat) (raw : List SaneByte) : Prop :=
  setup.lineStage.AllWindows setup.Contrast i raw

theorem processLines_eq (hsteady : setup.Steady) {s : LineState} {i : Nat}
    (hfit : (i + setup.calcShifting) * setup.lineSize ≤ s.mem.length)
    (hbuf : s.linebuf.length = setup.lineSize) (hdptr : s.dptr = 0) (hcptr : s.cptr = 0)
    (hroom : 512 ≤ s.mem.length) :
    (¬ setup.Contrasts i s.mem ∧ processLines setup i s = none) ∨
    setup.Contrasts i s.mem ∧ ∃ s', processLines setup i s = some s' ∧ LinesDone setup i s s' := by
  induction i with
  | zero =>
    right
    refine ⟨fun y hy => absurd hy (Nat.not_lt_zero _), s, rfl, rfl, hbuf, fun _ => ?_, ?_, ?_, rfl⟩
    · rw [hdptr, Nat.zero_mul]
    · rw [hcptr, Nat.zero_mul]
    · rw [hcptr, List.take_zero]
      rfl
  | succ i ih =>
    have hsum : (i + 1 + setup.calcShifting) * setup.lineSize
        = i * setup.lineSize + (setup.calcShifting + 1) * setup.lineSize := by
      rw [← Nat.add_mul]
      congr 1
      omega
    have hmore : (i + setup.calcShifting) * setup.lineSize ≤ s.mem.length :=
      (Nat.mul_le_mul_right _ (by omega)).trans hfit
    rw [hsum] at hfit
    rcases ih hmore with ⟨hflat, hnone⟩ | ⟨hcontrasts, s', hrun, hdone⟩
    · left
      refine ⟨fun h => hflat fun y hy => h y (by omega), ?_⟩
      rw [processLines, hnone]
      rfl
    · have hmem := hdone.length_mem
      have hcptr' := hdone.cptr
      have hout : i * setup.outSize ≤ i * setup.lineSize :=
        Nat.mul_le_mul_left _ (setup.outSize_le.trans (by have := setup.crop_le; omega))
      have hwindow : stretch s'.mem (i * setup.lineSize)
          ((setup.calcShifting + 1) * setup.lineSize) = setup.lineStage.window s.mem i :=
        stretch_of_drop hdone.behind le_rfl
      have hsuccContrast : setup.Contrasts (i + 1) s.mem ↔
          setup.Contrast (setup.lineStage.window s.mem i) := by
        constructor
        · intro h
          exact h i (Nat.lt_succ_self i)
        · intro h y hy
          rcases Nat.lt_succ_iff_lt_or_eq.mp hy with hlt | rfl
          · exact hcontrasts y hlt
          · exact h
      have hturn := @processLine_eq setup hsteady s' (i * setup.lineSize) (by omega)
        hdone.length_linebuf hdone.dptr (by omega) (fun h => by
          have := lineart_room h i
          omega)
      rw [hwindow] at hturn
      have hnext : processLines setup (i + 1) s = processLine setup (i * setup.lineSize) s' := by
        rw [processLines, hrun]
        rfl
      rw [hnext, hsuccContrast]
      rcases hturn with hflat | ⟨hcontrast, s'', hrun', hline⟩
      · exact .inl hflat
      · right
        have hready : setup.lineStage.lines (i + 1) s.mem
            = setup.lineStage.lines i s.mem
              ++ setup.lineStage.line (setup.lineStage.window s.mem i) := by
          rw [LineStage.lines, List.range_succ, List.flatMap_append, List.flatMap_singleton]
          rfl
        refine ⟨hcontrast, s'', hrun', ?_, hline.length_linebuf, ?_, ?_, ?_, ?_⟩
        · rw [hline.length_mem, hmem]
        · intro h
          rw [hline.dptr h, Nat.succ_mul]
        · rw [hline.cptr, hcptr', Nat.succ_mul]
        · rw [hline.ready, hdone.ready, hready]
        · rw [Nat.succ_mul, hline.behind, ← List.drop_drop, hdone.behind, List.drop_drop]

end Mp150Setup

end SaneBackends.Pixma
