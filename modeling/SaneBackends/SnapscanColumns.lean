import SaneBackends.SnapscanRouter
import SaneBackends.SnapscanDeinterlacer
import Mathlib.Data.List.GetD

/-!
# The shifted columns of the SnapScan backend

What an image looks like in which every other column has been put right: the pixels of the
shifted columns come from the line that is `ch_offset` lines above, and where there is none,
they are copies of pixels beside them.  The output of the deinterlacer is such an image for
some widths and heights only: the column is taken from the place in the buffer, so that an
odd width exchanges the columns in every other line, and in lineart mode the last column of
a byte has no bit beside it that is used.
-/

namespace SaneBackends

/-! ### Pixels -/

/-- A pixel of a lineart line; the first one is the highest bit. -/
def lineBit (line : Nat) (w : List SaneByte) (n x : Nat) : Bool :=
  (w.getD (line * n + x / 8) 0).getLsbD (7 - x % 8)

namespace Deinterlacer

/-- Pixel `x` of line `n` of an image is pixel `x'` of line `n'` of another one. -/
def SamePixel (p : Deinterlacer) (out : List SaneByte) (n x : Nat) (w : List SaneByte)
    (n' x' : Nat) : Prop :=
  if p.chLineart then lineBit p.chLineSize out n x = lineBit p.chLineSize w n' x'
  else
    ∀ j < p.chBytesPerPixel, out[p.chLineSize * n + x * p.chBytesPerPixel + j]? =
      w[p.chLineSize * n' + x' * p.chBytesPerPixel + j]?

/-- The number of bytes up to the end of a pixel. -/
def pixelEnd (p : Deinterlacer) (n x : Nat) : Nat :=
  p.chLineSize * n + if p.chLineart then x / 8 + 1 else (x + 1) * p.chBytesPerPixel

/-- The pixels of this column of the image are shifted. -/
def shiftedColumn (p : Deinterlacer) (x : Nat) : Bool :=
  x % 2 == if p.chShiftEven then 0 else 1

/-- The columns of `out`, as far as it goes, are those of `w` put right. -/
structure Pixels (p : Deinterlacer) (width : Nat) (w out : List SaneByte) : Prop where
  unshifted : ∀ {n x}, x < width → p.pixelEnd n x ≤ out.length → p.shiftedColumn x = false →
    p.SamePixel out n x w n x
  shifted : ∀ {n x}, x < width → p.pixelEnd n x ≤ out.length → p.shiftedColumn x = true →
    p.chOffset ≤ n → p.SamePixel out n x w (n - p.chOffset) x
  begins : ∀ {n x}, x < width → p.pixelEnd n x ≤ out.length → p.shiftedColumn x = true →
    n < p.chOffset → ∃ y < width, (y + 1 = x ∨ y = x + 1) ∧ p.SamePixel out n x w n y

/-- The lines of an image have `width` pixels. -/
structure Lines (p : Deinterlacer) (width : Nat) : Prop extends p.Sized where
  columns : 0 < width
  lineSize : p.chLineSize = if p.chLineart then (width + 7) / 8 else width * p.chBytesPerPixel
  bytes : 0 < p.chBytesPerPixel
  offset : 0 < p.chOffset

end Deinterlacer

variable {p : Deinterlacer} {width height n x j : Nat} {w out : List SaneByte}

/-- What holds of the whole image holds of its front parts. -/
theorem samePixel_front {out' w : List SaneByte} {n' x' : Nat} (hfront : out <+: out')
    (hend : p.pixelEnd n x ≤ out.length) (h : p.SamePixel out' n x w n' x') :
    p.SamePixel out n x w n' x' := by
  obtain ⟨rest, rfl⟩ := hfront
  unfold Deinterlacer.SamePixel Deinterlacer.pixelEnd at *
  split_ifs at h hend ⊢ with hlineart
  · rw [← h, lineBit, lineBit, List.getD_eq_getElem?_getD, List.getD_eq_getElem?_getD,
      List.getElem?_append_left (by omega)]
  · intro j hj
    rw [← h j hj, List.getElem?_append_left]
    rw [Nat.succ_mul] at hend
    omega

theorem Deinterlacer.Pixels.front {out' : List SaneByte} (h : p.Pixels width w out')
    (hfront : out <+: out') : p.Pixels width w out := by
  have hle := hfront.length_le
  refine ⟨?_, ?_, ?_⟩
  · intro n x hx hend hcolumn
    exact samePixel_front hfront hend (h.unshifted hx (hend.trans hle) hcolumn)
  · intro n x hx hend hcolumn hn
    exact samePixel_front hfront hend (h.shifted hx (hend.trans hle) hcolumn hn)
  · intro n x hx hend hcolumn hn
    obtain ⟨y, hy, hbeside, hsame⟩ := h.begins hx (hend.trans hle) hcolumn hn
    exact ⟨y, hy, hbeside, samePixel_front hfront hend hsame⟩

/-! ### Grey and colour -/

theorem getElem?_deinterlace {k : Nat} (hk : k < w.length) :
    (p.deinterlace w)[k]? = some (p.output (w.getD · 0) k) := by
  rw [Deinterlacer.deinterlace, List.getElem?_map, List.getElem?_range hk]
  rfl

section
variable (hlines : p.Lines width) (hlineart : p.chLineart = false)
include hlines hlineart

theorem grey_line : p.chLineSize = width * p.chBytesPerPixel := by
  rw [hlines.lineSize, hlineart]
  rfl

theorem pixel_in_line (hx : x < width) (hj : j < p.chBytesPerPixel) :
    x * p.chBytesPerPixel + j < p.chLineSize := by
  rw [grey_line hlines hlineart]
  have hmul : (x + 1) * p.chBytesPerPixel ≤ width * p.chBytesPerPixel := Nat.mul_le_mul_right _ hx
  rw [Nat.succ_mul] at hmul
  omega

/-- The deinterlacer counts the pixels of the lines that are in its buffer. -/
theorem shiftedAt_pixel (hx : x < width) (hj : j < p.chBytesPerPixel) :
    p.shiftedAt (p.chLineSize * n + x * p.chBytesPerPixel + j) =
      p.shiftedColumn (width * (n % (p.chOffset + 1)) + x) := by
  have hinside := pixel_in_line hlines hlineart hx hj
  have hplace : (p.chLineSize * n + x * p.chBytesPerPixel + j) % p.chSize / p.chBytesPerPixel =
      width * (n % (p.chOffset + 1)) + x := by
    rw [hlines.size, Nat.add_assoc, place_mod hinside, grey_line hlines hlineart,
      Nat.mul_right_comm, ← Nat.add_assoc, ← Nat.add_mul, Nat.add_comm _ j,
      Nat.add_mul_div_right _ _ hlines.bytes,
      Nat.div_eq_of_lt hj, Nat.zero_add]
  unfold Deinterlacer.shiftedAt Deinterlacer.shifted Deinterlacer.shiftedColumn
  simp only [hplace]
  cases p.chShiftEven with
  | true => rfl
  | false => rfl

theorem past_pixel (hx : 0 < x) (hxw : x < width) (hj : j < p.chBytesPerPixel) :
    p.past (p.chLineSize * n + x * p.chBytesPerPixel + j) = decide (p.chOffset ≤ n) := by
  have hinside := pixel_in_line hlines hlineart hxw hj
  have hfirst : p.chBytesPerPixel ≤ x * p.chBytesPerPixel := Nat.le_mul_of_pos_left _ hx
  have hbytes := hlines.bytes
  apply decide_eq_decide.mpr
  constructor
  · intro hpast
    by_contra hn
    have hmul : p.chLineSize * (n + 1) ≤ p.chLineSize * p.chOffset :=
      Nat.mul_le_mul_left _ (by omega)
    rw [Nat.mul_succ] at hmul
    omega
  · intro hn
    have hmul : p.chLineSize * p.chOffset ≤ p.chLineSize * n := Nat.mul_le_mul_left _ hn
    omega

/-- A byte of the output, if the columns of its line are not exchanged. -/
theorem output_pixel (hodd : p.chShiftEven = false)
    (hline : (width * (n % (p.chOffset + 1)) + x) % 2 = x % 2) (hx : x < width)
    (hj : j < p.chBytesPerPixel) (w : Nat → SaneByte) :
    p.output w (p.chLineSize * n + x * p.chBytesPerPixel + j) =
      w (if p.shiftedColumn x then
        if p.chOffset ≤ n then p.chLineSize * (n - p.chOffset) + x * p.chBytesPerPixel + j
        else p.chLineSize * n + (x - 1) * p.chBytesPerPixel + j
      else p.chLineSize * n + x * p.chBytesPerPixel + j) := by
  have hinside := pixel_in_line hlines hlineart hx hj
  have hcolumn : p.shiftedColumn (width * (n % (p.chOffset + 1)) + x) = p.shiftedColumn x := by
    rw [Deinterlacer.shiftedColumn, Deinterlacer.shiftedColumn, hline]
  unfold Deinterlacer.output
  rw [hlineart, shiftedAt_pixel hlines hlineart hx hj, hcolumn]
  cases hshift : p.shiftedColumn x with
  | false => rfl
  | true =>
    have hpos : 0 < x := by
      rw [Deinterlacer.shiftedColumn, hodd] at hshift
      have := of_decide_eq_true hshift
      rcases x with - | x
      · cases this
      · exact Nat.succ_pos x
    simp only [Bool.false_eq_true, if_false, if_true,
      past_pixel hlines hlineart hpos hx hj, decide_eq_true_eq]
    split_ifs with hn
    · rw [Nat.mul_sub]
      have hmul : p.chLineSize * p.chOffset ≤ p.chLineSize * n := Nat.mul_le_mul_left _ hn
      congr 1
      omega
    · have hfirst : p.chBytesPerPixel ≤ x * p.chBytesPerPixel := Nat.le_mul_of_pos_left _ hpos
      have hbytes := hlines.bytes
      have hmod : (p.chLineSize * n + x * p.chBytesPerPixel + j) % p.chLineSize ≠ 0 := by
        rw [Nat.add_assoc, Nat.mul_add_mod, Nat.mod_eq_of_lt hinside]
        omega
      rw [Deinterlacer.neighbourAt, if_neg hmod, Nat.sub_mul, Nat.one_mul]
      congr 1
      omega

/-- Pixels that are there are pixels of a line of the image. -/
theorem pixel_line_lt (hx : x < width) (hend : p.pixelEnd n x ≤ p.chLineSize * height) :
    n < height := by
  have hmul : (x + 1) * p.chBytesPerPixel ≤ width * p.chBytesPerPixel := Nat.mul_le_mul_right _ hx
  have hsome : 0 < (x + 1) * p.chBytesPerPixel := Nat.mul_pos (Nat.succ_pos _) hlines.bytes
  rw [Deinterlacer.pixelEnd, hlineart, if_neg Bool.false_ne_true] at hend
  apply Nat.lt_of_mul_lt_mul_left (a := p.chLineSize)
  omega

/-- With an even width the odd columns are put right, and so is a single line. -/
theorem grey_pixels (hodd : p.chShiftEven = false) (hfits : width % 2 = 0 ∨ height ≤ 1)
    (hw : w.length = p.chLineSize * height) : p.Pixels width w (p.deinterlace w) := by
  have hsame : ∀ {n x j}, x < width → p.pixelEnd n x ≤ (p.deinterlace w).length →
      j < p.chBytesPerPixel → (p.deinterlace w)[p.chLineSize * n + x * p.chBytesPerPixel + j]? =
        w[if p.shiftedColumn x then
          if p.chOffset ≤ n then p.chLineSize * (n - p.chOffset) + x * p.chBytesPerPixel + j
          else p.chLineSize * n + (x - 1) * p.chBytesPerPixel + j
        else p.chLineSize * n + x * p.chBytesPerPixel + j]? := by
    intro n x j hx hend hj
    rw [length_deinterlace, hw] at hend
    have hn := pixel_line_lt hlines hlineart hx hend
    have hline : (width * (n % (p.chOffset + 1)) + x) % 2 = x % 2 := by
      rcases hfits with heven | hsingle
      · rw [Nat.add_mod, Nat.mul_mod, heven, Nat.zero_mul, Nat.zero_mod, Nat.zero_add, Nat.mod_mod]
      · obtain rfl : n = 0 := by omega
        rw [Nat.zero_mod, Nat.mul_zero, Nat.zero_add]
    have hthere : p.chLineSize * n + x * p.chBytesPerPixel + j < w.length := by
      have hinside := pixel_in_line hlines hlineart hx hj
      have hmul : p.chLineSize * (n + 1) ≤ p.chLineSize * height := Nat.mul_le_mul_left _ hn
      rw [Nat.mul_succ] at hmul
      omega
    have hsource : (if p.shiftedColumn x then
        if p.chOffset ≤ n then p.chLineSize * (n - p.chOffset) + x * p.chBytesPerPixel + j
        else p.chLineSize * n + (x - 1) * p.chBytesPerPixel + j
      else p.chLineSize * n + x * p.chBytesPerPixel + j) < w.length := by
      have hback : p.chLineSize * (n - p.chOffset) ≤ p.chLineSize * n :=
        Nat.mul_le_mul_left _ (Nat.sub_le _ _)
      have hbeside : (x - 1) * p.chBytesPerPixel ≤ x * p.chBytesPerPixel :=
        Nat.mul_le_mul_right _ (Nat.sub_le _ _)
      split_ifs <;> omega
    rw [getElem?_deinterlace hthere, output_pixel hlines hlineart hodd hline hx hj,
      List.getD_eq_getElem?_getD, List.getElem?_eq_getElem hsource, Option.getD_some]
  refine ⟨?_, ?_, ?_⟩
  · intro n x hx hend hcolumn
    rw [Deinterlacer.SamePixel, hlineart, if_neg Bool.false_ne_true]
    intro j hj
    rw [hsame hx hend hj, hcolumn, if_neg Bool.false_ne_true]
  · intro n x hx hend hcolumn hn
    rw [Deinterlacer.SamePixel, hlineart, if_neg Bool.false_ne_true]
    intro j hj
    rw [hsame hx hend hj, hcolumn, if_pos rfl, if_pos hn]
  · intro n x hx hend hcolumn hn
    rw [Deinterlacer.shiftedColumn, hodd] at hcolumn
    have hparity : x % 2 = 1 := of_decide_eq_true hcolumn
    refine ⟨x - 1, by omega, .inl (by omega), ?_⟩
    rw [Deinterlacer.SamePixel, hlineart, if_neg Bool.false_ne_true]
    intro j hj
    have hcolumn' : p.shiftedColumn x = true := by
      rw [Deinterlacer.shiftedColumn, hodd]
      exact hcolumn
    rw [hsame hx hend hj, hcolumn', if_pos rfl, if_neg (Nat.not_le_of_lt hn)]

/-- With an odd width the first pixel of the second line is taken for a shifted one. -/
theorem grey_exchanged (hodd : p.chShiftEven = false) (hwidth : width % 2 = 1)
    (hheight : 1 < height) :
    ∃ w : List SaneByte, w.length = p.chLineSize * height ∧
      ¬ p.Pixels width w (p.deinterlace w) := by
  have hline := hlines.line
  have hfirst := pixel_in_line hlines hlineart hlines.columns hlines.bytes
  have hmul : p.chLineSize * 2 ≤ p.chLineSize * height := Nat.mul_le_mul_left _ hheight
  have hpixel : p.chBytesPerPixel ≤ p.chLineSize := by
    rw [grey_line hlines hlineart]
    exact Nat.le_mul_of_pos_left _ hlines.columns
  have hbytes := hlines.bytes
  let w : List SaneByte := List.replicate p.chLineSize 0 ++
    1 :: List.replicate (p.chLineSize * height - p.chLineSize - 1) 0
  have hlen : w.length = p.chLineSize * height := by
    rw [List.length_append, List.length_replicate, List.length_cons, List.length_replicate]
    omega
  refine ⟨w, hlen, ?_⟩
  intro hpixels
  have hcolumn : p.shiftedColumn 0 = false := by
    rw [Deinterlacer.shiftedColumn, hodd]
    rfl
  have hsame := hpixels.unshifted (n := 1) hlines.columns (by
    rw [Deinterlacer.pixelEnd, hlineart, length_deinterlace, hlen]
    simp only [Bool.false_eq_true, if_false]
    omega) hcolumn
  rw [Deinterlacer.SamePixel, hlineart, if_neg Bool.false_ne_true] at hsame
  have hbyte := hsame 0 hlines.bytes
  have hshifted := shiftedAt_pixel (n := 1) hlines hlineart hlines.columns hlines.bytes
  have hexchanged : p.shiftedColumn (width * (1 % (p.chOffset + 1)) + 0) = true := by
    rw [Deinterlacer.shiftedColumn, hodd, Nat.mod_eq_of_lt (Nat.succ_lt_succ hlines.offset),
      Nat.mul_one, Nat.add_zero, hwidth]
    rfl
  have hpast : p.past p.chLineSize = false :=
    decide_eq_false (Nat.not_lt_of_le (Nat.le_mul_of_pos_right _ hlines.offset))
  have hright : w[p.chLineSize]? = some 1 := by
    rw [List.getElem?_append_right (by rw [List.length_replicate]), List.length_replicate,
      Nat.sub_self]
    rfl
  have hleft : w.getD (p.chLineSize + p.chBytesPerPixel) 0 = 0 := by
    rw [List.getD_eq_getElem?_getD,
      List.getElem?_append_right (by rw [List.length_replicate]; omega), List.length_replicate,
      Nat.add_sub_cancel_left]
    obtain ⟨m, hm⟩ := Nat.exists_eq_succ_of_ne_zero hbytes.ne'
    rw [hm, List.getElem?_cons_succ, List.getElem?_replicate]
    split_ifs <;> rfl
  rw [Nat.mul_one, Nat.zero_mul, Nat.add_zero] at hbyte hshifted
  rw [getElem?_deinterlace (by omega), hright, Deinterlacer.output, hlineart, hshifted, hexchanged,
    hpast, Deinterlacer.neighbourAt, if_pos (Nat.mod_self _)] at hbyte
  simp only [Bool.false_eq_true, if_false, if_true, hleft] at hbyte
  exact absurd hbyte (by decide)

end

/-! ### Lineart -/

/-- The bits of the columns that are not shifted stay as they are. -/
theorem lineartByte_unshifted (past : Bool) (here back : SaneByte) {i : Nat} (hi : i < 8)
    (hodd : i % 2 = 1) : (lineartByte false past here back).getLsbD i = here.getLsbD i := by
  interval_cases i <;> first
    | exact absurd hodd (by decide)
    | cases past <;> simp [lineartByte]

/-- In the first lines the bits of the others are copies of the bits on their right. -/
theorem lineartByte_beside (here back : SaneByte) {i : Nat} (hi : i < 8) (heven : i % 2 = 0) :
    (lineartByte false false here back).getLsbD i = (decide (0 < i) && here.getLsbD (i - 1)) := by
  interval_cases i <;> first
    | exact absurd heven (by decide)
    | simp [lineartByte]

theorem lineBit_deinterlace (hlineart : p.chLineart = true)
    (hthere : p.chLineSize * n + x / 8 < w.length) :
    lineBit p.chLineSize (p.deinterlace w) n x =
      (lineartByte p.chShiftEven (p.past (p.chLineSize * n + x / 8))
        (w.getD (p.chLineSize * n + x / 8) 0)
        (if p.past (p.chLineSize * n + x / 8) then
          w.getD (p.chLineSize * n + x / 8 - p.chLineSize * p.chOffset) 0 else 0)).getLsbD
        (7 - x % 8) := by
  rw [lineBit, List.getD_eq_getElem?_getD, getElem?_deinterlace hthere, Option.getD_some,
    Deinterlacer.output, hlineart, if_pos rfl]

/-- The output begins with a byte that is computed from the first one alone. -/
theorem lineart_first (hlineart : p.chLineart = true) (hx : x < 8) (hthere : 0 < w.length) :
    lineBit p.chLineSize (p.deinterlace w) 0 x =
      (lineartByte p.chShiftEven false (w.getD 0 0) 0).getLsbD (7 - x % 8) := by
  have hbyte : p.chLineSize * 0 + x / 8 = 0 := by
    rw [Nat.mul_zero, Nat.zero_add]
    exact Nat.div_eq_of_lt hx
  have hpast : p.past 0 = false := decide_eq_false (Nat.not_lt_zero _)
  rw [lineBit_deinterlace hlineart (by omega), hbyte, hpast]
  rfl

section
variable (hlines : p.Lines width) (hlineart : p.chLineart = true)
include hlines hlineart

theorem lineart_line : p.chLineSize = (width + 7) / 8 := by
  rw [hlines.lineSize, hlineart]
  rfl

theorem lineart_end (hx : x < width) (hn : n < height) :
    p.pixelEnd n x ≤ p.chLineSize * height := by
  have hmul : p.chLineSize * (n + 1) ≤ p.chLineSize * height := Nat.mul_le_mul_left _ hn
  have hline := lineart_line hlines hlineart
  rw [Nat.mul_succ] at hmul
  rw [Deinterlacer.pixelEnd, hlineart, if_pos rfl]
  omega

/-- Lines of one pixel have no shifted column, and short lines of an odd number of pixels are
    right as long as there is no line above that the pixels come from. -/
theorem lineart_pixels (hodd : p.chShiftEven = false)
    (hfits : width = 1 ∨ width % 2 = 1 ∧ width < 8 ∧ height ≤ p.chOffset)
    (hw : w.length = p.chLineSize * height) : p.Pixels width w (p.deinterlace w) := by
  have hsize : p.chLineSize = 1 := by
    rw [lineart_line hlines hlineart]
    omega
  have hshift : ∀ {x}, p.shiftedColumn x = decide (x % 2 = 1) := by
    intro x
    rw [Deinterlacer.shiftedColumn, hodd]
    rfl
  have hinside : ∀ {n x}, x < width → p.pixelEnd n x ≤ (p.deinterlace w).length →
      p.chLineSize * n + x / 8 < w.length ∧ n < height := by
    intro n x hx hend
    rw [length_deinterlace, Deinterlacer.pixelEnd, hlineart, if_pos rfl] at hend
    refine ⟨by omega, ?_⟩
    rw [hw, hsize] at hend
    omega
  refine ⟨?_, ?_, ?_⟩
  · intro n x hx hend hcolumn
    have heven : ¬ x % 2 = 1 := of_decide_eq_false (hshift.symm.trans hcolumn)
    rw [Deinterlacer.SamePixel, hlineart, if_pos rfl,
      lineBit_deinterlace hlineart (hinside hx hend).1, hodd,
      lineartByte_unshifted _ _ _ (by omega) (by omega), lineBit]
  · intro n x hx hend hcolumn hn
    have hparity : x % 2 = 1 := of_decide_eq_true (hshift.symm.trans hcolumn)
    have := (hinside hx hend).2
    omega
  · intro n x hx hend hcolumn hn
    have hparity : x % 2 = 1 := of_decide_eq_true (hshift.symm.trans hcolumn)
    have hpast : p.past (p.chLineSize * n + x / 8) = false := by
      apply decide_eq_false
      rw [hsize]
      omega
    refine ⟨x + 1, by omega, .inr rfl, ?_⟩
    rw [Deinterlacer.SamePixel, hlineart, if_pos rfl,
      lineBit_deinterlace hlineart (hinside hx hend).1, hodd, hpast,
      lineartByte_beside _ _ (by omega) (by omega), decide_eq_true (by omega), Bool.true_and,
      lineBit]
    have hbyte : (x + 1) / 8 = x / 8 := by omega
    have hbit : 7 - x % 8 - 1 = 7 - (x + 1) % 8 := by omega
    rw [hbyte, hbit]

/-- If the even columns are shifted, the first bit of a line has no bit on its left. -/
theorem lineart_even (heven : p.chShiftEven = true) (hheight : 0 < height) :
    ∃ w : List SaneByte, w.length = p.chLineSize * height ∧
      ¬ p.Pixels width w (p.deinterlace w) := by
  have hsome : 0 < p.chLineSize * height := Nat.mul_pos hlines.line hheight
  refine ⟨List.replicate (p.chLineSize * height) 0xff, List.length_replicate, ?_⟩
  intro hpixels
  have hend := lineart_end hlines hlineart hlines.columns hheight
  obtain ⟨y, hy, hbeside, hsame⟩ := hpixels.begins hlines.columns
    (by rwa [length_deinterlace, List.length_replicate])
    (by rw [Deinterlacer.shiftedColumn, heven]; rfl) hlines.offset
  obtain rfl : y = 1 := by omega
  rw [Deinterlacer.SamePixel, hlineart, if_pos rfl,
    lineart_first hlineart (by decide) (by rwa [List.length_replicate]), heven, lineBit,
    Nat.mul_zero, List.getD_replicate _ hsome] at hsame
  exact absurd hsame (by decide)

/-- The last bit of a byte has no bit on its right. -/
theorem lineart_wide (hodd : p.chShiftEven = false) (hwidth : 8 ≤ width) (hheight : 0 < height) :
    ∃ w : List SaneByte, w.length = p.chLineSize * height ∧
      ¬ p.Pixels width w (p.deinterlace w) := by
  have hsome : 0 < p.chLineSize * height := Nat.mul_pos hlines.line hheight
  have hfirst : p.chLineSize ≤ p.chLineSize * height := Nat.le_mul_of_pos_right _ hheight
  have hline := lineart_line hlines hlineart
  refine ⟨List.replicate (p.chLineSize * height) 0xff, List.length_replicate, ?_⟩
  intro hpixels
  have hx : 7 < width := hwidth
  have hend := lineart_end hlines hlineart hx hheight
  obtain ⟨y, hy, hbeside, hsame⟩ := hpixels.begins hx
    (by rwa [length_deinterlace, List.length_replicate])
    (by rw [Deinterlacer.shiftedColumn, hodd]; rfl) hlines.offset
  rw [Deinterlacer.SamePixel, hlineart, if_pos rfl,
    lineart_first hlineart (by decide) (by rwa [List.length_replicate]), hodd, lineBit,
    List.getD_replicate _ hsome, List.getD_replicate _ (by omega)] at hsame
  rcases hbeside with hleft | rfl
  · obtain rfl : y = 6 := by omega
    exact absurd hsame (by decide)
  · exact absurd hsame (by decide)

/-- The last pixel of a short line of an even number of pixels is a bit behind the line. -/
theorem lineart_short (hodd : p.chShiftEven = false) (hwidth : width < 8) (hpair : width % 2 = 0)
    (hheight : 0 < height) :
    ∃ w : List SaneByte, w.length = p.chLineSize * height ∧
      ¬ p.Pixels width w (p.deinterlace w) := by
  have hsome : 0 < p.chLineSize * height := Nat.mul_pos hlines.line hheight
  have hcolumns := hlines.columns
  refine ⟨List.replicate (p.chLineSize * height) ((0xff : SaneByte) <<< (8 - width)),
    List.length_replicate, ?_⟩
  intro hpixels
  have hx : width - 1 < width := by omega
  have hend := lineart_end hlines hlineart hx hheight
  obtain ⟨y, hy, hbeside, hsame⟩ := hpixels.begins hx
    (by rwa [length_deinterlace, List.length_replicate])
    (by
      rw [Deinterlacer.shiftedColumn, hodd]
      apply decide_eq_true
      show (width - 1) % 2 = 1
      omega) hlines.offset
  obtain rfl : y = width - 2 := by omega
  have hzero : (width - 2) / 8 = 0 := by omega
  rw [Deinterlacer.SamePixel, hlineart, if_pos rfl,
    lineart_first hlineart (by omega) (by rwa [List.length_replicate]), hodd, lineBit, hzero,
    Nat.mul_zero, List.getD_replicate _ hsome] at hsame
  clear hpixels hend
  interval_cases width
  · exact absurd hpair (by decide)
  · exact absurd hsame (by decide)
  · exact absurd hpair (by decide)
  · exact absurd hsame (by decide)
  · exact absurd hpair (by decide)
  · exact absurd hsame (by decide)
  · exact absurd hpair (by decide)

/-- The first byte of the line in which the lines above begin to be used is made without. -/
theorem lineart_late (hodd : p.chShiftEven = false) (hwidth : 1 < width) (hshort : width < 8)
    (hheight : p.chOffset < height) :
    ∃ w : List SaneByte, w.length = p.chLineSize * height ∧
      ¬ p.Pixels width w (p.deinterlace w) := by
  have hsize : p.chLineSize = 1 := by
    rw [lineart_line hlines hlineart]
    omega
  have hoffset := hlines.offset
  obtain ⟨m, rfl⟩ : ∃ m, height = m + 1 := ⟨height - 1, by omega⟩
  have hlen : (0xff :: List.replicate m (0 : SaneByte)).length = p.chLineSize * (m + 1) := by
    rw [List.length_cons, List.length_replicate, hsize, Nat.one_mul]
  refine ⟨0xff :: List.replicate m 0, hlen, ?_⟩
  intro hpixels
  have hend := lineart_end hlines hlineart hwidth hheight
  have hsame := hpixels.shifted hwidth (by rwa [length_deinterlace, hlen])
    (by rw [Deinterlacer.shiftedColumn, hodd]; rfl) le_rfl
  have hplace : p.chLineSize * p.chOffset + 1 / 8 = p.chOffset := by
    rw [hsize]
    omega
  have hpast : p.past p.chOffset = false := by
    apply decide_eq_false
    rw [hsize]
    omega
  have hzero : (0xff :: List.replicate m (0 : SaneByte)).getD p.chOffset 0 = 0 := by
    obtain ⟨i, hi⟩ := Nat.exists_eq_succ_of_ne_zero hoffset.ne'
    rw [hi, List.getD_cons_succ, List.getD_replicate _ (by omega)]
  have hfirst : (0xff :: List.replicate m (0 : SaneByte)).getD (1 / 8) 0 = 0xff := rfl
  rw [Deinterlacer.SamePixel, hlineart, if_pos rfl,
    lineBit_deinterlace hlineart (by rw [hplace, hlen, hsize]; omega), hplace, hpast, hzero, hodd,
    lineBit, Nat.sub_self, Nat.mul_zero, Nat.zero_add, if_neg Bool.false_ne_true, hfirst] at hsame
  exact absurd hsame (by decide)

end

end SaneBackends
