import SaneBackends.LexmarkRead

/-!
# The lines of a Lexmark scan

The layouts of the three modes, and that the functions that add a byte to the read buffer
follow them.
-/

namespace SaneBackends.Lexmark

open LineAssembly RingMemory

/-! ### Layouts -/

/-- The byte of a raw line that goes to place `o` of an interleaved line of `w` pixels. -/
def planeIndex (w o : Nat) : Nat := o % 3 * w + o / 3

theorem getD_concat {cur : List SaneByte} {x : SaneByte} {i : Nat} (h : i < cur.length) :
    (cur ++ [x]).getD i 0 = cur.getD i 0 := by
  rw [List.getD_eq_getElem?_getD, List.getD_eq_getElem?_getD, List.getElem?_append_left h]

theorem planeIndex_lt {w o : Nat} (ho : o < 3 * w) : planeIndex w o < 3 * w := by
  have hplane : o % 3 * w ≤ 2 * w := Nat.mul_le_mul_right w (by omega)
  rw [planeIndex]
  omega

theorem planeIndex_eq_iff {w o p : Nat} (ho : o < 3 * w) (hp : p < 3 * w) :
    planeIndex w o = p ↔ o = 3 * (p % w) + p / w := by
  have hw : 0 < w := by omega
  have hpixel : o / 3 < w := by omega
  have hplane : p / w < 3 := Nat.div_lt_of_lt_mul (by rwa [Nat.mul_comm])
  have hdivmod := Nat.div_add_mod p w
  rw [planeIndex]
  constructor
  · rintro rfl
    rw [Nat.mul_comm (o % 3), Nat.mul_add_mod, Nat.mod_eq_of_lt hpixel, Nat.mul_add_div hw,
      Nat.div_eq_of_lt hpixel]
    omega
  · intro heq
    generalize p / w = plane at hplane hdivmod heq
    generalize p % w = pixel at hdivmod heq
    have hmod : o % 3 = plane := by omega
    have hdiv : o / 3 = pixel := by omega
    rw [hmod, hdiv, Nat.mul_comm]
    exact hdivmod

/-- The byte `o` of a line is pixel `o / 3` of plane `o % 3`. -/
def colorLayout (w : Nat) (hw : 0 < w) : Layout SaneByte where
  raw := 3 * w
  size := 3 * w
  place p := 3 * (p % w) + p / w
  written p o := planeIndex w o < p
  cell cur o := cur.getD (planeIndex w o) 0
  raw_pos := by omega
  place_lt {p} hp := by
    have hplane : p / w < 3 := Nat.div_lt_of_lt_mul (by rwa [Nat.mul_comm])
    have hpixel := Nat.mod_lt p hw
    generalize p / w = plane at hplane ⊢
    generalize p % w = pixel at hpixel ⊢
    omega
  place_last {p} hp := by
    have hplane : p / w = 2 := Nat.div_eq_of_lt_le (by omega) (by omega)
    have hdivmod := Nat.div_add_mod p w
    rw [hplane] at hdivmod ⊢
    omega
  written_zero o := Nat.not_lt_zero _
  written_succ {p o} hp ho := by
    rw [← planeIndex_eq_iff ho hp, Nat.lt_succ_iff_lt_or_eq, or_comm]
  written_all ho := planeIndex_lt ho
  cell_append x _ _ _ hwritten := getD_concat hwritten

/-- A line of gray pixels comes as it is. -/
def grayLayout (w : Nat) (hw : 0 < w) : Layout SaneByte where
  raw := w
  size := w
  place p := p
  written p o := o < p
  cell cur o := cur.getD o 0
  raw_pos := hw
  place_lt hp := hp
  place_last hp := hp
  written_zero o := Nat.not_lt_zero o
  written_succ _ _ := by rw [Nat.lt_succ_iff_lt_or_eq, or_comm]
  written_all ho := ho
  cell_append x _ _ _ hwritten := getD_concat hwritten

/-- At most eight pixels as the bits of a byte, from the highest one on. -/
def packBits (threshold : SaneByte) (pixels : List SaneByte) : SaneByte :=
  pixels.zipIdx.foldl (fun byte p => byte ||| pixelBit threshold p.1 >>> p.2) 0

theorem packBits_append (threshold x : SaneByte) (pixels : List SaneByte) :
    packBits threshold (pixels ++ [x]) =
      packBits threshold pixels ||| pixelBit threshold x >>> pixels.length := by
  simp [packBits, List.zipIdx_append]

/-- The byte `o` of a line are the bits of the pixels from `8 * o` on. -/
def lineartLayout (threshold : SaneByte) (w : Nat) (hw : 0 < w) : Layout SaneByte where
  raw := w
  size := (w + 7) / 8
  place p := p / 8
  written p o := 8 * o < p
  cell cur o := packBits threshold ((cur.drop (8 * o)).take 8)
  raw_pos := hw
  place_lt hp := by omega
  place_last hp := by omega
  written_zero o := Nat.not_lt_zero _
  written_succ {p o} _ _ := by omega
  written_all ho := by omega
  cell_append {cur o} x _ _ hplace hwritten := by
    rw [List.drop_append_of_le_length (by omega), List.take_append_of_le_length]
    rw [List.length_drop]
    omega

/-- The lines of a scan of `w` pixels a line. -/
def layout (mode : Mode) (threshold : SaneByte) (w : Nat) (hw : 0 < w) : Layout SaneByte :=
  match mode with
  | .color => colorLayout w hw
  | .gray => grayLayout w hw
  | .lineart => lineartLayout threshold w hw

/-! ### Adding a byte -/

/-- The offsets say that `p` bytes of a line have been added. -/
def ReadBuffer.At (mode : Mode) (w p : Nat) (rb : ReadBuffer) : Prop :=
  match mode with
  | .color =>
    rb.maxRedOffset = 3 * w - 3 ∧ rb.maxGreenOffset = 3 * w - 2 ∧ rb.maxBlueOffset = 3 * w - 1 ∧
      rb.region = (if p < w then .red else if p < 2 * w then .green else .blue) ∧
      rb.redOffset = (if p < w then 3 * p else 0) ∧
      rb.greenOffset = (if w ≤ p ∧ p < 2 * w then 3 * (p - w) + 1 else 1) ∧
      rb.blueOffset = (if 2 * w ≤ p then 3 * (p - 2 * w) + 2 else 2)
  | .gray => rb.maxGrayOffset = w - 1 ∧ rb.grayOffset = p
  | .lineart =>
    rb.maxLineartOffset = w - 1 ∧ rb.maxGrayOffset = (w + 7) / 8 - 1 ∧ rb.bitCounter = p ∧
      rb.grayOffset = p / 8

/-- A byte has been added: it is stored in its cell, and at the end of a line the next one
    begins. -/
structure Added (mode : Mode) (threshold : SaneByte) (w : Nat) (hw : 0 < w) (cur : List SaneByte)
    (x : SaneByte) (rb rb' : ReadBuffer) : Prop where
  data : rb'.data = Function.update rb.data
    (rb.writeptr + (layout mode threshold w hw).place cur.length)
    ((layout mode threshold w hw).cell (cur ++ [x])
      ((layout mode threshold w hw).place cur.length))
  size : rb'.size = rb.size
  linesize : rb'.linesize = rb.linesize
  readptr : rb'.readptr = rb.readptr
  maxWriteptr : rb'.maxWriteptr = rb.maxWriteptr
  inside : cur.length + 1 < (layout mode threshold w hw).raw →
    rb'.At mode w (cur.length + 1) ∧ rb'.writeptr = rb.writeptr ∧ rb'.empty = rb.empty
  last : cur.length + 1 = (layout mode threshold w hw).raw →
    rb'.At mode w 0 ∧ rb'.empty = false ∧
      rb'.writeptr = if rb.writeptr = rb.maxWriteptr then 0 else rb.writeptr + rb.linesize

variable {w : Nat} {hw : 0 < w} {threshold x : SaneByte} {cur : List SaneByte}
  {rb : ReadBuffer}

theorem getD_last : (cur ++ [x]).getD cur.length 0 = x := by
  rw [List.getD_eq_getElem?_getD, List.getElem?_append_right (Nat.le_refl _), Nat.sub_self]
  rfl

theorem addByteGray_added (h : rb.At .gray w cur.length) :
    Added .gray threshold w hw cur x rb (addByteGray rb x) := by
  obtain ⟨hmax, hoff⟩ := h
  have hdata : (rb.write rb.grayOffset x).data = Function.update rb.data
      (rb.writeptr + cur.length) ((cur ++ [x]).getD cur.length 0) := by
    rw [getD_last, ReadBuffer.write, hoff]
  rw [addByteGray]
  split
  · rename_i hend
    have hlast : cur.length = w - 1 := hoff.symm.trans (hend.trans hmax)
    refine ⟨hdata, rfl, rfl, rfl, rfl, fun hinside => ?_, fun _ => ?_⟩
    · have hlt : cur.length + 1 < w := hinside
      omega
    · exact ⟨⟨hmax, rfl⟩, rfl, rfl⟩
  · rename_i hend
    refine ⟨hdata, rfl, rfl, rfl, rfl, fun _ => ?_, fun hlast => ?_⟩
    · exact ⟨⟨hmax, congrArg (· + 1) hoff⟩, rfl, rfl⟩
    · have heq : cur.length + 1 = w := hlast
      have hmax' : cur.length = rb.maxGrayOffset := by omega
      exact absurd (hoff.trans hmax') hend

/-- The cell of a byte in an interleaved line. -/
theorem color_cell (hcur : cur.length < 3 * w) :
    (colorLayout w hw).cell (cur ++ [x]) ((colorLayout w hw).place cur.length) = x := by
  have hplace : (colorLayout w hw).place cur.length < 3 * w := (colorLayout w hw).place_lt hcur
  have hindex : planeIndex w ((colorLayout w hw).place cur.length) = cur.length :=
    (planeIndex_eq_iff hplace hcur).mpr rfl
  have hcell : (colorLayout w hw).cell (cur ++ [x]) ((colorLayout w hw).place cur.length) =
      (cur ++ [x]).getD cur.length 0 := by
    conv_rhs => rw [← hindex]
    rfl
  rw [hcell, getD_last]

theorem color_place {k j : Nat} (hj : j < w) (hcur : cur.length = k * w + j) :
    (colorLayout w hw).place cur.length = 3 * j + k := by
  have hmod : cur.length % w = j := by
    rw [hcur, Nat.mul_comm, Nat.mul_add_mod, Nat.mod_eq_of_lt hj]
  have hdiv : cur.length / w = k := by
    rw [hcur, Nat.mul_comm, Nat.mul_add_div hw, Nat.div_eq_of_lt hj, Nat.add_zero]
  change 3 * (cur.length % w) + cur.length / w = _
  rw [hmod, hdiv]

theorem addByte_added (h : rb.At .color w cur.length) (hcur : cur.length < 3 * w) :
    Added .color threshold w hw cur x rb (addByte rb x) := by
  obtain ⟨hred, hgreen, hblue, hregion, hr, hg, hb⟩ := h
  have hcell : (colorLayout w hw).cell (cur ++ [x]) ((colorLayout w hw).place cur.length) = x :=
    color_cell hcur
  have hdata : ∀ {offset}, (colorLayout w hw).place cur.length = offset →
      (rb.write offset x).data = Function.update rb.data
        (rb.writeptr + (colorLayout w hw).place cur.length)
        ((colorLayout w hw).cell (cur ++ [x]) ((colorLayout w hw).place cur.length)) := by
    rintro _ rfl
    rw [hcell, ReadBuffer.write]
  have hinside : ∀ {rb' : ReadBuffer}, rb'.maxRedOffset = rb.maxRedOffset →
      rb'.maxGreenOffset = rb.maxGreenOffset → rb'.maxBlueOffset = rb.maxBlueOffset →
      rb'.region = (if cur.length + 1 < w then .red else
        if cur.length + 1 < 2 * w then .green else .blue) →
      rb'.redOffset = (if cur.length + 1 < w then 3 * (cur.length + 1) else 0) →
      rb'.greenOffset = (if w ≤ cur.length + 1 ∧ cur.length + 1 < 2 * w then
        3 * (cur.length + 1 - w) + 1 else 1) →
      rb'.blueOffset = (if 2 * w ≤ cur.length + 1 then 3 * (cur.length + 1 - 2 * w) + 2 else 2) →
      rb'.At .color w (cur.length + 1) :=
    fun h1 h2 h3 h4 h5 h6 h7 => ⟨h1.trans hred, h2.trans hgreen, h3.trans hblue, h4, h5, h6, h7⟩
  rw [addByte]
  rcases Nat.lt_or_ge cur.length w with hfirst | hfirst
  · -- the red plane
    rw [if_pos hfirst] at hregion hr
    rw [if_neg (by omega)] at hg hb
    have hplace : (colorLayout w hw).place cur.length = 3 * cur.length + 0 :=
      color_place hfirst (by omega)
    have hnotlast : ¬ cur.length + 1 = 3 * w := by omega
    simp only [hregion]
    split
    · rename_i hend
      have hend' : rb.redOffset = rb.maxRedOffset := hend
      refine ⟨hdata (hplace.trans hr.symm), rfl, rfl, rfl, rfl, fun _ => ⟨?_, rfl, rfl⟩,
        fun hlast => absurd hlast hnotlast⟩
      refine hinside rfl rfl rfl ?_ ?_ (hg.trans ?_) (hb.trans ?_)
      · rw [if_neg (by omega), if_pos (by omega)]
      · rw [if_neg (by omega)]
      · rw [if_pos (by omega)]
        omega
      · rw [if_neg (by omega)]
    · rename_i hend
      have hend' : ¬ rb.redOffset = rb.maxRedOffset := hend
      refine ⟨hdata (hplace.trans hr.symm), rfl, rfl, rfl, rfl, fun _ => ⟨?_, rfl, rfl⟩,
        fun hlast => absurd hlast hnotlast⟩
      refine hinside rfl rfl rfl (hregion.trans ?_) (?_ : rb.redOffset + 3 = _) (hg.trans ?_)
        (hb.trans ?_)
      · rw [if_pos (by omega)]
      · rw [if_pos (by omega)]
        omega
      · rw [if_neg (by omega)]
      · rw [if_neg (by omega)]
  · rw [if_neg (by omega)] at hregion hr
    rcases Nat.lt_or_ge cur.length (2 * w) with hsecond | hsecond
    · -- the green plane
      rw [if_pos hsecond] at hregion
      rw [if_pos ⟨hfirst, hsecond⟩] at hg
      rw [if_neg (by omega)] at hb
      have hplace : (colorLayout w hw).place cur.length = 3 * (cur.length - w) + 1 :=
        color_place (by omega) (by omega)
      have hnotlast : ¬ cur.length + 1 = 3 * w := by omega
      simp only [hregion]
      split
      · rename_i hend
        have hend' : rb.greenOffset = rb.maxGreenOffset := hend
        refine ⟨hdata (hplace.trans hg.symm), rfl, rfl, rfl, rfl, fun _ => ⟨?_, rfl, rfl⟩,
          fun hlast => absurd hlast hnotlast⟩
        refine hinside rfl rfl rfl ?_ (hr.trans ?_) ?_ (hb.trans ?_)
        · rw [if_neg (by omega), if_neg (by omega)]
        · rw [if_neg (by omega)]
        · rw [if_neg (by omega)]
        · rw [if_pos (by omega)]
          omega
      · rename_i hend
        have hend' : ¬ rb.greenOffset = rb.maxGreenOffset := hend
        refine ⟨hdata (hplace.trans hg.symm), rfl, rfl, rfl, rfl, fun _ => ⟨?_, rfl, rfl⟩,
          fun hlast => absurd hlast hnotlast⟩
        refine hinside rfl rfl rfl (hregion.trans ?_) (hr.trans ?_)
          (?_ : rb.greenOffset + 3 = _) (hb.trans ?_)
        · rw [if_neg (by omega), if_pos (by omega)]
        · rw [if_neg (by omega)]
        · rw [if_pos (by omega)]
          omega
        · rw [if_neg (by omega)]
    · -- the blue plane
      rw [if_neg (by omega)] at hregion hg
      rw [if_pos hsecond] at hb
      have hplace : (colorLayout w hw).place cur.length = 3 * (cur.length - 2 * w) + 2 :=
        color_place (by omega) (by omega)
      simp only [hregion]
      split
      · rename_i hend
        have hend' : rb.blueOffset = rb.maxBlueOffset := hend
        refine ⟨hdata (hplace.trans hb.symm), rfl, rfl, rfl, rfl, fun hmore => ?_, fun _ => ?_⟩
        · have hmore' : cur.length + 1 < 3 * w := hmore
          omega
        · refine ⟨⟨hred, hgreen, hblue, ?_, hr.trans ?_, hg.trans ?_, ?_⟩, rfl, rfl⟩
          · rw [if_pos hw]
            rfl
          · rw [if_pos hw]
          · rw [if_neg (by omega)]
          · rw [if_neg (by omega)]
            rfl
      · rename_i hend
        have hend' : ¬ rb.blueOffset = rb.maxBlueOffset := hend
        refine ⟨hdata (hplace.trans hb.symm), rfl, rfl, rfl, rfl, fun _ => ⟨?_, rfl, rfl⟩,
          fun hlast => ?_⟩
        · refine hinside rfl rfl rfl (hregion.trans ?_) (hr.trans ?_) (hg.trans ?_)
            (?_ : rb.blueOffset + 3 = _)
          · rw [if_neg (by omega), if_neg (by omega)]
          · rw [if_neg (by omega)]
          · rw [if_neg (by omega)]
          · rw [if_pos (by omega)]
            omega
        · have hlast' : cur.length + 1 = 3 * w := hlast
          omega

theorem addBitLineart_added (h : rb.At .lineart w cur.length) (hcur : cur.length < w)
    (hmem : cur.length % 8 ≠ 0 → rb.data (rb.writeptr + cur.length / 8) =
      (lineartLayout threshold w hw).cell cur (cur.length / 8)) :
    Added .lineart threshold w hw cur x rb (addBitLineart threshold rb x) := by
  obtain ⟨hmax, hmaxGray, hbit, hgray⟩ := h
  have hcell : (lineartLayout threshold w hw).cell (cur ++ [x]) (cur.length / 8) =
      (if cur.length % 8 = 0 then 0 else rb.data (rb.writeptr + cur.length / 8)) |||
        pixelBit threshold x >>> (cur.length % 8) := by
    have hpixels : ((cur ++ [x]).drop (8 * (cur.length / 8))).take 8 =
        cur.drop (8 * (cur.length / 8)) ++ [x] := by
      rw [List.drop_append_of_le_length (by omega), List.take_of_length_le]
      rw [List.length_append, List.length_drop, List.length_singleton]
      omega
    have hlen : (cur.drop (8 * (cur.length / 8))).length = cur.length % 8 := by
      rw [List.length_drop]
      omega
    change packBits threshold (((cur ++ [x]).drop (8 * (cur.length / 8))).take 8) = _
    rw [hpixels, packBits_append, hlen]
    congr 1
    split
    · rename_i hzero
      rw [List.eq_nil_of_length_eq_zero (hlen.trans hzero)]
      rfl
    · rename_i hne
      rw [hmem hne]
      change _ = packBits threshold ((cur.drop (8 * (cur.length / 8))).take 8)
      rw [List.take_of_length_le (by omega)]
  have hdata : (rb.write rb.grayOffset
      ((if cur.length % 8 = 0 then 0 else rb.data (rb.writeptr + rb.grayOffset)) |||
        pixelBit threshold x >>> (cur.length % 8))).data = Function.update rb.data
      (rb.writeptr + cur.length / 8)
      ((lineartLayout threshold w hw).cell (cur ++ [x]) (cur.length / 8)) := by
    rw [hcell, ReadBuffer.write, hgray]
  rw [addBitLineart, hbit]
  generalize (if cur.length % 8 = 0 then 0 else rb.data (rb.writeptr + rb.grayOffset)) |||
    pixelBit threshold x >>> (cur.length % 8) = byte at hdata ⊢
  split
  · rename_i hend
    have hend' : rb.bitCounter = rb.maxLineartOffset := hend
    have hgray' : (rb.write rb.grayOffset byte).grayOffset =
        (rb.write rb.grayOffset byte).maxGrayOffset := by
      change rb.grayOffset = rb.maxGrayOffset
      omega
    rw [if_neg (not_not.mpr hgray')]
    refine ⟨hdata, rfl, rfl, rfl, rfl, fun hmore => ?_, fun _ => ?_⟩
    · have hmore' : cur.length + 1 < w := hmore
      omega
    · exact ⟨⟨hmax, hmaxGray, rfl, rfl⟩, rfl, rfl⟩
  · rename_i hend
    have hend' : ¬ rb.bitCounter = rb.maxLineartOffset := hend
    have hnotlast : ¬ cur.length + 1 = w := by omega
    split
    · refine ⟨hdata, rfl, rfl, rfl, rfl, fun _ =>
      ⟨⟨hmax, hmaxGray, congrArg (· + 1) hbit, ?_⟩, rfl, rfl⟩, fun hlast => absurd hlast hnotlast⟩
      change rb.grayOffset + 1 = _
      omega
    · refine ⟨hdata, rfl, rfl, rfl, rfl, fun _ =>
      ⟨⟨hmax, hmaxGray, congrArg (· + 1) hbit, ?_⟩, rfl, rfl⟩, fun hlast => absurd hlast hnotlast⟩
      change rb.grayOffset = _
      omega

/-- Each function that adds a byte follows the layout of its mode. -/
theorem add_added {mode : Mode} (h : rb.At mode w cur.length)
    (hcur : cur.length < (layout mode threshold w hw).raw)
    (hmem : (layout mode threshold w hw).written cur.length
        ((layout mode threshold w hw).place cur.length) →
      rb.data (rb.writeptr + (layout mode threshold w hw).place cur.length) =
        (layout mode threshold w hw).cell cur ((layout mode threshold w hw).place cur.length)) :
    Added mode threshold w hw cur x rb (add mode threshold rb x) := by
  cases mode with
  | color => exact addByte_added h hcur
  | gray => exact addByteGray_added h
  | lineart =>
    refine addBitLineart_added h hcur fun hne => hmem ?_
    have hwritten : 8 * (cur.length / 8) < cur.length := by omega
    exact hwritten

/-- The beginning of a line. -/
theorem At_init (mode : Mode) {bytesPerLine : Nat} {fresh : Nat → SaneByte}
    (hline : bytesPerLine = (layout mode threshold w hw).size) :
    (readBufferInit bytesPerLine w fresh).At mode w 0 := by
  subst hline
  cases mode with
  | color =>
    have hgreen : ¬ (w ≤ 0 ∧ 0 < 2 * w) := by omega
    have hblue : ¬ 2 * w ≤ 0 := by omega
    exact ⟨rfl, rfl, rfl, (if_pos hw).symm, (if_pos hw).symm, (if_neg hgreen).symm,
      (if_neg hblue).symm⟩
  | gray => exact ⟨rfl, rfl⟩
  | lineart => exact ⟨rfl, rfl, rfl, rfl⟩

end SaneBackends.Lexmark
