import SaneBackends.InPlace
import SaneBackends.SaneTypes

/-!
# Gray and black and white lines

`pixma_rgb_to_gray` and `pixma_binarize_line` of `backend/pixma_common.c`.  Both work in
place: a line of colour pixels becomes a shorter line at the same place.
-/

namespace SaneBackends.Pixma

open InPlace Overwrite

/-! ### Gray -/

/-- The components of a pixel are bytes, or words if a pixel has six bytes. -/
def componentBytes (c : Nat) : Nat := if c = 6 then 2 else 1

/-- A number whose lowest byte comes first. -/
def leValue (bs : List SaneByte) : Nat := bs.foldr (fun b v => b.toNat + v <<< 8) 0

/-- The mean of the three components of a pixel. -/
def grayPixel (s : Nat) (px : List SaneByte) : List SaneByte :=
  let g := ((List.range 3).map fun j => leValue (stretch px (s * j) s)).sum / 3
  (List.range s).map fun k => BitVec.ofNat 8 (g >>> (8 * k))

/-- `pixma_rgb_to_gray`: the memory and the pointer that is returned. -/
def pixmaRgbToGray (mem : List SaneByte) (gptr sptr w c : Nat) : Option (List SaneByte × Nat) := do
  let s := componentBytes c
  let mem ← storeEach s
    (fun i mem => (load mem (sptr + 3 * s * i) (3 * s)).map (grayPixel s)) gptr 0 w mem
  some (mem, gptr + w * s)

/-- The gray line of `w` pixels. -/
def grayLine (c w : Nat) (l : List SaneByte) : List SaneByte :=
  (List.range w).flatMap fun i =>
    grayPixel (componentBytes c) (stretch l (3 * componentBytes c * i) (3 * componentBytes c))

/-! ### Black and white -/

/-- The fields of `pixma_scan_param_t` that decide between black and white.  `lineartLut` is
    the table, as a function of the index. -/
structure LineartParam where
  xdpi : Nat
  threshold : Nat
  thresholdCurve : Nat
  lineartLut : Nat → SaneByte

namespace LineartParam

/-- The width of the sliding window, an odd number. -/
def windowX (sp : LineartParam) : Nat :=
  let x := 6 * sp.xdpi / 150
  if x % 2 = 0 then x + 1 else x

/-- Where the sum begins, so that the bits that are stored do not get in its way. -/
def offsetX (sp : LineartParam) : Nat := 1 + sp.windowX / 2 / 8

end LineartParam

/-- `min` and `max` of a line, with the safeguard against dark or white areas. -/
def minMax (line : List SaneByte) : Nat × Nat :=
  let r := line.foldl (fun (r : Nat × Nat) b =>
    (if b.toNat < r.1 then b.toNat else r.1, if r.2 < b.toNat then b.toNat else r.2)) (255, 0)
  (if 80 < r.1 then 0 else r.1, if r.2 < 80 then 255 else r.2)

def normalizePixel (r : Nat × Nat) (b : SaneByte) : SaneByte :=
  BitVec.ofNat 8 ((b.toNat - r.1) * 255 / (r.2 - r.1))

/-- The sum is moved if the window lies in the line; it does not become negative. -/
def moveSum (sp : LineartParam) (mem : List SaneByte) (src width j sum : Nat) : Option Nat :=
  let addCol := j + sp.windowX / 2
  let dropCol : Int := addCol - sp.windowX
  if sp.offsetX ≤ dropCol ∧ addCol < width then do
    let sum := sum + (← mem[src + addCol]?).toNat
    let drop ← mem[src + dropCol.toNat]?
    some (sum - if sum < drop.toNat then sum else drop.toNat)
  else some sum

/-- The sum and the threshold for the pixel `j`. -/
def threshold (sp : LineartParam) (mem : List SaneByte) (src width j sum : Nat) :
    Option (Nat × Nat) :=
  if sp.thresholdCurve ≠ 0 then do
    let sum ← moveSum sp mem src width j sum
    some (sum, (sp.lineartLut (sum / sp.windowX)).toNat)
  else some (sum, sp.threshold)

/-- The last loop, from pixel `j` on with `n` pixels to go.  The byte for the bit of pixel `j` is
    at `dst + j / 8`. -/
def walkLine (sp : LineartParam) (dst src width : Nat) :
    Nat → Nat → Nat → List SaneByte → Option (List SaneByte)
  | _, 0, _, mem => some mem
  | j, n + 1, sum, mem => do
    let (sum, threshold) ← threshold sp mem src width j sum
    let px ← mem[src + j]?
    let old ← mem[dst + j / 8]?
    let mask : SaneByte := 0x80#8 >>> (j % 8)
    let bits := if threshold < px.toNat then old &&& ~~~mask else old ||| mask
    let mem ← store mem (dst + j / 8) [bits]
    walkLine sp dst src width (j + 1) n sum mem

/-- The conversion to gray that comes first. -/
def binarizeGray (mem : List SaneByte) (dst src width c : Nat) : Option (List SaneByte) :=
  if c ≠ 1 then (pixmaRgbToGray mem dst src width c).map (·.1) else some mem

/-- `pixma_binarize_line`: the memory and the pointer that is returned.  It is undefined where
    the code divides by zero. -/
def pixmaBinarizeLine (sp : LineartParam) (mem : List SaneByte) (dst src width c : Nat) :
    Option (List SaneByte × Nat) :=
  if c = 6 then some (mem, dst)
  else do
    let mem ← binarizeGray mem dst src width c
    let r := minMax (← load mem src width)
    let mem ← storeEach 1 (fun x mem => do
      let b ← mem[src + x]?
      if r.2 - r.1 = 0 then none else some [normalizePixel r b]) src 0 width mem
    let window ← load mem (src + sp.offsetX) (sp.windowX + 1 - sp.offsetX)
    let mem ← walkLine sp dst src width 0 width (window.map (·.toNat)).sum mem
    some (mem, dst + width / 8)

/-! ### Gray lines in place -/

section Within

variable {pre l rest : List SaneByte} {c w : Nat}

theorem componentBytes_pos (c : Nat) : 0 < componentBytes c := by
  rw [componentBytes]
  split <;> decide

theorem length_grayPixel (s : Nat) (px : List SaneByte) : (grayPixel s px).length = s := by
  rw [grayPixel, List.length_map, List.length_range]

theorem length_grayLine (c w : Nat) (l : List SaneByte) :
    (grayLine c w l).length = w * componentBytes c := by
  rw [grayLine, List.length_flatMap]
  simp only [length_grayPixel, List.map_const', List.length_range, List.sum_replicate_nat]

theorem pixmaRgbToGray_within (hl : l.length = w * (3 * componentBytes c)) :
    pixmaRgbToGray (pre ++ l ++ rest) pre.length pre.length w c =
      some (pre ++ overwrite l 0 (grayLine c w l) ++ rest,
        pre.length + w * componentBytes c) := by
  have hpos := componentBytes_pos c
  generalize hs : componentBytes c = s at hl hpos
  have hle : w * s ≤ l.length := by
    rw [hl]
    exact Nat.mul_le_mul_left w (by omega)
  have hloop : storeEach s (fun i mem => (load mem (pre.length + 3 * s * i) (3 * s)).map
      (grayPixel s)) pre.length 0 w (pre ++ l ++ rest) =
      some (overwrite (pre ++ l ++ rest) pre.length (grayLine c w l)) := by
    rw [grayLine, hs]
    apply storeEach_eq
    · intro i _
      exact length_grayPixel s _
    · simp only [List.length_append]
      omega
    · intro i hi mem' hlen hdrop
      have hpixel : 3 * s * i + 3 * s ≤ l.length := by
        rw [hl, Nat.mul_comm w, ← Nat.mul_succ]
        exact Nat.mul_le_mul_left _ hi
      have hahead : pre.length + i * s ≤ pre.length + 3 * s * i := by
        rw [Nat.mul_assoc, Nat.mul_comm s i]
        omega
      rw [load_eq (by rw [hlen]; simp only [List.length_append]; omega),
        stretch_of_drop hdrop hahead, stretch_within hpixel]
      rfl
  have hwithin : overwrite (pre ++ l ++ rest) pre.length (grayLine c w l)
      = pre ++ overwrite l 0 (grayLine c w l) ++ rest := by
    rw [← overwrite_within (by rw [length_grayLine, hs]; omega)]
    rfl
  rw [pixmaRgbToGray, hs]
  simp only [Option.bind_eq_bind, hloop, Option.bind_some, hwithin]

end Within

/-! ### The contrast of a line -/

theorem minMax_fold (line : List SaneByte) (r : Nat × Nat) :
    let r' := line.foldl (fun (r : Nat × Nat) b =>
      (if b.toNat < r.1 then b.toNat else r.1, if r.2 < b.toNat then b.toNat else r.2)) r
    r'.1 ≤ r.1 ∧ r.2 ≤ r'.2 ∧ (∀ b ∈ line, r'.1 ≤ b.toNat ∧ b.toNat ≤ r'.2) ∧
      (r'.1 = r.1 ∨ ∃ b ∈ line, r'.1 = b.toNat) ∧ (r'.2 = r.2 ∨ ∃ b ∈ line, r'.2 = b.toNat) := by
  induction line generalizing r with
  | nil => simp
  | cons b line ih =>
    obtain ⟨hmin, hmax, hall, hminMem, hmaxMem⟩ := ih
      (if b.toNat < r.1 then b.toNat else r.1, if r.2 < b.toNat then b.toNat else r.2)
    dsimp only at hmin hmax hminMem hmaxMem
    refine ⟨?_, ?_, ?_, ?_, ?_⟩
    · refine hmin.trans ?_
      split <;> omega
    · refine le_trans ?_ hmax
      split <;> omega
    · intro b' hb'
      rcases List.mem_cons.mp hb' with rfl | hb'
      · constructor
        · refine hmin.trans ?_
          split <;> omega
        · refine le_trans ?_ hmax
          split <;> omega
      · exact hall b' hb'
    · rcases hminMem with heq | ⟨b', hb', heq⟩
      · rw [List.foldl_cons, heq]
        split
        · exact .inr ⟨b, List.mem_cons_self, rfl⟩
        · exact .inl rfl
      · exact .inr ⟨b', List.mem_cons_of_mem _ hb', heq⟩
    · rcases hmaxMem with heq | ⟨b', hb', heq⟩
      · rw [List.foldl_cons, heq]
        split
        · exact .inr ⟨b, List.mem_cons_self, rfl⟩
        · exact .inl rfl
      · exact .inr ⟨b', List.mem_cons_of_mem _ hb', heq⟩

/-- The safeguard leaves no contrast to divide by if all pixels have its value. -/
theorem minMax_flat {line : List SaneByte} (hne : line ≠ []) :
    (minMax line).2 - (minMax line).1 = 0 ↔ ∀ b ∈ line, b = 80 := by
  obtain ⟨-, -, hall, hmin, hmax⟩ := minMax_fold line (255, 0)
  rw [minMax]
  dsimp only at hall hmin hmax ⊢
  generalize line.foldl _ _ = r at hall hmin hmax
  constructor
  · intro hflat b hb
    obtain ⟨hlow, hhigh⟩ := hall b hb
    have : b.toNat = 80 := by
      split_ifs at hflat <;> omega
    exact BitVec.eq_of_toNat_eq this
  · intro hflat
    obtain ⟨b, hb⟩ := List.exists_mem_of_ne_nil line hne
    have heq : b.toNat = 80 := by
      rw [hflat b hb]
      rfl
    obtain ⟨hlow, hhigh⟩ := hall b hb
    have hmin' : r.1 = 80 := by
      rcases hmin with hr | ⟨b', hb', hr⟩
      · omega
      · rw [hr, hflat b' hb']
        rfl
    have hmax' : r.2 = 80 := by
      rcases hmax with hr | ⟨b', hb', hr⟩
      · omega
      · rw [hr, hflat b' hb']
        rfl
    rw [hmin', hmax']
    rfl

/-! ### Black and white lines in place -/

section Within

variable {sp : LineartParam} {l : List SaneByte} {c w j n sum : Nat}

theorem moveSum_within (hw : w ≤ l.length) : ∃ sum', ∀ pre rest,
    moveSum sp (pre ++ l ++ rest) pre.length w j sum = some sum' := by
  by_cases hmove : (sp.offsetX : Int) ≤ ((j + sp.windowX / 2 : Nat) : Int) - sp.windowX ∧
    j + sp.windowX / 2 < w
  · have hadd : j + sp.windowX / 2 < l.length := by omega
    have hdrop : (((j + sp.windowX / 2 : Nat) : Int) - sp.windowX).toNat < l.length := by omega
    let drop := l[(((j + sp.windowX / 2 : Nat) : Int) - sp.windowX).toNat].toNat
    let sum' := sum + l[j + sp.windowX / 2].toNat
    refine ⟨sum' - if sum' < drop then sum' else drop, fun pre rest => ?_⟩
    rw [moveSum]
    dsimp only
    rw [if_pos hmove, getElem?_within hadd, getElem?_within hdrop,
      List.getElem?_eq_getElem hadd, List.getElem?_eq_getElem hdrop]
    rfl
  · refine ⟨sum, fun pre rest => ?_⟩
    rw [moveSum]
    dsimp only
    rw [if_neg hmove]

theorem threshold_within (hw : w ≤ l.length) : ∃ r, ∀ pre rest,
    threshold sp (pre ++ l ++ rest) pre.length w j sum = some r := by
  obtain ⟨sum', hsum⟩ := @moveSum_within sp l w j sum hw
  by_cases hcurve : sp.thresholdCurve ≠ 0
  · refine ⟨(sum', (sp.lineartLut (sum' / sp.windowX)).toNat), fun pre rest => ?_⟩
    rw [threshold, if_pos hcurve, hsum]
    rfl
  · refine ⟨(sum, sp.threshold), fun pre rest => ?_⟩
    rw [threshold, if_neg hcurve]

/-- The last loop uses nothing but the line. -/
theorem walkLine_within (hw : w ≤ l.length) (hn : j + n ≤ w) : ∃ l', l'.length = l.length ∧
    ∀ pre rest, walkLine sp pre.length pre.length w j n sum (pre ++ l ++ rest)
      = some (pre ++ l' ++ rest) := by
  induction n generalizing j sum l with
  | zero => exact ⟨l, rfl, fun pre rest => rfl⟩
  | succ n ih =>
    obtain ⟨r, hr⟩ := @threshold_within sp l w j sum hw
    have hj : j < l.length := by omega
    have hbyte : j / 8 < l.length := by omega
    generalize hbits : (if r.2 < l[j].toNat then l[j / 8] &&& ~~~(0x80#8 >>> (j % 8))
      else l[j / 8] ||| (0x80#8 >>> (j % 8))) = bits
    have hstore : j / 8 + [bits].length ≤ l.length := hbyte
    obtain ⟨l', hlen, hrun⟩ := @ih (overwrite l (j / 8) [bits]) (j + 1) r.1
      (by rw [length_overwrite hstore]; exact hw) (by omega)
    refine ⟨l', by rw [hlen, length_overwrite hstore], fun pre rest => ?_⟩
    rw [walkLine, hr, getElem?_within hj, getElem?_within hbyte, List.getElem?_eq_getElem hj,
      List.getElem?_eq_getElem hbyte]
    simp only [Option.bind_eq_bind, Option.bind_some, hbits, store_within hstore, hrun]

/-- Without a curve the sum does not matter. -/
theorem walkLine_sum {dst src : Nat} {mem : List SaneByte} (hcurve : sp.thresholdCurve = 0)
    (sum' : Nat) :
    walkLine sp dst src w j n sum mem = walkLine sp dst src w j n sum' mem := by
  have hthreshold : ∀ sum, threshold sp mem src w j sum = some (sum, sp.threshold) := by
    intro sum
    rw [threshold, if_neg (by omega)]
  induction n generalizing j sum sum' mem with
  | zero => rfl
  | succ n ih =>
    rw [walkLine, walkLine, hthreshold, hthreshold]
    dsimp only [Option.bind_eq_bind, Option.bind_some]
    congr 1
    funext px
    congr 1
    funext old
    congr 1
    funext mem'
    apply ih
    intro sum
    rw [threshold, if_neg (by omega)]

/-- The gray values of a line. -/
def grayValues (c w : Nat) (l : List SaneByte) : List SaneByte :=
  if c = 1 then l else grayLine c w l

/-- A line with the gray values in front. -/
def grayCells (c w : Nat) (l : List SaneByte) : List SaneByte :=
  if c = 1 then l else overwrite l 0 (grayLine c w l)

/-- All pixels have the one gray value for which the safeguard leaves no contrast. -/
def Flat (c w : Nat) (l : List SaneByte) : Prop := ∀ b ∈ grayValues c w l, b = 80

instance : Decidable (Flat c w l) := inferInstanceAs (Decidable (∀ b ∈ grayValues c w l, b = 80))

theorem length_grayValues (hc : c = 1 ∨ c = 3) (hl : l.length = w * c) :
    (grayValues c w l).length = w := by
  rw [grayValues]
  rcases hc with rfl | rfl
  · rw [if_pos rfl, hl, Nat.mul_one]
  · rw [if_neg (by decide), length_grayLine]
    exact Nat.mul_one w

theorem length_grayCells (hc : c = 1 ∨ c = 3) (hl : l.length = w * c) :
    (grayCells c w l).length = l.length := by
  rw [grayCells]
  rcases hc with rfl | rfl
  · rw [if_pos rfl]
  · rw [if_neg (by decide), length_overwrite]
    have hbytes : componentBytes 3 = 1 := rfl
    rw [length_grayLine, hl, hbytes]
    omega

theorem binarizeGray_within (hc : c = 1 ∨ c = 3) (hl : l.length = w * c)
    (pre rest : List SaneByte) :
    binarizeGray (pre ++ l ++ rest) pre.length pre.length w c
      = some (pre ++ grayCells c w l ++ rest) := by
  rw [binarizeGray]
  rcases hc with rfl | rfl
  · rw [if_neg (by decide)]
    rfl
  · rw [if_pos (by decide), pixmaRgbToGray_within hl]
    rfl

theorem stretch_grayCells (hc : c = 1 ∨ c = 3) (hl : l.length = w * c) :
    stretch (grayCells c w l) 0 w = grayValues c w l := by
  rw [grayCells, grayValues]
  rcases hc with rfl | rfl
  · rw [if_pos rfl, if_pos rfl, stretch, List.drop_zero, List.take_of_length_le (by omega)]
  · have hlen : (grayLine 3 w l).length = w := (length_grayLine 3 w l).trans (Nat.mul_one w)
    rw [if_neg (by decide), if_neg (by decide)]
    generalize grayLine 3 w l = gray at hlen
    subst hlen
    exact stretch_overwrite (Nat.zero_le _)

/-- A line whose contrast has been raised. -/
def normalCells (c w : Nat) (l : List SaneByte) : List SaneByte :=
  overwrite (grayCells c w l) 0
    ((grayValues c w l).map (normalizePixel (minMax (grayValues c w l))))

theorem length_normalCells (hc : c = 1 ∨ c = 3) (hl : l.length = w * c) :
    (normalCells c w l).length = l.length := by
  have hle : w ≤ w * c := by
    rcases hc with rfl | rfl <;> omega
  rw [normalCells, length_overwrite, length_grayCells hc hl]
  rw [List.length_map, length_grayValues hc hl, length_grayCells hc hl]
  omega

/-- Raising the contrast in place. -/
theorem normalize_within (hc : c = 1 ∨ c = 3) (hl : l.length = w * c) (hw : 0 < w)
    (pre rest : List SaneByte) :
    storeEach 1 (fun x mem => do
      let b ← mem[pre.length + x]?
      if (minMax (grayValues c w l)).2 - (minMax (grayValues c w l)).1 = 0 then none
      else some [normalizePixel (minMax (grayValues c w l)) b]) pre.length 0 w
      (pre ++ grayCells c w l ++ rest) =
      if Flat c w l then none else some (pre ++ normalCells c w l ++ rest) := by
  have hvalues := length_grayValues hc hl
  have hcells := length_grayCells hc hl
  have hle : w ≤ l.length := by
    rw [hl]
    rcases hc with rfl | rfl <;> omega
  have hne : grayValues c w l ≠ [] := by
    rw [← List.length_pos_iff, hvalues]
    exact hw
  have hflat := minMax_flat hne
  by_cases h : Flat c w l
  · obtain ⟨n, rfl⟩ := Nat.exists_eq_add_one.mpr hw
    have hcell : 0 < (grayCells c (n + 1) l).length := by omega
    rw [if_pos h, storeEach, getElem?_within hcell, List.getElem?_eq_getElem hcell]
    simp only [Option.bind_eq_bind, Option.bind_some, if_pos (hflat.mpr h), Option.bind_none]
  · have hcontrast : ¬ (minMax (grayValues c w l)).2 - (minMax (grayValues c w l)).1 = 0 :=
      fun h0 => h (hflat.mp h0)
    simp only [if_neg h, if_neg hcontrast]
    have hall : ∀ x < w, (grayCells c w l)[x]? = (grayValues c w l)[x]? := by
      intro x hx
      rw [← stretch_grayCells hc hl, stretch, List.drop_zero, List.getElem?_take_of_lt hx]
    have hmap : (List.range w).flatMap
        (fun x => [normalizePixel (minMax (grayValues c w l)) ((grayValues c w l).getD x 0)]) =
        (grayValues c w l).map (normalizePixel (minMax (grayValues c w l))) := by
      rw [← List.map_eq_flatMap]
      apply List.ext_getElem
      · rw [List.length_map, List.length_map, List.length_range, hvalues]
      · intro x hx hx'
        rw [List.getElem_map, List.getElem_map, List.getElem_range, List.getD_eq_getElem?_getD,
          List.getElem?_eq_getElem, Option.getD_some]
    have hwithin : overwrite (pre ++ grayCells c w l ++ rest) pre.length
        ((grayValues c w l).map (normalizePixel (minMax (grayValues c w l))))
        = pre ++ normalCells c w l ++ rest := by
      rw [normalCells, ← overwrite_within (by rw [List.length_map]; omega)]
      rfl
    rw [← hwithin, ← hmap]
    apply storeEach_eq
    · intro x _
      rfl
    · simp only [List.length_append]
      omega
    · intro x hx mem' _ hdrop
      rw [getElem?_of_drop hdrop (by omega), getElem?_within (by omega), hall x hx,
        List.getD_eq_getElem?_getD]
      have hlt : x < (grayValues c w l).length := by omega
      rw [List.getElem?_eq_getElem hlt]
      rfl

/-- A line that is converted by itself, with zero bytes behind it. -/
def binarizeLine (sp : LineartParam) (c w : Nat) (l : List SaneByte) : Option (List SaneByte) :=
  (pixmaBinarizeLine sp (l ++ List.replicate (sp.windowX + 1) 0) 0 0 w c).map
    fun r => r.1.take (w / 8)

/-- A line is converted in the same way whatever stands around it, unless the sum is needed and
    has been taken of bytes behind the line. -/
theorem pixmaBinarizeLine_within (hc : c = 1 ∨ c = 3) (hl : l.length = w * c) (hw : 0 < w)
    (hsum : sp.thresholdCurve = 0 ∨ sp.windowX < l.length) :
    (Flat c w l ∧ binarizeLine sp c w l = none ∧ ∀ pre rest,
      pixmaBinarizeLine sp (pre ++ l ++ rest) pre.length pre.length w c = none) ∨
    ¬ Flat c w l ∧ ∃ l', l'.length = l.length ∧
      binarizeLine sp c w l = some (l'.take (w / 8)) ∧ ∀ pre rest,
      sp.windowX < (l ++ rest).length →
      pixmaBinarizeLine sp (pre ++ l ++ rest) pre.length pre.length w c
        = some (pre ++ l' ++ rest, pre.length + w / 8) := by
  have hne : ¬ c = 6 := by omega
  have hle : w ≤ l.length := by
    rw [hl]
    rcases hc with rfl | rfl <;> omega
  have hcells := length_normalCells hc hl
  have hstart : ∀ pre rest, pixmaBinarizeLine sp (pre ++ l ++ rest) pre.length pre.length w c =
      if Flat c w l then none else (do
        let window ← load (pre ++ normalCells c w l ++ rest) (pre.length + sp.offsetX)
          (sp.windowX + 1 - sp.offsetX)
        let mem ← walkLine sp pre.length pre.length w 0 w (window.map (·.toNat)).sum
          (pre ++ normalCells c w l ++ rest)
        some (mem, pre.length + w / 8)) := by
    intro pre rest
    have hload : load (pre ++ grayCells c w l ++ rest) pre.length w = some (grayValues c w l) := by
      rw [← stretch_grayCells hc hl, ← load_within (by rw [length_grayCells hc hl]; omega)]
      rfl
    rw [pixmaBinarizeLine, if_neg hne, binarizeGray_within hc hl]
    dsimp only [Option.bind_eq_bind, Option.bind_some]
    rw [hload]
    dsimp only [Option.bind_some]
    have hnormal := normalize_within hc hl hw pre rest
    simp only [Option.bind_eq_bind] at hnormal
    rw [hnormal]
    split <;> rfl
  by_cases hflat : Flat c w l
  · left
    refine ⟨hflat, ?_, fun pre rest => by rw [hstart, if_pos hflat]⟩
    have := hstart [] (List.replicate (sp.windowX + 1) 0)
    rw [if_pos hflat] at this
    rw [binarizeLine]
    exact congrArg _ this
  · right
    refine ⟨hflat, ?_⟩
    -- the sum of the line itself
    obtain ⟨l', hlen, hrun⟩ := @walkLine_within sp (normalCells c w l) w 0 w
      ((stretch (normalCells c w l) sp.offsetX (sp.windowX + 1 - sp.offsetX)).map (·.toNat)).sum
      (by omega) (by omega)
    have hoffset : sp.offsetX + (sp.windowX + 1 - sp.offsetX) = sp.windowX + 1 := by
      rw [LineartParam.offsetX]
      have : 0 < sp.windowX := by
        rw [LineartParam.windowX]
        split <;> omega
      omega
    have hall : ∀ pre rest, sp.windowX < (l ++ rest).length →
        pixmaBinarizeLine sp (pre ++ l ++ rest) pre.length pre.length w c
          = some (pre ++ l' ++ rest, pre.length + w / 8) := by
      intro pre rest hroom
      have hload : load (pre ++ normalCells c w l ++ rest) (pre.length + sp.offsetX)
          (sp.windowX + 1 - sp.offsetX) = some (stretch (pre ++ normalCells c w l ++ rest)
            (pre.length + sp.offsetX) (sp.windowX + 1 - sp.offsetX)) := by
        apply load_eq
        simp only [List.length_append] at hroom ⊢
        omega
      rw [hstart, if_neg hflat, hload]
      simp only [Option.bind_eq_bind, Option.bind_some]
      rcases hsum with hcurve | hwindow
      · rw [walkLine_sum hcurve, hrun]
        rfl
      · rw [stretch_within (by omega), hrun]
        rfl
    refine ⟨l', hlen.trans hcells, ?_, hall⟩
    have hroom : sp.windowX < (l ++ List.replicate (sp.windowX + 1) 0).length := by
      rw [List.length_append, List.length_replicate]
      omega
    have hself := hall [] (List.replicate (sp.windowX + 1) 0) hroom
    rw [binarizeLine]
    rw [List.nil_append, List.nil_append] at hself
    rw [show pixmaBinarizeLine sp (l ++ List.replicate (sp.windowX + 1) 0) 0 0 w c = _ from hself,
      Option.map_some, List.take_append_of_le_length (by omega)]

end Within

/-- With a curve and a line that is narrower than the window, the bytes behind the line count. -/
example :
    let sp : LineartParam := ⟨600, 127, 1, fun i => BitVec.ofNat 8 i⟩
    let l : List SaneByte := (List.range 16).map fun i => BitVec.ofNat 8 (8 * i)
    (pixmaBinarizeLine sp (l ++ List.replicate 10 0) 0 0 16 1).map (fun r => r.1.take 2)
        = some [0xf8, 0x00] ∧
      (pixmaBinarizeLine sp (l ++ List.replicate 10 255) 0 0 16 1).map (fun r => r.1.take 2)
        = some [0xff, 0xe0] := by
  decide +kernel

end SaneBackends.Pixma
