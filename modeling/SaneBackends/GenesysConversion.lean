import SaneBackends.LineStages
import SaneBackends.SaneTypes
import Mathlib.Tactic.Ring

/-!
# The conversion filters of the Genesys backend

`backend/genesys_conv_hlp.c`, which is compiled for components of one and of two bytes; on
a little endian machine.  All filters work on a number of lines.  They are stages that make
a line of a line, or of a line and some below it; but shrinking to less than half the
pixels does not use up the line.
-/

namespace SaneBackends.Genesys

open LineStages

/-! ### The filters -/

/-- The bytes of the components `cs` of all pixels of a line, in which the components lie one
    behind the other. -/
def cisIndices (b pixels : Nat) (cs : List Nat) : List Nat :=
  (List.range pixels).flatMap fun x => cs.flatMap fun c =>
    (List.range b).map fun k => (c * pixels + x) * b + k

/-- `genesys_reorder_components_cis`. -/
def reorderComponentsCis (b pixels lines : Nat) (src : List SaneByte) : Option (List SaneByte) :=
  copyLines (pixels * 3 * b) (cisIndices b pixels [0, 1, 2]) lines src

/-- `genesys_reorder_components_cis_bgr`. -/
def reorderComponentsCisBgr (b pixels lines : Nat) (src : List SaneByte) :
    Option (List SaneByte) :=
  copyLines (pixels * 3 * b) (cisIndices b pixels [2, 1, 0]) lines src

/-- The bytes of a pixel, with the components in opposite order. -/
def bgrIndices (b : Nat) : List Nat :=
  [2, 1, 0].flatMap fun c => (List.range b).map fun k => c * b + k

/-- `genesys_reorder_components_bgr`, a loop over all pixels. -/
def reorderComponentsBgr (b pixels lines : Nat) (src : List SaneByte) : Option (List SaneByte) :=
  copyLines (3 * b) (bgrIndices b) (lines * pixels) src

/-- Each component of a line is taken from a line below it, the same for every component
    with the same position in a group of as many as there are shifts. -/
def ccdIndices (b pitch : Nat) (ccdShift : List Nat) : List Nat :=
  (List.range pitch).flatMap fun x => (List.range b).map fun k =>
    (x + ccdShift.getD (x % ccdShift.length) 0 * pitch) * b + k

/-- `genesys_reverse_ccd`, for `componentsPerLine` components of `b` bytes. -/
def reverseCcd (b componentsPerLine : Nat) (ccdShift : List Nat) (lines : Nat)
    (src : List SaneByte) : Option (List SaneByte) :=
  copyLines (componentsPerLine * b) (ccdIndices b componentsPerLine ccdShift) lines src

/-- The number of values of an `unsigned int`. -/
def UINT : Nat := 2 ^ 32

/-- The value of a component. -/
def componentValue : List SaneByte → Nat
  | [] => 0
  | byte :: bs => byte.toNat + 256 * componentValue bs

/-- A component of `b` bytes is stored. -/
def componentBytes : Nat → Nat → List SaneByte
  | 0, _ => []
  | b + 1, v => BitVec.ofNat 8 v :: componentBytes b (v / 256)

/-- `*src++` for all channels. -/
def readPixel (b channels : Nat) (src : List SaneByte) : Option (List Nat × List SaneByte) :=
  if src.length < channels * b then none
  else
    some ((List.range channels).map fun c => componentValue ((src.drop (c * b)).take b),
      src.drop (channels * b))

/-- `*dst++` for all channels. -/
def pixelBytes (b : Nat) (px : List Nat) : List SaneByte := px.flatMap (componentBytes b)

/-- The variables of the averaging loops. -/
structure Averaging where
  cnt : Nat
  srcX : Nat
  count : Nat
  avg : List Nat
  src : List SaneByte

/-- The parameters of `genesys_shrink_lines`, with the bytes of a component. -/
structure Shrink where
  bytes : Nat
  channels : Nat
  srcPixels : Nat
  dstPixels : Nat

namespace Shrink

/-- `while (cnt < src_pixels && src_x < src_pixels)`, at most so many turns. -/
def gather (p : Shrink) : Nat → Averaging → Option Averaging
  | 0, v => some v
  | turns + 1, v =>
    if v.cnt < p.srcPixels ∧ v.srcX < p.srcPixels then
      match readPixel p.bytes p.channels v.src with
      | none => none
      | some (px, src) =>
        gather p turns
          { cnt := (v.cnt + p.dstPixels) % UINT
            srcX := v.srcX + 1
            count := v.count + 1
            avg := List.zipWith (fun a x => (a + x) % UINT) v.avg px
            src := src }
    else some v

/-- The pixels `dst_x` that are still to be made of a line; undefined if `count` is 0. -/
def averagePixels (p : Shrink) : Nat → Averaging → Option (List SaneByte × List SaneByte)
  | 0, v => some ([], v.src)
  | n + 1, v =>
    match gather p (p.srcPixels - v.srcX)
      { v with count := 0, avg := List.replicate p.channels 0 } with
    | none => none
    | some v =>
      if v.count = 0 then none
      else
        match averagePixels p n { v with cnt := (v.cnt + UINT - p.srcPixels) % UINT } with
        | none => none
        | some (out, rest) =>
          some (pixelBytes p.bytes (v.avg.map fun a => a / v.count) ++ out, rest)

/-- A turn of the loop over `y`, for `src_pixels > dst_pixels`. -/
def averageLine (p : Shrink) (src : List SaneByte) : Option (List SaneByte × List SaneByte) :=
  averagePixels p p.dstPixels
    { cnt := p.srcPixels / 2, srcX := 0, count := 0, avg := [], src := src }

/-- `while ((cnt < dst_pixels || src_x + 1 == src_pixels) && dst_x < dst_pixels)`: the bytes that
    are stored, and `cnt` and `dst_x` behind the loop. -/
def repeatPixel (p : Shrink) (px : List Nat) (last : Bool) :
    Nat → Nat → Nat → List SaneByte × Nat × Nat
  | 0, cnt, dstX => ([], cnt, dstX)
  | turns + 1, cnt, dstX =>
    if (cnt < p.dstPixels ∨ last) ∧ dstX < p.dstPixels then
      let (out, cnt, dstX) := repeatPixel p px last turns ((cnt + p.srcPixels) % UINT) (dstX + 1)
      (pixelBytes p.bytes px ++ out, cnt, dstX)
    else ([], cnt, dstX)

/-- The last `n` pixels of a line of the input. -/
def interpolatePixels (p : Shrink) : Nat → Nat → Nat → List SaneByte →
    Option (List SaneByte × List SaneByte)
  | 0, _, _, src => some ([], src)
  | n + 1, cnt, dstX, src =>
    match readPixel p.bytes p.channels src with
    | none => none
    | some (px, src) =>
      let (out, cnt, dstX) := repeatPixel p px (n == 0) (p.dstPixels - dstX) cnt dstX
      match interpolatePixels p n ((cnt + UINT - p.dstPixels) % UINT) dstX src with
      | none => none
      | some (more, rest) => some (out ++ more, rest)

/-- A turn of the loop over `y`, for `src_pixels ≤ dst_pixels`. -/
def interpolateLine (p : Shrink) (src : List SaneByte) :
    Option (List SaneByte × List SaneByte) :=
  interpolatePixels p p.srcPixels (p.dstPixels / 2) 0 src

end Shrink

/-- `genesys_shrink_lines`. -/
def shrinkLines (p : Shrink) (lines : Nat) (src : List SaneByte) : Option (List SaneByte) :=
  if p.srcPixels > p.dstPixels then consumeLines p.averageLine lines src
  else consumeLines p.interpolateLine lines src

/-! ### Copying filters are stages -/

variable {b pixels pitch ahead : Nat} {ccdShift cs : List Nat}

theorem length_cisIndices (b pixels : Nat) (cs : List Nat) :
    (cisIndices b pixels cs).length = pixels * cs.length * b := by
  have hcell : ∀ x : Nat, (cs.flatMap fun c =>
      (List.range b).map fun k => (c * pixels + x) * b + k).length = cs.length * b := by
    intro x
    simp only [List.length_flatMap, List.length_map, List.length_range, List.map_const',
      List.sum_replicate_nat]
  simp only [cisIndices, List.length_flatMap, hcell, List.map_const', List.sum_replicate_nat,
    List.length_range]
  ring

theorem cisIndices_lt (hcs : ∀ c ∈ cs, c < 3) :
    ∀ i ∈ cisIndices b pixels cs, i < (0 + 1) * (pixels * 3 * b) := by
  intro i hi
  obtain ⟨x, hx, hi⟩ := List.mem_flatMap.mp hi
  obtain ⟨c, hc, hi⟩ := List.mem_flatMap.mp hi
  obtain ⟨k, hk, rfl⟩ := List.mem_map.mp hi
  have hx := List.mem_range.mp hx
  have hk := List.mem_range.mp hk
  have hcell : c * pixels + x + 1 ≤ pixels * 3 := by
    have := Nat.mul_le_mul_right pixels (Nat.le_of_lt_succ (hcs c hc))
    omega
  have := Nat.mul_le_mul_right b hcell
  rw [Nat.add_mul] at this
  omega

/-- The stage of a filter that copies the components `cs` of each pixel. -/
def cisStage (b pixels : Nat) (cs : List Nat) : LineStage SaneByte :=
  copyStage (pixels * 3 * b) 0 (cisIndices b pixels cs)

theorem computes_reorderComponentsCis (b pixels : Nat) :
    Computes (reorderComponentsCis b pixels) (cisStage b pixels [0, 1, 2]) :=
  computes_copyLines (cisIndices_lt (by decide))

theorem computes_reorderComponentsCisBgr (b pixels : Nat) :
    Computes (reorderComponentsCisBgr b pixels) (cisStage b pixels [2, 1, 0]) :=
  computes_copyLines (cisIndices_lt (by decide))

/-- The bytes of a line of pixels with the components in opposite order. -/
def bgrLineIndices (b pixels : Nat) : List Nat :=
  (List.range pixels).flatMap fun x => (bgrIndices b).map fun i => x * (3 * b) + i

def bgrStage (b pixels : Nat) : LineStage SaneByte :=
  copyStage (pixels * (3 * b)) 0 (bgrLineIndices b pixels)

theorem length_bgrLineIndices (b pixels : Nat) :
    (bgrLineIndices b pixels).length = pixels * (3 * b) := by
  have hpixel : (bgrIndices b).length = 3 * b := by
    simp [bgrIndices]
    omega
  simp only [bgrLineIndices, List.length_flatMap, List.length_map, hpixel, List.map_const',
    List.sum_replicate_nat, List.length_range]

theorem bgrLineIndices_lt :
    ∀ i ∈ bgrLineIndices b pixels, i < (0 + 1) * (pixels * (3 * b)) := by
  intro i hi
  obtain ⟨x, hx, hi⟩ := List.mem_flatMap.mp hi
  obtain ⟨j, hj, rfl⟩ := List.mem_map.mp hi
  obtain ⟨c, hc, hj⟩ := List.mem_flatMap.mp hj
  obtain ⟨k, hk, rfl⟩ := List.mem_map.mp hj
  have hk := List.mem_range.mp hk
  have hall : ∀ c ∈ [2, 1, 0], c + 1 ≤ 3 := by decide
  have hc := hall c hc
  have hcell := Nat.mul_le_mul_right b hc
  have hpixel := Nat.mul_le_mul_right (3 * b) (Nat.succ_le_of_lt (List.mem_range.mp hx))
  rw [Nat.add_mul] at hcell
  rw [Nat.succ_mul] at hpixel
  omega

theorem computes_reorderComponentsBgr (b pixels : Nat) :
    Computes (reorderComponentsBgr b pixels) (bgrStage b pixels) := by
  intro n src hpos hn
  rw [reorderComponentsBgr, copyLines_mul]
  exact computes_copyLines bgrLineIndices_lt n src hpos hn

/-- The stage that corrects the distance of lines, with no shift greater than `ahead`. -/
def ccdStage (b pitch ahead : Nat) (ccdShift : List Nat) : LineStage SaneByte :=
  copyStage (pitch * b) ahead (ccdIndices b pitch ccdShift)

theorem length_ccdIndices (b pitch : Nat) (ccdShift : List Nat) :
    (ccdIndices b pitch ccdShift).length = pitch * b := by
  simp only [ccdIndices, List.length_flatMap, List.length_map, List.length_range, List.map_const',
    List.sum_replicate_nat]

theorem ccdIndices_lt (hshift : ∀ s ∈ ccdShift, s ≤ ahead) :
    ∀ i ∈ ccdIndices b pitch ccdShift, i < (ahead + 1) * (pitch * b) := by
  intro i hi
  obtain ⟨x, hx, hi⟩ := List.mem_flatMap.mp hi
  obtain ⟨k, hk, rfl⟩ := List.mem_map.mp hi
  have hx := List.mem_range.mp hx
  have hk := List.mem_range.mp hk
  have hs : ccdShift.getD (x % ccdShift.length) 0 ≤ ahead := by
    rw [List.getD_eq_getElem?_getD]
    cases hget : ccdShift[x % ccdShift.length]? with
    | none => exact Nat.zero_le _
    | some s => exact hshift s (List.mem_of_getElem? hget)
  have hcell : x + ccdShift.getD (x % ccdShift.length) 0 * pitch + 1 ≤ (ahead + 1) * pitch := by
    have := Nat.mul_le_mul_right pitch hs
    rw [Nat.add_mul]
    omega
  have := Nat.mul_le_mul_right b hcell
  rw [Nat.add_mul _ 1, Nat.mul_assoc (ahead + 1)] at this
  omega

theorem computes_reverseCcd (hshift : ∀ s ∈ ccdShift, s ≤ ahead) :
    Computes (reverseCcd b pitch ccdShift) (ccdStage b pitch ahead ccdShift) :=
  computes_copyLines (ccdIndices_lt hshift)

/-! ### Shrinking and enlarging are stages -/

theorem length_componentBytes (b v : Nat) : (componentBytes b v).length = b := by
  induction b generalizing v with
  | zero => rfl
  | succ b ih => rw [componentBytes, List.length_cons, ih]

theorem length_pixelBytes (b : Nat) (px : List Nat) : (pixelBytes b px).length = px.length * b := by
  simp only [pixelBytes, List.length_flatMap, length_componentBytes, List.map_const',
    List.sum_replicate_nat]

/-- A pixel is read from the front, whatever follows it. -/
theorem readPixel_append {channels : Nat} {src : List SaneByte} (more : List SaneByte)
    (h : channels * b ≤ src.length) : ∃ px, px.length = channels ∧
      readPixel b channels src = some (px, src.drop (channels * b)) ∧
      readPixel b channels (src ++ more) = some (px, src.drop (channels * b) ++ more) := by
  refine ⟨_, ?_, if_neg (Nat.not_lt.mpr h), ?_⟩
  · rw [List.length_map, List.length_range]
  · rw [readPixel, if_neg (by rw [List.length_append]; omega),
      List.drop_append_of_le_length h]
    congr 2
    apply List.map_congr_left
    intro c hc
    have hlt : c * b + b ≤ channels * b := by
      have := Nat.mul_le_mul_right b (Nat.succ_le_of_lt (List.mem_range.mp hc))
      rw [Nat.succ_mul] at this
      exact this
    rw [List.drop_append_of_le_length (by omega),
      List.take_append_of_le_length (by rw [List.length_drop]; omega)]

namespace Shrink

variable {p : Shrink}

/-- The bytes of a pixel. -/
def pixelSize (p : Shrink) : Nat := p.channels * p.bytes

/-- What is known of the variables while a line is averaged: `left` bytes behind the line. -/
structure Inside (p : Shrink) (v : Averaging) : Prop where
  srcX_le : v.srcX ≤ p.srcPixels
  length_src : v.src.length = (p.srcPixels - v.srcX) * p.pixelSize

/-- The loop ends with `cnt` large enough or with the line used up, and it does the same
    with more bytes behind the line. -/
theorem gather_some (hfit : p.srcPixels + p.dstPixels < UINT) (more : List SaneByte)
    (turns : Nat) (v : Averaging) (hturns : v.srcX + turns = p.srcPixels) (h : p.Inside v)
    (havg : v.avg.length = p.channels) : ∃ v', p.gather turns v = some v' ∧
      p.gather turns { v with src := v.src ++ more } = some { v' with src := v'.src ++ more } ∧
      p.Inside v' ∧ v'.avg.length = p.channels ∧
      v'.cnt + v.srcX * p.dstPixels = v.cnt + v'.srcX * p.dstPixels ∧
      (p.srcPixels ≤ v'.cnt ∨ v'.srcX = p.srcPixels) ∧
      (v.cnt < p.srcPixels + p.dstPixels → v'.cnt < p.srcPixels + p.dstPixels) ∧
      (v.cnt < p.srcPixels → v.srcX < p.srcPixels → v.count < v'.count) ∧
      v.count ≤ v'.count := by
  induction turns generalizing v with
  | zero =>
    exact ⟨v, rfl, rfl, h, havg, rfl, .inr (by omega), id, by omega, le_rfl⟩
  | succ turns ih =>
    rw [gather, gather]
    by_cases hgo : v.cnt < p.srcPixels ∧ v.srcX < p.srcPixels
    · have hone : p.pixelSize ≤ v.src.length := by
        rw [h.length_src]
        exact Nat.le_mul_of_pos_left _ (by omega)
      obtain ⟨px, hpx, hread, hread'⟩ := readPixel_append more hone
      have hcnt : (v.cnt + p.dstPixels) % UINT = v.cnt + p.dstPixels :=
        Nat.mod_eq_of_lt (by omega)
      have hnext : p.Inside ⟨v.cnt + p.dstPixels, v.srcX + 1, v.count + 1,
          List.zipWith (fun a x => (a + x) % UINT) v.avg px,
          v.src.drop (p.channels * p.bytes)⟩ := by
        constructor
        · exact hgo.2
        · dsimp only
          rw [List.length_drop, h.length_src, ← Nat.sub_sub, Nat.sub_mul _ 1, Nat.one_mul,
            pixelSize]
      obtain ⟨v', hv', hmore, hin, hlen, hsum, hend, hbound, -, hcount⟩ := ih _
        (by dsimp only; omega) hnext (by rw [List.length_zipWith, havg, hpx, Nat.min_self])
      rw [if_pos hgo, if_pos hgo, hread, hread']
      dsimp only
      rw [hcnt]
      refine ⟨v', hv', hmore, hin, hlen, ?_, hend, ?_, ?_, ?_⟩
      · dsimp only at hsum
        rw [Nat.add_mul] at hsum
        omega
      · intro _
        exact hbound (by dsimp only; omega)
      · intro _ _
        dsimp only at hcount
        omega
      · dsimp only at hcount
        omega
    · rw [if_neg hgo, if_neg hgo]
      refine ⟨v, rfl, rfl, h, havg, rfl, ?_, ?_, ?_, le_rfl⟩
      · have := h.srcX_le
        omega
      · exact id
      · omega

/-- Between two pixels of the output: after `k` of them, `cnt` says how far the input has been
    used up. -/
structure Between (p : Shrink) (k : Nat) (v : Averaging) : Prop where
  inside : p.Inside v
  cnt_lt : v.cnt < p.srcPixels
  sum : v.cnt + k * p.srcPixels = p.srcPixels / 2 + v.srcX * p.dstPixels

theorem between_start (hpos : 0 < p.srcPixels) {l : List SaneByte}
    (hl : l.length = p.srcPixels * p.pixelSize) {avg : List Nat} {count : Nat} :
    p.Between 0 ⟨p.srcPixels / 2, 0, count, avg, l⟩ := by
  refine ⟨⟨Nat.zero_le _, hl⟩, ?_, ?_⟩
  · exact Nat.div_lt_self hpos (by decide)
  · rw [Nat.zero_mul, Nat.zero_mul]

/-- A group of pixels is gathered: it is not empty, and `cnt` is large enough behind it. -/
theorem group_step (hfit : p.srcPixels + p.dstPixels < UINT)
    (hshrink : p.dstPixels < p.srcPixels) (more : List SaneByte) {k : Nat}
    (hk : k < p.dstPixels) {v : Averaging} (h : p.Between k v) :
    ∃ v', p.gather (p.srcPixels - v.srcX)
        { v with count := 0, avg := List.replicate p.channels 0 } = some v' ∧
      p.gather (p.srcPixels - v.srcX)
        { v with src := v.src ++ more, count := 0, avg := List.replicate p.channels 0 } =
        some { v' with src := v'.src ++ more } ∧
      v'.avg.length = p.channels ∧ v'.count ≠ 0 ∧
      v'.cnt + v.srcX * p.dstPixels = v.cnt + v'.srcX * p.dstPixels ∧
      (v'.cnt + UINT - p.srcPixels) % UINT = v'.cnt - p.srcPixels ∧
      v'.cnt < p.srcPixels + p.dstPixels ∧ v'.cnt - p.srcPixels < p.dstPixels ∧
      p.Between (k + 1) { v' with cnt := v'.cnt - p.srcPixels } := by
  have hstart : p.Inside { v with count := 0, avg := List.replicate p.channels 0 } :=
    ⟨h.inside.srcX_le, h.inside.length_src⟩
  have hx := h.inside.srcX_le
  have hcnt := h.cnt_lt
  have hsum := h.sum
  obtain ⟨v', hv', hmore, hin, hlen, hgather, hend, hbound, hcount, -⟩ :=
    gather_some hfit more (p.srcPixels - v.srcX) _ (by dsimp only; omega) hstart
      (List.length_replicate ..)
  dsimp only at hgather hbound hcount
  have hkmul := Nat.mul_le_mul_right p.srcPixels (show k + 1 ≤ p.dstPixels by omega)
  rw [Nat.succ_mul] at hkmul
  have hsum' : v'.cnt + k * p.srcPixels = p.srcPixels / 2 + v'.srcX * p.dstPixels := by omega
  have hfull : p.srcPixels ≤ v'.cnt := by
    rcases hend with hend | hend
    · exact hend
    · rw [hend, Nat.mul_comm p.srcPixels] at hsum'
      omega
  have hsrcX : v.srcX < p.srcPixels := by
    by_contra hge
    have hend' : v.srcX = p.srcPixels := by omega
    rw [hend', Nat.mul_comm p.srcPixels] at hsum
    omega
  have hlt := hbound (by omega)
  refine ⟨v', hv', hmore, hlen, ?_, hgather, ?_, hlt, by omega, ⟨?_, ?_, ?_⟩⟩
  · have := hcount hcnt hsrcX
    omega
  · rw [show v'.cnt + UINT - p.srcPixels = v'.cnt - p.srcPixels + UINT by omega,
      Nat.add_mod_right, Nat.mod_eq_of_lt (by omega)]
  · exact ⟨hin.srcX_le, hin.length_src⟩
  · show v'.cnt - p.srcPixels < p.srcPixels
    omega
  · show v'.cnt - p.srcPixels + (k + 1) * p.srcPixels =
      p.srcPixels / 2 + v'.srcX * p.dstPixels
    rw [Nat.succ_mul]
    omega

/-- A line that is shrunk to more than half of its pixels is used up. -/
theorem used_of_half (hhalf : p.srcPixels / 2 < p.dstPixels) {v : Averaging}
    (h : p.Between p.dstPixels v) : v.src = [] := by
  have hused : v.srcX = p.srcPixels := by
    -- otherwise `cnt` would be too small by a whole turn
    by_contra hne
    have hlt : v.srcX + 1 ≤ p.srcPixels := Nat.lt_of_le_of_ne h.inside.srcX_le hne
    have hmul := Nat.mul_le_mul_right p.dstPixels hlt
    have hsum := h.sum
    rw [Nat.succ_mul] at hmul
    rw [Nat.mul_comm p.dstPixels] at hsum
    omega
  apply List.eq_nil_of_length_eq_zero
  rw [h.inside.length_src, hused, Nat.sub_self, Nat.zero_mul]

/-- The loop over `dst_x`. -/
theorem averagePixels_some (hfit : p.srcPixels + p.dstPixels < UINT)
    (hshrink : p.dstPixels < p.srcPixels) (hhalf : p.srcPixels / 2 < p.dstPixels)
    (more : List SaneByte) (n k : Nat) (hk : k + n = p.dstPixels) (v : Averaging)
    (h : p.Between k v) :
    ∃ out, out.length = n * p.pixelSize ∧ p.averagePixels n v = some (out, []) ∧
      p.averagePixels n { v with src := v.src ++ more } = some (out, more) := by
  induction n generalizing k v with
  | zero =>
    rw [Nat.add_zero] at hk
    have hnil := used_of_half hhalf (hk ▸ h)
    refine ⟨[], (Nat.zero_mul _).symm, ?_, ?_⟩
    · rw [averagePixels, hnil]
    · rw [averagePixels, hnil, List.nil_append]
  | succ n ih =>
    obtain ⟨v', hv', hmore, hlen, hpos, -, hwrap, -, -, hnext⟩ :=
      group_step hfit hshrink more (by omega) h
    obtain ⟨out, hout, hrest, hrestMore⟩ := ih (k + 1) (by omega) _ hnext
    refine ⟨pixelBytes p.bytes (v'.avg.map fun a => a / v'.count) ++ out, ?_, ?_, ?_⟩
    · rw [List.length_append, length_pixelBytes, List.length_map, hlen, hout, Nat.succ_mul,
        pixelSize, Nat.add_comm]
    · rw [averagePixels, hv']
      simp only [if_neg hpos, hwrap, hrest]
    · rw [averagePixels]
      dsimp only at hmore hrestMore ⊢
      rw [hmore]
      simp only [if_neg hpos, hwrap, hrestMore]

theorem repeatPixel_length {px : List Nat} (hpx : px.length = p.channels) (last : Bool)
    (turns cnt dstX : Nat) (hturns : dstX + turns = p.dstPixels) :
    (p.repeatPixel px last turns cnt dstX).2.2 ≤ p.dstPixels ∧
      (last = true → (p.repeatPixel px last turns cnt dstX).2.2 = p.dstPixels) ∧
      (p.repeatPixel px last turns cnt dstX).1.length + dstX * p.pixelSize =
        (p.repeatPixel px last turns cnt dstX).2.2 * p.pixelSize := by
  induction turns generalizing cnt dstX with
  | zero => exact ⟨by rw [repeatPixel]; dsimp only; omega, fun _ => hturns, Nat.zero_add _⟩
  | succ turns ih =>
    rw [repeatPixel]
    split
    · obtain ⟨hle, hlast, hlen⟩ := ih ((cnt + p.srcPixels) % UINT) (dstX + 1) (by omega)
      refine ⟨hle, hlast, ?_⟩
      dsimp only
      rw [List.length_append, length_pixelBytes, hpx, ← hlen, Nat.succ_mul, pixelSize]
      omega
    · rename_i hstop
      refine ⟨by dsimp only; omega, fun hl => ?_, Nat.zero_add _⟩
      rw [hl] at hstop
      exact absurd ⟨.inr rfl, by omega⟩ hstop

/-- The loop over `src_x`: the last pixel fills the line. -/
theorem interpolatePixels_some (more : List SaneByte) (n cnt dstX : Nat) (src : List SaneByte)
    (hsrc : src.length = n * p.pixelSize) (hdst : dstX ≤ p.dstPixels)
    (hlast : n = 0 → dstX = p.dstPixels) :
    ∃ out, out.length + dstX * p.pixelSize = p.dstPixels * p.pixelSize ∧
      p.interpolatePixels n cnt dstX src = some (out, []) ∧
      p.interpolatePixels n cnt dstX (src ++ more) = some (out, more) := by
  induction n generalizing cnt dstX src with
  | zero =>
    have hnil : src = [] := by
      apply List.eq_nil_of_length_eq_zero
      rw [hsrc, Nat.zero_mul]
    rw [hnil, hlast rfl]
    exact ⟨[], Nat.zero_add _, rfl, rfl⟩
  | succ n ih =>
    rw [Nat.succ_mul] at hsrc
    have hone : p.channels * p.bytes ≤ src.length := by
      rw [hsrc, pixelSize]
      omega
    obtain ⟨px, hpx, hread, hread'⟩ := readPixel_append more hone
    obtain ⟨hle, hfull, hlen⟩ := repeatPixel_length (p := p) hpx (n == 0) (p.dstPixels - dstX) cnt
      dstX (by omega)
    rw [interpolatePixels, interpolatePixels, hread, hread']
    dsimp only
    generalize p.repeatPixel px (n == 0) (p.dstPixels - dstX) cnt dstX = r
      at hle hfull hlen ⊢
    obtain ⟨out, cnt', dstX'⟩ := r
    dsimp only at hle hfull hlen ⊢
    obtain ⟨outs, houts, hrest, hrestMore⟩ := ih ((cnt' + UINT - p.dstPixels) % UINT) dstX'
      (src.drop (p.channels * p.bytes)) (by rw [List.length_drop, hsrc, pixelSize]; omega) hle
      (fun h0 => hfull (beq_iff_eq.mpr h0))
    rw [hrest, hrestMore]
    refine ⟨out ++ outs, ?_, rfl, rfl⟩
    rw [List.length_append]
    omega

/-- What is made of a line. -/
def shrunk (p : Shrink) (line : List SaneByte) : List SaneByte :=
  ((if p.srcPixels > p.dstPixels then p.averageLine line else p.interpolateLine line).map
    Prod.fst).getD []

/-- The stage that changes the number of pixels of a line. -/
def stage (p : Shrink) : LineStage SaneByte where
  lineIn := p.srcPixels * p.pixelSize
  ahead := 0
  line := p.shrunk

/-- The numbers of pixels fit, and a line is shrunk to more than half of it. -/
structure Fits (p : Shrink) : Prop where
  srcPixels_pos : 0 < p.srcPixels
  dstPixels_pos : 0 < p.dstPixels
  sum_lt : p.srcPixels + p.dstPixels < UINT
  half : p.dstPixels < p.srcPixels → p.srcPixels / 2 < p.dstPixels

theorem averageLine_some (h : p.Fits) (hshrink : p.dstPixels < p.srcPixels) {l : List SaneByte}
    (hl : l.length = p.srcPixels * p.pixelSize) (more : List SaneByte) :
    ∃ out, out.length = p.dstPixels * p.pixelSize ∧ p.averageLine l = some (out, []) ∧
      p.averageLine (l ++ more) = some (out, more) := by
  exact averagePixels_some h.sum_lt hshrink (h.half hshrink) more p.dstPixels 0 (Nat.zero_add _)
    ⟨p.srcPixels / 2, 0, 0, [], l⟩ (between_start h.srcPixels_pos hl)

theorem interpolateLine_some (h : p.Fits) {l : List SaneByte}
    (hl : l.length = p.srcPixels * p.pixelSize) (more : List SaneByte) :
    ∃ out, out.length = p.dstPixels * p.pixelSize ∧ p.interpolateLine l = some (out, []) ∧
      p.interpolateLine (l ++ more) = some (out, more) := by
  obtain ⟨out, hout, hrest⟩ := interpolatePixels_some more p.srcPixels (p.dstPixels / 2) 0 l hl
    (Nat.zero_le _) (fun h0 => absurd h0 h.srcPixels_pos.ne')
  rw [Nat.zero_mul, Nat.add_zero] at hout
  exact ⟨out, hout, hrest⟩

/-- Either loop makes a line of a line, whatever follows. -/
theorem shrunk_spec (h : p.Fits) {l : List SaneByte} (hl : l.length = p.srcPixels * p.pixelSize)
    (more : List SaneByte) : (p.shrunk l).length = p.dstPixels * p.pixelSize ∧
      (if p.srcPixels > p.dstPixels then p.averageLine (l ++ more)
        else p.interpolateLine (l ++ more)) = some (p.shrunk l, more) := by
  rw [shrunk]
  by_cases hshrink : p.dstPixels < p.srcPixels
  · obtain ⟨out, hout, hrest, hmore⟩ := averageLine_some h hshrink hl more
    rw [if_pos hshrink, if_pos hshrink, hrest, hmore]
    exact ⟨hout, rfl⟩
  · obtain ⟨out, hout, hrest, hmore⟩ := interpolateLine_some h hl more
    rw [if_neg hshrink, if_neg hshrink, hrest, hmore]
    exact ⟨hout, rfl⟩

theorem computes_shrinkLines (h : p.Fits) : Computes (shrinkLines p) p.stage := by
  intro n src hpos hn
  rw [shrinkLines]
  by_cases hshrink : p.srcPixels > p.dstPixels
  · rw [if_pos hshrink]
    apply computes_consumeLines _ n src hpos hn
    intro l more hl
    have hspec := (shrunk_spec h hl more).2
    rwa [if_pos hshrink] at hspec
  · rw [if_neg hshrink]
    apply computes_consumeLines _ n src hpos hn
    intro l more hl
    have hspec := (shrunk_spec h hl more).2
    rwa [if_neg hshrink] at hspec

end Shrink

end SaneBackends.Genesys
