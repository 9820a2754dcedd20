import SaneBackends.FujitsuBuffer

/-!
# What `copy_buffer` makes of the image data

The image of a side is the stream of its bytes, inverted if the scanner needs it, with the
pixels of each line put in order.  `copy_buffer` stores the image of what it gets, if it gets
whole lines.
-/

namespace SaneBackends.FujitsuBuffer

open DrainBuffer DuplexSides LineStages

/-! ### The image of a stream -/

/-- The colours of a pixel do not stand together in the order red, green, blue. -/
def Config.Interlaced (c : Config) : Prop :=
  c.mode = .color ∧ (c.colorInterlace = .bgr ∨ c.colorInterlace = .rrggbb)

instance (c : Config) : Decidable c.Interlaced :=
  inferInstanceAs (Decidable (_ ∧ _))

/-- Where in a line of `pwidth` pixels the colours of the pixel `j` are. -/
def pixelIndices (interlace : ColorInterlace) (pwidth j : Nat) : List Nat :=
  match interlace with
  | .bgr => [j * 3 + 2, j * 3 + 1, j * 3]
  | .rrggbb => [j, pwidth + j, 2 * pwidth + j]
  | _ => []

def lineIndices (interlace : ColorInterlace) (pwidth : Nat) : List Nat :=
  (List.range pwidth).flatMap (pixelIndices interlace pwidth)

/-- The conversion of a line; data that needs none are converted byte by byte. -/
def Config.stage (c : Config) : LineStage SaneByte :=
  if c.Interlaced then
    copyStage c.params.bytesPerLine 0 (lineIndices c.colorInterlace c.params.pixelsPerLine)
  else copyStage 1 0 [0]

/-- The bytes that are converted together. -/
def Config.unit (c : Config) : Nat := if c.Interlaced then c.params.bytesPerLine else 1

def Config.invertByte (c : Config) (x : SaneByte) : SaneByte :=
  if c.reverse then x ^^^ 0xff else x

/-- The image that the bytes of a side make. -/
def Config.convert (c : Config) (xs : List SaneByte) : List SaneByte :=
  c.stage.whole (xs.map c.invertByte)

variable {c : Config} {p : Params c.mode} {xs ys : List SaneByte} {buf : Nat → SaneByte}
  {b : Buffer SaneByte} {len : Nat}

theorem lineIn_stage : c.stage.lineIn = c.unit := by
  rw [Config.stage, Config.unit]
  split <;> rfl

theorem ahead_stage : c.stage.ahead = 0 := by
  rw [Config.stage]
  split <;> rfl

theorem Config.Interlaced.bytesPerLine (h : c.Interlaced) (p : Params c.mode) :
    p.bytesPerLine = p.pixelsPerLine * 3 := by
  have hcolor : ∀ mode, mode = .color → ∀ n, FujitsuBuffer.bytesPerLine mode n = n * 3 := by
    rintro _ rfl n
    rfl
  exact hcolor _ h.1 _

theorem length_pixelIndices (h : c.Interlaced) (pwidth j : Nat) :
    (pixelIndices c.colorInterlace pwidth j).length = 3 := by
  rcases h.2 with h | h <;> rw [h] <;> rfl

theorem length_lineIndices (h : c.Interlaced) (pwidth : Nat) :
    (lineIndices c.colorInterlace pwidth).length = pwidth * 3 := by
  rw [lineIndices, List.length_flatMap,
    List.map_congr_left fun j _ => length_pixelIndices h pwidth j, List.map_const',
    List.sum_replicate_nat, List.length_range]

/-- A line is made of its own bytes. -/
theorem lineIndices_lt (interlace : ColorInterlace) (pwidth : Nat) :
    ∀ k ∈ lineIndices interlace pwidth, k < pwidth * 3 := by
  intro k hk
  obtain ⟨j, hj, hk⟩ := List.mem_flatMap.mp hk
  have hlt := List.mem_range.mp hj
  cases interlace <;> simp only [pixelIndices, List.mem_cons, List.not_mem_nil, or_false] at hk <;>
    omega

theorem length_stage_line {window : List SaneByte} (h : window.length = c.unit) :
    (c.stage.line window).length = c.unit := by
  rw [Config.unit] at h ⊢
  rw [Config.stage]
  split
  · rename_i hi
    rw [if_pos hi] at h
    rw [length_copyStage, length_lineIndices hi, hi.bytesPerLine]
    intro k hk
    rw [h, hi.bytesPerLine]
    exact lineIndices_lt _ _ k hk
  · rename_i hi
    rw [if_neg hi] at h
    rw [length_copyStage, List.length_singleton]
    intro k hk
    rw [List.mem_singleton.mp hk, h]
    exact Nat.one_pos

theorem length_convert (h : c.unit ∣ xs.length) : (c.convert xs).length = xs.length := by
  have hlen : (xs.map c.invertByte).length = xs.length := List.length_map _
  have hdiv : xs.length / c.unit * c.unit = xs.length := Nat.div_mul_cancel h
  have hcount : (xs.map c.invertByte).length / c.stage.lineIn - c.stage.ahead =
      xs.length / c.unit := by
    rw [hlen, lineIn_stage, ahead_stage, Nat.sub_zero]
  rw [Config.convert, LineStage.whole, hcount, LineStage.length_lines (m := c.unit), hdiv]
  · rw [ahead_stage, lineIn_stage, Nat.add_zero, hdiv, hlen]
  · intro window hwindow
    rw [ahead_stage, lineIn_stage, Nat.zero_add, Nat.one_mul] at hwindow
    exact length_stage_line hwindow

/-- The image of whole lines does not depend on what follows. -/
theorem convert_append (h : c.unit ∣ xs.length) :
    c.convert (xs ++ ys) = c.convert xs ++ c.convert ys := by
  have hcount : c.stage.count (xs.map c.invertByte) * c.stage.lineIn =
      (xs.map c.invertByte).length := by
    rw [LineStage.count, ahead_stage, lineIn_stage, Nat.sub_zero, List.length_map,
      Nat.div_mul_cancel h]
  rw [Config.convert, List.map_append, LineStage.whole_append, hcount, List.drop_left]
  rfl

theorem convert_nil : c.convert [] = [] := by
  rw [Config.convert, List.map_nil, LineStage.whole, List.length_nil, Nat.zero_div, Nat.zero_sub]
  rfl

/-! ### The loops of `copy_buffer` -/

/-- What the loops over the lines and the pixels store. -/
theorem storeLines_eq {bwidth pwidth : Nat} {pixel : Nat → Nat → List SaneByte}
    (h : b.rx ≤ b.cells.length) : storeLines bwidth pwidth len pixel b =
      b.put ((List.range' 0 ((len + bwidth - 1) / bwidth) bwidth).flatMap fun i =>
        (List.range pwidth).flatMap (pixel i)) := by
  refine foldlM_put (fun b i hb => ?_) h
  exact foldlM_put (fun b j hb => foldlM_push hb) hb

/-- In the interlaced modes the colours of a pixel are picked from its line. -/
theorem storeBytes_interlaced (hi : c.Interlaced) (h : b.rx ≤ b.cells.length) :
    storeBytes c p buf len b =
      b.put ((List.range' 0 ((len + p.bytesPerLine - 1) / p.bytesPerLine) p.bytesPerLine).flatMap
        fun i => (lineIndices c.colorInterlace p.pixelsPerLine).map fun k => buf (i + k)) := by
  have hline : ∀ pixel : Nat → Nat → List SaneByte,
      (∀ i j, pixel i j =
        (pixelIndices c.colorInterlace p.pixelsPerLine j).map fun k => buf (i + k)) →
      storeLines p.bytesPerLine p.pixelsPerLine len pixel b = b.put
        ((List.range' 0 ((len + p.bytesPerLine - 1) / p.bytesPerLine) p.bytesPerLine).flatMap
          fun i => (lineIndices c.colorInterlace p.pixelsPerLine).map fun k => buf (i + k)) := by
    intro pixel hpixel
    rw [storeLines_eq h]
    congr 1
    apply List.flatMap_congr
    intro i _
    rw [lineIndices, List.map_flatMap]
    exact List.flatMap_congr fun j _ => hpixel i j
  rw [storeBytes, if_pos hi.1]
  rcases hi.2 with hc | hc
  · rw [hc] at hline ⊢
    exact hline _ fun i j => by simp [pixelIndices, Nat.add_assoc]
  · rw [hc] at hline ⊢
    exact hline _ fun i j => by simp [pixelIndices, Nat.add_assoc]

theorem storeBytes_plain (hi : ¬ c.Interlaced) :
    storeBytes c p buf len b = b.put ((List.range len).map buf) := by
  rw [storeBytes]
  split
  · rename_i hcolor
    split
    · rename_i hc
      exact absurd ⟨hcolor, .inl hc⟩ hi
    · rename_i hc
      exact absurd ⟨hcolor, .inr hc⟩ hi
    · rfl
  · rfl

/-- Where the lines begin. -/
theorem range'_lines (line n : Nat) :
    List.range' 0 n line = (List.range n).map fun y => y * line := by
  induction n with
  | zero => rfl
  | succ n ih =>
    rw [List.range'_concat, ih, List.range_succ, List.map_append, List.map_singleton, Nat.zero_add,
      Nat.mul_comm]

/-- The lines of a block of memory. -/
theorem lines_copyStage {line n : Nat} {idx : List Nat} (hidx : ∀ k ∈ idx, k < line)
    (hn : n * line ≤ len) :
    (copyStage line 0 idx : LineStage SaneByte).lines n ((List.range len).map buf) =
      (List.range n).flatMap fun y => idx.map fun k => buf (y * line + k) := by
  rw [LineStage.lines]
  apply List.flatMap_congr
  intro y hy
  refine (List.filterMap_congr fun k hk => ?_).trans
    (congrFun (List.filterMap_eq_map (f := fun k => buf (y * line + k))) idx)
  have hlt := hidx k hk
  have hle := Nat.mul_le_mul_right line (Nat.succ_le_of_lt (List.mem_range.mp hy))
  rw [Nat.succ_mul] at hle
  have hbound : y * line + k < len := by omega
  simp only [copyStage, LineStage.window, Nat.zero_add, Nat.one_mul]
  rw [List.getElem?_take_of_lt hlt, List.getElem?_drop, List.getElem?_map,
    List.getElem?_range hbound]
  rfl

/-- With whole lines of the width of the page it stores their image. -/
theorem storeBytes_whole (hlen : c.unit ∣ len)
    (hp : c.Interlaced → p.bytesPerLine = c.params.bytesPerLine) (h : b.rx ≤ b.cells.length) :
    storeBytes c p buf len b = b.put (c.stage.whole ((List.range len).map buf)) := by
  have hwhole : c.stage.whole ((List.range len).map buf) =
      c.stage.lines (len / c.unit) ((List.range len).map buf) := by
    rw [LineStage.whole, List.length_map, List.length_range, lineIn_stage, ahead_stage,
      Nat.sub_zero]
  rw [hwhole]
  rw [Config.unit] at hlen ⊢
  rw [Config.stage]
  by_cases hi : c.Interlaced
  · rw [if_pos hi] at hlen
    rw [if_pos hi, if_pos hi, lines_copyStage, storeBytes_interlaced hi h]
    · have hbytes := hp hi
      have hwidth : p.pixelsPerLine = c.params.pixelsPerLine := by
        rw [hi.bytesPerLine, hi.bytesPerLine] at hbytes
        omega
      obtain ⟨n, rfl⟩ := hlen
      have hpos : 0 < c.params.bytesPerLine := c.params.positive
      rw [hbytes, hwidth, Nat.mul_div_cancel_left n hpos]
      have hturns : (c.params.bytesPerLine * n + c.params.bytesPerLine - 1) /
          c.params.bytesPerLine = n := by
        rw [Nat.add_sub_assoc hpos, Nat.mul_add_div hpos,
          Nat.div_eq_of_lt (Nat.sub_lt hpos Nat.one_pos), Nat.add_zero]
      rw [hturns, range'_lines, List.flatMap_map]
    · intro k hk
      rw [hi.bytesPerLine]
      exact lineIndices_lt _ _ k hk
    · exact Nat.div_mul_le_self _ _
  · rw [if_neg hi, if_neg hi, lines_copyStage, storeBytes_plain hi]
    · simp [List.map_eq_flatMap]
    · intro k hk
      rw [List.mem_singleton.mp hk]
      exact Nat.one_pos
    · exact Nat.div_mul_le_self _ _

/-- In any case it stores no more than it would of whole lines. -/
theorem storeBytes_fits (buf : Nat → SaneByte) {bytes : Nat} (hbytes : p.bytesPerLine ∣ bytes)
    (hlen : len ≤ bytes) (h : b.rx ≤ b.cells.length) :
    ∃ stored, storeBytes c p buf len b = b.put stored ∧ stored.length ≤ bytes := by
  by_cases hi : c.Interlaced
  · refine ⟨_, storeBytes_interlaced hi h, ?_⟩
    have hpos : 0 < p.bytesPerLine := p.positive
    have hline : ∀ i ∈ List.range' 0 ((len + p.bytesPerLine - 1) / p.bytesPerLine) p.bytesPerLine,
        ((lineIndices c.colorInterlace p.pixelsPerLine).map fun k => buf (i + k)).length =
          p.bytesPerLine := by
      intro i _
      rw [List.length_map, length_lineIndices hi, hi.bytesPerLine]
    rw [List.length_flatMap, List.map_congr_left hline, List.map_const', List.sum_replicate_nat,
      List.length_range']
    obtain ⟨n, rfl⟩ := hbytes
    rw [Nat.mul_comm p.bytesPerLine n]
    apply Nat.mul_le_mul_right
    have hlt : (len + p.bytesPerLine - 1) / p.bytesPerLine < n + 1 := by
      rw [Nat.div_lt_iff_lt_mul hpos, Nat.succ_mul, Nat.mul_comm n]
      omega
    exact Nat.le_of_lt_succ hlt
  · refine ⟨_, storeBytes_plain hi, ?_⟩
    rwa [List.length_map, List.length_range]

/-- Inverting the bytes that have been received. -/
theorem map_invert :
    (List.range len).map (invert c len buf) = ((List.range len).map buf).map c.invertByte := by
  rw [List.map_map]
  apply List.map_congr_left
  intro i hi
  have hlt := List.mem_range.mp hi
  rw [invert, Function.comp_apply, Config.invertByte]
  by_cases hr : c.reverse = true
  · rw [if_pos ⟨hr, hlt⟩, if_pos hr]
  · rw [if_neg fun h => hr h.1, if_neg hr]

end SaneBackends.FujitsuBuffer
