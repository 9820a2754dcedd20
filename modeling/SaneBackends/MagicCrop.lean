import SaneBackends.MagicTrans
import SaneBackends.InPlace

/-!
# Finding the edges of a page and cropping to them

`sanei_magic_findEdges` and `sanei_magic_crop` of `sanei/sanei_magic.c`.  The first returns the
offsets of the outermost lines and columns of the page, the second takes its lower and right
offset to be the ones behind the part to keep.  What it keeps it moves in place without
reading what it has overwritten, but the last line of the page is always lost.
-/

namespace SaneBackends.Magic

open CountLoops FaultState Overwrite InPlace

/-! ### Finding the edges -/

/-- The four offsets that `sanei_magic_findEdges` returns. -/
structure Edges where
  top : Int
  bot : Int
  left : Int
  right : Int
deriving DecidableEq, Repr

/-- A loop that looks for an extreme.  `improves` tells whether a place is further out than the
    one found so far; places that are not marked start the search anew, four marked ones in a
    row end it. -/
def findExtreme (marked : Nat → Except Fault Bool) (improves : Int → Nat → Bool) (none : Int) :
    List Nat → Int → Nat → Except Fault Int
  | [], edge, _ => .ok edge
  | i :: is, edge, count => do
    if ← marked i then
      let edge := if improves edge i then (i : Int) else edge
      if count + 1 > 3 then .ok edge else findExtreme marked improves none is edge (count + 1)
    else findExtreme marked improves none is none 0

/-- The loops for the top and the left edge. -/
def findFirst (marked : Nat → Except Fault Bool) (size : Nat) : Except Fault Int :=
  findExtreme marked (fun edge i => edge > i) size (List.range size) size 0

/-- The loops for the bottom and the right edge. -/
def findLast (marked : Nat → Except Fault Bool) (size : Nat) : Except Fault Int :=
  findExtreme marked (fun edge i => edge < i) (-1) (List.range size).reverse (-1) 0

/-- `rightBuf[i] > leftBuf[i]` -/
def lineMarked (leftBuf rightBuf : List Int) (i : Nat) : Except Fault Bool := do
  .ok (decide ((← cellAt rightBuf i) > (← cellAt leftBuf i)))

/-- `botBuf[i] > topBuf[i] && (botBuf[i]-10 < *bot || topBuf[i]+10 > *top)` -/
def columnMarked (topBuf botBuf : List Int) (top bot : Int) (i : Nat) : Except Fault Bool := do
  let b ← cellAt botBuf i
  let t ← cellAt topBuf i
  .ok (decide (b > t ∧ (b - 10 < bot ∨ t + 10 > top)))

/-- `sanei_magic_findEdges`: the offsets, or the status if there are none. -/
def saneiMagicFindEdges (p : Params) (buffer : List SaneByte) (dpiX dpiY : Int) :
    Except Fault (Except SaneStatus Edges) := do
  let some topBuf ← saneiMagicGetTransY p dpiY buffer true | .ok (.error .noMem)
  let some botBuf ← saneiMagicGetTransY p dpiY buffer false | .ok (.error .noMem)
  let some leftBuf ← saneiMagicGetTransX p dpiX buffer true | .ok (.error .noMem)
  let some rightBuf ← saneiMagicGetTransX p dpiX buffer false | .ok (.error .noMem)
  let top ← findFirst (lineMarked leftBuf rightBuf) p.lines
  let bot ← findLast (lineMarked leftBuf rightBuf) p.lines
  if top > bot then .ok (.error .unsupported)
  else do
    let left ← findFirst (columnMarked topBuf botBuf top bot) p.pixelsPerLine
    let right ← findLast (columnMarked topBuf botBuf top bot) p.pixelsPerLine
    if left > right then .ok (.error .unsupported)
    else .ok (.ok { top := top, bot := bot, left := left, right := right })

/-! ### Cropping -/

/-- The fields of `params` that are updated. -/
structure CroppedSize where
  pixels : Int
  bytes : Int
  lines : Int
deriving DecidableEq, Repr

/-- `memcpy(line, buffer + idx, n)` -/
def loadLine (buffer : List SaneByte) (idx : Int) (n : Nat) : Except Fault (List SaneByte) :=
  if idx < 0 then .error .outOfBounds else loadCells buffer idx.toNat n

/-- One turn of the loop over the lines, with the buffer and `pos`. -/
def cropLine (bwidth : Nat) (top left : Int) (bytes : Nat) (n : Nat)
    (s : List SaneByte × Nat) : Except Fault (List SaneByte × Nat) := do
  let line ← loadLine s.1 ((top + n) * bwidth + left) bytes
  let buffer ← storeCells s.1 s.2 line
  .ok (buffer, s.2 + bytes)

/-- `left` and `right` in bytes, and the width that they leave in pixels and bytes. -/
def cropColumns (p : Params) (left right : Int) : Option (Int × Int × Int) :=
  if p.format = .rgb then some (left * 3, right - left, (right - left) * 3)
  else if p.format = .gray ∧ p.depth = 8 then some (left, right - left, right - left)
  else if p.format = .gray ∧ p.depth = 1 then
    let left := left.tdiv 8
    let right := (right + 7).tdiv 8
    some (left, (right - left) * 8, right - left)
  else none

/-- `sanei_magic_crop`.  A negative number of bytes is more than `malloc` can give. -/
def saneiMagicCrop (p : Params) (buffer : List SaneByte) (e : Edges) :
    Except Fault (SaneStatus × Option CroppedSize × List SaneByte) :=
  match cropColumns p e.left e.right with
  | none => .ok (.inval, none, buffer)
  | some (left, pixels, bytes) =>
    if bytes < 0 then .ok (.noMem, none, buffer)
    else do
      let s ← turns (cropLine p.bytesPerLine e.top left bytes.toNat) (e.bot - e.top).toNat
        (buffer, 0)
      .ok (.good, some { pixels := pixels, bytes := bytes, lines := e.bot - e.top }, s.1)

/-! ### What cropping should leave -/

/-- The image is cropped to `columns` columns from column `left` on and to `lines` lines from the
    top edge on. -/
def CropsTo (img : Image) (e : Edges) (left columns lines : Int) : Prop :=
  ∃ size out, saneiMagicCrop img.params img.buffer e = .ok (.good, some size, out) ∧
    size.lines = lines ∧ size.pixels = columns ∧
    ∀ x y : Nat, (x : Int) < columns → (y : Int) < lines →
      { img.params with bytesPerLine := size.bytes.toNat }.pixel out x y
        = img.params.pixel img.buffer (left.toNat + x) (e.top.toNat + y)

/-- The first column that is kept.  Lines of black and white images are cut between bytes. -/
def firstColumn (p : Params) (e : Edges) : Int :=
  if p.Lineart then 8 * (e.left / 8) else e.left

/-- Everything is kept from the top to the bottom edge and from the left to the right edge. -/
def KeepsPage (img : Image) (e : Edges) : Prop :=
  CropsTo img e (firstColumn img.params e)
    (if img.params.Lineart then 8 * (e.right / 8 - e.left / 8 + 1) else e.right - e.left + 1)
    (e.bot - e.top + 1)

/-- Everything is kept from the top edge to the line before the bottom edge and from the left
    edge to the column before the right one. -/
def KeepsInside (img : Image) (e : Edges) : Prop :=
  CropsTo img e (firstColumn img.params e)
    (if img.params.Lineart then 8 * ((e.right + 7) / 8 - e.left / 8) else e.right - e.left)
    (e.bot - e.top)

/-! ### The edges lie in the image -/

theorem findExtreme_mem {S : Int → Prop} {marked : Nat → Except Fault Bool}
    {improves : Int → Nat → Bool} {none edge r : Int} {is : List Nat} {count : Nat}
    (hnone : S none) (hedge : S edge) (his : ∀ i ∈ is, S i)
    (h : findExtreme marked improves none is edge count = .ok r) : S r := by
  induction is generalizing edge count with
  | nil =>
    cases h
    exact hedge
  | cons i is ih =>
    obtain ⟨m, _, hrest⟩ := bind_eq_ok.mp h
    have htail : ∀ j ∈ is, S j := fun j hj => his j (List.mem_cons_of_mem i hj)
    cases m with
    | false => exact ih hnone htail hrest
    | true =>
      have hnext : S (if improves edge i then (i : Int) else edge) := by
        split
        · exact his i List.mem_cons_self
        · exact hedge
      change (if count + 1 > 3 then .ok (if improves edge i then (i : Int) else edge)
        else findExtreme marked improves none is
          (if improves edge i then (i : Int) else edge) (count + 1)) = Except.ok r at hrest
      split at hrest
      · cases hrest
        exact hnext
      · exact ih hnext htail hrest

theorem findFirst_bounds {marked : Nat → Except Fault Bool} {size : Nat} {r : Int}
    (h : findFirst marked size = .ok r) : 0 ≤ r := by
  refine findExtreme_mem (S := fun r => 0 ≤ r) ?_ ?_ ?_ h
  · exact Int.natCast_nonneg size
  · exact Int.natCast_nonneg size
  · exact fun i _ => Int.natCast_nonneg i

theorem findLast_bounds {marked : Nat → Except Fault Bool} {size : Nat} {r : Int}
    (h : findLast marked size = .ok r) : r < size := by
  refine findExtreme_mem (S := fun r => r < size) ?_ ?_ ?_ h
  · omega
  · omega
  · intro i hi
    have := List.mem_range.mp (List.mem_reverse.mp hi)
    omega

/-- The edges of a page are lines and columns of the image. -/
structure Edges.InImage (e : Edges) (p : Params) : Prop where
  top_nonneg : 0 ≤ e.top
  top_le : e.top ≤ e.bot
  bot_lt : e.bot < p.lines
  left_nonneg : 0 ≤ e.left
  left_le : e.left ≤ e.right
  right_lt : e.right < p.pixelsPerLine

theorem findEdges_inImage {p : Params} {buffer : List SaneByte} {dpiX dpiY : Int} {e : Edges}
    (h : saneiMagicFindEdges p buffer dpiX dpiY = .ok (.ok e)) : e.InImage p := by
  obtain ⟨topBuf, _, h⟩ := bind_eq_ok.mp h
  rcases topBuf with _ | topBuf
  · exact nomatch h
  obtain ⟨botBuf, _, h⟩ := bind_eq_ok.mp h
  rcases botBuf with _ | botBuf
  · exact nomatch h
  obtain ⟨leftBuf, _, h⟩ := bind_eq_ok.mp h
  rcases leftBuf with _ | leftBuf
  · exact nomatch h
  obtain ⟨rightBuf, _, h⟩ := bind_eq_ok.mp h
  rcases rightBuf with _ | rightBuf
  · exact nomatch h
  obtain ⟨top, htop, h⟩ := bind_eq_ok.mp h
  obtain ⟨bot, hbot, h⟩ := bind_eq_ok.mp h
  split at h
  · exact nomatch h
  · rename_i hlines
    obtain ⟨left, hleft, h⟩ := bind_eq_ok.mp h
    obtain ⟨right, hright, h⟩ := bind_eq_ok.mp h
    split at h
    · exact nomatch h
    · rename_i hcolumns
      cases h
      exact ⟨findFirst_bounds htop, Int.not_lt.mp hlines, findLast_bounds hbot,
        findFirst_bounds hleft, Int.not_lt.mp hcolumns, findLast_bounds hright⟩

/-! ### Lines are moved in place -/

/-- After `n` turns the first `n` lines have been moved, and the buffer behind them is as it
    was. -/
structure Moved (buffer : List SaneByte) (bw t l b n : Nat) (s : List SaneByte × Nat) : Prop where
  pos_eq : s.2 = n * b
  length_eq : s.1.length = buffer.length
  rest_eq : s.1.drop (n * b) = buffer.drop (n * b)
  line_eq : ∀ k < n, ∀ c < b, s.1[k * b + c]? = buffer[(t + k) * bw + l + c]?

section Lines

variable {buffer : List SaneByte} {bw h t l b n : Nat}

theorem loadLine_of_le {mem : List SaneByte} {i n : Nat} (h : i + n ≤ mem.length) :
    loadLine mem i n = .ok (stretch mem i n) := by
  rw [loadLine, if_neg (by omega), Int.toNat_natCast, loadCells, if_pos h]

/-- No line that is still to be read has been overwritten. -/
theorem cropLine_ok {i : Nat} {s : List SaneByte × Nat} (hlen : buffer.length = bw * h)
    (hcolumns : l + b ≤ bw) (hline : t + i < h) (hmoved : Moved buffer bw t l b i s) :
    ∃ s', cropLine bw t l b i s = .ok s' ∧ Moved buffer bw t l b (i + 1) s' := by
  obtain ⟨mem, pos⟩ := s
  obtain ⟨hpos, hmem, hrest, hdone⟩ := hmoved
  change pos = i * b at hpos
  change mem.length = buffer.length at hmem
  subst hpos
  have hbefore : i * b ≤ (t + i) * bw + l := by
    calc i * b ≤ (t + i) * bw := Nat.mul_le_mul (by omega) (by omega)
      _ ≤ (t + i) * bw + l := Nat.le_add_right _ l
  have hin : (t + i) * bw + l + b ≤ buffer.length := by
    have hnext : (t + i + 1) * bw ≤ h * bw := Nat.mul_le_mul_right bw (by omega)
    rw [Nat.succ_mul, Nat.mul_comm h bw] at hnext
    omega
  have hread : stretch mem ((t + i) * bw + l) b = stretch buffer ((t + i) * bw + l) b :=
    stretch_of_drop hrest hbefore
  have hblock : (stretch buffer ((t + i) * bw + l) b).length = b := length_stretch hin
  have hroom : i * b + (stretch buffer ((t + i) * bw + l) b).length ≤ mem.length := by omega
  have hend : i * b + (stretch buffer ((t + i) * bw + l) b).length = (i + 1) * b := by
    rw [hblock, Nat.succ_mul]
  refine ⟨(overwrite mem (i * b) (stretch buffer ((t + i) * bw + l) b), i * b + b), ?_,
    ⟨(Nat.succ_mul i b).symm, (length_overwrite hroom).trans hmem, ?_, ?_⟩⟩
  · have hidx : (((t : Nat) + (i : Nat) : Int) * bw + (l : Nat))
        = (((t + i) * bw + l : Nat) : Int) := by
      push_cast
      rfl
    have hload : (t + i) * bw + l + b ≤ mem.length := by
      rw [hmem]
      exact hin
    rw [cropLine, hidx, loadLine_of_le hload, hread]
    show (storeCells mem (i * b) _ >>= _) = _
    rw [storeCells, if_pos hroom]
    rfl
  · show (overwrite mem (i * b) _).drop ((i + 1) * b) = buffer.drop ((i + 1) * b)
    rw [drop_overwrite hend.le hroom, ← hend, ← List.drop_drop, hrest, List.drop_drop]
  · intro k hk c hc
    show (overwrite mem (i * b) _)[k * b + c]? = _
    rcases Nat.lt_succ_iff_lt_or_eq.mp hk with hlt | rfl
    · have hold : k * b + c < i * b := by
        have hnext : (k + 1) * b ≤ i * b := Nat.mul_le_mul_right b hlt
        rw [Nat.succ_mul] at hnext
        omega
      rw [getElem?_overwrite_before (by omega) hold]
      exact hdone k hlt c hc
    · rw [getElem?_overwrite_mid (by omega) (by omega), stretch, List.getElem?_take_of_lt hc,
        List.getElem?_drop]

theorem cropLines_ok (hlen : buffer.length = bw * h) (hcolumns : l + b ≤ bw)
    (hlines : t + n ≤ h) :
    ∃ s, turns (cropLine bw t l b) n (buffer, 0) = .ok s ∧ Moved buffer bw t l b n s := by
  apply turns_ok
  · exact ⟨(Nat.zero_mul b).symm, rfl, rfl, fun k hk => absurd hk (Nat.not_lt_zero k)⟩
  · intro i hi s hs
    exact cropLine_ok hlen hcolumns (by omega) hs

end Lines

/-! ### What cropping leaves -/

/-- The columns of a box, in bytes. -/
theorem cropColumns_sampled {p : Params} (hs : p.Sampled) (l r : Nat) (h : l ≤ r) :
    cropColumns p l r = some (((l * p.samples : Nat) : Int), ((r - l : Nat) : Int),
      (((r - l) * p.samples : Nat) : Int)) := by
  have hdiff : (r : Int) - l = (r - l : Nat) := by omega
  rcases hs with hrgb | hgray
  · have hthree : p.samples = 3 := if_pos hrgb
    rw [cropColumns, if_pos hrgb, hthree, hdiff]
    push_cast
    rfl
  · have hformat : ¬ p.format = .rgb := by
      rw [hgray.1]
      exact fun h => nomatch h
    have hone : p.samples = 1 := if_neg hformat
    rw [cropColumns, if_neg hformat, if_pos hgray, hone, hdiff, Nat.mul_one, Nat.mul_one]

theorem cropColumns_lineart {p : Params} (hl : p.Lineart) (l r : Nat) (h : l ≤ r) :
    cropColumns p l r = some (((l / 8 : Nat) : Int), ((((r + 7) / 8 - l / 8) * 8 : Nat) : Int),
      (((r + 7) / 8 - l / 8 : Nat) : Int)) := by
  have hformat : ¬ p.format = .rgb := by
    rw [hl.1]
    exact fun h => nomatch h
  have hdepth : ¬ (p.format = .gray ∧ p.depth = 8) := by
    intro hgray
    have := hl.2
    omega
  have hleft : (l : Int).tdiv 8 = (l / 8 : Nat) := rfl
  have hright : ((r : Int) + 7).tdiv 8 = ((r + 7) / 8 : Nat) := rfl
  have hdiff : (((r + 7) / 8 : Nat) : Int) - (l / 8 : Nat) = ((r + 7) / 8 - l / 8 : Nat) := by omega
  have hboth : p.format = .gray ∧ p.depth = 1 := hl
  rw [cropColumns, if_neg hformat, if_neg hdepth, if_pos hboth]
  simp only [hleft, hright, hdiff]
  push_cast
  rfl

/-- A run of `sanei_magic_crop` whose columns have been converted to bytes. -/
theorem saneiMagicCrop_run {img : Image} {e : Edges} {l px b : Nat} (he : e.InImage img.params)
    (hcolumns : cropColumns img.params e.left e.right = some ((l : Int), (px : Int), (b : Int)))
    (hfit : l + b ≤ img.params.bytesPerLine) :
    ∃ out pos, saneiMagicCrop img.params img.buffer e
        = .ok (.good, some { pixels := px, bytes := b, lines := e.bot - e.top }, out) ∧
      Moved img.buffer img.params.bytesPerLine e.top.toNat l b (e.bot - e.top).toNat
        (out, pos) := by
  obtain ⟨htop, hle, hbot, _, _, _⟩ := he
  obtain ⟨⟨out, pos⟩, hrun, hmoved⟩ := cropLines_ok (n := (e.bot - e.top).toNat)
    (t := e.top.toNat) (b := b) img.length_buffer hfit (by omega)
  refine ⟨out, pos, ?_, hmoved⟩
  rw [Int.toNat_of_nonneg htop] at hrun
  have hneg : ¬ (b : Int) < 0 := by omega
  rw [saneiMagicCrop, hcolumns]
  simp only [if_neg hneg, Int.toNat_natCast]
  rw [hrun]
  rfl

section Pixels

variable {p o : Params} {buffer out : List SaneByte} {t l b n pos x y : Nat}

/-- The pixels of the lines that have been moved. -/
theorem movedPixel_sampled (hs : p.Sampled) (hformat : o.format = p.format)
    (hdepth : o.depth = p.depth) (hbytes : o.bytesPerLine = b * p.samples)
    (hmoved : Moved buffer p.bytesPerLine t (l * p.samples) (b * p.samples) n (out, pos))
    (hx : x < b) (hy : y < n) : o.pixel out x y = p.pixel buffer (l + x) (t + y) := by
  have ho : ¬ o.Lineart := (lineart_congr hformat hdepth).not.mpr hs.not_lineart
  have hsamples := samples_congr hformat
  refine pixel_of_samples ho hs.not_lineart hsamples ?_
  rw [hsamples, hbytes]
  intro k hk
  have hin : x * p.samples + k < b * p.samples := by
    have := rowAddress_lt hx hk
    rwa [Nat.mul_comm p.samples b] at this
  have hcell : out[y * (b * p.samples) + (x * p.samples + k)]? = _ :=
    hmoved.line_eq y hy _ hin
  have hsource : (t + y) * p.bytesPerLine + (l + x) * p.samples + k
      = (t + y) * p.bytesPerLine + l * p.samples + (x * p.samples + k) := by ring
  rw [hsource, Nat.add_assoc]
  exact hcell

theorem movedPixel_lineart (hl : p.Lineart) (hformat : o.format = p.format)
    (hdepth : o.depth = p.depth) (hbytes : o.bytesPerLine = b)
    (hmoved : Moved buffer p.bytesPerLine t l b n (out, pos)) (hx : x / 8 < b) (hy : y < n) :
    o.pixel out x y = p.pixel buffer (8 * l + x) (t + y) := by
  have hcell : out[y * b + x / 8]? = buffer[(t + y) * p.bytesPerLine + l + x / 8]? :=
    hmoved.line_eq y hy _ hx
  have hbyte : (8 * l + x) / 8 = l + x / 8 := by omega
  have hshift : (8 * l + x) % 8 = x % 8 := by omega
  have hbit : pixelBit b out x y = pixelBit p.bytesPerLine buffer (8 * l + x) (t + y) := by
    rw [pixelBit, pixelBit, bitIn, bitIn, hbyte, hshift, List.getD_eq_getElem?_getD, hcell,
      List.getD_eq_getElem?_getD, Nat.add_assoc]
  rw [Params.pixel, if_pos ((lineart_congr hformat hdepth).mpr hl), Params.pixel, if_pos hl,
    hbytes, hbit]

end Pixels

theorem keepsInside_of_edges {img : Image} {e : Edges} (he : e.InImage img.params) :
    KeepsInside img e := by
  obtain ⟨l, hl⟩ := Int.eq_ofNat_of_zero_le he.left_nonneg
  obtain ⟨r, hr⟩ : ∃ r : Nat, e.right = r :=
    Int.eq_ofNat_of_zero_le (Int.le_trans he.left_nonneg he.left_le)
  have hle : l ≤ r := by
    have := he.left_le
    omega
  have hlt : r < img.params.pixelsPerLine := by
    have := he.right_lt
    omega
  have hrow := img.row_le
  rcases img.supported with hs | hlineart
  · rw [hs.rowSize_eq] at hrow
    have hend : r * img.params.samples ≤ img.params.bytesPerLine :=
      (Nat.mul_le_mul_right _ hlt.le).trans hrow
    have hsum : l * img.params.samples + (r - l) * img.params.samples
        = r * img.params.samples := by
      rw [← Nat.add_mul, Nat.add_sub_cancel' hle]
    obtain ⟨out, pos, hrun, hmoved⟩ := saneiMagicCrop_run he
      (hl ▸ hr ▸ cropColumns_sampled hs l r hle) (by omega)
    refine ⟨_, out, hrun, rfl, ?_, ?_⟩
    · rw [if_neg hs.not_lineart, hl, hr]
      exact Int.ofNat_sub hle
    · rw [if_neg hs.not_lineart, firstColumn, if_neg hs.not_lineart, hl, hr]
      simp only [Int.toNat_natCast]
      intro x y hx hy
      exact movedPixel_sampled hs rfl rfl rfl hmoved (by omega) (by omega)
  · rw [hlineart.rowSize_eq] at hrow
    obtain ⟨out, pos, hrun, hmoved⟩ := saneiMagicCrop_run he
      (hl ▸ hr ▸ cropColumns_lineart hlineart l r hle) (by omega)
    have hfirst : (8 * ((l : Int) / 8)).toNat = 8 * (l / 8) := by omega
    refine ⟨_, out, hrun, rfl, ?_, ?_⟩
    · rw [if_pos hlineart, hl, hr]
      simp only [Nat.cast_mul]
      omega
    · rw [if_pos hlineart, firstColumn, if_pos hlineart, hl, hr, hfirst]
      simp only [Int.toNat_natCast]
      intro x y hx hy
      have hbyte : x / 8 < (r + 7) / 8 - l / 8 := by omega
      exact movedPixel_lineart hlineart rfl rfl rfl hmoved hbyte (by omega)

/-- A page that has been found is cropped to what is inside its lower and right edges. -/
theorem edges_not_kept {img : Image} {dpiX dpiY : Int} {e : Edges}
    (h : saneiMagicFindEdges img.params img.buffer dpiX dpiY = .ok (.ok e)) :
    KeepsInside img e ∧ ¬ KeepsPage img e := by
  have hinside := keepsInside_of_edges (findEdges_inImage h)
  refine ⟨hinside, ?_⟩
  rintro ⟨size, out, hrun, hlines, _⟩
  obtain ⟨size', out', hrun', hlines', _⟩ := hinside
  obtain ⟨hsize, _⟩ := Prod.mk.inj (Prod.mk.inj (Except.ok.inj (hrun.symm.trans hrun'))).2
  obtain rfl : size = size' := Option.some.inj hsize
  omega

/-- A black square on white ground. -/
def square : Image where
  params := { format := .gray, depth := 1, pixelsPerLine := 8, bytesPerLine := 1, lines := 6 }
  buffer := [0, 0x78, 0x78, 0x78, 0x78, 0]
  supported := Or.inr ⟨rfl, rfl⟩
  row_le := by decide
  length_buffer := rfl

theorem square_edges : saneiMagicFindEdges square.params square.buffer 300 300
    = .ok (.ok { top := 1, bot := 4, left := 1, right := 4 }) := by
  decide +kernel

theorem edges_not_kept_square : ∃ e,
    saneiMagicFindEdges square.params square.buffer 300 300 = .ok (.ok e) ∧
    KeepsInside square e ∧ ¬ KeepsPage square e :=
  ⟨_, square_edges, edges_not_kept square_edges⟩

/-- Of the four black lines three are left. -/
theorem square_loses_line : ∃ e out,
    saneiMagicFindEdges square.params square.buffer 300 300 = .ok (.ok e) ∧
    saneiMagicCrop square.params square.buffer e
      = .ok (.good, some { pixels := 8, bytes := 1, lines := 3 }, out) ∧
    ¬ KeepsPage square e := by
  refine ⟨_, [0x78, 0x78, 0x78, 0x78, 0x78, 0], square_edges, by decide +kernel, ?_⟩
  rintro ⟨size, out, hrun, hlines, _⟩
  have hcrop : saneiMagicCrop square.params square.buffer
      { top := 1, bot := 4, left := 1, right := 4 }
      = .ok (.good, some { pixels := 8, bytes := 1, lines := 3 },
          [0x78, 0x78, 0x78, 0x78, 0x78, 0]) := by decide +kernel
  obtain ⟨hsize, _⟩ := Prod.mk.inj (Prod.mk.inj (Except.ok.inj (hrun.symm.trans hcrop))).2
  obtain rfl := Option.some.inj hsize
  exact absurd hlines (by decide)

end SaneBackends.Magic
