import SaneBackends.Fujitsu3091
import Mathlib.Tactic.Ring

/-!
# Colour lines of a 3091

The green line of a raw line belongs to an earlier line of the image than the red one, and the blue
line to one between them.  A line is available when the green one is there, which is the last one
as long as the offsets are in this order.
-/

namespace SaneBackends.Fujitsu3091

open DrainBuffer DuplexSides FujitsuBuffer InPlace LabelledRun Overwrite Strided

/-- The bytes of a raw line: red, green and blue one behind the other. -/
abbrev Line := Nat → SaneByte

/-- The raw line with a number that may be before the first one. -/
def lineAt (raw : List Line) (k : Int) : Option Line := if 0 ≤ k then raw[k.toNat]? else none

/-- How many raw lines a channel comes later. -/
def Config3091.shift (c : Config3091) : Nat → Int
  | 0 => 0
  | 1 => c.goff
  | _ => c.boff

/-- The byte `i` of the image, in lines of `w` pixels. -/
def pixelOf (c : Config3091) (w : Nat) (raw : List Line) (i : Nat) : Option SaneByte :=
  (lineAt raw ((i / (w * 3) : Nat) + c.shift (i % 3))).map fun l => l (i % 3 * w + i % (w * 3) / 3)

variable {c : Config3091} {w n i k : Nat} {m : Int} {raw : List Line} {line : Line}
  {cells cells' : List SaneByte} {x : Nat → SaneByte} {d : SideState}

theorem lineAt_nil (k : Int) : lineAt [] k = none := by
  rw [lineAt]
  split
  · rfl
  · rfl

theorem lineAt_append (raw : List Line) (line : Line) (k : Int) :
    lineAt (raw ++ [line]) k = if k = raw.length then some line else lineAt raw k := by
  rw [lineAt, lineAt]
  by_cases hk : 0 ≤ k
  · rw [if_pos hk, if_pos hk]
    split
    · rename_i heq
      rw [heq, Int.toNat_natCast, List.getElem?_concat_length]
    · rename_i hne
      rcases Nat.lt_or_ge k.toNat raw.length with hlt | hge
      · rw [List.getElem?_append_left hlt]
      · rw [List.getElem?_eq_none (by rw [List.length_append, List.length_singleton]; omega),
          List.getElem?_eq_none hge]
  · rw [if_neg hk, if_neg hk, if_neg (by omega)]

/-! ### One channel of a line -/

/-- Where a byte of a channel is. -/
theorem index_eq (hw : 0 < w) (hj : n < w) (hk : k < 3) (q : Nat) :
    (q * (w * 3) + k + n * 3) % 3 = k ∧ (q * (w * 3) + k + n * 3) / (w * 3) = q ∧
      (q * (w * 3) + k + n * 3) % (w * 3) / 3 = n := by
  have hsum : q * (w * 3) + k + n * 3 = 3 * (q * w + n) + k := by ring
  have hline : q * (w * 3) + k + n * 3 = w * 3 * q + (k + n * 3) := by ring
  have hlt : k + n * 3 < w * 3 := by omega
  refine ⟨?_, ?_, ?_⟩
  · rw [hsum, Nat.mul_add_mod, Nat.mod_eq_of_lt hk]
  · rw [hline, Nat.mul_add_div (by omega), Nat.div_eq_of_lt hlt, Nat.add_zero]
  · rw [hline, Nat.mul_add_mod, Nat.mod_eq_of_lt hlt]
    omega

theorem index_split (w i : Nat) : i / (w * 3) * (w * 3) + i % 3 + i % (w * 3) / 3 * 3 = i := by
  have hline := Nat.div_add_mod i (w * 3)
  have hpixel := Nat.div_add_mod (i % (w * 3)) 3
  rw [Nat.mod_mod_of_dvd i (Nat.dvd_mul_left 3 w)] at hpixel
  rw [Nat.mul_comm] at hline
  omega

/-- A channel is stored if its line belongs to the image, and nothing else changes. -/
theorem storeChannel_spec {lines : Nat} (hw : 0 < w) (hk : k < 3)
    (hroom : lines * (w * 3) ≤ cells.length) (m : Int) (x : Nat → SaneByte) :
    ∃ cells', storeChannel w (lines * (w * 3)) (m * (w * 3 : Nat)) k x cells = some cells' ∧
      cells'.length = cells.length ∧
      ∀ i < lines * (w * 3), cells'[i]? =
        if i % 3 = k ∧ ((i / (w * 3) : Nat) : Int) = m then some (x (i % (w * 3) / 3))
        else cells[i]? := by
  have hline : 0 < w * 3 := by omega
  rw [storeChannel]
  split
  · rename_i hin
    obtain ⟨hnonneg, hless⟩ := hin
    have hm : 0 ≤ m := nonneg_of_mul_nonneg_left hnonneg (Int.natCast_pos.mpr hline)
    obtain ⟨q, rfl⟩ := Int.eq_ofNat_of_zero_le hm
    have hq : q < lines := by
      have hmul : q * (w * 3) < lines * (w * 3) := by exact_mod_cast hless
      exact Nat.lt_of_mul_lt_mul_right hmul
    have hdest : ((q : Int) * (w * 3 : Nat)).toNat = q * (w * 3) := by
      rw [← Int.natCast_mul, Int.toNat_natCast]
    have hall : (q + 1) * (w * 3) ≤ lines * (w * 3) := Nat.mul_le_mul_right _ hq
    rw [Nat.succ_mul] at hall
    rw [hdest]
    obtain ⟨cells', hrun, hlength, hthere, helsewhere⟩ :
        ∃ cells', storeStrided cells (q * (w * 3) + k) 3 w x = some cells' ∧
          Stored cells cells' (q * (w * 3) + k) 3 w x :=
      storeStrided_spec (by decide) fun j hj => by omega
    refine ⟨cells', hrun, hlength, fun i hi => ?_⟩
    have hsplit := index_split w i
    split
    · rename_i hcell
      obtain ⟨hchannel, hrow⟩ := hcell
      have hpixel : i % (w * 3) / 3 < w := by
        have hmod := Nat.mod_lt i hline
        omega
      have hstored := hthere _ hpixel
      rw [hchannel, Int.ofNat_inj.mp hrow] at hsplit
      rwa [hsplit] at hstored
    · rename_i hcell
      refine helsewhere i fun j hj heq => hcell ?_
      obtain ⟨hchannel, hrow, -⟩ := index_eq hw hj hk q
      rw [heq]
      exact ⟨hchannel, by rw [hrow]⟩
  · rename_i hout
    refine ⟨cells, rfl, rfl, fun i hi => (if_neg ?_).symm⟩
    rintro ⟨-, hrow⟩
    apply hout
    rw [← hrow, ← Int.natCast_mul]
    constructor
    · exact Int.natCast_nonneg _
    · exact_mod_cast Nat.lt_of_le_of_lt (Nat.div_mul_le_self i (w * 3)) hi

/-! ### Raw lines -/

variable {p : Params c.mode} {lines t : Nat} {buf : Nat → SaneByte}

/-- The first lines of a block. -/
def linesOf (line : Nat) (buf : Nat → SaneByte) (t : Nat) : List Line :=
  (List.range t).map fun q j => buf (q * line + j)

theorem linesOf_succ (line : Nat) (buf : Nat → SaneByte) (t : Nat) :
    linesOf line buf (t + 1) = linesOf line buf t ++ [fun j => buf (t * line + j)] := by
  rw [linesOf, List.range_succ, List.map_append, List.map_singleton, ← linesOf]

theorem length_linesOf (line : Nat) (buf : Nat → SaneByte) (t : Nat) :
    (linesOf line buf t).length = t := by
  rw [linesOf, List.length_map, List.length_range]

theorem bytesPerLine_eq {mode : Mode} (hmode : mode = .color) (pixels : Nat) :
    bytesPerLine mode pixels = pixels * 3 := by
  rw [hmode]
  rfl

theorem bytesPerLine_color (hmode : c.mode = .color) (p : Params c.mode) :
    p.bytesPerLine = p.pixelsPerLine * 3 :=
  bytesPerLine_eq hmode p.pixelsPerLine

theorem pixels_pos (hmode : c.mode = .color) (p : Params c.mode) : 0 < p.pixelsPerLine := by
  have hpos : 0 < p.bytesPerLine := p.positive
  rw [bytesPerLine_color hmode] at hpos
  omega

theorem pixelOf_append (raw : List Line) (line : Line) (i : Nat) :
    pixelOf c w (raw ++ [line]) i =
      if ((i / (w * 3) : Nat) : Int) + c.shift (i % 3) = raw.length then
        some (line (i % 3 * w + i % (w * 3) / 3))
      else pixelOf c w raw i := by
  rw [pixelOf, lineAt_append]
  split
  · rfl
  · rfl

/-- A side that has got the lines `raw`: what they say of the image is in the buffer. -/
structure Coloured (c : Config3091) (p : Params c.mode) (lines : Nat) (raw : List Line)
    (d : SideState) : Prop where
  count : d.linesRx = raw.length
  tot : d.bytesTot = lines * (p.pixelsPerLine * 3)
  room : d.bytesTot ≤ d.buffer.cells.length
  pixels : ∀ i < d.bytesTot, ∀ v, pixelOf c p.pixelsPerLine raw i = some v →
    d.buffer.cells[i]? = some v

/-- The three channels of a raw line. -/
theorem storeLine_spec (hmode : c.mode = .color) (h : Coloured c p lines raw d)
    (buf : Nat → SaneByte) (i : Nat) :
    ∃ cells, storeLine c p buf i d = some { d with
        buffer := { d.buffer with cells }, linesRx := d.linesRx + 1 } ∧
      cells.length = d.buffer.cells.length ∧
      Coloured c p lines (raw ++ [fun j => buf (i + j)]) { d with
        buffer := { d.buffer with cells }, linesRx := d.linesRx + 1 } := by
  have hw := pixels_pos hmode p
  have hroom := h.room
  have hcount := h.count
  rw [h.tot] at hroom
  obtain ⟨reds, hred, hlen₁, hcells₁⟩ := storeChannel_spec hw (show 0 < 3 by decide) hroom
    d.linesRx fun j => buf (i + j)
  obtain ⟨greens, hgreen, hlen₂, hcells₂⟩ := storeChannel_spec hw (show 1 < 3 by decide)
    (hlen₁ ▸ hroom) (d.linesRx - c.goff) fun j => buf (i + p.pixelsPerLine + j)
  obtain ⟨blues, hblue, hlen₃, hcells₃⟩ := storeChannel_spec hw (show 2 < 3 by decide)
    (hlen₂ ▸ hlen₁ ▸ hroom) (d.linesRx - c.boff) fun j => buf (i + 2 * p.pixelsPerLine + j)
  have hlength : blues.length = d.buffer.cells.length := hlen₃.trans (hlen₂.trans hlen₁)
  refine ⟨blues, ?_, hlength, ?_, h.tot, ?_, fun j hj v hv => ?_⟩
  · rw [storeLine, bytesPerLine_color hmode, h.tot]
    dsimp only
    rw [hred]
    dsimp only [Option.bind_eq_bind, Option.bind_some]
    rw [hgreen]
    dsimp only [Option.bind_eq_bind, Option.bind_some]
    rw [hblue]
    rfl
  · change d.linesRx + 1 = (raw ++ [_]).length
    rw [List.length_append, hcount, List.length_singleton]
  · change d.bytesTot ≤ blues.length
    rw [hlength]
    exact h.room
  · have hold := h.pixels j hj v
    change j < d.bytesTot at hj
    rw [h.tot] at hj
    change blues[j]? = some v
    rw [pixelOf_append] at hv
    rw [hcells₃ j hj, hcells₂ j hj, hcells₁ j hj]
    have hthree : j % 3 < 3 := Nat.mod_lt j (by decide)
    -- of the three stores at most the one of the channel of the byte changes it
    have hlast : (if ((j / (p.pixelsPerLine * 3) : Nat) : Int) = d.linesRx - c.shift (j % 3) then
        some (buf (i + (j % 3 * p.pixelsPerLine + j % (p.pixelsPerLine * 3) / 3)))
        else d.buffer.cells[j]?) = some v := by
      split at hv
      · rename_i hrow
        rw [if_pos (by omega)]
        exact hv
      · rename_i hrow
        rw [if_neg (by omega)]
        exact hold hv
    generalize j % 3 = channel at hthree hlast ⊢
    match channel, hthree with
    | 0, _ =>
      rw [if_neg (by omega), if_neg (by omega), ← hlast]
      rw [Nat.zero_mul, Nat.zero_add, Config3091.shift, sub_zero]
      exact if_congr (and_iff_right rfl) rfl rfl
    | 1, _ =>
      rw [if_neg (by omega), ← hlast, Nat.one_mul, Config3091.shift, ← Nat.add_assoc]
      rw [if_congr (and_iff_right rfl) rfl rfl]
      exact ite_congr rfl (fun _ => rfl) fun _ => if_neg (by omega)
    | 2, _ =>
      rw [← hlast, show c.shift 2 = c.boff from rfl, ← Nat.add_assoc]
      rw [if_congr (and_iff_right rfl) rfl rfl]
      refine ite_congr rfl (fun _ => rfl) fun _ => ?_
      rw [if_neg (by omega), if_neg (by omega)]

/-- The lines of a block, before the counters follow. -/
theorem storeLines_spec (hmode : c.mode = .color) (h : Coloured c p lines raw d)
    (buf : Nat → SaneByte) (t : Nat) :
    ∃ cells, (List.range' 0 t p.bytesPerLine).foldlM (fun d i => storeLine c p buf i d) d =
        some { d with buffer := { d.buffer with cells }, linesRx := d.linesRx + t } ∧
      cells.length = d.buffer.cells.length ∧
      Coloured c p lines (raw ++ linesOf p.bytesPerLine buf t) { d with
        buffer := { d.buffer with cells }, linesRx := d.linesRx + t } := by
  induction t with
  | zero =>
    refine ⟨d.buffer.cells, rfl, rfl, ?_⟩
    rw [linesOf, List.range_zero, List.map_nil, List.append_nil]
    exact h
  | succ t ih =>
    obtain ⟨cells, hrun, hlength, hcoloured⟩ := ih
    obtain ⟨cells', hrun', hlength', hcoloured'⟩ :=
      storeLine_spec hmode hcoloured buf (0 + p.bytesPerLine * t)
    refine ⟨cells', ?_, hlength'.trans hlength, ?_⟩
    · rw [List.range'_concat, List.foldlM_append, hrun]
      exact (Option.bind_fun_some (storeLine c p buf _ _)).trans hrun'
    · rw [Nat.zero_add, Nat.mul_comm, List.append_assoc, ← linesOf_succ] at hcoloured'
      exact hcoloured'

/-- `copy_3091` for whole lines. -/
theorem copy3091_spec (hmode : c.mode = .color) (h : Coloured c p lines raw d)
    (buf : Nat → SaneByte) (t : Nat) :
    ∃ d', copy3091 c p buf (t * p.bytesPerLine) d = some (available c p d') ∧
      Coloured c p lines (raw ++ linesOf p.bytesPerLine buf t) d' ∧
      (∃ cells, cells.length = d.buffer.cells.length ∧
        d' = { d with buffer := { d.buffer with cells }, linesRx := d.linesRx + t }) := by
  have hpos : 0 < p.bytesPerLine := p.positive
  have hcount : (t * p.bytesPerLine + p.bytesPerLine - 1) / p.bytesPerLine = t := by
    rw [Nat.add_sub_assoc hpos, Nat.mul_comm, Nat.mul_add_div hpos, Nat.div_eq_of_lt (by omega),
      Nat.add_zero]
  obtain ⟨cells, hrun, hlength, hcoloured⟩ := storeLines_spec hmode h buf t
  refine ⟨_, ?_, hcoloured, cells, hlength, rfl⟩
  rw [copy3091]
  dsimp only
  rw [hcount, hrun]
  rfl

/-! ### Pages -/

/-- A side that is being read, with the raw lines it has got and the bytes the frontend has got. -/
structure ColourPage where
  r : Reading
  raw : List Line
  out : List SaneByte

/-- A block from `read_from_scanner`, a line from `read_from_3091duplex` and a read of the
    frontend. -/
inductive PageOp
  | block (a : Answer)
  | line (buf : Line)
  | fetch (maxLen : Nat)

/-- The lines that a block brings. -/
def blockLines (c : Config3091) (p : Params c.mode) (r : Reading) (a : Answer) : Nat :=
  let bytes := request c.toConfig p.bytesPerLine r.d
  if r.d.eofRx = true ∨ bytes < 1 ∨ checkRic c.toConfig r.d a.ric ≠ .good then 0
  else a.inLen bytes / p.bytesPerLine

def ColourPage.exec (c : Config3091) (s : ColourPage) : PageOp → Except Stop ColourPage
  | .block a => do
    let (_, r) ← readFromScanner c c.params s.r a
    return { s with
      r, raw := s.raw ++ linesOf c.params.bytesPerLine a.buf (blockLines c c.params s.r a) }
  | .line buf => do
    let d ← inside (copyLines c c.params buf c.params.bytesPerLine s.r.d)
    return { s with
      r := { s.r with d }, raw := s.raw ++ linesOf c.params.bytesPerLine buf 1 }
  | .fetch maxLen => do
    let (data, d) ← readFromBuffer s.r.d maxLen
    return { s with r := { s.r with d }, out := s.out ++ data }

/-- The lines of the image of a side. -/
def Config3091.sideLines (c : Config3091) (side : Side) : Nat :=
  c.bytesTot side / c.params.bytesPerLine

def Config3091.page (c : Config3091) (side : Side) : ColourPage := ⟨⟨c.side side, false⟩, [], []⟩

/-- Whole lines, of a page that has the lines of the image and those between red and green. -/
def PageOp.Fine (c : Config3091) (side : Side) (s : ColourPage) : PageOp → Prop
  | .block a =>
    c.params.bytesPerLine ∣ a.inLen (request c.toConfig c.params.bytesPerLine s.r.d) ∧
      ((s.raw.length + blockLines c c.params s.r a : Nat) : Int) ≤ c.sideLines side + c.goff
  | .line _ => ((s.raw.length + 1 : Nat) : Int) ≤ c.sideLines side + c.goff
  | .fetch _ => True

/-- What a page is like: the bytes that the frontend has got and those that it can get are those of
    the right raw lines, and with the last raw line the side ends. -/
structure ColourPage.Aligned (c : Config3091) (side : Side) (s : ColourPage) : Prop where
  delivered : ∀ n x k, x < c.params.pixelsPerLine → k < 3 →
    n * c.params.bytesPerLine + k + x * 3 < s.out.length →
    ∃ line, lineAt s.raw (n + c.shift k) = some line ∧
      s.out[n * c.params.bytesPerLine + k + x * 3]? =
        some (line (k * c.params.pixelsPerLine + x))
  loaded : ∀ n x k, x < c.params.pixelsPerLine → k < 3 →
    n * c.params.bytesPerLine + k + x * 3 < s.r.d.bytesRx →
    ∃ line, lineAt s.raw (n + c.shift k) = some line ∧
      s.r.d.buffer.cells[n * c.params.bytesPerLine + k + x * 3]? =
        some (line (k * c.params.pixelsPerLine + x))
  total : s.r.d.bytesRx ≤ s.r.d.bytesTot
  ended : s.raw ≠ [] → (s.raw.length : Int) = c.sideLines side + c.goff → s.r.d.eofRx = true

/-- The green line is the last one that comes, and the image of the side fits in its buffer. -/
structure Config3091.InOrder (c : Config3091) (side : Side) : Prop where
  blue : 0 ≤ c.boff
  green : c.boff ≤ c.goff
  room : c.bytesTot side ≤ c.buffTot side

/-- The invariant of a page. -/
structure PageInv (c : Config3091) (side : Side) (s : ColourPage) : Prop where
  coloured : Coloured c c.params (c.sideLines side) s.raw s.r.d
  rx : s.r.d.buffer.rx = ((s.raw.length - c.goff) * c.params.bytesPerLine).toNat
  bytesRx : s.r.d.bytesRx = s.r.d.buffer.rx
  limit : (s.raw.length : Int) ≤ c.sideLines side + c.goff
  ended : s.raw ≠ [] → (s.raw.length : Int) = c.sideLines side + c.goff → s.r.d.eofRx = true
  small : s.r.d.bytesTot ≤ s.r.d.buffTot
  tx : s.out.length = s.r.d.buffer.tx
  ordered : s.r.d.buffer.tx ≤ s.r.d.buffer.rx
  sent : ∀ i < s.out.length, ∃ v, pixelOf c c.params.pixelsPerLine s.raw i = some v ∧
    s.out[i]? = some v

variable {side : Side} {s : ColourPage}

theorem Config3091.InOrder.shift_le (h : c.InOrder side) (k : Nat) :
    0 ≤ c.shift k ∧ c.shift k ≤ c.goff := by
  have hblue := h.blue
  have hgreen := h.green
  match k with
  | 0 => exact ⟨le_refl _, hblue.trans hgreen⟩
  | 1 => exact ⟨hblue.trans hgreen, le_refl _⟩
  | _ + 2 => exact ⟨hblue, hgreen⟩

theorem pixelOf_mono (raw more : List Line) {v : SaneByte} (h : pixelOf c w raw i = some v) :
    pixelOf c w (raw ++ more) i = some v := by
  rw [pixelOf, Option.map_eq_some_iff] at h ⊢
  obtain ⟨line, hline, hv⟩ := h
  refine ⟨line, ?_, hv⟩
  rw [lineAt] at hline ⊢
  split at hline
  · rename_i hk
    rw [if_pos hk, List.getElem?_append_left (List.getElem?_eq_some_iff.mp hline).1]
    exact hline
  · cases hline

/-- What is available has come. -/
theorem Config3091.InOrder.pixel (h : c.InOrder side) (hw : 0 < w)
    (hi : i < ((raw.length - c.goff) * (w * 3 : Nat)).toNat) :
    ∃ v, pixelOf c w raw i = some v := by
  obtain ⟨hnonneg, hle⟩ := h.shift_le (i % 3)
  have hrow : ((i / (w * 3) : Nat) : Int) + c.goff < raw.length := by
    have hpos : (0 : Int) < (w * 3 : Nat) := by omega
    have hlt : (i : Int) < (raw.length - c.goff) * (w * 3 : Nat) := by omega
    have hdiv : ((i / (w * 3) : Nat) : Int) < raw.length - c.goff := by
      rw [Int.natCast_ediv]
      exact Int.ediv_lt_of_lt_mul hpos hlt
    omega
  rw [pixelOf]
  generalize i / (w * 3) = q at hrow ⊢
  have hget : ∃ line, lineAt raw ((q : Int) + c.shift (i % 3)) = some line := by
    rw [lineAt, if_pos (by omega)]
    exact ⟨_, List.getElem?_eq_getElem (by omega)⟩
  obtain ⟨line, hline⟩ := hget
  exact ⟨_, by rw [hline]; rfl⟩

/-- New lines are stored and counted. -/
theorem PageInv.copy (hmode : c.mode = .color) (h : PageInv c side s)
    (buf : Nat → SaneByte) (t : Nat)
    (hlimit : ((s.raw.length + t : Nat) : Int) ≤ c.sideLines side + c.goff) :
    ∃ d, copyLines c c.params buf (t * c.params.bytesPerLine) s.r.d = some d ∧
      ∀ iliRx eofRx eomRx, (d.eofRx = true → eofRx = true) →
        PageInv c side { s with
          r := ⟨{ d with iliRx, eofRx }, eomRx⟩
          raw := s.raw ++ linesOf c.params.bytesPerLine buf t } := by
  obtain ⟨d', hcopy, hcoloured, cells, hlength, hd'⟩ := copy3091_spec hmode h.coloured buf t
  have hraw : (s.raw ++ linesOf c.params.bytesPerLine buf t).length = s.raw.length + t := by
    rw [List.length_append, length_linesOf]
  rw [copyLines, if_pos hmode]
  refine ⟨_, hcopy, fun iliRx eofRx eomRx heof => ?_⟩
  have hlines := hcoloured.count
  rw [hraw] at hlines
  have hmono : s.r.d.buffer.rx ≤ ((d'.linesRx - c.goff) * c.params.bytesPerLine).toNat := by
    rw [h.rx, hlines]
    refine Int.toNat_le_toNat (Int.mul_le_mul_of_nonneg_right ?_ (Int.natCast_nonneg _))
    omega
  refine ⟨⟨hcoloured.count, hcoloured.tot, hcoloured.room, hcoloured.pixels⟩, ?_, rfl, ?_,
    fun _ hall => heof ?_, ?_, ?_, ?_, fun i hi => ?_⟩
  · change ((d'.linesRx - c.goff) * c.params.bytesPerLine).toNat = _
    rw [hlines, hraw]
  · rwa [hraw]
  · have htot := hcoloured.tot
    have hlast : ((d'.linesRx : Int) - c.goff) * (c.params.bytesPerLine : Nat) =
        ((c.sideLines side * c.params.bytesPerLine : Nat) : Int) := by
      rw [hraw] at hall
      rw [hlines, hall, Int.add_sub_cancel, Int.natCast_mul]
    rw [bytesPerLine_color hmode] at hlast
    rw [available, bytesPerLine_color hmode, hlast, Int.toNat_natCast, ← htot]
    simp only [decide_true, Bool.or_true]
  · subst hd'
    exact h.small
  · subst hd'
    exact h.tx
  · subst hd'
    exact h.ordered.trans hmono
  · obtain ⟨v, hpixel, hout⟩ := h.sent i hi
    exact ⟨v, pixelOf_mono _ _ hpixel, hout⟩

theorem PageInv.rx_le (hmode : c.mode = .color) (h : PageInv c side s) :
    s.r.d.buffer.rx ≤ s.r.d.bytesTot := by
  have hlimit := h.limit
  rw [h.rx, h.coloured.tot, ← bytesPerLine_color hmode, Int.toNat_le, Int.natCast_mul]
  exact Int.mul_le_mul_of_nonneg_right (by omega) (Int.natCast_nonneg _)

/-- A buffer that holds the whole image is not rewound. -/
theorem readFromBuffer_kept (hsmall : d.bytesTot ≤ d.buffTot)
    (hordered : d.buffer.tx ≤ d.buffer.rx) (hinside : d.buffer.rx ≤ d.buffer.cells.length)
    (maxLen : Nat) :
    ∃ bytes, d.buffer.tx + bytes ≤ d.buffer.rx ∧
      readFromBuffer d maxLen = .ok (stretch d.buffer.cells d.buffer.tx bytes, { d with
        buffer := { d.buffer with tx := d.buffer.tx + bytes }
        bytesTx := d.bytesTx + bytes }) := by
  rw [readFromBuffer]
  dsimp only
  generalize hbytes : (if maxLen > d.buffer.rx - d.buffer.tx then
    d.buffer.rx - d.buffer.tx else maxLen) = bytes
  have hle : d.buffer.tx + bytes ≤ d.buffer.rx := by
    split at hbytes
    · omega
    · omega
  refine ⟨bytes, hle, ?_⟩
  split
  · rename_i hzero
    subst hzero
    rfl
  · have hfetch : d.buffer.fetch bytes = some (stretch d.buffer.cells d.buffer.tx bytes,
        { d.buffer with tx := d.buffer.tx + bytes }) := if_pos (by omega)
    rw [hfetch]
    change Except.ok _ = _
    rw [if_neg fun hreset => Nat.not_lt.mpr hsmall hreset.2]

/-- What is available goes to the frontend. -/
theorem PageInv.fetch (hmode : c.mode = .color) (horder : c.InOrder side) (h : PageInv c side s)
    (maxLen : Nat) :
    ∃ data d, readFromBuffer s.r.d maxLen = .ok (data, d) ∧
      PageInv c side { s with r := { s.r with d }, out := s.out ++ data } := by
  have hw := pixels_pos hmode c.params
  have htx := h.tx
  have hinside := h.rx_le hmode
  have hroom := h.coloured.room
  obtain ⟨bytes, hle, hread⟩ := readFromBuffer_kept h.small h.ordered (by omega) maxLen
  have hlength : (stretch s.r.d.buffer.cells s.r.d.buffer.tx bytes).length = bytes :=
    length_stretch (by omega)
  refine ⟨_, _, hread, ⟨h.coloured.count, h.coloured.tot, h.coloured.room, h.coloured.pixels⟩,
    h.rx, h.bytesRx, h.limit, h.ended, h.small, ?_, hle, fun i hi => ?_⟩
  · change (s.out ++ _).length = s.r.d.buffer.tx + bytes
    rw [List.length_append, hlength, htx]
  · change i < (s.out ++ stretch s.r.d.buffer.cells s.r.d.buffer.tx bytes).length at hi
    change ∃ v, pixelOf c c.params.pixelsPerLine s.raw i = some v ∧
      (s.out ++ stretch s.r.d.buffer.cells s.r.d.buffer.tx bytes)[i]? = some v
    rw [List.length_append, hlength] at hi
    rcases Nat.lt_or_ge i s.out.length with hold | hnew
    · obtain ⟨v, hpixel, hout⟩ := h.sent i hold
      exact ⟨v, hpixel, by rw [List.getElem?_append_left hold, hout]⟩
    · have hcome : i < ((s.raw.length - c.goff) * (c.params.pixelsPerLine * 3 : Nat)).toNat := by
        have hrx := h.rx
        rw [bytesPerLine_color hmode] at hrx
        omega
      obtain ⟨v, hpixel⟩ := horder.pixel hw hcome
      have hcell := h.coloured.pixels i (by omega) v hpixel
      refine ⟨v, hpixel, ?_⟩
      rw [List.getElem?_append_right hnew, stretch, List.getElem?_take_of_lt (by omega),
        List.getElem?_drop, ← hcell]
      congr 1
      omega

theorem PageInv.aligned (hmode : c.mode = .color) (horder : c.InOrder side)
    (h : PageInv c side s) : s.Aligned c side := by
  have hw := pixels_pos hmode c.params
  have hcome : s.r.d.bytesRx =
      ((s.raw.length - c.goff) * (c.params.pixelsPerLine * 3 : Nat)).toNat := by
    rw [h.bytesRx, h.rx, bytesPerLine_color hmode]
  have htotal : s.r.d.bytesRx ≤ s.r.d.bytesTot := h.bytesRx ▸ h.rx_le hmode
  have hbyte : ∀ {n x k : Nat} {v : SaneByte}, x < c.params.pixelsPerLine → k < 3 →
      pixelOf c c.params.pixelsPerLine s.raw (n * c.params.bytesPerLine + k + x * 3) = some v →
      ∃ line, lineAt s.raw (n + c.shift k) = some line ∧
        v = line (k * c.params.pixelsPerLine + x) := by
    intro n x k v hx hk hpixel
    obtain ⟨hchannel, hrow, hcolumn⟩ := index_eq hw hx hk n
    rw [bytesPerLine_color hmode, pixelOf, hchannel, hrow, hcolumn, Option.map_eq_some_iff]
      at hpixel
    obtain ⟨line, hline, hv⟩ := hpixel
    exact ⟨line, hline, hv.symm⟩
  refine ⟨fun n x k hx hk hi => ?_, fun n x k hx hk hi => ?_, htotal, h.ended⟩
  · obtain ⟨v, hpixel, hout⟩ := h.sent _ hi
    obtain ⟨line, hline, rfl⟩ := hbyte hx hk hpixel
    exact ⟨line, hline, hout⟩
  · obtain ⟨v, hpixel⟩ := horder.pixel hw (hcome ▸ hi)
    obtain ⟨line, hline, rfl⟩ := hbyte hx hk hpixel
    exact ⟨line, hline, h.coloured.pixels _ (by omega) _ hpixel⟩

/-- A call that brings no lines. -/
theorem PageInv.flags (h : PageInv c side s) (iliRx eofRx eomRx : Bool)
    (heof : s.r.d.eofRx = true → eofRx = true) (line : Nat) (buf : Nat → SaneByte) :
    PageInv c side { s with
      r := ⟨{ s.r.d with iliRx, eofRx }, eomRx⟩, raw := s.raw ++ linesOf line buf 0 } := by
  have hnone : s.raw ++ linesOf line buf 0 = s.raw := by
    rw [linesOf, List.range_zero, List.map_nil, List.append_nil]
  rw [hnone]
  exact ⟨⟨h.coloured.count, h.coloured.tot, h.coloured.room, h.coloured.pixels⟩, h.rx, h.bytesRx,
    h.limit, fun hne hall => heof (h.ended hne hall), h.small, h.tx, h.ordered, h.sent⟩

/-- What one operation preserves. -/
theorem PageInv.exec (hmode : c.mode = .color) (horder : c.InOrder side) (h : PageInv c side s)
    {op : PageOp} (hfine : op.Fine c side s) :
    ∃ s', s.exec c op = .ok s' ∧ PageInv c side s' := by
  cases op with
  | fetch maxLen =>
    obtain ⟨data, d, hread, hinv⟩ := h.fetch hmode horder maxLen
    refine ⟨_, ?_, hinv⟩
    rw [ColourPage.exec, hread]
    rfl
  | line buf =>
    obtain ⟨d, hcopy, hinv⟩ := h.copy hmode buf 1 hfine
    rw [Nat.one_mul] at hcopy
    refine ⟨_, ?_, hinv d.iliRx d.eofRx s.r.eomRx id⟩
    rw [ColourPage.exec, hcopy]
    rfl
  | block a =>
    obtain ⟨hwhole, hlimit⟩ := hfine
    have hnothing := fun line => h.flags s.r.d.iliRx s.r.d.eofRx s.r.eomRx id line a.buf
    rw [ColourPage.exec, readFromScanner]
    rw [blockLines] at hlimit ⊢
    dsimp only at hlimit ⊢
    generalize a.inLen (request c.toConfig c.params.bytesPerLine s.r.d) = inLen at hwhole hlimit ⊢
    split
    · rename_i heof
      rw [if_pos (.inl heof)]
      exact ⟨_, rfl, hnothing _⟩
    rename_i hopen
    split
    · rename_i hbytes
      rw [if_pos (.inr (.inl hbytes))]
      exact ⟨_, rfl, hnothing _⟩
    rename_i hbytes
    split
    · rename_i hric
      rw [if_pos (.inr (.inr hric))]
      exact ⟨_, rfl, hnothing _⟩
    rename_i hric
    have hgo : ¬ (s.r.d.eofRx = true ∨ request c.toConfig c.params.bytesPerLine s.r.d < 1 ∨
        checkRic c.toConfig s.r.d a.ric ≠ .good) := fun hor =>
      hor.elim hopen fun hor => hor.elim hbytes hric
    rw [if_neg hgo] at hlimit ⊢
    have hmore : ∀ {eofRx flag : Bool}, eofRx = true → (eofRx || flag) = true := by
      rintro _ _ rfl
      rfl
    by_cases hzero : inLen = 0
    · rw [if_neg (not_not.mpr hzero), hzero, Nat.zero_div]
      exact ⟨_, rfl, h.flags a.ili _ (s.r.eomRx || a.eom) hmore _ a.buf⟩
    · obtain ⟨d, hcopy, hinv⟩ := h.copy hmode a.buf _ hlimit
      rw [Nat.div_mul_cancel hwhole] at hcopy
      rw [if_pos hzero, hcopy]
      exact ⟨_, rfl, hinv a.ili _ (s.r.eomRx || a.eom) hmore⟩

theorem page_inv (hmode : c.mode = .color) (horder : c.InOrder side) :
    PageInv c side (c.page side) := by
  have hpos : 0 < c.params.bytesPerLine := c.params.positive
  have hdvd : c.params.bytesPerLine ∣ c.bytesTot side := by
    rw [Config.bytesTot.eq_def]
    cases side with
    | front =>
      dsimp only
      split
      · exact Nat.dvd_zero _
      · exact Nat.dvd_mul_right _ _
    | back =>
      dsimp only
      split
      · exact Nat.dvd_mul_right _ _
      · exact Nat.dvd_zero _
  have htot : c.bytesTot side = c.sideLines side * (c.params.pixelsPerLine * 3) := by
    rw [← bytesPerLine_color hmode, Config3091.sideLines, Nat.div_mul_cancel hdvd]
  have hgoff := horder.blue.trans horder.green
  refine ⟨⟨rfl, htot, ?_, fun i hi v hv => ?_⟩, ?_, rfl, ?_, fun hne => absurd rfl hne,
    horder.room, rfl, Nat.le_refl _, fun i hi => absurd hi (Nat.not_lt_zero i)⟩
  · change c.bytesTot side ≤ (List.replicate (c.buffTot side) (0 : SaneByte)).length
    rw [List.length_replicate]
    exact horder.room
  · rw [Config3091.page, pixelOf, lineAt_nil] at hv
    cases hv
  · refine (Int.toNat_eq_zero.mpr ?_).symm
    refine Int.mul_nonpos_of_nonpos_of_nonneg ?_ (Int.natCast_nonneg _)
    change ((0 : Nat) : Int) - c.goff ≤ 0
    omega
  · change ((0 : Nat) : Int) ≤ c.sideLines side + c.goff
    omega

/-- In colour, when the green line is the last one that comes: every byte of a page comes from the
    right raw line, and no operation leaves the buffer. -/
theorem copy3091_aligned (c : Config3091) (hmode : c.mode = .color) (side : Side)
    (horder : c.InOrder side) (ops : List PageOp) (s : ColourPage)
    (hrun : Run (fun s op s' => op.Fine c side s ∧ s.exec c op = .ok s') (c.page side) ops s) :
    s.Aligned c side ∧ ∀ op : PageOp, op.Fine c side s → ∃ s', s.exec c op = .ok s' := by
  have hinv : PageInv c side s := by
    refine hrun.invariant (I := PageInv c side) (page_inv hmode horder) ?_
    rintro s op s' h ⟨hfine, hexec⟩
    obtain ⟨s'', hexec', hinv⟩ := h.exec hmode horder hfine
    rw [hexec] at hexec'
    cases hexec'
    exact hinv
  refine ⟨hinv.aligned hmode horder, fun op hfine => ?_⟩
  obtain ⟨s', hexec, -⟩ := hinv.exec hmode horder hfine
  exact ⟨s', hexec⟩

/-- An image of one pixel at 150 dpi. -/
def onePixel (colorRasterOffset blueOffset : Int) : Config3091 where
  source := .flatbed
  mode := .color
  colorInterlace := .rrggbb
  duplexInterlace := .none
  reverse := false
  lowMem := false
  usb := true
  scannerCtl := false
  mustFullyBuffer := false
  bufferSize := 8
  params := ⟨1, 1, by decide⟩
  colorRasterOffset := colorRasterOffset
  duplexRasterOffset := 0
  greenOffset := 0
  blueOffset := blueOffset
  duplexOffset := 0
  resolutionY := 150

/-- A raw line of the three bytes `1`, `2` and `3`. -/
def oneLine : Answer where
  ric := .good
  status := .good
  buf := fun i => [1, 2, 3].getD i 0
  len := 3
  ili := false
  eom := false

/-- The image has one pixel and two raw lines more; two of the three have come. -/
theorem copy3091_onePixel :
    ∃ s : ColourPage, s.Aligned (onePixel 2 0) .front ∧ s.raw.length = 2 ∧
      ∀ op, op.Fine (onePixel 2 0) .front s → ∃ s', s.exec (onePixel 2 0) op = .ok s' := by
  obtain ⟨s, hrun, hraw⟩ : ∃ s : ColourPage, Run (fun (s : ColourPage) (op : PageOp) s' =>
      op.Fine (onePixel 2 0) .front s ∧ s.exec (onePixel 2 0) op = .ok s')
      ((onePixel 2 0).page .front) ([] ++ [.block oneLine] ++ [.block oneLine]) s ∧
      s.raw.length = 2 := by
    refine ⟨_, .snoc (.snoc .nil ⟨⟨?_, ?_⟩, rfl⟩) ⟨⟨?_, ?_⟩, rfl⟩, rfl⟩
    · decide
    · decide
    · decide
    · decide
  obtain ⟨haligned, hsafe⟩ :=
    copy3091_aligned _ rfl .front ⟨by decide, by decide, by decide⟩ _ _ hrun
  exact ⟨s, haligned, hraw, hsafe⟩

/-- When the blue line comes after the green one, a line is available without it. -/
theorem copy3091_blue_late :
    ¬ ∀ (c : Config3091), c.mode = .color → ∀ (side : Side) (ops : List PageOp) (s : ColourPage),
      Run (fun s op s' => op.Fine c side s ∧ s.exec c op = .ok s') (c.page side) ops s →
      s.Aligned c side := by
  intro h
  have hfine : (PageOp.block oneLine).Fine (onePixel 0 2) .front
      ((onePixel 0 2).page .front) := ⟨by decide, by decide⟩
  have haligned := h (onePixel 0 2) rfl .front [.block oneLine] _ (Run.nil.snoc ⟨hfine, rfl⟩)
  obtain ⟨line, hline, -⟩ := haligned.loaded 0 0 2 (by decide) (by decide) (by decide)
  cases hline

end SaneBackends.Fujitsu3091
