import SaneBackends.Fujitsu3091Color
import SaneBackends.FujitsuScan

/-!
# Duplex lines of a 3091

The scanner sends the lines of both sides in one stream: first some of the front, then one of the
front and one of the back in turn, and at the end those of the back that are left.  The backend
finds the side of a line from the counters of the sides.
-/

namespace SaneBackends.Fujitsu3091

open DrainBuffer DuplexSides FujitsuBuffer InPlace LabelledRun Overwrite

/-! ### The order of the lines -/

/-- The lines of the front among the first `i` lines of a sheet with `T` lines on each side. -/
def frontBefore (off T i : Nat) : Nat := if i ≤ off then i else min T (off + (i - off + 1) / 2)

/-- The side of the line `i`: the front, then both in turn until the front is complete, then the
    back. -/
def sideOf (off T i : Nat) : Side :=
  if i < off then .front
  else if frontBefore off T i = T then .back
  else if (i - off) % 2 = 0 then .front
  else .back

/-- The lines of a side. -/
def linesFor (off T : Nat) (side : Side) (raw : List Line) : List Line :=
  (raw.zipIdx.filter fun x => sideOf off T x.2 = side).map Prod.fst

variable {off T i n k t : Nat} {side : Side} {raw lines : List Line} {line : Line}

theorem frontBefore_succ (h : off ≤ T) (i : Nat) : frontBefore off T (i + 1) =
    frontBefore off T i + if sideOf off T i = .front then 1 else 0 := by
  rw [sideOf]
  rcases Nat.lt_or_ge i off with hlt | hge
  · rw [if_pos hlt, if_pos rfl, frontBefore, frontBefore, if_pos hlt.le,
      if_pos (Nat.succ_le_of_lt hlt)]
  · have hvalue : frontBefore off T i = min T (off + (i - off + 1) / 2) := by
      rw [frontBefore]
      split
      · omega
      · rfl
    have hnext : frontBefore off T (i + 1) = min T (off + (i - off + 2) / 2) := by
      rw [frontBefore, if_neg (by omega), Nat.sub_add_comm hge]
    rw [if_neg (Nat.not_lt.mpr hge), hnext]
    by_cases hfull : frontBefore off T i = T
    · rw [if_pos hfull, if_neg (by decide)]
      omega
    · rw [if_neg hfull]
      by_cases heven : (i - off) % 2 = 0
      · rw [if_pos heven, if_pos rfl]
        omega
      · rw [if_neg heven, if_neg (by decide)]
        omega

theorem linesFor_append (off T : Nat) (side : Side) (raw : List Line) (line : Line) :
    linesFor off T side (raw ++ [line]) =
      if sideOf off T raw.length = side then linesFor off T side raw ++ [line]
      else linesFor off T side raw := by
  rw [linesFor, List.zipIdx_append, List.filter_append, List.map_append, ← linesFor,
    List.zipIdx_singleton, Nat.zero_add, List.filter_singleton]
  by_cases hside : sideOf off T raw.length = side
  · rw [if_pos hside, decide_eq_true hside]
    rfl
  · rw [if_neg hside, decide_eq_false hside]
    exact List.append_nil _

theorem length_linesFor (h : off ≤ T) (raw : List Line) :
    (linesFor off T .front raw).length = frontBefore off T raw.length ∧
      (linesFor off T .front raw).length + (linesFor off T .back raw).length = raw.length := by
  induction raw using List.reverseRecOn with
  | nil =>
    constructor
    · exact (if_pos (Nat.zero_le off)).symm
    · rfl
  | append_singleton raw line ih =>
    obtain ⟨hfront, hboth⟩ := ih
    rw [linesFor_append, linesFor_append, List.length_append, List.length_singleton,
      frontBefore_succ h, ← hfront]
    cases hside : sideOf off T raw.length with
    | front =>
      rw [if_pos rfl, if_pos rfl, if_neg (by decide), List.length_append, List.length_singleton]
      exact ⟨rfl, by omega⟩
    | back =>
      rw [if_neg (by decide), if_neg (by decide), if_pos rfl, List.length_append,
        List.length_singleton]
      exact ⟨rfl, by omega⟩

/-- A side that gets the next line is not complete. -/
theorem length_linesFor_lt (h : off ≤ T) (hmore : raw.length < 2 * T)
    (hside : sideOf off T raw.length = side) : (linesFor off T side raw).length < T := by
  obtain ⟨hfront, hboth⟩ := length_linesFor h raw
  have hvalue : frontBefore off T raw.length = if raw.length ≤ off then raw.length
      else min T (off + (raw.length - off + 1) / 2) := rfl
  rw [sideOf] at hside
  generalize frontBefore off T raw.length = f at hfront hvalue hside
  split at hside
  · subst hside
    split at hvalue <;> omega
  split at hside
  · subst hside
    omega
  split at hside
  · subst hside
    split at hvalue <;> omega
  · subst hside
    split at hvalue <;> omega

/-- The lines of a sheet. -/
theorem length_linesFor_all (h : off ≤ T) (hall : raw.length = 2 * T) (side : Side) :
    (linesFor off T side raw).length = T := by
  obtain ⟨hfront, hboth⟩ := length_linesFor h raw
  have hvalue : frontBefore off T raw.length = if raw.length ≤ off then raw.length
      else min T (off + (raw.length - off + 1) / 2) := rfl
  have hcomplete : (linesFor off T .front raw).length = T := by
    rw [hfront, hvalue]
    split <;> omega
  cases side with
  | front => exact hcomplete
  | back => omega

/-! ### The sides -/

variable {c : Config3091} {out : List SaneByte} {d : SideState}

/-- The bytes of lines. -/
def dataOf (c : Config3091) (lines : List Line) : List SaneByte :=
  lines.flatMap fun line => (List.range c.params.bytesPerLine).map line

/-- The lines that the scanner sends for each side. -/
def Config3091.sheetLines (c : Config3091) : Nat :=
  (c.params.lines + if c.mode = .color then c.goff else 0).toNat

/-- A side that has got these lines, and of which the frontend has got `out`. -/
structure SideGot (c : Config3091) (lines : List Line) (out : List SaneByte)
    (d : SideState) : Prop where
  count : d.linesRx = lines.length
  plain : c.mode ≠ .color → c.convert (dataOf c lines) = out ++ d.buffer.pending
  colour : c.mode = .color → Coloured c c.params c.params.lines lines d

/-- The offset is not larger than the sheet, and colour images fit in their buffers. -/
structure Config3091.Fits (c : Config3091) : Prop where
  offset : c.off ≤ c.sheetLines
  lines : c.mode = .color → 0 < c.params.lines
  room : c.mode = .color → ∀ side, c.bytesTot side ≤ c.buffTot side

/-- The buffer of a side that is not in colour. -/
structure PlainSide (c : Config3091) (lines : List Line) (out : List SaneByte)
    (d : SideState) : Prop where
  bytesRx : d.bytesRx = lines.length * c.params.bytesPerLine
  holds : ∃ q, d.buffer.Holds d.buffTot q ∧ c.convert (dataOf c lines) = out ++ q

/-- The buffer of a side in colour, where bytes are available when the green line is there. -/
structure ColourSide (c : Config3091) (lines : List Line) (d : SideState) : Prop where
  coloured : Coloured c c.params c.params.lines lines d
  ordered : d.buffer.tx ≤ d.buffer.rx
  rx : d.buffer.rx ≤ (lines.length - c.goff).toNat * c.params.bytesPerLine
  inside : d.buffer.rx ≤ d.bytesTot
  small : d.bytesTot ≤ d.buffTot

structure SheetSide (c : Config3091) (lines : List Line) (out : List SaneByte)
    (d : SideState) : Prop where
  count : d.linesRx = lines.length
  tot : d.bytesTot = c.params.lines * c.params.bytesPerLine
  full : lines ≠ [] → lines.length = c.sheetLines → d.eofRx = true
  ended : d.eofRx = true → lines.length = c.sheetLines
  plain : c.mode ≠ .color → PlainSide c lines out d
  colour : c.mode = .color → ColourSide c lines d

theorem SheetSide.got (h : SheetSide c lines out d) : SideGot c lines out d := by
  refine ⟨h.count, fun hmode => ?_, fun hmode => (h.colour hmode).coloured⟩
  obtain ⟨q, hq, hconvert⟩ := (h.plain hmode).holds
  rw [hconvert, hq.pending]

theorem length_dataOf (lines : List Line) :
    (dataOf c lines).length = lines.length * c.params.bytesPerLine := by
  induction lines with
  | nil => exact (Nat.zero_mul _).symm
  | cons line lines ih =>
    rw [dataOf, List.flatMap_cons, ← dataOf, List.length_append, ih, List.length_map,
      List.length_range, List.length_cons, Nat.succ_mul, Nat.add_comm]

theorem dataOf_append (lines : List Line) (line : Line) : dataOf c (lines ++ [line]) =
    dataOf c lines ++ (List.range c.params.bytesPerLine).map line := by
  rw [dataOf, List.flatMap_append, ← dataOf, List.flatMap_singleton]

theorem unit_dvd (c : Config) : c.unit ∣ c.params.bytesPerLine := by
  rw [Config.unit]
  split
  · exact Nat.dvd_refl _
  · exact Nat.one_dvd _

theorem sheetLines_plain (hmode : c.mode ≠ .color) : c.sheetLines = c.params.lines := by
  rw [Config3091.sheetLines, if_neg hmode, Int.add_zero, Int.toNat_natCast]

theorem sheetLines_colour (hmode : c.mode = .color) :
    c.sheetLines = (c.params.lines + c.goff).toNat := by
  rw [Config3091.sheetLines, if_pos hmode]

theorem linesOf_one (line : Line) : linesOf n line 1 = [line] := by
  rw [linesOf_succ, Nat.zero_mul]
  simp only [Nat.zero_add]
  rfl

theorem toNat_mul (m : Int) (n : Nat) : (m * n).toNat = m.toNat * n := by
  rcases Int.le_total 0 m with hm | hm
  · obtain ⟨k, rfl⟩ := Int.eq_ofNat_of_zero_le hm
    rw [← Int.natCast_mul, Int.toNat_natCast, Int.toNat_natCast]
  · rw [Int.toNat_of_nonpos hm, Nat.zero_mul, Int.toNat_of_nonpos]
    exact Int.mul_nonpos_of_nonpos_of_nonneg hm (Int.natCast_nonneg n)

/-- A line is copied to a side that is not complete. -/
theorem SheetSide.copy (hfits : c.Fits) (h : SheetSide c lines out d)
    (hless : lines.length < c.sheetLines)
    (hroom : c.mode ≠ .color → d.buffer.rx + c.params.bytesPerLine ≤ d.buffTot) (line : Line) :
    ∃ d', copyLines c c.params line c.params.bytesPerLine d = some d' ∧
      SheetSide c (lines ++ [line]) out d' ∧ d'.buffTot = d.buffTot ∧
      (c.mode ≠ .color → d'.buffer.rx = d.buffer.rx + c.params.bytesPerLine) := by
  have hpos : 0 < c.params.bytesPerLine := c.params.positive
  have hopen : d.eofRx = false := by
    rw [← Bool.not_eq_true]
    intro heof
    exact Nat.ne_of_lt hless (h.ended heof)
  have hcount : (lines ++ [line]).length = lines.length + 1 := by
    rw [List.length_append, List.length_singleton]
  rw [copyLines]
  split
  · rename_i hmode
    have hside := h.colour hmode
    obtain ⟨d', hcopy, hcoloured, cells, hlength, rfl⟩ := copy3091_spec hmode hside.coloured line 1
    rw [linesOf_one] at hcoloured
    rw [Nat.one_mul] at hcopy
    have htotal := sheetLines_colour hmode
    have hlines := hfits.lines hmode
    have hrx : (((d.linesRx + 1 : Nat) - c.goff) * c.params.bytesPerLine).toNat =
        ((lines.length + 1 : Nat) - c.goff).toNat * c.params.bytesPerLine := by
      rw [h.count, toNat_mul]
    have hle : ((lines.length + 1 : Nat) - c.goff).toNat ≤ c.params.lines := by omega
    have heof : ((lines.length + 1 : Nat) - c.goff).toNat * c.params.bytesPerLine =
        c.params.lines * c.params.bytesPerLine ↔ lines.length + 1 = c.sheetLines := by
      rw [Nat.mul_right_cancel_iff hpos]
      omega
    refine ⟨_, hcopy, ⟨hcoloured.count, h.tot, fun _ hall => ?_, fun hend => ?_, fun hplain => ?_,
      fun _ => ⟨⟨hcoloured.count, hcoloured.tot, hcoloured.room, hcoloured.pixels⟩, ?_, ?_, ?_,
      hside.small⟩⟩, rfl, fun hplain => absurd hmode hplain⟩
    · change (d.eofRx || decide (_ = d.bytesTot)) = true
      rw [hopen, Bool.false_or, decide_eq_true_eq, hrx, h.tot, heof, ← hcount]
      exact hall
    · change (d.eofRx || decide (_ = d.bytesTot)) = true at hend
      rw [hopen, Bool.false_or, decide_eq_true_eq, hrx, h.tot, heof] at hend
      rw [hcount, hend]
    · exact absurd hmode hplain
    · change d.buffer.tx ≤ (((d.linesRx + 1 : Nat) - c.goff) * c.params.bytesPerLine).toNat
      rw [hrx]
      refine hside.ordered.trans (hside.rx.trans (Nat.mul_le_mul_right _ ?_))
      omega
    · change (((d.linesRx + 1 : Nat) - c.goff) * c.params.bytesPerLine).toNat ≤ _
      rw [hrx, hcount]
    · change (((d.linesRx + 1 : Nat) - c.goff) * c.params.bytesPerLine).toNat ≤ d.bytesTot
      rw [hrx, h.tot]
      exact Nat.mul_le_mul_right _ hle
  · rename_i hmode
    have hside := h.plain hmode
    obtain ⟨q, hq, hconvert⟩ := hside.holds
    obtain ⟨b, hcopy, hholds, hrx⟩ := copyBuffer_whole line hq (unit_dvd c.toConfig)
      (fun _ => rfl) (hroom hmode)
    have heof : d.bytesRx + c.params.bytesPerLine = d.bytesTot ↔
        lines.length + 1 = c.sheetLines := by
      rw [hside.bytesRx, h.tot, ← Nat.succ_mul, Nat.mul_right_cancel_iff hpos,
        sheetLines_plain hmode]
    refine ⟨_, hcopy, ⟨?_, h.tot, fun _ hall => ?_, fun hend => ?_,
      fun _ => ⟨?_, _, hholds, ?_⟩, fun hcolour => absurd hcolour hmode⟩, rfl, fun _ => hrx⟩
    · change d.linesRx + c.params.bytesPerLine / c.params.bytesPerLine = _
      rw [Nat.div_self hpos, hcount, h.count]
    · change (d.eofRx || decide (_ = d.bytesTot)) = true
      rw [hopen, Bool.false_or, decide_eq_true_eq, heof, ← hcount]
      exact hall
    · change (d.eofRx || decide (_ = d.bytesTot)) = true at hend
      rw [hopen, Bool.false_or, decide_eq_true_eq, heof] at hend
      rw [hcount, hend]
    · change d.bytesRx + c.params.bytesPerLine = _
      rw [hside.bytesRx, hcount, Nat.succ_mul]
    · rw [dataOf_append, convert_append, hconvert, List.append_assoc]
      rw [length_dataOf]
      exact Nat.dvd_mul_left_of_dvd (unit_dvd c.toConfig) _

/-- A read of the frontend. -/
theorem SheetSide.fetch (h : SheetSide c lines out d) (maxLen : Nat) :
    ∃ data d', readFromBuffer d maxLen = .ok (data, d') ∧
      SheetSide c lines (out ++ data) d' := by
  by_cases hmode : c.mode = .color
  · have hside := h.colour hmode
    have hinside := hside.inside
    have hroom := hside.coloured.room
    obtain ⟨bytes, hle, hread⟩ := readFromBuffer_kept hside.small hside.ordered (by omega) maxLen
    refine ⟨_, _, hread, h.count, h.tot, h.full, h.ended, fun hplain => absurd hmode hplain,
      fun _ => ⟨⟨?_, ?_, ?_, ?_⟩, hle, hside.rx, hinside, hside.small⟩⟩
    · exact hside.coloured.count
    · exact hside.coloured.tot
    · exact hroom
    · exact hside.coloured.pixels
  · obtain ⟨q, hq, hconvert⟩ := (h.plain hmode).holds
    obtain ⟨b, hread, hholds⟩ := readFromBuffer_eq hq maxLen
    refine ⟨_, _, hread, h.count, h.tot, h.full, h.ended,
      fun _ => ⟨(h.plain hmode).bytesRx, _, hholds, ?_⟩, fun hcolour => absurd hcolour hmode⟩
    rw [hconvert, List.append_assoc, List.take_append_drop]

/-- The scanner reports the end when all lines have come. -/
theorem SheetSide.finish (h : SheetSide c lines out d) (hall : lines.length = c.sheetLines) :
    SheetSide c lines out { d with eofRx := true } := by
  refine ⟨h.count, h.tot, fun _ _ => rfl, fun _ => hall, fun hmode => ⟨(h.plain hmode).bytesRx,
    (h.plain hmode).holds⟩, fun hmode => ?_⟩
  have hside := h.colour hmode
  exact ⟨⟨hside.coloured.count, hside.coloured.tot, hside.coloured.room, hside.coloured.pixels⟩,
    hside.ordered, hside.rx, hside.inside, hside.small⟩

/-! ### Sheets -/

/-- A sheet that is being read: both sides, the raw lines that have come, and the bytes that the
    frontend has got of each side. -/
structure Sheet where
  sides : Sides SideState
  raw : List Line
  out : Sides (List SaneByte)

/-- A call of `read_from_3091duplex`, and a read of the frontend. -/
inductive SheetOp
  | block (a : Answer)
  | fetch (side : Side) (maxLen : Nat)

/-- `read_from_3091duplex` sends a READ command. -/
def Asked (c : Config3091) (sides : Sides SideState) : Prop :=
  ¬ (sides.front.eofRx = true ∧ sides.back.eofRx = true) ∧ ¬ requestDuplex c c.params sides < 1

instance {sides : Sides SideState} : Decidable (Asked c sides) :=
  inferInstanceAs (Decidable (_ ∧ _))

/-- The lines that a READ command brings. -/
def receivedLines (c : Config3091) (sides : Sides SideState) (a : Answer) : Nat :=
  a.inLen (requestDuplex c c.params sides) / c.params.bytesPerLine

def Sheet.exec (c : Config3091) (s : Sheet) : SheetOp → Except Stop Sheet
  | .block a => do
    let (_, sides) ← readFrom3091duplex c c.params s.sides a
    let count := if Asked c s.sides then receivedLines c s.sides a else 0
    return { s with sides, raw := s.raw ++ linesOf c.params.bytesPerLine a.buf count }
  | .fetch side maxLen => do
    let (data, d) ← readFromBuffer (s.sides.get side) maxLen
    return { s with
      sides := s.sides.set side d, out := s.out.set side (s.out.get side ++ data) }

/-- A sheet of which nothing has come. -/
def Config3091.sheet (c : Config3091) : Sheet := ⟨⟨c.side .front, c.side .back⟩, [], ⟨[], []⟩⟩

/-- The scanner sends whole lines, those of both sides and no more, and it reports the end with the
    last one. -/
def SheetOp.Fine (c : Config3091) (s : Sheet) : SheetOp → Prop
  | .block a => Asked c s.sides →
    c.params.bytesPerLine ∣ a.inLen (requestDuplex c c.params s.sides) ∧
      s.raw.length + receivedLines c s.sides a ≤ 2 * c.sheetLines ∧
      (a.status = .eof → s.raw.length + receivedLines c s.sides a = 2 * c.sheetLines)
  | .fetch _ _ => True

/-- The lines of a side among those that have come. -/
def Config3091.linesOn (c : Config3091) (side : Side) (raw : List Line) : List Line :=
  linesFor c.off.toNat c.sheetLines side raw

/-- The side buffers hold the lines of their sides, after the last line both sides are complete, and
    the lines of the next block go where they belong. -/
structure Sheet.Split (c : Config3091) (s : Sheet) : Prop where
  sides : ∀ side, SideGot c (c.linesOn side s.raw) (s.out.get side) (s.sides.get side)
  complete : s.raw.length = 2 * c.sheetLines → ∀ side,
    (s.sides.get side).linesRx = c.sheetLines ∧
      (0 < c.sheetLines → (s.sides.get side).eofRx = true)
  next : ∀ a, (SheetOp.block a).Fine c s → Asked c s.sides → ∀ k < receivedLines c s.sides a,
    ∃ sides, (List.range k).foldlM (fun sides i => copyLine c c.params
        (fun j => a.buf (i * c.params.bytesPerLine + j)) sides) s.sides = .ok sides ∧
      nextSide c.off sides = sideOf c.off.toNat c.sheetLines (s.raw.length + k)

/-- The invariant of a sheet. -/
def SheetInv (c : Config3091) (raw : List Line) (out : Sides (List SaneByte))
    (sides : Sides SideState) : Prop :=
  ∀ side, SheetSide c (c.linesOn side raw) (out.get side) (sides.get side)

/-- There is room for `k` lines on every side that is not complete. -/
def Room (c : Config3091) (k : Nat) (sides : Sides SideState) : Prop :=
  c.mode ≠ .color → ∀ side, (sides.get side).eofRx = false →
    (sides.get side).buffer.rx + k * c.params.bytesPerLine ≤ (sides.get side).buffTot

variable {outs : Sides (List SaneByte)} {sides : Sides SideState} {buf : Nat → SaneByte}

/-- The counters say what the next line is. -/
theorem SheetInv.nextSide (hoff : 0 ≤ c.off) (hfits : c.Fits) (h : SheetInv c raw outs sides)
    (hmore : raw.length < 2 * c.sheetLines) :
    nextSide c.off sides = sideOf c.off.toNat c.sheetLines raw.length := by
  have hle := hfits.offset
  obtain ⟨off, heq⟩ := Int.eq_ofNat_of_zero_le hoff
  have hoffset : off ≤ c.sheetLines := by omega
  have hfront := h .front
  have hback := h .back
  rw [Config3091.linesOn, heq, Int.toNat_natCast] at hfront hback
  obtain ⟨hcount, hboth⟩ := length_linesFor hoffset raw
  have hfrontCount : sides.front.linesRx = frontBefore off c.sheetLines raw.length :=
    hfront.count.trans hcount
  have hsum : sides.front.linesRx + sides.back.linesRx = raw.length := by
    rw [← hboth, ← hfront.count, ← hback.count]
    rfl
  have hvalue : frontBefore off c.sheetLines raw.length = if raw.length ≤ off then raw.length
      else min c.sheetLines (off + (raw.length - off + 1) / 2) := rfl
  have heof : sides.front.eofRx = true ↔
      frontBefore off c.sheetLines raw.length = c.sheetLines := by
    rw [← hcount]
    refine ⟨hfront.ended, fun hall => hfront.full (fun hnil => ?_) hall⟩
    rw [hnil] at hall
    change 0 = c.sheetLines at hall
    omega
  rw [Fujitsu3091.nextSide, sideOf, heq, Int.toNat_natCast]
  by_cases hfirst : raw.length < off
  · rw [if_pos hfirst, if_pos]
    rw [hfrontCount, hvalue, if_pos hfirst.le]
    omega
  · have hlater : ¬ (sides.front.linesRx : Int) < off := by
      rw [hfrontCount, hvalue]
      split <;> omega
    rw [if_neg hfirst, if_neg hlater]
    refine if_congr heof rfl ?_
    have hparity : (sides.front.linesRx + sides.back.linesRx - off : Int).tmod 2 =
        ((raw.length - off) % 2 : Nat) := by
      have hcast : (sides.front.linesRx + sides.back.linesRx - off : Int) =
          (raw.length - off : Nat) := by omega
      rw [hcast]
      rfl
    rw [hparity]
    by_cases heven : (raw.length - off) % 2 = 0
    · rw [if_neg (by omega), if_pos heven]
    · rw [if_pos (by omega), if_neg heven]

/-- One line of a block. -/
theorem SheetInv.copyLine (hoff : 0 ≤ c.off) (hfits : c.Fits) (h : SheetInv c raw outs sides)
    (hmore : raw.length < 2 * c.sheetLines) (hroom : Room c (k + 1) sides) (line : Line) :
    ∃ sides', copyLine c c.params line sides = .ok sides' ∧
      SheetInv c (raw ++ [line]) outs sides' ∧ Room c k sides' := by
  have hoffset : c.off.toNat ≤ c.sheetLines := by
    have hle := hfits.offset
    omega
  have hnext := h.nextSide hoff hfits hmore
  generalize hside : Fujitsu3091.nextSide c.off sides = side at hnext
  have hless := length_linesFor_lt hoffset hmore hnext.symm
  have hopen : (sides.get side).eofRx = false := by
    rw [← Bool.not_eq_true]
    intro heof
    exact Nat.ne_of_lt hless ((h side).ended heof)
  obtain ⟨d, hcopy, hgot, htot, hrx⟩ := (h side).copy hfits hless (fun hmode => by
    have hspace := hroom hmode side hopen
    rw [Nat.succ_mul] at hspace
    omega) line
  refine ⟨sides.set side d, ?_, fun i => ?_, fun hmode i heof => ?_⟩
  · rw [Fujitsu3091.copyLine, hside, hcopy]
    rfl
  · rw [Config3091.linesOn, linesFor_append, ← hnext]
    by_cases hi : i = side
    · subst hi
      rw [if_pos rfl, Sides.get_set_self]
      exact hgot
    · rw [if_neg (Ne.symm hi), Sides.get_set_of_ne _ hi]
      exact h i
  · by_cases hi : i = side
    · subst hi
      have hspace := hroom hmode i hopen
      rw [Nat.succ_mul] at hspace
      rw [Sides.get_set_self, htot, hrx hmode]
      omega
    · rw [Sides.get_set_of_ne _ hi] at heof ⊢
      have hspace := hroom hmode i heof
      rw [Nat.succ_mul] at hspace
      omega

/-- The first lines of a block. -/
theorem SheetInv.copyLines (hoff : 0 ≤ c.off) (hfits : c.Fits) (h : SheetInv c raw outs sides)
    (hlimit : raw.length + n ≤ 2 * c.sheetLines) (hroom : Room c n sides) (buf : Nat → SaneByte)
    (hk : k ≤ n) :
    ∃ sides', (List.range k).foldlM (fun sides i => Fujitsu3091.copyLine c c.params
        (fun j => buf (i * c.params.bytesPerLine + j)) sides) sides = .ok sides' ∧
      SheetInv c (raw ++ linesOf c.params.bytesPerLine buf k) outs sides' ∧
      Room c (n - k) sides' := by
  induction k with
  | zero =>
    refine ⟨sides, rfl, ?_, hroom⟩
    rw [linesOf, List.range_zero, List.map_nil, List.append_nil]
    exact h
  | succ k ih =>
    obtain ⟨sides₁, hfold, hinv, hleft⟩ := ih (Nat.le_of_succ_le hk)
    have hmore : (raw ++ linesOf c.params.bytesPerLine buf k).length < 2 * c.sheetLines := by
      rw [List.length_append, length_linesOf]
      omega
    rw [show n - k = n - (k + 1) + 1 by omega] at hleft
    obtain ⟨sides₂, hcopy, hinv', hleft'⟩ := hinv.copyLine hoff hfits hmore hleft
      fun j => buf (k * c.params.bytesPerLine + j)
    refine ⟨sides₂, ?_, ?_, hleft'⟩
    · rw [List.range_succ, List.foldlM_append, hfold]
      change (Fujitsu3091.copyLine c c.params (fun j => buf (k * c.params.bytesPerLine + j)) sides₁
        >>= pure) = _
      rw [hcopy]
      rfl
    · rw [linesOf_succ, ← List.append_assoc]
      exact hinv'

/-- No more is asked for than there is room for. -/
theorem SheetInv.room (h : SheetInv c raw outs sides) (a : Answer) :
    Room c (receivedLines c sides a) sides := by
  intro hmode side heof
  obtain ⟨q, hq, -⟩ := ((h side).plain hmode).holds
  have hinside := hq.inside
  have hreceived : receivedLines c sides a * c.params.bytesPerLine ≤
      requestDuplex c c.params sides :=
    (Nat.div_mul_le_self _ _).trans (a.inLen_le _)
  have hasked : requestDuplex c c.params sides ≤
      (sides.get side).buffTot - (sides.get side).buffer.rx := by
    rw [requestDuplex]
    refine (Nat.sub_le _ _).trans ?_
    cases side with
    | front =>
      change sides.front.eofRx = false at heof
      change _ ≤ sides.front.buffTot - sides.front.buffer.rx
      simp only [heof, true_and]
      split <;> split <;> omega
    | back =>
      change sides.back.eofRx = false at heof
      change _ ≤ sides.back.buffTot - sides.back.buffer.rx
      simp only [heof, true_and]
      split <;> split <;> omega
  omega

variable {s : Sheet}

/-- What one operation preserves. -/
theorem SheetInv.exec (hoff : 0 ≤ c.off) (hfits : c.Fits) (h : SheetInv c s.raw s.out s.sides)
    {op : SheetOp} (hfine : op.Fine c s) :
    ∃ s', s.exec c op = .ok s' ∧ SheetInv c s'.raw s'.out s'.sides := by
  cases op with
  | fetch side maxLen =>
    obtain ⟨data, d, hread, hside⟩ := (h side).fetch maxLen
    rw [Sheet.exec, hread]
    refine ⟨_, rfl, fun i => ?_⟩
    by_cases hi : i = side
    · subst hi
      change SheetSide c _ ((s.out.set i _).get i) ((s.sides.set i d).get i)
      rw [Sides.get_set_self, Sides.get_set_self]
      exact hside
    · change SheetSide c _ ((s.out.set side _).get i) ((s.sides.set side d).get i)
      rw [Sides.get_set_of_ne _ hi, Sides.get_set_of_ne _ hi]
      exact h i
  | block a =>
    have hnothing : SheetInv c (s.raw ++ linesOf c.params.bytesPerLine a.buf 0) s.out s.sides := by
      rw [linesOf, List.range_zero, List.map_nil, List.append_nil]
      exact h
    rw [Sheet.exec, readFrom3091duplex]
    by_cases hdone : s.sides.front.eofRx = true ∧ s.sides.back.eofRx = true
    · have hasked : ¬ Asked c s.sides := fun hasked => hasked.1 hdone
      rw [if_pos hdone, if_neg hasked]
      exact ⟨_, rfl, hnothing⟩
    rw [if_neg hdone]
    by_cases hempty : requestDuplex c c.params s.sides < 1
    · have hasked : ¬ Asked c s.sides := fun hasked => hasked.2 hempty
      rw [if_pos hempty, if_neg hasked]
      exact ⟨_, rfl, hnothing⟩
    have hasked : Asked c s.sides := ⟨hdone, hempty⟩
    obtain ⟨-, hlimit, hlast⟩ := hfine hasked
    obtain ⟨sides, hfold, hinv, -⟩ := h.copyLines hoff hfits hlimit (h.room a) a.buf le_rfl
    rw [receivedLines] at hfold
    rw [if_neg hempty, if_pos hasked, hfold]
    change ∃ s', (do
      let (_, sides) ← (if a.status = .eof then
        return (.good, ⟨{ sides.front with eofRx := true }, { sides.back with eofRx := true }⟩)
        else return (a.ret, sides) : Except Stop (SaneStatus × Sides SideState))
      return _) = Except.ok s' ∧ _
    split
    · rename_i hstatus
      have hoffset : c.off.toNat ≤ c.sheetLines := by
        have hle := hfits.offset
        omega
      have hlength : (s.raw ++ linesOf c.params.bytesPerLine a.buf
          (receivedLines c s.sides a)).length = 2 * c.sheetLines := by
        rw [List.length_append, length_linesOf]
        exact hlast hstatus
      refine ⟨_, rfl, fun side => ?_⟩
      have hside := (hinv side).finish (length_linesFor_all hoffset hlength side)
      cases side with
      | front => exact hside
      | back => exact hside
    · exact ⟨_, rfl, hinv⟩

theorem sheet_inv (hsource : c.source = .adfDuplex) (hfits : c.Fits) :
    SheetInv c c.sheet.raw c.sheet.out c.sheet.sides := by
  intro side
  have hnil : c.linesOn side c.sheet.raw = [] := rfl
  have hout : c.sheet.out.get side = [] := by
    cases side with
    | front => rfl
    | back => rfl
  have hget : c.sheet.sides.get side = c.side side := by
    cases side with
    | front => rfl
    | back => rfl
  have htot : c.bytesTot side = c.params.lines * c.params.bytesPerLine := by
    rw [Nat.mul_comm]
    cases side with
    | front =>
      refine if_neg ?_
      rw [hsource]
      decide
    | back => exact if_pos (.inl hsource)
  rw [hnil, hout, hget]
  refine ⟨rfl, htot, fun hne => absurd rfl hne, (nomatch ·), fun _ => ⟨?_, [], ?_, ?_⟩,
    fun hmode => ⟨⟨rfl, ?_, ?_, fun i hi v hv => ?_⟩, Nat.le_refl _, Nat.zero_le _, Nat.zero_le _,
      hfits.room hmode side⟩⟩
  · exact (Nat.zero_mul _).symm
  · have hfresh := holds_fresh (List.replicate (c.buffTot side) (0 : SaneByte))
    rw [List.length_replicate] at hfresh
    exact hfresh
  · exact convert_nil
  · rw [← bytesPerLine_color hmode]
    exact htot
  · change c.bytesTot side ≤ (List.replicate (c.buffTot side) (0 : SaneByte)).length
    rw [List.length_replicate]
    exact hfits.room hmode side
  · rw [pixelOf, lineAt_nil] at hv
    cases hv

theorem SheetInv.split (hoff : 0 ≤ c.off) (hfits : c.Fits)
    (h : SheetInv c s.raw s.out s.sides) : s.Split c := by
  have hoffset : c.off.toNat ≤ c.sheetLines := by
    have hle := hfits.offset
    omega
  refine ⟨fun side => (h side).got, fun hall side => ?_, fun a hfine hasked k hk => ?_⟩
  · have hlength : (c.linesOn side s.raw).length = c.sheetLines :=
      length_linesFor_all hoffset hall side
    refine ⟨(h side).count.trans hlength, fun hpos => (h side).full (fun hnil => ?_) hlength⟩
    rw [hnil, List.length_nil] at hlength
    omega
  · obtain ⟨-, hlimit, -⟩ := hfine hasked
    obtain ⟨sides, hfold, hinv, -⟩ := h.copyLines hoff hfits hlimit (h.room a) a.buf hk.le
    refine ⟨sides, hfold, ?_⟩
    have hnext := hinv.nextSide hoff hfits (by rw [List.length_append, length_linesOf]; omega)
    rwa [List.length_append, length_linesOf] at hnext

/-- When the offset is not larger than the sheet: every line goes to its side, and no operation
    leaves a buffer. -/
theorem readFrom3091duplex_split (c : Config3091) (hsource : c.source = .adfDuplex)
    (hoff : 0 ≤ c.off) (hfits : c.Fits) (ops : List SheetOp) (s : Sheet)
    (hrun : Run (fun s op s' => op.Fine c s ∧ s.exec c op = .ok s') c.sheet ops s) :
    s.Split c ∧ ∀ op : SheetOp, op.Fine c s → ∃ s', s.exec c op = .ok s' := by
  have hinv : SheetInv c s.raw s.out s.sides := by
    refine hrun.invariant (I := fun s => SheetInv c s.raw s.out s.sides)
      (sheet_inv hsource hfits) ?_
    rintro s op s' h ⟨hfine, hexec⟩
    obtain ⟨s'', hexec', hinv⟩ := SheetInv.exec hoff hfits h hfine
    rw [hexec] at hexec'
    cases hexec'
    exact hinv
  refine ⟨hinv.split hoff hfits, fun op hfine => ?_⟩
  obtain ⟨s', hexec, -⟩ := SheetInv.exec hoff hfits hinv hfine
  exact ⟨s', hexec⟩

/-- A sheet with lines of one gray pixel, which is buffered as a whole. -/
def graySheet (lines : Nat) (offset : Int) : Config3091 where
  source := .adfDuplex
  mode := .grayscale
  colorInterlace := .unk
  duplexInterlace := .none
  reverse := false
  lowMem := false
  usb := true
  scannerCtl := false
  mustFullyBuffer := true
  bufferSize := 8
  params := ⟨1, lines, by decide⟩
  colorRasterOffset := 0
  duplexRasterOffset := offset
  greenOffset := 0
  blueOffset := 0
  duplexOffset := 0
  resolutionY := 300

/-- A block of `len` lines. -/
def grayAnswer (len : Nat) : Answer where
  ric := .good
  status := .good
  buf := fun i => [1, 2].getD i 0
  len := len
  ili := false
  eom := false

/-- Two lines on each side, of which the first two have come. -/
theorem readFrom3091duplex_split_gray :
    ∃ s : Sheet, s.Split (graySheet 2 1) ∧ s.raw.length = 2 ∧
      ∀ op, op.Fine (graySheet 2 1) s → ∃ s', s.exec (graySheet 2 1) op = .ok s' := by
  obtain ⟨s, hrun, hraw⟩ : ∃ s : Sheet, Run (fun (s : Sheet) (op : SheetOp) s' =>
      op.Fine (graySheet 2 1) s ∧ s.exec (graySheet 2 1) op = .ok s') (graySheet 2 1).sheet
      ([] ++ [SheetOp.block (grayAnswer 2)]) s ∧ s.raw.length = 2 := by
    refine ⟨_, .snoc .nil ⟨fun _ => ⟨?_, ?_, ?_⟩, rfl⟩, rfl⟩
    · decide
    · decide
    · decide
  obtain ⟨hsplit, hsafe⟩ := readFrom3091duplex_split (graySheet 2 1) rfl (by decide)
    ⟨by decide, (nomatch ·), (nomatch ·)⟩ _ s hrun
  exact ⟨s, hsplit, hraw, hsafe⟩

/-- A sheet of one line with an offset of two: the second line goes to the front as well. -/
theorem readFrom3091duplex_short_sheet :
    ¬ ∀ (c : Config3091), c.source = .adfDuplex → 0 ≤ c.off → ∀ (ops : List SheetOp) (s : Sheet),
      Run (fun s op s' => op.Fine c s ∧ s.exec c op = .ok s') c.sheet ops s →
      s.Split c ∧ ∀ op : SheetOp, op.Fine c s → ∃ s', s.exec c op = .ok s' := by
  intro h
  obtain ⟨s, hrun, hfine, hstop⟩ : ∃ s : Sheet, Run (fun (s : Sheet) (op : SheetOp) s' =>
      op.Fine (graySheet 1 2) s ∧ s.exec (graySheet 1 2) op = .ok s') (graySheet 1 2).sheet
      ([] ++ [SheetOp.block (grayAnswer 1)]) s ∧
      (SheetOp.block (grayAnswer 1)).Fine (graySheet 1 2) s ∧
      s.exec (graySheet 1 2) (.block (grayAnswer 1)) = .error .outside := by
    refine ⟨_, .snoc .nil ⟨fun _ => ⟨?_, ?_, ?_⟩, rfl⟩, fun _ => ⟨?_, ?_, ?_⟩, rfl⟩
    · decide
    · decide
    · decide
    · decide
    · decide
    · decide
  obtain ⟨-, hsafe⟩ := h (graySheet 1 2) rfl (by decide) _ s hrun
  obtain ⟨s', hexec⟩ := hsafe _ hfine
  rw [hstop] at hexec
  cases hexec

end SaneBackends.Fujitsu3091
