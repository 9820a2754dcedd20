import SaneBackends.BitPrefixes
import SaneBackends.SampleGrid

/-!
# The output lines of the Artec E+ 48U

`copy_scan_line` of `backend/artec_eplus48u.c`.  It turns a line around and, with 1200 dpi, leaves a
gap behind each pixel, which a second pass fills.
-/

namespace SaneBackends.ArtecLine

open CountLoops SampleGrid

/-- The parameters of a scan, as `sane_get_parameters` and `artec48u_setup_scan` leave them. -/
structure Scan where
  color : Bool
  depth : Nat
  lineart : Bool
  ydpi : Nat
  isEpro : Bool
  blackLevel : Int
  xs : Nat
  xs_pos : 0 < xs
  depth_cases : depth = 8 ∨ depth = 16
  lineart_gray : lineart = true → color = false ∧ depth = 8

/-- `s->buffer_pointers`: sample `i` of channel `j`. -/
abbrev CurrentLine := Nat → Nat → Nat

namespace Scan

variable (s : Scan)

def interpolate : Bool := s.ydpi == 1200 && !s.isEpro

/-- `scan_bpl`: the line is padded to a multiple of 64 bytes. -/
def scanBpl : Nat :=
  let pixelAlign := if s.depth = 16 then 32 else 64
  let scanXs := if s.xs % pixelAlign = 0 then s.xs else (s.xs / pixelAlign + 1) * pixelAlign
  s.depth * scanXs / 8

def lineBufferSize : Nat :=
  if s.interpolate then if s.color then s.scanBpl * 8 else s.scanBpl * 4
  else if s.color then s.scanBpl * 4 else s.scanBpl * 2

def lineartBufferSize : Nat := if s.lineart then s.xs * 2 else 0

/-- The buffers of a scan, with whatever the line before has left in them. -/
structure Buffers where
  lineBuffer : List SaneByte
  lineartBuffer : List SaneByte
  length_line : lineBuffer.length = s.lineBufferSize
  length_lineart : lineartBuffer.length = s.lineartBufferSize

def step : Nat := if s.interpolate then 2 else 1

/-- The first pass: `cnt` is the offset of the sample, the gap is as long as a pixel. -/
def copyPixels (wide : Bool) (channels : Nat) (line : CurrentLine) :
    List SaneByte → Except Fault (List SaneByte) :=
  turns (fun k => turns (fun j mem =>
    let value := line j (s.xs - 1 - k)
    storeSample wide mem ((k * (channels * s.step) + j) * width wide)
      (if wide then value else value / 257)) channels) s.xs

/-- The mean of a sample and the one of the next pixel, stored between them. -/
def averageSample (wide : Bool) (channels k j : Nat) (mem : List SaneByte) :
    Except Fault (List SaneByte) := do
  let i := (k * (2 * channels) + j) * width wide
  let value1 ← loadSample wide mem i
  let value2 ← loadSample wide mem (i + 2 * channels * width wide)
  storeSample wide mem (i + channels * width wide)
    (min ((value1 + value2) / 2) (if wide then 65535 else 255))

/-- The second pass, over the gaps between two pixels. -/
def fillGaps (wide : Bool) (channels count : Nat) :
    List SaneByte → Except Fault (List SaneByte) :=
  turns (fun k => turns (fun j => averageSample wide channels k j) channels) count

def copySamples (wide : Bool) (channels : Nat) (line : CurrentLine) (mem : List SaneByte) :
    Except Fault (List SaneByte) := do
  let mem ← s.copyPixels wide channels line mem
  if s.interpolate then fillGaps wide channels (s.xs - 1) mem else return mem

def clearByte (mem : List SaneByte) (cnt bitCnt : Nat) : Except Fault (List SaneByte) :=
  if bitCnt = 0 then setCell mem cnt 0 else .ok mem

/-- `if (temp <= black_level) line_buffer[cnt] |= 1 << (7 - bit_cnt)` -/
def setBit (temp : SaneByte) (mem : List SaneByte) (cnt bitCnt : Nat) :
    Except Fault (List SaneByte) :=
  if ((temp.toNat : Nat) : Int) ≤ s.blackLevel then do
    setCell mem cnt ((← cellAt mem cnt) ||| (1 : SaneByte) <<< (7 - bitCnt))
  else .ok mem

/-- A turn of the last loop of the black and white branch: the line buffer, `cnt` and `bit_cnt`. -/
def packBit (lineartBuffer : List SaneByte) (i : Nat) (st : List SaneByte × Nat × Nat) :
    Except Fault (List SaneByte × Nat × Nat) := do
  let (mem, cnt, bitCnt) := st
  let mem ← clearByte mem cnt bitCnt
  let mem ← s.setBit (← cellAt lineartBuffer i) mem cnt bitCnt
  return if 7 < bitCnt + 1 then (mem, cnt + 1, 0) else (mem, cnt, bitCnt + 1)

/-- The black and white branch; `cnt2` is one less than the pixels of `lineart_buffer`. -/
def copyLineart (line : CurrentLine) (lineBuffer lineartBuffer : List SaneByte) :
    Except Fault (List SaneByte × List SaneByte) := do
  let lineartBuffer ← s.copyPixels false 1 line lineartBuffer
  let cnt2 := s.xs * s.step - 1
  let lineartBuffer ←
    if s.interpolate then fillGaps false 1 ((cnt2 - 2 + 1) / 2) lineartBuffer
    else pure lineartBuffer
  let st ← turns (s.packBit lineartBuffer) cnt2 (lineBuffer, 0, 0)
  return (st.1, lineartBuffer)

def copyScanLine (line : CurrentLine) (b : s.Buffers) :
    Except Fault (List SaneByte × List SaneByte) := do
  if s.color then
    if 8 < s.depth then return (← s.copySamples true 3 line b.lineBuffer, b.lineartBuffer)
    else return (← s.copySamples false 3 line b.lineBuffer, b.lineartBuffer)
  else if 8 < s.depth then return (← s.copySamples true 1 line b.lineBuffer, b.lineartBuffer)
  else if s.lineart = false then
    return (← s.copySamples false 1 line b.lineBuffer, b.lineartBuffer)
  else s.copyLineart line b.lineBuffer b.lineartBuffer

end Scan

end SaneBackends.ArtecLine
