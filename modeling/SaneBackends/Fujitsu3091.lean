import SaneBackends.FujitsuSides
import SaneBackends.Strided

/-!
# The 3091 and 3092 scanners of the `fujitsu` backend

Each raw line of a colour scan holds a red line, a green line and a blue line of different lines of
the image, and in a duplex scan the lines of both sides follow each other.
-/

namespace SaneBackends.Fujitsu3091

open DuplexSides FujitsuBuffer Strided

/-- These scanners have their own interlacings; the fields for those of the others say nothing. -/
structure Config3091 extends Config where
  colorRasterOffset : Int
  duplexRasterOffset : Int
  greenOffset : Int
  blueOffset : Int
  duplexOffset : Int
  resolutionY : Nat

variable {c : Config3091}

/-- `goff` of `copy_3091` -/
def Config3091.goff (c : Config3091) : Int :=
  ((c.colorRasterOffset + c.greenOffset) * c.resolutionY).tdiv 150

/-- `boff` of `copy_3091` -/
def Config3091.boff (c : Config3091) : Int :=
  ((c.colorRasterOffset + c.blueOffset) * c.resolutionY).tdiv 300

/-- `off` of `read_from_3091duplex` -/
def Config3091.off (c : Config3091) : Int :=
  ((c.duplexRasterOffset + c.duplexOffset) * c.resolutionY).tdiv 300

/-- `buff_tot` of a side: in colour the front has a large buffer too. -/
def Config3091.buffTot (c : Config3091) : Side → Nat
  | .front =>
    if c.source = .adfBack then 0
    else if c.mode = .color ∨ c.mustFullyBuffer then c.bytesTot .front
    else c.bufferSize
  | .back =>
    if c.source = .adfDuplex ∨ c.source = .adfBack then
      if c.lowMem = true ∨ c.source = .adfBack then c.bufferSize
      else c.bytesTot .back
    else 0

def Config3091.side (c : Config3091) (side : Side) : SideState :=
  ({} : SideState).reset (c.bytesTot side) (c.buffTot side) true

/-! ### Colour -/

/-- One of the three channels of a line is stored, if the line belongs to the image. -/
def storeChannel (pixels bytesTot : Nat) (dest : Int) (channel : Nat) (x : Nat → SaneByte)
    (cells : List SaneByte) : Option (List SaneByte) :=
  if 0 ≤ dest ∧ dest < bytesTot then
    storeStrided cells (dest.toNat + channel) 3 pixels x
  else some cells

def storeLine (c : Config3091) (p : Params c.mode) (buf : Nat → SaneByte) (i : Nat)
    (d : SideState) : Option SideState := do
  let line : Int := p.bytesPerLine
  let w := p.pixelsPerLine
  let cells ← storeChannel w d.bytesTot (d.linesRx * line) 0 (fun j => buf (i + j)) d.buffer.cells
  let cells ← storeChannel w d.bytesTot ((d.linesRx - c.goff) * line) 1
    (fun j => buf (i + w + j)) cells
  let cells ← storeChannel w d.bytesTot ((d.linesRx - c.boff) * line) 2
    (fun j => buf (i + 2 * w + j)) cells
  return { d with buffer := { d.buffer with cells }, linesRx := d.linesRx + 1 }

/-- The lines that are loaded, by the green ones. -/
def available (c : Config3091) (p : Params c.mode) (d : SideState) : SideState :=
  let rx := ((d.linesRx - c.goff) * p.bytesPerLine).toNat
  { d with
    bytesRx := rx
    buffer := { d.buffer with rx }
    eofRx := d.eofRx || decide (rx = d.bytesTot) }

def copy3091 (c : Config3091) (p : Params c.mode) (buf : Nat → SaneByte) (len : Nat)
    (d : SideState) : Option SideState := do
  let line := p.bytesPerLine
  let d ← (List.range' 0 ((len + line - 1) / line) line).foldlM
    (fun d i => storeLine c p buf i d) d
  return available c p d

def copyLines (c : Config3091) (p : Params c.mode) (buf : Nat → SaneByte) (len : Nat)
    (d : SideState) : Option SideState :=
  if c.mode = .color then copy3091 c p buf len d else copyBuffer c.toConfig p buf len d

/-- A side that is read by `read_from_scanner`. -/
structure Reading where
  d : SideState
  eomRx : Bool

/-- `read_from_scanner`; the flags are those of the side. -/
def readFromScanner (c : Config3091) (p : Params c.mode) (r : Reading) (a : Answer) :
    Except Stop (SaneStatus × Reading) := do
  let bytes := request c.toConfig p.bytesPerLine r.d
  let inLen := a.inLen bytes
  if r.d.eofRx = true then return (.good, r)
  else if bytes < 1 then return (.good, r)
  else if checkRic c.toConfig r.d a.ric ≠ .good then return (checkRic c.toConfig r.d a.ric, r)
  else
    let d ← if inLen ≠ 0 then inside (copyLines c p a.buf inLen r.d) else .ok r.d
    let eomRx := r.eomRx || a.eom
    return (a.ret, ⟨{ d with iliRx := a.ili, eofRx := d.eofRx || (eomRx && a.ili) }, eomRx⟩)

/-! ### Duplex -/

def nextSide (off : Int) (sides : Sides SideState) : Side :=
  if sides.front.linesRx < off then .front
  else if sides.front.eofRx then .back
  else if (sides.front.linesRx + sides.back.linesRx - off).tmod 2 ≠ 0 then .back
  else .front

def copyLine (c : Config3091) (p : Params c.mode) (buf : Nat → SaneByte)
    (sides : Sides SideState) : Except Stop (Sides SideState) := do
  let side := nextSide c.off sides
  let d ← inside (copyLines c p buf p.bytesPerLine (sides.get side))
  return sides.set side d

def requestDuplex (c : Config3091) (p : Params c.mode) (sides : Sides SideState) : Nat :=
  let front := sides.front.buffTot - sides.front.buffer.rx
  let back := sides.back.buffTot - sides.back.buffer.rx
  let bytes := c.bufferSize
  let bytes := if sides.front.eofRx = false ∧ bytes > front then front else bytes
  let bytes := if sides.back.eofRx = false ∧ bytes > back then back else bytes
  bytes - bytes % p.bytesPerLine

def readFrom3091duplex (c : Config3091) (p : Params c.mode) (sides : Sides SideState)
    (a : Answer) : Except Stop (SaneStatus × Sides SideState) := do
  let bytes := requestDuplex c p sides
  if sides.front.eofRx = true ∧ sides.back.eofRx = true then return (.good, sides)
  else if bytes < 1 then return (.good, sides)
  else
    let sides ← (List.range (a.inLen bytes / p.bytesPerLine)).foldlM
      (fun sides i => copyLine c p (fun j => a.buf (i * p.bytesPerLine + j)) sides) sides
    if a.status = .eof then
      return (.good, ⟨{ sides.front with eofRx := true }, { sides.back with eofRx := true }⟩)
    else return (a.ret, sides)

end SaneBackends.Fujitsu3091
