import SaneBackends.DrainBuffer
import SaneBackends.DuplexSides
import SaneBackends.LineStages
import SaneBackends.SaneTypes

/-!
# The side buffers of the `fujitsu` backend

`sane_start`, `sane_read` and what they call to move image data from the scanner into the
buffer of a side and from there to the frontend.  The counters are never negative, so they
are natural numbers.  JPEG data and the 3091 interlacings have functions of their own and are
not here.
-/

namespace SaneBackends.FujitsuBuffer

open DrainBuffer DuplexSides LineStages

inductive Mode
  | lineart | halftone | grayscale | colorLineart | colorHalftone | color
  deriving DecidableEq

inductive ColorInterlace | unk | rgb | bgr | rrggbb
  deriving DecidableEq

inductive DuplexInterlace | alt | none
  deriving DecidableEq

def bytesPerLine (mode : Mode) (pixelsPerLine : Nat) : Nat :=
  match mode with
  | .color => pixelsPerLine * 3
  | .grayscale => pixelsPerLine
  | _ => pixelsPerLine / 8

/-- The size of an image; a line is not empty. -/
structure Params (mode : Mode) where
  pixelsPerLine : Nat
  lines : Nat
  positive : 0 < bytesPerLine mode pixelsPerLine

def Params.bytesPerLine {mode : Mode} (p : Params mode) : Nat :=
  FujitsuBuffer.bytesPerLine mode p.pixelsPerLine

/-- What stays the same during a batch: `reverse` is `reverse_by_mode[mode]`, `usb` and
    `scannerCtl` say whether `scanner_control_ric` is called and sends its command, and
    `params` is what `backup_params` has stored. -/
structure Config where
  source : Source
  mode : Mode
  colorInterlace : ColorInterlace
  duplexInterlace : DuplexInterlace
  reverse : Bool
  lowMem : Bool
  usb : Bool
  scannerCtl : Bool
  mustFullyBuffer : Bool
  bufferSize : Nat
  params : Params mode

/-- What the arrays of `struct fujitsu` hold for a side; the positions `buff_rx` and `buff_tx`
    are those of the buffer. -/
structure SideState where
  bytesTot : Nat := 0
  bytesRx : Nat := 0
  bytesTx : Nat := 0
  linesRx : Nat := 0
  buffTot : Nat := 0
  eofRx : Bool := false
  iliRx : Bool := false
  eofTx : Bool := false
  buffer : Buffer SaneByte := ⟨[], 0, 0⟩
  deriving DecidableEq

structure Scanner (c : Config) where
  started : Bool
  side : Side
  eomRx : Bool
  params : Params c.mode
  sides : Sides SideState

/-- `s` with another state of a side -/
def Scanner.setSide {c : Config} (s : Scanner c) (side : Side) (d : SideState) : Scanner c :=
  { s with sides := s.sides.set side d }

/-- The state of a device that has been opened. -/
def Scanner.opened (c : Config) : Scanner c :=
  { started := false, side := .front, eomRx := false, params := c.params, sides := ⟨{}, {}⟩ }

/-- A call stops when it reaches outside of a block, or waits for ever for the scanner. -/
inductive Stop | outside | waiting
  deriving DecidableEq

def inside {α : Type} : Option α → Except Stop α
  | some a => .ok a
  | Option.none => .error .outside

/-- What the scanner answers to a READ command and to the command in front of the first one
    of a page: `len` bytes of `buf` at most, and the two flags of the sense data. -/
structure Answer where
  ric : SaneStatus
  status : SaneStatus
  buf : Nat → SaneByte
  len : Nat
  ili : Bool
  eom : Bool

/-- A READ command of a side that has been answered, with the line length in force. -/
structure Transfer where
  side : Side
  bytesPerLine : Nat
  data : List SaneByte
  ili : Bool
  eom : Bool

variable {c : Config}

/-! ### Reading from the scanner -/

/-- The bytes that `read_from_scanner` asks for. -/
def request (c : Config) (lineBytes : Nat) (d : SideState) : Nat :=
  let avail := d.buffTot - d.buffer.rx
  let remain := d.bytesTot - d.bytesRx
  let bytes := if c.bufferSize > avail then avail else c.bufferSize
  let bytes := bytes - bytes % lineBytes
  if bytes % 2 ≠ 0 ∧ bytes < remain then bytes - lineBytes else bytes

/-- Some errors pass through, the others are ignored. -/
def scannerControlRic (c : Config) (ret : SaneStatus) : SaneStatus :=
  if c.scannerCtl then
    match ret with
    | .cancelled => .cancelled
    | .jammed => .jammed
    | .noDocs => .noDocs
    | .coverOpen => .coverOpen
    | _ => .good
  else .good

/-- `buf[i] ^= 0xff` for the first `len` bytes -/
def invert (c : Config) (len : Nat) (buf : Nat → SaneByte) (i : Nat) : SaneByte :=
  if c.reverse ∧ i < len then buf i ^^^ 0xff else buf i

/-- The loop over the lines, from their first bytes, and over the pixels of a line. -/
def storeLines (bwidth pwidth len : Nat) (pixel : Nat → Nat → List SaneByte)
    (b : Buffer SaneByte) : Option (Buffer SaneByte) :=
  (List.range' 0 ((len + bwidth - 1) / bwidth) bwidth).foldlM (fun b i =>
    (List.range pwidth).foldlM (fun b j => (pixel i j).foldlM Buffer.push b) b) b

/-- The part of `copy_buffer` that stores the bytes. -/
def storeBytes (c : Config) (p : Params c.mode) (buf : Nat → SaneByte) (len : Nat)
    (b : Buffer SaneByte) : Option (Buffer SaneByte) :=
  let pwidth := p.pixelsPerLine
  if c.mode = .color then
    match c.colorInterlace with
    | .bgr => storeLines p.bytesPerLine pwidth len
        (fun i j => [buf (i + j * 3 + 2), buf (i + j * 3 + 1), buf (i + j * 3)]) b
    | .rrggbb => storeLines p.bytesPerLine pwidth len
        (fun i j => [buf (i + j), buf (i + pwidth + j), buf (i + 2 * pwidth + j)]) b
    | _ => b.put ((List.range len).map buf)
  else b.put ((List.range len).map buf)

def copyBuffer (c : Config) (p : Params c.mode) (buf : Nat → SaneByte) (len : Nat)
    (d : SideState) : Option SideState := do
  let buffer ← storeBytes c p (invert c len buf) len d.buffer
  let bytesRx := d.bytesRx + len
  return { d with
    buffer, bytesRx
    linesRx := d.linesRx + len / p.bytesPerLine
    eofRx := d.eofRx || decide (bytesRx = d.bytesTot) }

/-- A short read and the end of the medium are noted; with both a side has ended. -/
def Scanner.note (s : Scanner c) (side : Side) (ili eom : Bool) : Scanner c :=
  let sides := s.sides.set side { s.sides.get side with iliRx := ili }
  let eomRx := s.eomRx || eom
  let finish := fun d : SideState => { d with eofRx := d.eofRx || (eomRx && d.iliRx) }
  { s with eomRx, sides := ⟨finish sides.front, finish sides.back⟩ }

/-- `if(inLen) copy_buffer(…)` -/
def copyReceived (c : Config) (p : Params c.mode) (buf : Nat → SaneByte) (inLen : Nat)
    (d : SideState) : Except Stop SideState :=
  if inLen ≠ 0 then inside (copyBuffer c p buf inLen d) else .ok d

/-- The check in front of the first block of a page. -/
def checkRic (c : Config) (d : SideState) (ret : SaneStatus) : SaneStatus :=
  if d.bytesRx = 0 ∧ c.usb = true then scannerControlRic c ret else .good

/-- The bytes that a READ command leaves in `in`. -/
def Answer.inLen (a : Answer) (bytes : Nat) : Nat :=
  if a.status = .good ∨ a.status = .eof then min a.len bytes else 0

/-- The status that `read_from_scanner` returns for a READ command. -/
def Answer.ret (a : Answer) : SaneStatus :=
  if a.status = .good ∨ a.status = .eof ∨ a.status = .deviceBusy then .good else a.status

def readFromScanner (s : Scanner c) (side : Side) (a : Answer) :
    Except Stop (SaneStatus × List Transfer × Scanner c) := do
  let d := s.sides.get side
  let bytes := request c s.params.bytesPerLine d
  let inLen := a.inLen bytes
  if d.eofRx = true then return (.good, [], s)
  else if bytes < 1 then return (.good, [], s)
  else if checkRic c d a.ric ≠ .good then return (checkRic c d a.ric, [], s)
  else
    let d ← copyReceived c s.params a.buf inLen d
    let transfer := ⟨side, s.params.bytesPerLine, (List.range inLen).map a.buf, a.ili, a.eom⟩
    return (a.ret, [transfer], (s.setSide side d).note side a.ili a.eom)

/-! ### Sending to the frontend -/

def readFromBuffer (d : SideState) (maxLen : Nat) :
    Except Stop (List SaneByte × SideState) := do
  let remain := d.buffer.rx - d.buffer.tx
  let bytes := if maxLen > remain then remain else maxLen
  if bytes = 0 then return ([], d)
  else
    let (data, buffer) ← inside (d.buffer.fetch bytes)
    let buffer :=
      if buffer.tx = buffer.rx ∧ d.buffTot < d.bytesTot then buffer.rewind else buffer
    return (data, { d with buffer, bytesTx := d.bytesTx + bytes })

/-- In low memory mode the side changes when there is something on the other one. -/
def Scanner.swap (s : Scanner c) : Scanner c :=
  let d := s.sides.get s.side.other
  if c.lowMem ∧ c.source = .adfDuplex ∧
      (d.bytesRx > d.bytesTx ∨ (d.eofRx = true ∧ d.eofTx = false)) then
    { s with side := s.side.other }
  else s

/-- What the scanner answers during a `sane_read`. -/
structure ReadInput where
  front : Answer
  back : Answer

def ReadInput.get (inp : ReadInput) : Side → Answer
  | .front => inp.front
  | .back => inp.back

/-- What a call does: its status, the side it is for, the bytes it gives to the frontend, the
    READ commands that have been answered, and whether it has begun a new sheet before. -/
structure Outcome where
  status : SaneStatus
  side : Side
  data : List SaneByte := []
  newSheet : Bool := false
  transfers : List Transfer := []

/-- The calls of `read_from_scanner` in `sane_read`. -/
def readBlocks (s : Scanner c) (inp : ReadInput) :
    Except Stop (SaneStatus × List Transfer × Scanner c) := do
  if c.source = .adfDuplex ∧ c.duplexInterlace = .alt then
    let (ret, front, s) ← readFromScanner s .front inp.front
    if ret ≠ .good then return (ret, front, s)
    else if s.sides.back.bytesRx < s.sides.front.bytesRx + c.bufferSize then
      let (ret, back, s) ← readFromScanner s .back inp.back
      return (ret, front ++ back, s)
    else return (.good, front, s)
  else readFromScanner s s.side (inp.get s.side)

def saneRead (s : Scanner c) (inp : ReadInput) (maxLen : Nat) :
    Except Stop (Outcome × Scanner c) := do
  let d := s.sides.get s.side
  if s.started = false then return ({ status := .cancelled, side := s.side }, s)
  else if d.eofRx = true ∧ d.bytesTx = d.bytesRx then
    return ({ status := .eof, side := s.side }, (s.setSide s.side { d with eofTx := true }).swap)
  else
    let (ret, transfers, s') ← readBlocks s inp
    if ret ≠ .good then return ({ status := ret, side := s.side, transfers }, s')
    else
      let (data, d) ← readFromBuffer (s'.sides.get s.side) maxLen
      return ({ status := .good, side := s.side, data, transfers }, (s'.setSide s.side d).swap)

/-! ### Starting an image -/

/-- `bytes_tot` of a side. -/
def Config.bytesTot (c : Config) : Side → Nat
  | .front => if c.source = .adfBack then 0 else c.params.bytesPerLine * c.params.lines
  | .back =>
    if c.source = .adfDuplex ∨ c.source = .adfBack then
      c.params.bytesPerLine * c.params.lines
    else 0

/-- `buff_tot` of a side. -/
def Config.buffTot (c : Config) : Side → Nat
  | .front =>
    if c.source = .adfBack then 0
    else if c.mustFullyBuffer then c.bytesTot .front
    else c.bufferSize
  | .back =>
    if c.source = .adfDuplex ∨ c.source = .adfBack then
      if c.lowMem = true ∨ c.source = .adfBack ∨ c.duplexInterlace = .none then c.bufferSize
      else c.bytesTot .back
    else 0

/-- The counters of a side at the start of a sheet.  The block is the one of the batch;
    `setup_buffers` makes a block of zeroes. -/
def SideState.reset (d : SideState) (bytesTot buffTot : Nat) (setup : Bool) : SideState :=
  let cells := if setup then List.replicate buffTot 0 else d.buffer.cells
  { bytesTot, buffTot, buffer := ⟨cells, 0, 0⟩ }

/-- A new sheet of paper, the first one of a batch too. -/
def Scanner.newSheet (s : Scanner c) : Scanner c :=
  { s with
    eomRx := false
    started := true
    sides :=
      ⟨s.sides.front.reset (c.bytesTot .front) (c.buffTot .front) (!s.started),
        s.sides.back.reset (c.bytesTot .back) (c.buffTot .back) (!s.started)⟩ }

/-- What the scanner answers during a `sane_start`: to the commands at the start of a batch,
    to `object_position` and `start_scan`, to the reads of an image that is buffered, and the
    size of this image. -/
structure StartInput (c : Config) where
  prepare : SaneStatus
  objectPosition : SaneStatus
  startScan : SaneStatus
  reads : List ReadInput
  pixelsize : SaneStatus
  actual : Params c.mode

/-- The loop that buffers an image. -/
def bufferImage : List ReadInput → Scanner c → List Transfer →
    Except Stop (SaneStatus × List Transfer × Scanner c)
  | [], s, done =>
    if (s.sides.get s.side).eofRx then return (.good, done, s) else .error .waiting
  | inp :: inputs, s, done => do
    if (s.sides.get s.side).eofRx then return (.good, done, s)
    else
      let (out, s') ← saneRead s inp 0
      if out.status ≠ .good then return (out.status, done ++ out.transfers, s')
      else bufferImage inputs s' (done ++ out.transfers)

/-- Which side the image is of. -/
def nextSide (s : Scanner c) : Side :=
  let side :=
    if c.source = .adfDuplex ∧ c.lowMem ∧ s.sides.front.eofTx ∧ s.sides.back.eofTx then .back
    else s.side
  if s.started = false then (if c.source = .adfBack then .back else .front)
  else if c.source = .adfDuplex then side.other
  else side

/-- The end of `sane_start`, from the test of `must_fully_buffer` on. -/
def finishStart (s : Scanner c) (inp : StartInput c) (newSheet : Bool) :
    Except Stop (Outcome × Scanner c) := do
  if c.mustFullyBuffer then
    let (ret, transfers, s') ← bufferImage inp.reads s []
    let out : Outcome := { status := ret, side := s'.side, newSheet, transfers }
    if ret ≠ .good then return (out, { s' with started := false })
    else if inp.pixelsize ≠ .good then return ({ out with status := inp.pixelsize }, s')
    else return (out, { s' with params := inp.actual })
  else return ({ status := .good, side := s.side, newSheet }, s)

def saneStart (s : Scanner c) (inp : StartInput c) : Except Stop (Outcome × Scanner c) := do
  let started := { s with side := nextSide s, params := c.params }
  let sheet := started.newSheet
  if s.started = true ∧ (s.sides.get s.side).eofTx = false then
    return ({ status := .inval, side := s.side }, s)
  else if s.started = false ∧ inp.prepare ≠ .good then
    return ({ status := inp.prepare, side := s.side }, { s with side := nextSide s })
  else if started.side = .front ∨ c.source = .adfBack then
    let out : Outcome := { status := .good, side := sheet.side, newSheet := true }
    if inp.objectPosition ≠ .good then
      return ({ out with status := inp.objectPosition }, { sheet with started := false })
    else if inp.startScan ≠ .good then
      return ({ out with status := inp.startScan }, { sheet with started := false })
    else finishStart sheet inp true
  else finishStart started inp false

end SaneBackends.FujitsuBuffer
