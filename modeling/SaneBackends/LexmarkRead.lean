import SaneBackends.BytePairs
import SaneBackends.LabelledRun
import SaneBackends.LineAssembly
import SaneBackends.SaneTypes

/-!
# Reading a scan from a Lexmark scanner

`sane_read` of the `lexmark` backend, with the transfer buffer and the read buffer below it.
A transfer holds the bytes of the scan with every pair exchanged; the read buffer is a ring
of lines into which they are put one by one, as pixels of an interleaved line or as bits.
-/

namespace SaneBackends.Lexmark

open BytePairs LabelledRun LineAssembly RingMemory

def MAX_XFER_SIZE : Nat := 0xffc0

inductive Mode | color | gray | lineart
  deriving DecidableEq

inductive Region | red | green | blue
  deriving DecidableEq

/-- `Read_Buffer`; pointers into `data` are offsets. -/
structure ReadBuffer where
  data : Nat → SaneByte
  size : Nat
  linesize : Nat
  readptr : Nat
  writeptr : Nat
  maxWriteptr : Nat
  empty : Bool
  imageLineNo : Nat
  region : Region
  redOffset : Nat
  greenOffset : Nat
  blueOffset : Nat
  maxRedOffset : Nat
  maxGreenOffset : Nat
  maxBlueOffset : Nat
  grayOffset : Nat
  maxGrayOffset : Nat
  bitCounter : Nat
  maxLineartOffset : Nat

/-- `read_buffer_init`; `fresh` is what the allocated memory holds. -/
def readBufferInit (bytesPerLine pixelsPerLine : Nat) (fresh : Nat → SaneByte) : ReadBuffer where
  data := fresh
  size := bytesPerLine * (3 * MAX_XFER_SIZE / bytesPerLine)
  linesize := bytesPerLine
  readptr := 0
  writeptr := 0
  maxWriteptr := (3 * MAX_XFER_SIZE / bytesPerLine - 1) * bytesPerLine
  empty := true
  imageLineNo := 0
  region := .red
  redOffset := 0
  greenOffset := 1
  blueOffset := 2
  maxRedOffset := bytesPerLine - 3
  maxGreenOffset := bytesPerLine - 2
  maxBlueOffset := bytesPerLine - 1
  grayOffset := 0
  maxGrayOffset := bytesPerLine - 1
  bitCounter := 0
  maxLineartOffset := pixelsPerLine - 1

/-- `read_buffer_bytes_available`: pointers that are less than a line apart stand for a full
    buffer. -/
def bytesAvailable (rb : ReadBuffer) : Nat :=
  if rb.empty then rb.size
  else if ((rb.writeptr : Int) - rb.readptr).natAbs < rb.linesize then 0
  else if rb.writeptr < rb.readptr then rb.readptr - rb.writeptr - rb.linesize
  else rb.size + rb.readptr - rb.writeptr - rb.linesize

/-! ### Filling the read buffer -/

def ReadBuffer.write (rb : ReadBuffer) (offset : Nat) (x : SaneByte) : ReadBuffer :=
  { rb with data := Function.update rb.data (rb.writeptr + offset) x }

/-- A line is finished; the next one is written behind it or at the beginning. -/
def ReadBuffer.finishLine (rb : ReadBuffer) : ReadBuffer :=
  { rb with
    imageLineNo := rb.imageLineNo + 1
    empty := false
    writeptr := if rb.writeptr = rb.maxWriteptr then 0 else rb.writeptr + rb.linesize }

def addByte (rb : ReadBuffer) (x : SaneByte) : ReadBuffer :=
  match rb.region with
  | .red =>
    let rb := rb.write rb.redOffset x
    if rb.redOffset = rb.maxRedOffset then { rb with redOffset := 0, region := .green }
    else { rb with redOffset := rb.redOffset + 3 }
  | .green =>
    let rb := rb.write rb.greenOffset x
    if rb.greenOffset = rb.maxGreenOffset then { rb with greenOffset := 1, region := .blue }
    else { rb with greenOffset := rb.greenOffset + 3 }
  | .blue =>
    let rb := rb.write rb.blueOffset x
    if rb.blueOffset = rb.maxBlueOffset then
      { rb with blueOffset := 2, region := .red }.finishLine
    else { rb with blueOffset := rb.blueOffset + 3 }

def addByteGray (rb : ReadBuffer) (x : SaneByte) : ReadBuffer :=
  let rb := rb.write rb.grayOffset x
  if rb.grayOffset = rb.maxGrayOffset then { rb with grayOffset := 0 }.finishLine
  else { rb with grayOffset := rb.grayOffset + 1 }

def pixelBit (threshold x : SaneByte) : SaneByte := if x ≤ threshold then 128 else 0

def addBitLineart (threshold : SaneByte) (rb : ReadBuffer) (x : SaneByte) : ReadBuffer :=
  let bitIndex := rb.bitCounter % 8
  let current := if bitIndex = 0 then 0 else rb.data (rb.writeptr + rb.grayOffset)
  let rb := rb.write rb.grayOffset (current ||| pixelBit threshold x >>> bitIndex)
  if rb.bitCounter = rb.maxLineartOffset then
    if rb.grayOffset ≠ rb.maxGrayOffset then rb
    else { rb with grayOffset := 0, bitCounter := 0 }.finishLine
  else if bitIndex = 7 then
    { rb with grayOffset := rb.grayOffset + 1, bitCounter := rb.bitCounter + 1 }
  else { rb with bitCounter := rb.bitCounter + 1 }

def add (mode : Mode) (threshold : SaneByte) : ReadBuffer → SaneByte → ReadBuffer :=
  match mode with
  | .color => addByte
  | .gray => addByteGray
  | .lineart => addBitLineart threshold

/-- The byte that is taken for index `i`: of a pair the second comes first.  Behind the data
    stands whatever the allocated memory holds. -/
def exchanged (transfer : List SaneByte) (garbage : SaneByte) (i : Nat) : SaneByte :=
  transfer.getD (if i % 2 = 0 then i + 1 else i - 1) garbage

def copyTransfer (mode : Mode) (threshold : SaneByte) (transfer : List SaneByte)
    (garbage : SaneByte) (rb : ReadBuffer) : ReadBuffer :=
  ((List.range transfer.length).map (exchanged transfer garbage)).foldl (add mode threshold) rb

/-! ### Emptying the read buffer -/

def ReadBuffer.front (rb : ReadBuffer) (n : Nat) : List SaneByte :=
  (List.range n).map fun j => rb.data (rb.readptr + j)

/-- `read_buffer_get_bytes`, which calls itself once when the data go around the end of the
    buffer; `depth` bounds these calls. -/
def getBytes : Nat → ReadBuffer → Nat → List SaneByte × ReadBuffer
  | 0, rb, _ => ([], rb)
  | depth + 1, rb, size =>
    if rb.empty then ([], rb)
    else if rb.writeptr > rb.readptr then
      let available := rb.writeptr - rb.readptr
      if available ≤ size then
        (rb.front available, { rb with readptr := rb.writeptr, empty := true })
      else (rb.front size, { rb with readptr := rb.readptr + size })
    else
      let available := rb.size - rb.readptr
      if available ≤ size then
        let (bytes, rb') := getBytes depth
          { rb with readptr := 0, empty := decide (rb.writeptr = 0) } (size - available)
        (rb.front available ++ bytes, rb')
      else (rb.front size, { rb with readptr := rb.readptr + size })

/-! ### `sane_read` -/

/-- The fields of `Lexmark_Device` that reading uses.  A transfer buffer holds the bytes that
    are in it; they are copied all at once. -/
structure Device where
  mode : Mode
  threshold : SaneByte
  shade : Nat → SaneByte → SaneByte
  readBuffer : ReadBuffer
  transferBuffer : Option (List SaneByte)
  bytesRemaining : Nat
  bytesRead : Nat
  eof : Bool

/-- What happens during a `sane_read`: the most bytes it may return, how the wait for data and
    the allocation of a transfer buffer end, the bytes that the bulk read gives, and what stands
    in memory behind them. -/
structure ReadCall where
  maxLength : Nat
  poll : SaneStatus
  allocated : Bool
  transfer : List SaneByte
  garbage : SaneByte

/-- The shading of the bytes from place `k` of a line on. -/
def shaded (shade : Nat → SaneByte → SaneByte) (linesize k : Nat) (xs : List SaneByte) :
    List SaneByte :=
  xs.mapIdx fun i x => shade ((k + i) % linesize) x

/-- The transfer buffer holds the bytes of a bulk read, with the shading coefficients applied. -/
def Device.fill (transfer : List SaneByte) (dev : Device) : Device :=
  { dev with
    transferBuffer := some (shaded dev.shade dev.readBuffer.linesize dev.bytesRead transfer)
    bytesRead := dev.bytesRead + transfer.length
    bytesRemaining := dev.bytesRemaining - transfer.length }

/-- A transfer buffer is filled, unless there is one or nothing remains.  A failure is a
    status. -/
def fetch (call : ReadCall) (dev : Device) : Except SaneStatus Device :=
  match dev.transferBuffer with
  | some _ => .ok dev
  | none =>
    if dev.bytesRemaining = 0 then .ok dev
    else if call.poll ≠ .good then .error call.poll
    else if call.allocated = false then .error .noMem
    else .ok (dev.fill call.transfer)

def Device.bytesInBuffer (dev : Device) : Nat :=
  match dev.transferBuffer with
  | none => 0
  | some transfer => transfer.length

/-- The transfer buffer is copied over when there is room for all of it. -/
def copyOver (garbage : SaneByte) (dev : Device) : Device :=
  if bytesAvailable dev.readBuffer ≥ dev.bytesInBuffer then
    match dev.transferBuffer with
    | none => dev
    | some transfer =>
      { dev with
        readBuffer := copyTransfer dev.mode dev.threshold transfer garbage dev.readBuffer
        transferBuffer := none }
  else dev

/-- `sanei_lexmark_low_read_scan_data`: the number it returns, the bytes it stores, and the
    device.  The number is a status when the wait for data or the allocation fails. -/
def readScanData (call : ReadCall) (dev : Device) : Nat × List SaneByte × Device :=
  match fetch call dev with
  | .error status => (status.code, [], dev)
  | .ok dev =>
    let dev := copyOver call.garbage dev
    let (bytes, rb) := getBytes 2 dev.readBuffer call.maxLength
    let dev := { dev with readBuffer := rb }
    (bytes.length, bytes,
      { dev with eof := dev.eof || decide (dev.bytesRemaining = 0 ∧ dev.readBuffer.empty = true) })

/-- What `sane_read` returns: the status, `*length`, and the bytes stored. -/
structure ReadResult where
  status : SaneStatus
  length : Nat
  bytes : List SaneByte
  deriving DecidableEq

def saneRead (call : ReadCall) (dev : Device) : ReadResult × Device :=
  if dev.eof then (⟨.eof, 0, []⟩, dev)
  else
    let (bytesRead, bytes, dev) := readScanData call dev
    if bytesRead = 0 then (⟨.eof, 0, bytes⟩, dev) else (⟨.good, bytesRead, bytes⟩, dev)

end SaneBackends.Lexmark
