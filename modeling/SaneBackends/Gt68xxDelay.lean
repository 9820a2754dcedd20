import SaneBackends.Cells
import SaneBackends.CountLoops
import Mathlib.Logic.Function.Basic

/-!
# The line readers of the GT68xx backend

`backend/gt68xx_mid.c`.  The sensor lines of the colours, and in a double CCD those of the
even and odd columns, see a line of the paper at different times.  Each colour has a circle
of lines in which it is delayed until the last one has seen it.  Only colour scans are
modelled; allocations succeed.
-/

namespace SaneBackends.Gt68xx

open CountLoops

inductive Channel where
  | r | g | b
deriving DecidableEq, Repr

/-- `GT68xx_Color_Order`. -/
inductive ColorOrder where
  | rgb | bgr
deriving DecidableEq, Repr

/-! ### Parameters -/

/-- The members of `GT68xx_Scan_Parameters` that are not computed from others, and
    `line_mode_color_order` of the model. -/
structure ScanParameters where
  depth : Nat
  pixelXs : Nat
  lineMode : Bool
  ldShift : Channel → Nat
  ldShiftDouble : Nat
  doubleColumn : Nat
  order : ColorOrder

/-- `while ((depth * pixel_align) % (64 * 8) != 0) pixel_align *= 2;` -/
def alignLoop (depth : Nat) : Nat → Nat → Nat
  | 0, pixelAlign => pixelAlign
  | fuel + 1, pixelAlign =>
    if depth * pixelAlign % (64 * 8) ≠ 0 then alignLoop depth fuel (pixelAlign * 2)
    else pixelAlign

namespace ScanParameters

/-- The number of pixels that fill a multiple of 64 bytes, doubled four times at most. -/
def pixelAlign (p : ScanParameters) : Nat := alignLoop p.depth 4 32

/-- `scan_xs`, as `gt68xx_generic_setup_scan` computes it. -/
def scanXs (p : ScanParameters) : Nat :=
  if p.pixelXs % p.pixelAlign = 0 then p.pixelXs
  else (p.pixelXs / p.pixelAlign + 1) * p.pixelAlign

/-- `scan_bpl`, as `gt68xx_generic_setup_scan` computes it for colour scans. -/
def scanBpl (p : ScanParameters) : Nat :=
  (if p.lineMode then p.depth * p.scanXs else p.depth * p.scanXs * 3) / 8

/-- The bytes that a reader asks for. -/
def rawSize (p : ScanParameters) : Nat := if p.lineMode then p.scanBpl * 3 else p.scanBpl

end ScanParameters

/-! ### Delay buffers -/

/-- `GT68xx_Delay_Buffer`; a sample is an `unsigned int`. -/
structure DelayBuffer where
  lineCount : Nat
  readIndex : Nat
  writeIndex : Nat
  lines : List (List Nat)

/-- The sample made of the four bytes from `a` on of a block that has been filled with
    `i % 256`. -/
def freshSample (a : Nat) : Nat :=
  a % 256 + (a + 1) % 256 * 2 ^ 8 + (a + 2) % 256 * 2 ^ 16 + (a + 3) % 256 * 2 ^ 24

def freshLines (pixelsPerLine lineCount : Nat) : List (List Nat) :=
  (List.range lineCount).map fun i =>
    (List.range pixelsPerLine).map fun x => freshSample (4 * (i * pixelsPerLine + x))

/-- `gt68xx_delay_buffer_init`. -/
def delayBufferInit (pixelsPerLine delayCount : Int) :
    Except Fault (Except SaneStatus DelayBuffer) :=
  if pixelsPerLine ≤ 0 then .ok (.error .inval)
  else if delayCount < 0 then .ok (.error .inval)
  else do
    let bytesPerLine ← intValue (pixelsPerLine * 4)
    let lineCount ← intValue (delayCount + 1)
    let _ ← intValue (bytesPerLine * lineCount)
    .ok (.ok ⟨lineCount.toNat, 0, delayCount.toNat, freshLines pixelsPerLine.toNat lineCount.toNat⟩)

namespace DelayBuffer

/-- The line at `DELAY_BUFFER_WRITE_PTR`. -/
def writeLine (d : DelayBuffer) : Except Fault (List Nat) := cellAt d.lines d.writeIndex

/-- The line at `DELAY_BUFFER_READ_PTR`. -/
def readLine (d : DelayBuffer) : Except Fault (List Nat) := cellAt d.lines d.readIndex

/-- The line at `DELAY_BUFFER_SELECT_PTR`. -/
def selectLine (d : DelayBuffer) (dist : Nat) : Except Fault (List Nat) :=
  cellAt d.lines ((d.readIndex + dist) % d.lineCount)

/-- The buffer after the line at an index has been changed. -/
def setLine (d : DelayBuffer) (i : Nat) (line : List Nat) : DelayBuffer :=
  { d with lines := d.lines.set i line }

/-- `DELAY_BUFFER_STEP`. -/
def step (d : DelayBuffer) : DelayBuffer :=
  { d with
    readIndex := (d.readIndex + 1) % d.lineCount
    writeIndex := (d.writeIndex + 1) % d.lineCount }

end DelayBuffer

/-! ### Unpacking -/

/-- `(src[0] << 8) | src[0]` -/
def twice (b : SaneByte) : Nat := b.toNat <<< 8 ||| b.toNat

/-- `((src[1] & 0x0f) << 12) | (src[0] << 4) | (src[1] & 0x0f)` -/
def low12 (b0 b1 : SaneByte) : Nat :=
  (b1.toNat &&& 0x0f) <<< 12 ||| b0.toNat <<< 4 ||| (b1.toNat &&& 0x0f)

/-- `(src[2] << 8) | (src[1] & 0xf0) | (src[2] >> 4)` -/
def high12 (b1 b2 : SaneByte) : Nat := b2.toNat <<< 8 ||| (b1.toNat &&& 0xf0) ||| b2.toNat >>> 4

/-- `(src[1] << 8) | src[0]` -/
def le16 (b0 b1 : SaneByte) : Nat := b1.toNat <<< 8 ||| b0.toNat

/-- The type of the functions that unpack one channel: the block and the index of `src` in it, the
    number of pixels and the line at `dst`. -/
abbrev Unpack := List SaneByte → Nat → Nat → List Nat → Except Fault (List Nat)

/-- The loop that unpacks bytes that are `stride` apart. -/
def unpack8 (stride : Nat) : Unpack := fun buf src pixels =>
  turns (fun i dst => do setCell dst i (twice (← cellAt buf (src + stride * i)))) pixels

/-- The loop that unpacks words that are `stride` apart. -/
def unpack16Le (stride : Nat) : Unpack := fun buf src pixels =>
  turns (fun i dst => do
    let b0 ← cellAt buf (src + stride * i)
    let b1 ← cellAt buf (src + stride * i + 1)
    setCell dst i (le16 b0 b1)) pixels

def unpack8Mono : Unpack := unpack8 1

def unpack8Rgb : Unpack := unpack8 3

def unpack16LeMono : Unpack := unpack16Le 2

def unpack16LeRgb : Unpack := unpack16Le 6

/-- `dst[i] = low, dst'[j] = high` for the two components in three bytes. -/
def lowAt (buf : List SaneByte) (src : Nat) : Except Fault Nat := do
  .ok (low12 (← cellAt buf src) (← cellAt buf (src + 1)))

def highAt (buf : List SaneByte) (src : Nat) : Except Fault Nat := do
  .ok (high12 (← cellAt buf (src + 1)) (← cellAt buf (src + 2)))

/-- `unpack_12_le_mono`, two pixels in a turn. -/
def unpack12LeMono : Unpack := fun buf src pixels =>
  turns (fun k dst => do
    let dst ← setCell dst (2 * k) (← lowAt buf (src + 3 * k))
    setCell dst (2 * k + 1) (← highAt buf (src + 3 * k))) ((pixels + 1) / 2)

/-- `unpack_12_le_rgb`, two pixels in a turn. -/
def unpack12LeRgb (buf : List SaneByte) (src pixels : Nat) :
    List Nat × List Nat × List Nat → Except Fault (List Nat × List Nat × List Nat) :=
  turns (fun k (dst1, dst2, dst3) => do
    let dst1 ← setCell dst1 (2 * k) (← lowAt buf (src + 9 * k))
    let dst2 ← setCell dst2 (2 * k) (← highAt buf (src + 9 * k))
    let dst3 ← setCell dst3 (2 * k) (← lowAt buf (src + 9 * k + 3))
    let dst1 ← setCell dst1 (2 * k + 1) (← highAt buf (src + 9 * k + 3))
    let dst2 ← setCell dst2 (2 * k + 1) (← lowAt buf (src + 9 * k + 6))
    let dst3 ← setCell dst3 (2 * k + 1) (← highAt buf (src + 9 * k + 6))
    .ok (dst1, dst2, dst3)) ((pixels + 1) / 2)

/-! ### Line readers -/

/-- `GT68xx_Line_Reader`, with `r_delay`, `g_delay` and `b_delay`. -/
structure LineReader where
  params : ScanParameters
  delay : Channel → DelayBuffer

/-- The three delay buffers. -/
abbrev Delays := Channel → DelayBuffer

/-- One statement for each of some channels. -/
def forChannels (f : Channel → DelayBuffer → Except Fault DelayBuffer) :
    List Channel → Delays → Except Fault Delays
  | [], delay => .ok delay
  | c :: cs, delay => do
    let d ← f c (delay c)
    forChannels f cs (Function.update delay c d)

/-- `unpack (src, DELAY_BUFFER_WRITE_PTR (delay), pixels_per_line)` -/
def unpackInto (unpack : Unpack) (raw : List SaneByte) (src pixels : Nat) (d : DelayBuffer) :
    Except Fault DelayBuffer := do
  .ok (d.setLine d.writeIndex (← unpack raw src pixels (← d.writeLine)))

/-- Channel by channel, with the place in the order of the colours times `offset`. -/
def unpackChannels (unpack : Unpack) (order : List Channel) (offset pixels : Nat)
    (raw : List SaneByte) : Delays → Except Fault Delays :=
  forChannels (fun c => unpackInto unpack raw (order.idxOf c * offset) pixels) order

/-- `unpack_12_le_rgb` into three buffers. -/
def unpackTogether (first second third : Channel) (pixels : Nat) (raw : List SaneByte)
    (delay : Delays) : Except Fault Delays := do
  let dst1 ← (delay first).writeLine
  let dst2 ← (delay second).writeLine
  let dst3 ← (delay third).writeLine
  let (dst1, dst2, dst3) ← unpack12LeRgb raw 0 pixels (dst1, dst2, dst3)
  let delay := Function.update delay first ((delay first).setLine (delay first).writeIndex dst1)
  let delay := Function.update delay second ((delay second).setLine (delay second).writeIndex dst2)
  .ok (Function.update delay third ((delay third).setLine (delay third).writeIndex dst3))

/-- `DELAY_BUFFER_READ_PTR (delay)[i] = DELAY_BUFFER_SELECT_PTR (delay, ld_shift_double)[i]` -/
def patchColumn (ldShiftDouble i : Nat) (d : DelayBuffer) : Except Fault DelayBuffer := do
  let v ← cellAt (← d.selectLine ldShiftDouble) i
  .ok (d.setLine d.readIndex (← setCell (← d.readLine) i v))

/-- `for (i = double_column; i < pixels_per_line; i += 2)` -/
def patchColumns (p : ScanParameters) : Delays → Except Fault Delays :=
  turns (fun k => forChannels (fun _ => patchColumn p.ldShiftDouble (p.doubleColumn + 2 * k))
    [.r, .g, .b]) ((p.pixelXs - p.doubleColumn + 1) / 2)

/-- What is at `buffer_pointers_return` when a reader returns. -/
abbrev Returned := Channel → List Nat

/-- What the readers have in common: unpacking, in the double modes taking columns from a later
    line, and stepping. -/
def lineRead (unpack : Delays → Except Fault Delays) (double : Bool) (reader : LineReader) :
    Except Fault (LineReader × Returned) := do
  let delay ← unpack reader.delay
  let delay ← if double then patchColumns reader.params delay else .ok delay
  let r ← (delay .r).readLine
  let g ← (delay .g).readLine
  let b ← (delay .b).readLine
  .ok (⟨reader.params, fun c => (delay c).step⟩, fun c =>
    match c with
    | .r => r
    | .g => g
    | .b => b)

/-- A line reader; `raw` is what `gt68xx_device_read` has put into `pixel_buffer`. -/
abbrev Read := LineReader → List SaneByte → Except Fault (LineReader × Returned)

/-- The readers for lines in which the channels lie one behind the other. -/
def lineReadLineMode (unpack : Unpack) (order : List Channel) (double : Bool) : Read :=
  fun reader raw => do
    let _ ← intValue (reader.params.scanBpl * 3 : Nat)
    lineRead (unpackChannels unpack order reader.params.scanBpl reader.params.pixelXs raw) double
      reader

/-- The readers for lines in which the components of a pixel lie one behind the other. -/
def lineReadPixelMode (unpack : Unpack) (order : List Channel) (size : Nat) : Read :=
  fun reader raw =>
    lineRead (unpackChannels unpack order size reader.params.pixelXs raw) false reader

def lineReadRgb8LineMode : Read := lineReadLineMode unpack8Mono [.r, .g, .b] false
def lineReadRgbDouble8LineMode : Read := lineReadLineMode unpack8Mono [.r, .g, .b] true
def lineReadBgr8LineMode : Read := lineReadLineMode unpack8Mono [.b, .g, .r] false
def lineReadRgb12LineMode : Read := lineReadLineMode unpack12LeMono [.r, .g, .b] false
def lineReadRgbDouble12LineMode : Read := lineReadLineMode unpack12LeMono [.r, .g, .b] true
def lineReadBgr12LineMode : Read := lineReadLineMode unpack12LeMono [.b, .g, .r] false
def lineReadRgb16LineMode : Read := lineReadLineMode unpack16LeMono [.r, .g, .b] false
def lineReadRgbDouble16LineMode : Read := lineReadLineMode unpack16LeMono [.r, .g, .b] true
def lineReadBgr16LineMode : Read := lineReadLineMode unpack16LeMono [.b, .g, .r] false
def lineReadRgb8PixelMode : Read := lineReadPixelMode unpack8Rgb [.r, .g, .b] 1
def lineReadBgr8PixelMode : Read := lineReadPixelMode unpack8Rgb [.b, .g, .r] 1
def lineReadRgb16PixelMode : Read := lineReadPixelMode unpack16LeRgb [.r, .g, .b] 2
def lineReadBgr16PixelMode : Read := lineReadPixelMode unpack16LeRgb [.b, .g, .r] 2

def lineReadRgb12PixelMode : Read := fun reader raw =>
  lineRead (unpackTogether .r .g .b reader.params.pixelXs raw) false reader

def lineReadBgr12PixelMode : Read := fun reader raw =>
  lineRead (unpackTogether .b .g .r reader.params.pixelXs raw) false reader

/-- The reader that `gt68xx_line_reader_new` chooses; none for an unsupported depth. -/
def ScanParameters.read (p : ScanParameters) : Option Read :=
  if p.lineMode then
    if p.depth = 8 then
      match p.order with
      | .rgb =>
        if p.ldShiftDouble > 0 then some lineReadRgbDouble8LineMode
        else some lineReadRgb8LineMode
      | .bgr => some lineReadBgr8LineMode
    else if p.depth = 12 then
      match p.order with
      | .rgb =>
        if p.ldShiftDouble > 0 then some lineReadRgbDouble12LineMode
        else some lineReadRgb12LineMode
      | .bgr => some lineReadBgr12LineMode
    else if p.depth = 16 then
      match p.order with
      | .rgb =>
        if p.ldShiftDouble > 0 then some lineReadRgbDouble16LineMode
        else some lineReadRgb16LineMode
      | .bgr => some lineReadBgr16LineMode
    else none
  else
    if p.depth = 8 then
      match p.order with
      | .rgb => some lineReadRgb8PixelMode
      | .bgr => some lineReadBgr8PixelMode
    else if p.depth = 12 then
      match p.order with
      | .rgb => some lineReadRgb12PixelMode
      | .bgr => some lineReadBgr12PixelMode
    else if p.depth = 16 then
      match p.order with
      | .rgb => some lineReadRgb16PixelMode
      | .bgr => some lineReadBgr16PixelMode
    else none

/-- The delay buffer of a channel, as `gt68xx_line_reader_init_delays` makes it. -/
def ScanParameters.initDelay (p : ScanParameters) (c : Channel) :
    Except Fault (Except SaneStatus DelayBuffer) := do
  delayBufferInit p.scanXs (← intValue (p.ldShift c + p.ldShiftDouble : Nat))

/-- `gt68xx_line_reader_new`: the reader and its function, or a status. -/
def lineReaderNew (p : ScanParameters) :
    Except Fault (Except SaneStatus (LineReader × Read)) := do
  match ← p.initDelay .r with
  | .error status => .ok (.error status)
  | .ok r =>
    match ← p.initDelay .g with
    | .error status => .ok (.error status)
    | .ok g =>
      match ← p.initDelay .b with
      | .error status => .ok (.error status)
      | .ok b =>
        match p.read with
        | none => .ok (.error .unsupported)
        | some read =>
          .ok (.ok (⟨p, fun c =>
            match c with
            | .r => r
            | .g => g
            | .b => b⟩, read))

/-- `gt68xx_line_reader_read`, for one raw line after the other. -/
def readLines (read : Read) : LineReader → List (List SaneByte) → Except Fault (List Returned)
  | _, [] => .ok []
  | reader, raw :: raws => do
    let (reader, lines) ← read reader raw
    .ok (lines :: (← readLines read reader raws))

/-- The lines that are returned for a stream of raw lines. -/
def scanLines (p : ScanParameters) (raws : List (List SaneByte)) :
    Except Fault (Except SaneStatus (List Returned)) := do
  match ← lineReaderNew p with
  | .error status => .ok (.error status)
  | .ok (reader, read) => do .ok (.ok (← readLines read reader raws))

end SaneBackends.Gt68xx
