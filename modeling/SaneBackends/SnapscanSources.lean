import SaneBackends.SaneTypes
import SaneBackends.Overwrite
import SaneBackends.PullStream

/-!
# The data sources of the SnapScan backend

A chain of sources: one at the bottom reads from the device, from a file descriptor or
from a buffer, and those above it transform what the source below gives.  Each has a
buffer and counters of its own and may be asked for any number of bytes.  A cell of a
buffer is `none` until something is stored in it; `stale` notes that a byte has been
computed from such a cell or from outside the buffer.
-/

namespace SaneBackends

open Overwrite PullStream

/-- A value as a `SANE_Int`. -/
def saneInt (x : Int) : Int := (BitVec.ofInt 32 x).toInt

/-- What `snapscan.c` knows about the scanner and the scan: the model, `actual_mode`, and
    the members that the sources use. -/
inductive SnapScanModel where
  | perfection2480 | perfection3490 | other
deriving DecidableEq, Repr

inductive SnapScanMode where
  | colour | bilevelColour | greyscale | lineart
deriving DecidableEq, Repr

structure SnapScanScanner where
  model : SnapScanModel
  mode : SnapScanMode
  bppScan : Nat
  bytesPerLine : Nat
  pixelsPerLine : Nat
  physBufSz : Nat
  chroma : Nat
  chromaOffset : Nat × Nat × Nat
deriving DecidableEq, Repr

/-- What a source returns: the status and the bytes stored for the caller. -/
abbrev GetResult (σ : Type) := Option (SaneStatus × List SaneByte × σ)

structure Source (σ : Type) extends PullSource σ SaneStatus SaneByte where
  bytesPerLine : Nat
  pixelsPerLine : Nat

/-! ### Base sources -/

/-- How the device or a `read` answers: with a number of bytes, of which no more than
    were asked for are there, with nothing for now, or with an error. -/
inductive ReadAnswer where
  | deliver (n : Nat)
  | again
  | eof
  | fail
deriving DecidableEq, Repr

/-- `SCSISource`: `buf` are the bytes read last, up to `scsi_buf_max`; the device still has
    `unread`, `bytes_remaining` many. -/
structure SCSISource where
  unread : List SaneByte
  buf : List SaneByte
  scsiBufPos : Nat
  absoluteMax : Nat
  answers : List ReadAnswer
deriving DecidableEq, Repr

def SCSISource.init (pss : SnapScanScanner) (unread : List SaneByte) (answers : List ReadAnswer) :
    SCSISource :=
  ⟨unread, [], 0, pss.physBufSz / pss.bytesPerLine * pss.bytesPerLine, answers⟩

def SCSISource.remaining (s : SCSISource) : Int :=
  saneInt (s.unread.length + (s.buf.length - s.scsiBufPos))

/-- `scsi_read`, for as much as the device has and the buffer takes. -/
def SCSISource.scsiRead (s : SCSISource) : Option (SaneStatus × SCSISource) :=
  match s.answers with
  | [] => none
  | .deliver n :: answers =>
      let read := min n (min s.absoluteMax s.unread.length)
      some (.good, { s with
        unread := s.unread.drop read
        buf := s.unread.take read
        scsiBufPos := 0
        answers := answers })
  | _ :: answers => some (.ioError, { s with buf := [], scsiBufPos := 0, answers := answers })

/-- Bytes are copied to the caller. -/
def SCSISource.copy (s : SCSISource) (n : Nat) : List SaneByte × SCSISource :=
  let bytes := (s.buf.drop s.scsiBufPos).take n
  (bytes, { s with scsiBufPos := s.scsiBufPos + bytes.length })

/-- The loop of `SCSISource_get`; each turn takes an answer or copies a byte at least, so
    that `fuel` is enough when it starts as the sum of both. -/
def SCSISource.getLoop : Nat → Nat → SCSISource → List SaneByte → GetResult SCSISource
  | 0, _, s, out => some (.good, out, s)
  | fuel + 1, n, s, out =>
      if n = 0 ∨ s.remaining ≤ 0 then some (.good, out, s)
      else if s.buf.length - s.scsiBufPos = 0 then
        match s.scsiRead with
        | none => none
        | some (status, s) =>
            if status ≠ .good then some (status, out, s)
            else
              let (bytes, s) := s.copy n
              getLoop fuel (n - bytes.length) s (out ++ bytes)
      else
        let (bytes, s) := s.copy n
        getLoop fuel (n - bytes.length) s (out ++ bytes)

def SCSISource.get (s : SCSISource) (n : Nat) : GetResult SCSISource :=
  s.getLoop (n + s.answers.length) n []

/-- `FDSource`: the pipe still has `unread`. -/
structure FDSource where
  unread : List SaneByte
  bytesRemaining : Int
  answers : List ReadAnswer
deriving DecidableEq, Repr

def FDSource.init (unread : List SaneByte) (answers : List ReadAnswer) : FDSource :=
  ⟨unread, saneInt unread.length, answers⟩

def FDSource.remaining (s : FDSource) : Int := s.bytesRemaining

/-- The loop of `FDSource_get`.  After an error the value -1 of `read` is counted like a
    number of bytes. -/
def FDSource.getLoop : List ReadAnswer → Nat → FDSource → List SaneByte → GetResult FDSource
  | answers, n, s, out =>
      if n = 0 ∨ s.remaining ≤ 0 then some (.good, out, { s with answers := answers })
      else
        match answers with
        | [] => none
        | .again :: answers => some (.good, out, { s with answers := answers })
        | .eof :: answers => some (.good, out, { s with answers := answers })
        | .fail :: answers =>
            some (.ioError, out.dropLast,
              { s with bytesRemaining := s.bytesRemaining + 1, answers := answers })
        | .deliver k :: answers =>
            let bytes := s.unread.take (min k n)
            if bytes.length = 0 then some (.good, out, { s with answers := answers })
            else
              getLoop answers (n - bytes.length)
                { s with
                  unread := s.unread.drop bytes.length
                  bytesRemaining := s.bytesRemaining - bytes.length } (out ++ bytes)

def FDSource.get (s : FDSource) (n : Nat) : GetResult FDSource := FDSource.getLoop s.answers n s []

structure BufSource where
  buf : List SaneByte
  bufPos : Nat
deriving DecidableEq, Repr

def BufSource.init (buf : List SaneByte) : BufSource := ⟨buf, 0⟩

def BufSource.remaining (s : BufSource) : Int := saneInt (s.buf.length - s.bufPos)

/-- `BufSource_get`; at the end nothing is stored for the caller. -/
def BufSource.get (s : BufSource) (n : Nat) : GetResult BufSource :=
  let toMove := min (n : Int) s.remaining
  if toMove = 0 then some (.eof, [], s)
  else
    some (.good, (s.buf.drop s.bufPos).take toMove.toNat,
      { s with bufPos := s.bufPos + toMove.toNat })

inductive BaseSource where
  | scsi (s : SCSISource)
  | fd (s : FDSource)
  | buf (s : BufSource)
deriving DecidableEq, Repr

def BaseSource.remaining : BaseSource → Int
  | .scsi s => s.remaining
  | .fd s => s.remaining
  | .buf s => s.remaining

def BaseSource.get : BaseSource → Nat → GetResult BaseSource
  | .scsi s, n => (s.get n).map fun (status, bytes, s) => (status, bytes, .scsi s)
  | .fd s, n => (s.get n).map fun (status, bytes, s) => (status, bytes, .fd s)
  | .buf s, n => (s.get n).map fun (status, bytes, s) => (status, bytes, .buf s)

def baseSource (pss : SnapScanScanner) : Source BaseSource :=
  ⟨⟨BaseSource.remaining, BaseSource.get⟩, pss.bytesPerLine, pss.pixelsPerLine⟩

/-- How a transformer goes on after it has asked the source below for data. -/
inductive Refill (σ : Type) where
  | stop (status : SaneStatus) (s : σ)
  | go (s : σ)

/-- A transformer asks the source below it for `n` bytes and stores what it gets. -/
def askSub {σ τ : Type} (psub : Source σ) (n : Nat) (store : List SaneByte → τ) (t : τ) (sub : σ) :
    Option (Refill (τ × σ)) :=
  match psub.get sub n with
  | none => none
  | some (status, bytes, sub) =>
      if status ≠ .good then some (.stop status (t, sub))
      else if bytes = [] then some (.stop .good (t, sub))
      else some (.go (store bytes, sub))

/-- The loop of the transformers: as long as bytes are wanted and the source says that some
    remain, data is read if there is none, and bytes are made of it.  Each turn makes a
    byte at least, so that `fuel` is enough when it starts as the number of bytes wanted. -/
def transformLoop {σ : Type} (remaining : σ → Int) (refill : σ → Option (Refill σ))
    (copy : σ → Nat → List SaneByte × σ) : Nat → Nat → σ → List SaneByte → GetResult σ
  | 0, _, s, out => some (.good, out, s)
  | fuel + 1, n, s, out =>
      if n = 0 ∨ remaining s ≤ 0 then some (.good, out, s)
      else
        match refill s with
        | none => none
        | some (.stop status s) => some (status, out, s)
        | some (.go s) =>
            transformLoop remaining refill copy fuel (n - (copy s n).1.length) (copy s n).2
              (out ++ (copy s n).1)

/-- A cell of a buffer; nothing is outside it. -/
def readCell (cells : List (Option SaneByte)) (i : Int) : Option SaneByte :=
  if i < 0 then none else cells[i.toNat]?.join

variable {σ : Type}

/-! ### The expander -/

structure Expander where
  chBuf : List (Option SaneByte)
  chSize : Nat
  chNdata : Nat
  chPos : Nat
  bit : Nat
  lastBit : Nat
  lastLastBit : Nat
  stale : Bool
deriving DecidableEq, Repr

def Expander.init (psub : Source σ) : Expander :=
  let chSize := psub.bytesPerLine / 3
  let lastLastBit := 7 - (if psub.pixelsPerLine % 8 = 0 then 7 else psub.pixelsPerLine % 8)
  { chBuf := List.replicate chSize none
    chSize := chSize
    chNdata := 0
    chPos := 0
    bit := 7
    lastBit := if chSize > 1 then 0 else lastLastBit
    lastLastBit := lastLastBit
    stale := false }

def Expander.remaining (psub : Source σ) (s : Expander × σ) : Int :=
  let wholeChannels := (psub.remaining s.2).tdiv s.1.chSize
  let result := wholeChannels * psub.pixelsPerLine
  if s.1.chPos < s.1.chSize then
    let bitsCovered := max (((s.1.chPos : Int) - 1) * 8) 0 + 7 - s.1.bit
    saneInt (result + (psub.pixelsPerLine - bitsCovered))
  else saneInt result

/-- The last bit of the byte that comes next. -/
def Expander.lastBitAt (e : Expander) (chPos : Nat) : Nat :=
  if chPos + 1 = e.chSize then e.lastLastBit else 0

/-- The buffer starts again once the channel is complete. -/
def Expander.wrap (e : Expander) : Expander :=
  if e.chSize - e.chNdata = 0 then { e with chNdata := 0, chPos := 0 } else e

/-- Data has been read behind what is in the buffer. -/
def Expander.gotData (e : Expander) (bytes : List SaneByte) : Expander :=
  { e with
    chBuf := overwrite e.chBuf e.chPos (bytes.map some)
    chNdata := e.chNdata + bytes.length
    lastBit := e.lastBitAt e.chPos
    bit := 7 }

def Expander.refill (psub : Source σ) (s : Expander × σ) : Option (Refill (Expander × σ)) :=
  if s.1.chPos = s.1.chNdata then
    let e := s.1.wrap
    askSub psub (e.chSize - e.chNdata) e.gotData e s.2
  else some (.go s)

/-- The byte made of the current bit. -/
def Expander.byte (e : Expander) : SaneByte :=
  if ((readCell e.chBuf e.chPos).getD 0).getLsbD e.bit then 0xff else 0

def Expander.next (e : Expander) : Expander :=
  let e := { e with stale := e.stale || (readCell e.chBuf e.chPos).isNone }
  if e.bit = e.lastBit then
    { e with bit := 7, chPos := e.chPos + 1, lastBit := e.lastBitAt (e.chPos + 1) }
  else { e with bit := e.bit - 1 }

/-- `Expander_get`: each turn of the loop makes the byte of one bit. -/
def Expander.get (psub : Source σ) (s : Expander × σ) (n : Nat) : GetResult (Expander × σ) :=
  transformLoop (Expander.remaining psub) (Expander.refill psub)
    (fun s _ => ([s.1.byte], (s.1.next, s.2))) n n s []

def expanderSource (psub : Source σ) : Source (Expander × σ) :=
  ⟨⟨Expander.remaining psub, Expander.get psub⟩, psub.pixelsPerLine * 3, psub.pixelsPerLine⟩

/-! ### The deinterlacer -/

/-- `early` notes that a byte has been computed while its neighbour had not been read. -/
structure Deinterlacer where
  chBuf : List (Option SaneByte)
  chSize : Nat
  chLineSize : Nat
  chNdata : Nat
  chPos : Nat
  chBytesPerPixel : Nat
  chLineart : Bool
  chOffset : Nat
  chPastInit : Bool
  chShiftEven : Bool
  early : Bool
  stale : Bool
deriving DecidableEq, Repr

/-- `actual_mode (pss)` is greyscale or lineart. -/
def SnapScanScanner.isGrey (pss : SnapScanScanner) : Bool :=
  pss.mode == .greyscale || pss.mode == .lineart

def Deinterlacer.init (pss : SnapScanScanner) (psub : Source σ) : Deinterlacer :=
  let chOffset := if pss.model = .perfection3490 then 8 else 4
  let bytesPerPixel := if pss.isGrey then 1 else 3
  { chBuf := List.replicate (psub.bytesPerLine * (chOffset + 1)) none
    chSize := psub.bytesPerLine * (chOffset + 1)
    chLineSize := psub.bytesPerLine
    chNdata := 0
    chPos := 0
    chBytesPerPixel := if pss.bppScan = 16 then bytesPerPixel * 2 else bytesPerPixel
    chLineart := pss.mode == .lineart
    chOffset := chOffset
    chPastInit := false
    chShiftEven := !(pss.model == .perfection3490 && pss.isGrey)
    early := false
    stale := false }

def Deinterlacer.remaining (psub : Source σ) (s : Deinterlacer × σ) : Int :=
  saneInt (psub.remaining s.2 + (s.1.chNdata - s.1.chPos))

/-- The rest of the line that has been begun, or the next line; behind the last line the
    buffer starts again. -/
def Deinterlacer.wrap (d : Deinterlacer) : Nat × Deinterlacer :=
  if d.chPos ≥ d.chSize then (d.chLineSize, { d with chNdata := 0, chPos := 0 })
  else (d.chLineSize - d.chNdata % d.chLineSize, d)

def Deinterlacer.gotData (d : Deinterlacer) (bytes : List SaneByte) : Deinterlacer :=
  { d with
    chBuf := overwrite d.chBuf d.chPos (bytes.map some)
    chNdata := d.chNdata + bytes.length }

def Deinterlacer.refill (psub : Source σ) (s : Deinterlacer × σ) :
    Option (Refill (Deinterlacer × σ)) :=
  if s.1.chPos % s.1.chLineSize = s.1.chNdata % s.1.chLineSize then
    askSub psub s.1.wrap.1 s.1.wrap.2.gotData s.1.wrap.2 s.2
  else some (.go s)

/-- The pixel of this column is shifted. -/
def Deinterlacer.shifted (d : Deinterlacer) : Bool :=
  if d.chShiftEven then d.chPos / d.chBytesPerPixel % 2 == 0
  else d.chPos / d.chBytesPerPixel % 2 == 1

/-- The place of the byte some lines back: one line further on in the circle. -/
def Deinterlacer.linesBack (d : Deinterlacer) : Nat := (d.chPos + d.chLineSize) % d.chSize

/-- The place of the byte of a neighbouring pixel. -/
def Deinterlacer.neighbour (d : Deinterlacer) : Int :=
  if d.chPos % d.chLineSize = 0 then d.chPos + d.chBytesPerPixel else d.chPos - d.chBytesPerPixel

/-- A lineart byte: the bits of the shifted columns come from the byte `back` or are copies
    of the bits beside them. -/
def lineartByte (shiftEven pastInit : Bool) (here back : SaneByte) : SaneByte :=
  match pastInit, shiftEven with
  | true, true => (here &&& 0x55) ||| (back &&& 0xaa)
  | true, false => (here &&& 0xaa) ||| (back &&& 0x55)
  | false, true => (here &&& 0x55) ||| ((here &&& 0x55) >>> 1)
  | false, false => (here &&& 0xaa) ||| ((here &&& 0xaa) <<< 1)

/-- The byte that comes next, if the cells it is computed from have been filled. -/
def Deinterlacer.byte? (d : Deinterlacer) : Option SaneByte :=
  if d.chLineart then
    if d.chPastInit then
      (readCell d.chBuf d.chPos).bind fun here =>
        (readCell d.chBuf d.linesBack).map (lineartByte d.chShiftEven true here)
    else (readCell d.chBuf d.chPos).map fun here => lineartByte d.chShiftEven false here 0
  else if d.shifted then
    if d.chPastInit then readCell d.chBuf d.linesBack else readCell d.chBuf d.neighbour
  else readCell d.chBuf d.chPos

/-- The neighbour is needed, and it has not been read: it comes behind the data that is
    there, or it would be in front of the buffer. -/
def Deinterlacer.tooEarly (d : Deinterlacer) : Bool :=
  !d.chLineart && !d.chPastInit && d.shifted && (d.neighbour < 0 || d.chNdata ≤ d.neighbour)

def Deinterlacer.next (d : Deinterlacer) : Deinterlacer :=
  { d with
    stale := d.stale || d.byte?.isNone
    early := d.early || d.tooEarly
    chPastInit := d.chPastInit || d.chLineSize * d.chOffset ≤ d.chPos
    chPos := d.chPos + 1 }

/-- `Deinterlacer_get`: each turn of the loop makes one byte. -/
def Deinterlacer.get (psub : Source σ) (s : Deinterlacer × σ) (n : Nat) :
    GetResult (Deinterlacer × σ) :=
  transformLoop (Deinterlacer.remaining psub) (Deinterlacer.refill psub)
    (fun s _ => ([s.1.byte?.getD 0], (s.1.next, s.2))) n n s []

def deinterlacerSource (psub : Source σ) : Source (Deinterlacer × σ) :=
  ⟨⟨Deinterlacer.remaining psub, Deinterlacer.get psub⟩, psub.bytesPerLine, psub.pixelsPerLine⟩

/-! ### The RGB router -/

structure RGBRouter where
  cbuf : List (Option SaneByte)
  xbuf : List (Option SaneByte)
  pos : Nat
  cbSize : Nat
  cbLineSize : Nat
  cbStart : Nat
  chOffset : Nat × Nat × Nat
  roundReq : Nat
  roundRead : Nat
  stale : Bool
deriving DecidableEq, Repr

def RGBRouter.init (pss : SnapScanScanner) (psub : Source σ) : RGBRouter :=
  let line := psub.bytesPerLine
  let (r, g, b) := pss.chromaOffset
  { cbuf := List.replicate (line * (pss.chroma + 1)) none
    xbuf := List.replicate line none
    pos := line
    cbSize := line * (pss.chroma + 1)
    cbLineSize := line
    cbStart := 0
    chOffset := (r * line, g * line + line / 3, b * line + 2 * (line / 3))
    roundReq := line * (pss.chroma + 1)
    roundRead := 0
    stale := false }

def RGBRouter.remaining (psub : Source σ) (s : RGBRouter × σ) : Int :=
  if s.1.roundReq = s.1.cbSize then
    saneInt (psub.remaining s.2 - s.1.cbSize + s.1.cbLineSize)
  else saneInt (psub.remaining s.2 + s.1.cbLineSize - s.1.pos)

/-- Data has been read behind what the round has read. -/
def RGBRouter.gotData (r : RGBRouter) (bytes : List SaneByte) : RGBRouter :=
  { r with
    cbuf := overwrite r.cbuf (r.cbStart + r.roundRead) (bytes.map some)
    roundRead := r.roundRead + bytes.length }

/-- The loop that reads one line, or the whole buffer the first time; each turn reads a
    byte at least. -/
def RGBRouter.readRound (psub : Source σ) :
    Nat → RGBRouter × σ → Option (Refill (RGBRouter × σ))
  | 0, s => some (.go s)
  | fuel + 1, s =>
      match askSub psub (s.1.roundReq - s.1.roundRead) s.1.gotData s.1 s.2 with
      | some (.go s) => if s.1.roundReq > s.1.roundRead then readRound psub fuel s else some (.go s)
      | other => other

/-- The cells of the three channels in the order of the pixels: `n` of each, one by one or,
    unless there are eight bits for each sample, two by two. -/
def routeCells {α : Type} (bppScan n : Nat) (red green blue : Nat → α) : List α :=
  if bppScan = 8 then (List.range n).flatMap fun i => [red i, green i, blue i]
  else
    (List.range ((n + 1) / 2)).flatMap fun i =>
      [red (2 * i), red (2 * i + 1), green (2 * i), green (2 * i + 1), blue (2 * i),
        blue (2 * i + 1)]

/-- A line has been read: its channels go to `xbuf`. -/
def RGBRouter.route (bppScan : Nat) (r : RGBRouter) : RGBRouter :=
  let start := (r.cbStart + r.roundRead) % r.cbSize
  let channel (offset i : Nat) := readCell r.cbuf ((start + offset) % r.cbSize + i : Nat)
  let (offR, offG, offB) := r.chOffset
  { r with
    cbStart := start
    xbuf := overwrite r.xbuf 0
      (routeCells bppScan (r.cbLineSize / 3) (channel offR) (channel offG) (channel offB))
    pos := 0
    roundReq := r.cbLineSize
    roundRead := 0 }

def RGBRouter.refill (pss : SnapScanScanner) (psub : Source σ) (s : RGBRouter × σ) :
    Option (Refill (RGBRouter × σ)) :=
  if s.1.pos ≥ s.1.cbLineSize then
    match RGBRouter.readRound psub (s.1.cbSize + 1) s with
    | some (.go (r, sub)) => some (.go (r.route pss.bppScan, sub))
    | other => other
  else some (.go s)

/-- The cells that are copied to the caller. -/
def RGBRouter.portion (r : RGBRouter) (n : Nat) : List (Option SaneByte) :=
  ((r.xbuf.take r.cbLineSize).drop r.pos).take n

def RGBRouter.copied (r : RGBRouter) (n : Nat) : RGBRouter :=
  { r with
    pos := r.pos + (r.portion n).length
    stale := r.stale || (r.portion n).any Option.isNone }

/-- `RGBRouter_get`: each turn of the loop copies what there is of a line. -/
def RGBRouter.get (pss : SnapScanScanner) (psub : Source σ) (s : RGBRouter × σ) (n : Nat) :
    GetResult (RGBRouter × σ) :=
  transformLoop (RGBRouter.remaining psub) (RGBRouter.refill pss psub)
    (fun s n => ((s.1.portion n).map (·.getD 0), (s.1.copied n, s.2))) n n s []

def routerSource (pss : SnapScanScanner) (psub : Source σ) : Source (RGBRouter × σ) :=
  ⟨⟨RGBRouter.remaining psub, RGBRouter.get pss psub⟩, psub.bytesPerLine, psub.pixelsPerLine⟩

/-! ### Chains -/

inductive SourceChain where
  | base
  | expander (c : SourceChain)
  | rgbRouter (c : SourceChain)
  | deinterlacer (c : SourceChain)
deriving DecidableEq, Repr

def SourceChain.State : SourceChain → Type
  | .base => BaseSource
  | .expander c => Expander × c.State
  | .rgbRouter c => RGBRouter × c.State
  | .deinterlacer c => Deinterlacer × c.State

def SourceChain.source (pss : SnapScanScanner) : (c : SourceChain) → Source c.State
  | .base => baseSource pss
  | .expander c => expanderSource (c.source pss)
  | .rgbRouter c => routerSource pss (c.source pss)
  | .deinterlacer c => deinterlacerSource (c.source pss)

/-- A new chain on a base source. -/
def SourceChain.init (pss : SnapScanScanner) (b : BaseSource) : (c : SourceChain) → c.State
  | .base => b
  | .expander c => (Expander.init (c.source pss), c.init pss b)
  | .rgbRouter c => (RGBRouter.init pss (c.source pss), c.init pss b)
  | .deinterlacer c => (Deinterlacer.init pss (c.source pss), c.init pss b)

/-- The transformers in the order in which `create_source_chain` puts them on the base. -/
def sourceChain (expander rgbRouter deinterlacer : Bool) : SourceChain :=
  let c := if expander then .expander .base else .base
  let c := if rgbRouter then .rgbRouter c else c
  if deinterlacer then .deinterlacer c else c

end SaneBackends
