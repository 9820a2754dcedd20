import SaneBackends.SaneTypes
import Mathlib.Data.List.Basic
import Mathlib.Order.Basic

/-!
# Reading a scan of the Fujitsu S300 and fi-60F

`sane_read` of `backend/epjitsu.c`, with what it keeps count of: the scan as a whole, the block
that is being filled and the two pages.  The scanner may say after each block how long the sheet
is; this changes the size of the scan.  Image data are left out, each read of the device is the
number of bytes it has ready.
-/

namespace SaneBackends.Epjitsu

/-! ### Data model -/

inductive Model
  | s300 | fi60f
deriving DecidableEq, Repr

inductive Source
  | flatbed | adfFront | adfBack | adfDuplex
deriving DecidableEq, Repr

inductive Side
  | front | back
deriving DecidableEq, Repr

inductive Mode
  | color | grayscale | lineart
deriving DecidableEq, Repr

/-- A row of `settings`, as far as the scan depends on it. -/
structure ModelRes where
  model : Model
  xRes : Nat
  yRes : Nat
  usbPower : Bool
  maxY : Nat
  actWidth : Nat
  headWidth : Nat
  blockHeight : Nat
deriving DecidableEq, Repr

def settings : List ModelRes :=
  [⟨.s300, 150, 150, false, 2662, 4256, 1296, 41⟩,
   ⟨.s300, 225, 200, false, 3993, 6144, 1944, 28⟩,
   ⟨.s300, 300, 300, false, 5324, 8192, 2592, 21⟩,
   ⟨.s300, 600, 600, false, 10648, 16064, 5184, 10⟩,
   ⟨.s300, 150, 150, true, 2662, 7216, 1296, 24⟩,
   ⟨.s300, 225, 200, true, 3993, 10584, 1944, 16⟩,
   ⟨.s300, 300, 300, true, 5324, 15872, 2592, 11⟩,
   ⟨.s300, 600, 600, true, 10648, 16064, 5184, 10⟩,
   ⟨.fi60f, 150, 150, false, 875, 1480, 216, 41⟩,
   ⟨.fi60f, 300, 300, false, 1749, 2400, 432, 72⟩,
   ⟨.fi60f, 600, 600, false, 3498, 2848, 864, 61⟩]

def MAX_IMG_PASS : Nat := 0x10000

/-- `struct transfer` with the height of its image. -/
structure Transfer where
  lineStride : Int
  imageHeight : Int
  totalBytes : Int
  rxBytes : Int
  done : Bool
deriving DecidableEq, Repr

structure Fullscan where
  done : Bool
  height : Int
  rxBytes : Int
  widthBytes : Int
  totalBytes : Int
deriving DecidableEq, Repr

/-- `struct page` with the width of its image. -/
structure Page where
  widthBytes : Int
  bytesScanned : Int
  bytesRead : Int
  done : Bool
deriving DecidableEq, Repr

structure Scanner where
  model : Model
  source : Source
  pageHeight : Int
  xRes : Nat
  yRes : Nat
  side : Side
  fullscan : Fullscan
  block : Transfer
  front : Page
  back : Page
deriving DecidableEq, Repr

def Scanner.page (s : Scanner) : Side → Page
  | .front => s.front
  | .back => s.back

def Scanner.setPage (s : Scanner) (side : Side) (page : Page) : Scanner :=
  match side with
  | .front => { s with front := page }
  | .back => { s with back := page }

/-- The status of an exchange with the device that fails. -/
abbrev Failure := { status : SaneStatus // status ≠ .good }

/-- What the device does during one call: its answer to `d3`, the bytes it has ready, and bytes
    6 and 7 of its answer to `43`. -/
structure Call where
  maxLen : Nat
  d3 : Except Failure SaneByte
  read : Except Failure Nat
  report : Except Failure (SaneByte × SaneByte)

/-! ### The start of a scan -/

def Transfer.updateTransferTotals (t : Transfer) : Transfer :=
  { t with totalBytes := t.lineStride * t.imageHeight, rxBytes := 0, done := false }

/-- `fullscan.height` of `change_params`; `max_y` has been converted to 1/1200 inch before. -/
def fullscanHeight (r : ModelRes) (source : Source) (pageHeight : Int) : Int :=
  if source = .flatbed ∨ pageHeight = 0 then
    (r.maxY * 1200 / r.yRes : Nat) * (r.yRes : Int) / 1200
  else (pageHeight + 600) * r.yRes / 1200

/-- `front.width_bytes` of `change_params`, which `back` shares. -/
def pageWidthBytes (r : ModelRes) (mode : Mode) : Nat :=
  let widthPix := r.headWidth * if r.model = .s300 then 1 else 3
  match mode with
  | .color => widthPix * 3
  | .grayscale => widthPix
  | .lineart => widthPix / 8

/-- `sane_start`, for the row of `settings` that `change_params` finds. -/
def start (r : ModelRes) (source : Source) (mode : Mode) (pageHeight : Int) (side : Side) :
    Scanner where
  model := r.model
  source := source
  pageHeight := pageHeight
  xRes := r.xRes
  yRes := r.yRes
  side := side
  fullscan :=
    { done := false
      height := fullscanHeight r source pageHeight
      rxBytes := 0
      widthBytes := r.actWidth * 3
      totalBytes := r.actWidth * 3 * fullscanHeight r source pageHeight }
  block := Transfer.updateTransferTotals ⟨r.actWidth * 3, r.blockHeight, 0, 0, false⟩
  front := ⟨pageWidthBytes r mode, 0, 0, false⟩
  back := ⟨pageWidthBytes r mode, 0, 0, false⟩

/-! ### A block -/

/-- `remainBlock`: an `int` that becomes a `size_t`. -/
def Transfer.remainBlock (t : Transfer) : Nat :=
  ((t.totalBytes - t.rxBytes + 8) % 2 ^ 64).toNat

/-- The amount `read_from_scanner` asks for. -/
def Transfer.asked (t : Transfer) : Nat := min MAX_IMG_PASS t.remainBlock

def readFromScanner (t : Transfer) (read : Except Failure Nat) : SaneStatus × Transfer :=
  if t.asked = 0 then (.inval, t)
  else match read with
    | .error status => (status.val, t)
    | .ok ready =>
        let bytes := min ready t.asked
        if bytes = 0 then (.eof, t)
        else if bytes = t.remainBlock then
          -- the trailer of the block is ignored
          (.good, { t with rxBytes := t.rxBytes + bytes - 8, done := true })
        else (.good, { t with rxBytes := t.rxBytes + bytes })

/-- "Add a periodic row because of non-square pixels". -/
def periodicRow (s : Scanner) (st : Page × Int) (i : Nat) : Page × Int :=
  if s.xRes > s.yRes ∧ (i + st.2) % 9 = 8 then
    ({ st.1 with bytesScanned := st.1.bytesScanned + st.1.widthBytes }, st.2 + 1)
  else st

/-- What `copy_block_to_page` does to the counters of a page. -/
def Scanner.copyBlockToPage (s : Scanner) (side : Side) : Scanner :=
  let page := s.page side
  let height := s.block.totalBytes.tdiv s.block.lineStride
  let rows := (List.range height.toNat).foldl (periodicRow s)
    (page, page.bytesScanned.tdiv page.widthBytes)
  s.setPage side
    { rows.1 with bytesScanned := rows.1.bytesScanned + rows.1.widthBytes * height }

/-- "Block buffer bigger than remainder of scan, shrink block". -/
def Scanner.shrinkBlock (s : Scanner) : Scanner :=
  let remainTotal := s.fullscan.totalBytes - s.fullscan.rxBytes
  if remainTotal < s.block.totalBytes then
    { s with block := { s.block with totalBytes := remainTotal } }
  else s

/-- The length the device reports, in full blocks. -/
def Scanner.wholeBlocks (s : Scanner) (report : SaneByte × SaneByte) : Int :=
  let get : Int := (report.1.toNat <<< 8 ||| report.2.toNat : Nat)
  if get % s.block.imageHeight ≠ 0 then
    get + (s.block.imageHeight - get % s.block.imageHeight)
  else get

/-- "Autodetect mode, check for change length". -/
def Scanner.autodetect (s : Scanner) (report : SaneByte × SaneByte) : Scanner :=
  if s.source ≠ .flatbed ∧ s.pageHeight = 0 ∧ s.wholeBlocks report < s.fullscan.height then
    { s with fullscan :=
        { s.fullscan with totalBytes := s.fullscan.widthBytes * s.wholeBlocks report } }
  else s

/-- The block is part of the scan. -/
def Scanner.countBlock (s : Scanner) : Scanner :=
  { s with fullscan := { s.fullscan with rxBytes := s.fullscan.rxBytes + s.block.rxBytes } }

/-- "Reset for next pass", and the test whether the scan is finished. -/
def Scanner.nextBlock (s : Scanner) : Scanner :=
  { s with
    block := s.block.updateTransferTotals
    fullscan := { s.fullscan with
      done := s.fullscan.done || s.fullscan.rxBytes == s.fullscan.totalBytes } }

/-- The pages the data of a block of the S300 go to. -/
def Scanner.copyBlock (s : Scanner) : Scanner :=
  let s :=
    if s.source = .adfDuplex ∨ s.source = .adfBack then s.copyBlockToPage .back else s
  if s.source ≠ .adfBack then s.copyBlockToPage .front else s

/-! ### A call of `sane_read` -/

/-- The block buffer is empty: shrink the block and send `d3`. -/
def Scanner.startBlock (s : Scanner) (c : Call) : SaneStatus × Scanner :=
  if s.block.rxBytes ≠ 0 then (.good, s)
  else
    let s := s.shrinkBlock
    match s.model, c.d3 with
    | .fi60f, _ => (.good, s)
    | .s300, .error status => (status.val, s)
    | .s300, .ok stat => if stat ≠ 6 then (.ioError, s) else (.good, s)

/-- The block buffer is full. -/
def Scanner.endBlock (s : Scanner) (c : Call) : SaneStatus × Scanner :=
  let s := { s with block := { s.block with done := false } }
  match s.model, c.report with
  | .fi60f, _ => (.good, (s.copyBlockToPage .front).countBlock.nextBlock)
  | .s300, .error status => (status.val, s)
  | .s300, .ok report => (.good, (s.copyBlock.countBlock.autodetect report).nextBlock)

/-- "Scan not finished, get more into block buffer". -/
def Scanner.acquire (s : Scanner) (c : Call) : SaneStatus × Scanner :=
  match s.startBlock c with
  | (.good, s) =>
      match readFromScanner s.block c.read with
      | (.good, block) =>
          if block.done then { s with block := block }.endBlock c
          else (.good, { s with block := block })
      | (status, block) => (status, { s with block := block })
  | (status, s) => (status, s)

/-- The bytes of the page that go to the frontend. -/
def Scanner.deliver (s : Scanner) (maxLen : Nat) : Int × Scanner :=
  let page := s.page s.side
  let len := min (page.bytesScanned - page.bytesRead) maxLen
  if len = 0 then (len, s)
  else
    let page := { page with bytesRead := page.bytesRead + len }
    (len, s.setPage s.side
      { page with done :=
          page.done || (s.fullscan.done && page.bytesRead == page.bytesScanned) })

/-- `sane_read` of a scanner that has been started. -/
def saneRead (s : Scanner) (c : Call) : SaneStatus × Int × Scanner :=
  if (s.page s.side).done then (.eof, 0, s)
  else
    match if s.fullscan.done then (.good, s) else s.acquire c with
    | (.good, s) => (.good, s.deliver c.maxLen)
    | (status, s) => (status, 0, s)

end SaneBackends.Epjitsu
