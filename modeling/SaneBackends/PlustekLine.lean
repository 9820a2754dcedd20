import SaneBackends.CountLoops
import SaneBackends.Dda
import SaneBackends.DoubleRounding
import SaneBackends.LineWalk
import SaneBackends.SaneTypes

/-!
# Plustek-USB: copying and scaling a line

The line functions take a physical line out of the scan buffer, average neighbouring pixels for
some sources, and write the line of the user, from its end for an ADF.  The samples of the three
colours are interleaved (CCD) or lie in three planes (CIS); words come with the high byte first.
-/

namespace SaneBackends.PlustekLine

open CountLoops LineWalk

/-! ### What the functions read -/

/-- `SOURCE_…`. -/
inductive Source where
  | reflection
  | transparency
  | negative
  | adf
deriving DecidableEq, Repr

inductive Channel where
  | red
  | green
  | blue
deriving DecidableEq, Repr

/-- The value of `fGrayFromColor` for a channel. -/
def Channel.code : Channel → Nat
  | .red => 1
  | .green => 2
  | .blue => 3

/-- The fields of `ScanDef` the line functions read: `sParam`, `dwFlag & SCANFLAG_RightAlign`, and
    where `Red`, `Green` and `Blue` point to in the scan buffer.  The resolutions are `u_short`
    values of a physical line that is not empty. -/
structure ScanDef where
  bSource : Source
  phyDpi : Nat
  userDpi : Nat
  dwPixels : Nat
  dwPhyPixels : Nat
  dwBytes : Nat
  rightAlign : Bool
  fGrayFromColor : Nat
  red : Nat
  green : Nat
  blue : Nat
  phyDpi_pos : 0 < phyDpi
  phyDpi_lt : phyDpi < 2 ^ 16
  userDpi_pos : 0 < userDpi
  dwPhyPixels_pos : 0 < dwPhyPixels

/-- What is the same for all lines: `usb_HostSwap()`, `Shift` and `bShift`. -/
structure Host where
  swap : Bool
  shift : Nat
  bShift : Nat

def ScanDef.start (scan : ScanDef) : Channel → Nat
  | .red => scan.red
  | .green => scan.green
  | .blue => scan.blue

/-- `bSource == SOURCE_ADF`. -/
def ScanDef.backwards (scan : ScanDef) : Bool := scan.bSource == .adf

def ScanDef.ls (scan : ScanDef) (host : Host) : Nat := if scan.rightAlign then host.shift else 0

/-- The condition of the averaging functions. -/
def ScanDef.averages (scan : ScanDef) : Bool :=
  (scan.bSource == .negative || scan.bSource == .transparency) && decide (800 < scan.phyDpi)

abbrev ScanBuf := List SaneByte

/-- A pixel of the line of the user. -/
inductive UserPixel where
  | gray (value : Nat)
  | rgb (red green blue : Nat)
deriving DecidableEq, Repr

abbrev UserLine := List UserPixel

/-! ### Samples -/

/-- The `u_char` at byte `o`. -/
def byteAt (buf : ScanBuf) (o : Nat) : Except Fault Nat := do
  return (← cellAt buf o).toNat

/-- `_HILO2WORD` of the two bytes at `o`. -/
def hiLoWord (buf : ScanBuf) (o : Nat) : Except Fault Nat := do
  return (← cellAt buf o).toNat * 256 + (← cellAt buf (o + 1)).toNat

/-- `_LOHI2WORD` of the two bytes at `o`. -/
def loHiWord (buf : ScanBuf) (o : Nat) : Except Fault Nat := do
  return (← cellAt buf (o + 1)).toNat * 256 + (← cellAt buf o).toNat

/-- The `u_short` at byte `o`, in the byte order of the host. -/
def hostWord (host : Host) (buf : ScanBuf) (o : Nat) : Except Fault Nat :=
  if host.swap then loHiWord buf o else hiLoWord buf o

/-- Stores a `u_short` in the byte order of the host. -/
def storeHostWord (host : Host) (buf : ScanBuf) (o v : Nat) : Except Fault ScanBuf := do
  let low := BitVec.ofNat 8 v
  let high := BitVec.ofNat 8 (v / 256)
  let buf ← setCell buf o (if host.swap then low else high)
  setCell buf (o + 1) (if host.swap then high else low)

/-- `x.pb[i]`. -/
def pb (buf : ScanBuf) (x i : Nat) : Except Fault Nat := byteAt buf (x + i)

/-- `x.pcb[i].a_bColor[k]`. -/
def pcb (buf : ScanBuf) (x i k : Nat) : Except Fault Nat := byteAt buf (x + 3 * i + k)

/-- `_HILO2WORD(x.pcw[i].HiLo[0])`. -/
def pcw (buf : ScanBuf) (x i : Nat) : Except Fault Nat := hiLoWord buf (x + 6 * i)

/-- `x.pw[i]`. -/
def pw (host : Host) (buf : ScanBuf) (x i : Nat) : Except Fault Nat := hostWord host buf (x + 2 * i)

/-- `_HILO2WORD` of `x.philo[i]`, or of the two bytes of `x.pw[i]`. -/
def philo (buf : ScanBuf) (x i : Nat) : Except Fault Nat := hiLoWord buf (x + 2 * i)

/-! ### The averaging functions -/

/-- Each byte becomes the mean of itself and the next one of its channel, `stride` bytes on. -/
def averageBytes (stride : Nat) (starts : List Nat) (n : Nat) (buf : ScanBuf) :
    Except Fault ScanBuf :=
  turns (fun dw buf => starts.foldlM (fun buf x => do
    let a ← byteAt buf (x + stride * dw)
    let b ← byteAt buf (x + stride * (dw + 1))
    setCell buf (x + stride * dw) (BitVec.ofNat 8 ((a + b) / 2))) buf) (n - 1) buf

/-- `x.Colors = _HILO2WORD(x.HiLo) >> 2`. -/
def shiftRight (host : Host) (buf : ScanBuf) (o : Nat) : Except Fault ScanBuf := do
  storeHostWord host buf o ((← hiLoWord buf o) >>> 2)

/-- `x.Colors = _HILO2WORD(x.HiLo) << 2`. -/
def shiftLeft (host : Host) (buf : ScanBuf) (o : Nat) : Except Fault ScanBuf := do
  storeHostWord host buf o ((← hiLoWord buf o) <<< 2)

/-- `x.Colors = (x.Colors + y.Colors) / 2`. -/
def meanWord (host : Host) (buf : ScanBuf) (x y : Nat) : Except Fault ScanBuf := do
  let a ← hostWord host buf x
  let b ← hostWord host buf y
  storeHostWord host buf x ((a + b) / 2)

def averageWords (host : Host) (stride : Nat) (starts : List Nat) (n : Nat) (buf : ScanBuf) :
    Except Fault ScanBuf := do
  let buf ← starts.foldlM (fun buf x => shiftRight host buf x) buf
  let buf ← turns (fun dw buf => do
    let buf ← starts.foldlM (fun buf x => shiftRight host buf (x + stride * (dw + 1))) buf
    let buf ← starts.foldlM
      (fun buf x => meanWord host buf (x + stride * dw) (x + stride * (dw + 1))) buf
    starts.foldlM (fun buf x => shiftLeft host buf (x + stride * dw)) buf) (n - 1) buf
  starts.foldlM (fun buf x => shiftLeft host buf (x + stride * (n - 1))) buf

def usbAverageColorByte (scan : ScanDef) (buf : ScanBuf) : Except Fault ScanBuf :=
  if scan.averages then averageBytes 3 [scan.red, scan.green, scan.blue] scan.dwPhyPixels buf
  else .ok buf

def usbAverageColorWord (host : Host) (scan : ScanDef) (buf : ScanBuf) : Except Fault ScanBuf :=
  if scan.averages then averageWords host 6 [scan.red, scan.green, scan.blue] scan.dwPhyPixels buf
  else .ok buf

def usbAverageGrayByte (scan : ScanDef) (buf : ScanBuf) : Except Fault ScanBuf :=
  if scan.averages then averageBytes 1 [scan.green] scan.dwPhyPixels buf else .ok buf

def usbAverageGrayWord (host : Host) (scan : ScanDef) (buf : ScanBuf) : Except Fault ScanBuf :=
  if scan.averages then averageWords host 2 [scan.green] scan.dwPhyPixels buf else .ok buf

/-! ### The loops -/

def scaler : Nat := 1000

/-- `(int)(1.0 / ratio * _SCALER)`. -/
def usbGetScaler (scan : ScanDef) : Nat :=
  DoubleRounding.scaledReciprocal scan.userDpi scan.phyDpi scaler

section Loops

variable {κ : Type} (scan : ScanDef)

/-- `for (bitsput = 0, ddax = 0; dw; bitsput++)` around the loop that writes the pixels.  What is
    kept of source pixel `bitsput` for the next one is `keep bitsput`. -/
def scaleKeeping (kept : κ) (pixel : κ → Nat → Nat → Except Fault UserPixel)
    (keep : Nat → Except Fault κ) (user : UserLine) : Except Fault UserLine := do
  let izoom := usbGetScaler scan
  let s ← Dda.scale scaler izoom
    (fun bitsput dw (s : κ × Int × UserLine) => do
      return (s.1, ← put scan.backwards (← pixel s.1 bitsput dw) s.2))
    (fun bitsput s => do return (← keep bitsput, s.2))
    .outOfBounds (scan.dwPixels * izoom + 1) 0 scan.dwPixels 0
    (kept, start scan.backwards scan.dwPixels, user)
  return s.2.2

/-- The loop of the functions that keep nothing. -/
def scaleLine (pixel : Nat → Nat → Except Fault UserPixel) (user : UserLine) :
    Except Fault UserLine :=
  scaleKeeping scan () (fun _ => pixel) (fun _ => .ok ()) user

/-- `for (dw = 0; dw < dwPixels; dw++, pixels += next)`. -/
def copyKeeping (kept : κ) (pixel : κ → Nat → Except Fault UserPixel) (keep : Nat → Except Fault κ)
    (user : UserLine) : Except Fault UserLine := do
  let s ← turns
    (fun dw (s : κ × Int × UserLine) => do
      let s' ← put scan.backwards (← pixel s.1 dw) s.2
      return (← keep dw, s'))
    scan.dwPixels (kept, start scan.backwards scan.dwPixels, user)
  return s.2.2

def copyLine (pixel : Nat → Except Fault UserPixel) (user : UserLine) : Except Fault UserLine :=
  copyKeeping scan () (fun _ => pixel) (fun _ => .ok ()) user

end Loops

/-! ### The pixels -/

/-- One sample of each channel. -/
def rgbOf (scan : ScanDef) (sample : Nat → Except Fault Nat) : Except Fault UserPixel := do
  return .rgb (← sample scan.red) (← sample scan.green) (← sample scan.blue)

def grayOf (sample : Except Fault Nat) : Except Fault UserPixel := do
  return .gray (← sample)

/-- The 16 bit sample of an interleaved line. -/
def colorWord (host : Host) (scan : ScanDef) (buf : ScanBuf) (x i : Nat) : Except Fault Nat := do
  if host.swap then return (← pcw buf x i) >>> scan.ls host
  else return (← pw host buf x i) >>> scan.ls host

/-- The 16 bit sample of a line in planes. -/
def planeWord (host : Host) (scan : ScanDef) (buf : ScanBuf) (x i : Nat) : Except Fault Nat := do
  if host.swap then return (← philo buf x i) >>> scan.ls host
  else return (← pw host buf x i) >>> scan.ls host

/-- The 16 bit sample of a gray line, `_PHILO2WORD` or `_PLOHI2WORD`. -/
def grayWord (host : Host) (scan : ScanDef) (buf : ScanBuf) (i : Nat) : Except Fault Nat := do
  if host.swap then return (← philo buf scan.green i) >>> scan.ls host
  else return (← loHiWord buf (scan.green + 2 * i)) >>> scan.ls host

/-- `(kept + sample) << bShift` as `u_short`. -/
def pseudo (host : Host) (kept sample : Nat) : Nat := ((kept + sample) <<< host.bShift) % 65536

/-- The pixel of `usb_ColorScalePseudo16` and of `usb_ColorDuplicatePseudo16`. -/
def pseudoPixel (host : Host) (scan : ScanDef) (buf : ScanBuf) (kept : Nat × Nat × Nat) (i : Nat) :
    Except Fault UserPixel := do
  return .rgb (pseudo host kept.1 (← pcb buf scan.red i 0))
    (pseudo host kept.2.1 (← pcb buf scan.green i 0))
    (pseudo host kept.2.2 (← pcb buf scan.blue i 0))

/-- `wR`, `wG` and `wB` behind source pixel `i`. -/
def pseudoKeep (scan : ScanDef) (buf : ScanBuf) (i : Nat) : Except Fault (Nat × Nat × Nat) := do
  return (← pcb buf scan.red i 0, ← pcb buf scan.green i 0, ← pcb buf scan.blue i 0)

/-- `switch (fGrayFromColor)` of the functions that take green for any other value. -/
def ScanDef.grayChannel (scan : ScanDef) : Channel :=
  match scan.fGrayFromColor with
  | 1 => .red
  | 3 => .blue
  | _ => .green

/-- `switch (fGrayFromColor)` of the functions that do nothing for any other value. -/
def ScanDef.grayCase (scan : ScanDef) : Option Channel :=
  match scan.fGrayFromColor with
  | 1 => some .red
  | 2 => some .green
  | 3 => some .blue
  | _ => none

end SaneBackends.PlustekLine
