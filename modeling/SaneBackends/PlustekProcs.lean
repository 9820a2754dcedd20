import SaneBackends.PlustekLine

/-!
# Plustek-USB: the line functions

The functions that copy a line and the functions that scale it, and the selection of one of them.
Each leaves the scan buffer and the line of the user.
-/

namespace SaneBackends.PlustekLine

open LineWalk

/-- A line function. -/
abbrev LineProc := ScanBuf → UserLine → Except Fault (ScanBuf × UserLine)

variable (host : Host) (scan : ScanDef)

/-! ### The copy functions -/

def usbColorDuplicate8 : LineProc := fun buf user => do
  let buf ← usbAverageColorByte scan buf
  return (buf, ← copyLine scan (fun dw => rgbOf scan fun x => pcb buf x dw 0) user)

def usbColorDuplicate8_2 : LineProc := fun buf user => do
  return (buf, ← copyLine scan (fun dw => rgbOf scan fun x => pb buf x dw) user)

def usbColorDuplicate16 : LineProc := fun buf user => do
  let buf ← usbAverageColorWord host scan buf
  return (buf, ← copyLine scan (fun dw => rgbOf scan fun x => colorWord host scan buf x dw) user)

def usbColorDuplicate16_2 : LineProc := fun buf user => do
  let buf ← usbAverageColorWord host scan buf
  return (buf, ← copyLine scan (fun dw => rgbOf scan fun x => planeWord host scan buf x dw) user)

def usbColorDuplicatePseudo16 : LineProc := fun buf user => do
  let buf ← usbAverageColorByte scan buf
  let wR ← pcb buf scan.red 0 0
  let wG ← pcb buf scan.green 0 0
  let wB ← pcb buf scan.blue 0 0
  return (buf, ← copyKeeping scan (wR, wG, wB) (pseudoPixel host scan buf)
    (pseudoKeep scan buf) user)

def usbColorDuplicateGray : LineProc := fun buf user => do
  let buf ← usbAverageColorByte scan buf
  match scan.grayCase with
  | some c => return (buf, ← copyLine scan (fun dw => grayOf (pcb buf (scan.start c) dw 0)) user)
  | none => return (buf, user)

def usbColorDuplicateGray_2 : LineProc := fun buf user => do
  let buf ← usbAverageColorByte scan buf
  return (buf, ← copyLine scan (fun dw => grayOf (pb buf (scan.start scan.grayChannel) dw)) user)

def usbColorDuplicateGray16 : LineProc := fun buf user => do
  let buf ← usbAverageColorWord host scan buf
  match scan.grayCase with
  | some c =>
    return (buf,
      ← copyLine scan (fun dw => grayOf (colorWord host scan buf (scan.start c) dw)) user)
  | none => return (buf, user)

def usbColorDuplicateGray16_2 : LineProc := fun buf user => do
  let buf ← usbAverageColorWord host scan buf
  match scan.grayCase with
  | some c =>
    return (buf,
      ← copyLine scan (fun dw => grayOf (planeWord host scan buf (scan.start c) dw)) user)
  | none => return (buf, user)

/-- `memcpy` of `n` bytes to the line of the user. -/
def copyBytes (buf : ScanBuf) (x n : Nat) (user : UserLine) : Except Fault UserLine := do
  storeCells user 0 ((← loadCells buf x n).map fun v => .gray v.toNat)

def usbGrayDuplicate8 : LineProc := fun buf user => do
  let buf ← usbAverageGrayByte scan buf
  if scan.backwards then return (buf, ← copyLine scan (fun i => grayOf (pb buf scan.green i)) user)
  else return (buf, ← copyBytes buf scan.green scan.dwBytes user)

def usbGrayDuplicate16 : LineProc := fun buf user => do
  let buf ← usbAverageGrayWord host scan buf
  return (buf, ← copyLine scan (fun i => grayOf (grayWord host scan buf i)) user)

def usbGrayDuplicatePseudo16 : LineProc := fun buf user => do
  let buf ← usbAverageGrayByte scan buf
  let g ← pb buf scan.green 0
  return (buf, ← copyKeeping scan g
    (fun g i => do return .gray (pseudo host g (← pb buf scan.green i)))
    (fun i => pb buf scan.green i) user)

/-! ### The scaling functions -/

def usbColorScaleGray : LineProc := fun buf user => do
  let buf ← usbAverageColorByte scan buf
  return (buf,
    ← scaleLine scan (fun i _ => grayOf (pcb buf (scan.start scan.grayChannel) i 0)) user)

def usbColorScaleGray_2 : LineProc := fun buf user => do
  let buf ← usbAverageColorByte scan buf
  return (buf, ← scaleLine scan (fun i _ => grayOf (pb buf (scan.start scan.grayChannel) i)) user)

def usbColorScaleGray16 : LineProc := fun buf user => do
  let buf ← usbAverageColorByte scan buf
  match scan.grayCase with
  | some c =>
    return (buf, ← scaleLine scan
      (fun bitsput _ => grayOf (colorWord host scan buf (scan.start c) bitsput)) user)
  | none => return (buf, user)

/-- The word of `usb_ColorScaleGray16_2`.  For red the host that does not swap reads `pw[dw]`. -/
def scaleGray16Word (buf : ScanBuf) (c : Channel) (bitsput dw : Nat) : Except Fault Nat :=
  if c = .red && !host.swap then do return (← pw host buf scan.red dw) >>> scan.ls host
  else planeWord host scan buf (scan.start c) bitsput

def usbColorScaleGray16_2 : LineProc := fun buf user => do
  let buf ← usbAverageColorByte scan buf
  match scan.grayCase with
  | some c =>
    return (buf, ← scaleLine scan
      (fun bitsput dw => grayOf (scaleGray16Word host scan buf c bitsput dw)) user)
  | none => return (buf, user)

def usbColorScale8 : LineProc := fun buf user => do
  let buf ← usbAverageColorByte scan buf
  return (buf, ← scaleLine scan (fun bitsput _ => rgbOf scan fun x => pcb buf x bitsput 0) user)

def usbColorScale8_2 : LineProc := fun buf user => do
  return (buf, ← scaleLine scan (fun bitsput _ => rgbOf scan fun x => pb buf x bitsput) user)

def usbColorScale16 : LineProc := fun buf user => do
  let buf ← usbAverageColorWord host scan buf
  return (buf, ← scaleLine scan
    (fun bitsput _ => rgbOf scan fun x => colorWord host scan buf x bitsput) user)

def usbColorScale16_2 : LineProc := fun buf user => do
  let buf ← usbAverageColorWord host scan buf
  return (buf, ← scaleLine scan
    (fun bitsput _ => rgbOf scan fun x => planeWord host scan buf x bitsput) user)

/-- The first values kept are bytes 0, 1 and 2 of `a_bColor`. -/
def usbColorScalePseudo16 : LineProc := fun buf user => do
  let buf ← usbAverageColorByte scan buf
  let wR ← pcb buf scan.red 0 0
  let wG ← pcb buf scan.green 0 1
  let wB ← pcb buf scan.blue 0 2
  return (buf, ← scaleKeeping scan (wR, wG, wB)
    (fun kept bitsput _ => pseudoPixel host scan buf kept bitsput) (pseudoKeep scan buf) user)

def usbGrayScale8 : LineProc := fun buf user => do
  let buf ← usbAverageGrayByte scan buf
  return (buf, ← scaleLine scan (fun i _ => grayOf (pb buf scan.green i)) user)

def usbGrayScale16 : LineProc := fun buf user => do
  let buf ← usbAverageGrayWord host scan buf
  return (buf, ← scaleLine scan (fun i _ => grayOf (grayWord host scan buf i)) user)

def usbGrayScalePseudo16 : LineProc := fun buf user => do
  let buf ← usbAverageGrayByte scan buf
  let g ← pb buf scan.green 0
  return (buf, ← scaleKeeping scan g
    (fun g i _ => do return .gray (pseudo host g (← pb buf scan.green i)))
    (fun i => pb buf scan.green i) user)

/-! ### The selection -/

/-- A pair of functions, one that copies and one that scales. -/
inductive LineKind where
  | color8
  | color8_2
  | color16
  | color16_2
  | colorPseudo16
  | colorGray
  | colorGray_2
  | colorGray16
  | colorGray16_2
  | gray8
  | gray16
  | grayPseudo16
deriving DecidableEq, Repr

/-- The function that copies. -/
def LineKind.duplicate (kind : LineKind) : LineProc :=
  match kind with
  | .color8 => usbColorDuplicate8 scan
  | .color8_2 => usbColorDuplicate8_2 scan
  | .color16 => usbColorDuplicate16 host scan
  | .color16_2 => usbColorDuplicate16_2 host scan
  | .colorPseudo16 => usbColorDuplicatePseudo16 host scan
  | .colorGray => usbColorDuplicateGray scan
  | .colorGray_2 => usbColorDuplicateGray_2 scan
  | .colorGray16 => usbColorDuplicateGray16 host scan
  | .colorGray16_2 => usbColorDuplicateGray16_2 host scan
  | .gray8 => usbGrayDuplicate8 scan
  | .gray16 => usbGrayDuplicate16 host scan
  | .grayPseudo16 => usbGrayDuplicatePseudo16 host scan

/-- The function that scales. -/
def LineKind.scale (kind : LineKind) : LineProc :=
  match kind with
  | .color8 => usbColorScale8 scan
  | .color8_2 => usbColorScale8_2 scan
  | .color16 => usbColorScale16 host scan
  | .color16_2 => usbColorScale16_2 host scan
  | .colorPseudo16 => usbColorScalePseudo16 host scan
  | .colorGray => usbColorScaleGray scan
  | .colorGray_2 => usbColorScaleGray_2 scan
  | .colorGray16 => usbColorScaleGray16 host scan
  | .colorGray16_2 => usbColorScaleGray16_2 host scan
  | .gray8 => usbGrayScale8 scan
  | .gray16 => usbGrayScale16 host scan
  | .grayPseudo16 => usbGrayScalePseudo16 host scan

/-- The functions for packed bits. -/
inductive BitKind where
  | bw
  | bwFromColor
  | bwFromColor_2
deriving DecidableEq, Repr

/-- `SCANDATATYPE_…`. -/
inductive DataType where
  | bw
  | gray
  | color
deriving DecidableEq, Repr

/-- What `usb_GetImageProc` reads beside `ScanDef`. -/
structure Mode where
  bDataType : DataType
  bBitDepth : Nat
  pseudo48 : Bool
  isCIS : Bool
  /-- `_WAF_BSHIFT7_BUG` is set. -/
  bShift7Bug : Bool
  /-- The chip is an LM9833. -/
  lm9833 : Bool

/-- The pair of functions `usb_GetImageProc` takes one of. -/
def Mode.kind (mode : Mode) : LineKind ⊕ BitKind :=
  match mode.bDataType with
  | .color =>
    if 8 < mode.bBitDepth then
      if scan.fGrayFromColor ≠ 0 then
        .inl (if mode.isCIS then .colorGray16_2 else .colorGray16)
      else .inl (if mode.isCIS then .color16_2 else .color16)
    else if mode.pseudo48 then .inl .colorPseudo16
    else if scan.fGrayFromColor ≠ 0 then
      if mode.isCIS then
        if 7 < scan.fGrayFromColor then .inr .bwFromColor_2 else .inl .colorGray_2
      else if 7 < scan.fGrayFromColor then .inr .bwFromColor else .inl .colorGray
    else .inl (if mode.isCIS then .color8_2 else .color8)
  | .gray =>
    if 8 < mode.bBitDepth then .inl .gray16
    else if mode.pseudo48 then .inl .grayPseudo16 else .inl .gray8
  | .bw => .inr .bw

/-- `usb_GetImageProc`: whether the line is scaled, the pair of functions, and the file's
    variables. -/
def usbGetImageProc (swap : Bool) (mode : Mode) : Bool × (LineKind ⊕ BitKind) × Host :=
  let bShift :=
    if mode.bBitDepth = 8 && mode.pseudo48 then
      if scan.rightAlign then 5 else if mode.bShift7Bug then 0 else 7
    else 0
  (scan.userDpi ≠ scan.phyDpi, mode.kind scan, ⟨swap, if mode.lm9833 then 0 else 2, bShift⟩)

end SaneBackends.PlustekLine
