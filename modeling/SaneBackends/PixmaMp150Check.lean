import SaneBackends.PixmaMp150Line

/-!
# The parameters of an MP150 scan

`mp150_check_param` of `backend/pixma_mp150.c` and `pixma_check_scan_param` of
`backend/pixma_common.c`, which calls it twice.
-/

namespace SaneBackends.Pixma

def MP150_PID := 0x1709
def MP170_PID := 0x170a
def MP450_PID := 0x170b
def MP500_PID := 0x170c
def MP530_PID := 0x1712
def MP180_PID := 0x1715
def MP460_PID := 0x1716
def MP510_PID := 0x1717
def MP210_PID := 0x1721
def MP470_PID := 0x1723
def MP520_PID := 0x1724
def MP610_PID := 0x1725
def MX300_PID := 0x1727
def MX310_PID := 0x1728
def MX700_PID := 0x1729
def MX850_PID := 0x172c
def MP630_PID := 0x172e
def MP620_PID := 0x172f
def MP540_PID := 0x1730
def MP480_PID := 0x1731
def MP240_PID := 0x1732
def MP260_PID := 0x1733
def MP190_PID := 0x1734
def MX860_PID := 0x1735
def MX320_PID := 0x1736
def MX330_PID := 0x1737
def MP270_PID := 0x173b
def MP490_PID := 0x173c
def MP550_PID := 0x173d
def MP560_PID := 0x173e
def MP640_PID := 0x173f
def MX340_PID := 0x1741
def MX350_PID := 0x1742
def MX870_PID := 0x1743
def MP280_PID := 0x1746
def MP495_PID := 0x1747
def MG5100_PID := 0x1748
def MG5200_PID := 0x1749
def MG6100_PID := 0x174a
def MX410_PID := 0x174e
def MX420_PID := 0x174f
def MX880_PID := 0x1750
def MG2100_PID := 0x1751
def MG3100_PID := 0x1752
def MG4100_PID := 0x1753
def MG6200_PID := 0x1755
def MP493_PID := 0x1757
def E500_PID := 0x1758
def MX430_PID := 0x175b
def MX510_PID := 0x175c
def MX710_PID := 0x175d
def MX890_PID := 0x175e
def E600_PID := 0x175a

def PIXMA_CAP_GRAY : Nat := 1 <<< 1
def PIXMA_CAP_ADF : Nat := 1 <<< 2
def PIXMA_CAP_TPU : Nat := 1 <<< 6
def PIXMA_CAP_ADFDUP : Nat := 1 <<< 7 ||| PIXMA_CAP_ADF
def PIXMA_CAP_CIS : Nat := 0
def PIXMA_CAP_CCD : Nat := 1 <<< 8

/-- `pixma_config_t`, with the capabilities that are read below. -/
structure PixmaConfig where
  pid : Nat
  xdpi : Nat
  ydpi : Nat
  extMinDpi : Nat
  extMaxDpi : Nat
  width : Nat
  height : Nat
  cap : Nat
deriving DecidableEq

def DEVICE (pid dpi extMinDpi extMaxDpi w h cap : Nat) : PixmaConfig :=
  ⟨pid, dpi, 2 * dpi, extMinDpi, extMaxDpi, w, h, PIXMA_CAP_GRAY ||| cap⟩

def pixmaMp150Devices : List PixmaConfig :=
  [DEVICE MP150_PID 1200 0 0 638 877 PIXMA_CAP_CIS,
   DEVICE MP170_PID 1200 0 0 638 877 PIXMA_CAP_CIS,
   DEVICE MP450_PID 1200 0 0 638 877 PIXMA_CAP_CIS,
   DEVICE MP500_PID 1200 0 0 638 877 PIXMA_CAP_CIS,
   DEVICE MP530_PID 1200 0 0 638 877 (PIXMA_CAP_CIS ||| PIXMA_CAP_ADF),
   DEVICE MP800_PID 2400 150 0 638 877 (PIXMA_CAP_CCD ||| PIXMA_CAP_TPU),
   DEVICE MP800R_PID 2400 150 0 638 877 (PIXMA_CAP_CCD ||| PIXMA_CAP_TPU),
   DEVICE MP830_PID 2400 150 0 638 877 (PIXMA_CAP_CCD ||| PIXMA_CAP_ADFDUP),
   DEVICE MP140_PID 600 0 0 638 877 PIXMA_CAP_CIS,
   DEVICE MP160_PID 600 0 0 638 877 PIXMA_CAP_CIS,
   DEVICE MP180_PID 1200 0 0 638 877 PIXMA_CAP_CIS,
   DEVICE MP460_PID 1200 0 0 638 877 PIXMA_CAP_CIS,
   DEVICE MP510_PID 1200 0 0 638 877 PIXMA_CAP_CIS,
   DEVICE MP600_PID 2400 0 0 638 877 PIXMA_CAP_CIS,
   DEVICE MP600R_PID 2400 0 0 638 877 PIXMA_CAP_CIS,
   DEVICE MP210_PID 600 0 0 638 877 PIXMA_CAP_CIS,
   DEVICE MP220_PID 1200 0 0 638 877 PIXMA_CAP_CIS,
   DEVICE MP470_PID 2400 0 0 638 877 PIXMA_CAP_CIS,
   DEVICE MP520_PID 2400 0 0 638 877 PIXMA_CAP_CIS,
   DEVICE MP610_PID 4800 0 0 638 877 PIXMA_CAP_CIS,
   DEVICE MX300_PID 600 0 0 638 877 PIXMA_CAP_CIS,
   DEVICE MX310_PID 1200 0 0 638 877 (PIXMA_CAP_CIS ||| PIXMA_CAP_ADF),
   DEVICE MX700_PID 2400 0 0 638 877 (PIXMA_CAP_CIS ||| PIXMA_CAP_ADF),
   DEVICE MX850_PID 2400 0 0 638 1050 (PIXMA_CAP_CIS ||| PIXMA_CAP_ADFDUP),
   DEVICE MX7600_PID 4800 0 0 638 1050 (PIXMA_CAP_CIS ||| PIXMA_CAP_ADFDUP),
   DEVICE MP630_PID 4800 0 0 638 877 PIXMA_CAP_CIS,
   DEVICE MP620_PID 2400 0 0 638 877 PIXMA_CAP_CIS,
   DEVICE MP540_PID 2400 0 0 638 877 PIXMA_CAP_CIS,
   DEVICE MP480_PID 2400 0 0 638 877 PIXMA_CAP_CIS,
   DEVICE MP240_PID 1200 0 0 638 877 PIXMA_CAP_CIS,
   DEVICE MP260_PID 1200 0 0 638 877 PIXMA_CAP_CIS,
   DEVICE MP190_PID 600 0 0 638 877 PIXMA_CAP_CIS,
   DEVICE MX320_PID 1200 0 0 638 1050 (PIXMA_CAP_CIS ||| PIXMA_CAP_ADF),
   DEVICE MX330_PID 1200 0 0 638 1050 (PIXMA_CAP_CIS ||| PIXMA_CAP_ADF),
   DEVICE MX860_PID 2400 0 0 638 1050 (PIXMA_CAP_CIS ||| PIXMA_CAP_ADFDUP),
   DEVICE MX860_PID 2400 0 0 638 880 (PIXMA_CAP_CIS ||| PIXMA_CAP_ADFDUP),
   DEVICE MX340_PID 1200 0 0 638 1050 (PIXMA_CAP_CIS ||| PIXMA_CAP_ADF),
   DEVICE MX350_PID 1200 0 0 638 1050 (PIXMA_CAP_CIS ||| PIXMA_CAP_ADF),
   DEVICE MX870_PID 2400 0 0 638 1050 (PIXMA_CAP_CIS ||| PIXMA_CAP_ADFDUP),
   DEVICE MX360_PID 1200 0 0 638 1050 (PIXMA_CAP_CIS ||| PIXMA_CAP_ADF),
   DEVICE MX410_PID 1200 0 0 638 1050 (PIXMA_CAP_CIS ||| PIXMA_CAP_ADF),
   DEVICE MX420_PID 1200 0 0 638 1050 (PIXMA_CAP_CIS ||| PIXMA_CAP_ADF),
   DEVICE MX880_PID 2400 0 0 638 877 (PIXMA_CAP_CIS ||| PIXMA_CAP_ADFDUP),
   DEVICE MP640_PID 4800 0 0 638 877 PIXMA_CAP_CIS,
   DEVICE MP560_PID 2400 0 0 638 877 PIXMA_CAP_CIS,
   DEVICE MP550_PID 2400 0 0 638 877 PIXMA_CAP_CIS,
   DEVICE MP490_PID 1200 0 0 638 877 PIXMA_CAP_CIS,
   DEVICE MP250_PID 600 0 0 638 877 PIXMA_CAP_CIS,
   DEVICE MP270_PID 1200 0 0 638 877 PIXMA_CAP_CIS,
   DEVICE MP280_PID 600 0 0 638 877 PIXMA_CAP_CIS,
   DEVICE MP495_PID 1200 0 0 638 877 PIXMA_CAP_CIS,
   DEVICE MG5100_PID 1200 0 0 638 877 PIXMA_CAP_CIS,
   DEVICE MG5200_PID 2400 0 0 638 877 PIXMA_CAP_CIS,
   DEVICE MG6100_PID 2400 0 0 638 877 PIXMA_CAP_CIS,
   DEVICE MG2100_PID 1200 0 0 638 877 PIXMA_CAP_CIS,
   DEVICE MG3100_PID 1200 0 0 638 877 PIXMA_CAP_CIS,
   DEVICE MG4100_PID 1200 0 0 638 877 PIXMA_CAP_CIS,
   DEVICE MG5300_PID 2400 0 0 638 877 PIXMA_CAP_CIS,
   DEVICE MG6200_PID 4800 0 0 638 877 PIXMA_CAP_CIS,
   DEVICE MP493_PID 1200 0 0 638 877 PIXMA_CAP_CIS,
   DEVICE E500_PID 1200 0 0 638 877 PIXMA_CAP_CIS,
   DEVICE MX370_PID 1200 0 0 638 877 (PIXMA_CAP_CIS ||| PIXMA_CAP_ADF),
   DEVICE MX430_PID 1200 0 0 638 877 (PIXMA_CAP_CIS ||| PIXMA_CAP_ADF),
   DEVICE MX510_PID 1200 0 0 638 877 (PIXMA_CAP_CIS ||| PIXMA_CAP_ADF),
   DEVICE MX710_PID 2400 0 0 638 877 (PIXMA_CAP_CIS ||| PIXMA_CAP_ADFDUP),
   DEVICE MX890_PID 2400 0 0 638 877 (PIXMA_CAP_CIS ||| PIXMA_CAP_ADFDUP),
   DEVICE E600_PID 1200 0 0 638 877 (PIXMA_CAP_CIS ||| PIXMA_CAP_ADF)]

/-- `pixma_scan_param_t` -/
structure ScanParam where
  lineSize : Nat
  channels : Nat
  depth : Nat
  softwareLineart : Bool
  xdpi : Nat
  ydpi : Nat
  x : Nat
  y : Nat
  w : Nat
  h : Nat
  xs : Nat
  wx : Nat
  source : Source
deriving DecidableEq

namespace PixmaConfig

variable (cfg : PixmaConfig)

/-- `generation`, as `mp150_open` sets it. -/
def generation : Nat :=
  if cfg.pid = MP140_PID then 2
  else if MP250_PID ≤ cfg.pid then 4
  else if MX7600_PID ≤ cfg.pid then 3
  else if MP160_PID ≤ cfg.pid then 2
  else 1

def calcRawWidth (sp : ScanParam) : Nat :=
  if 2 ≤ cfg.generation then ALIGN_SUP (sp.w + sp.xs) 32
  else if sp.channels = 1 then ALIGN_SUP (sp.w + sp.xs) 12
  else ALIGN_SUP (sp.w + sp.xs) 4

/-- The depth and the width of black and white or other scans. -/
def checkDepth (sp : ScanParam) : ScanParam :=
  if sp.depth ≠ 1 then
    { sp with softwareLineart := false, depth := if sp.source = .tpu then 16 else 8 }
  else
    let wMax := cfg.width * cfg.xdpi / 75
    let w := if sp.w % 8 ≠ 0 then min (sp.w + (8 - sp.w % 8)) (wMax - wMax % 8) else sp.w
    { sp with softwareLineart := true, depth := 1, channels := 1, w := w }

/-- The raw width, the size of a line and the height. -/
def checkSize (sp : ScanParam) : ScanParam :=
  let sp := { sp with xs := if 2 ≤ cfg.generation then sp.x % 32 else 0 }
  let sp := { sp with
    wx := cfg.calcRawWidth sp
    lineSize := sp.w * sp.channels * ((if sp.softwareLineart then 8 else sp.depth) / 8) }
  if (cfg.pid = MX850_PID ∨ cfg.pid = MX860_PID ∨ cfg.pid = MX870_PID ∨ cfg.pid = MX880_PID ∨
      cfg.pid = MX320_PID ∨ cfg.pid = MX330_PID ∨ cfg.pid = MX340_PID ∨ cfg.pid = MX350_PID ∨
      cfg.pid = MX360_PID ∨ cfg.pid = MX410_PID ∨ cfg.pid = MX420_PID ∨ cfg.pid = MX7600_PID) ∧
      sp.source = .flatbed then
    { sp with h := min sp.h (877 * sp.xdpi / 75) }
  else sp

/-- The resolutions of transparencies begin with 150 or 300 dpi. -/
def checkTpu (sp : ScanParam) : ScanParam :=
  if sp.source = .tpu then
    let k := (if 3 ≤ cfg.generation then max sp.xdpi 300 / sp.xdpi else max sp.xdpi 150 / sp.xdpi)
      % 256
    { sp with
      x := sp.x * k, xs := sp.xs * k, y := sp.y * k, w := sp.w * k, wx := sp.wx * k
      h := sp.h * k, xdpi := sp.xdpi * k, ydpi := sp.xdpi * k }
  else sp

/-- The resolutions of the document feeder end with 600 dpi. -/
def checkAdf (sp : ScanParam) : ScanParam :=
  if sp.source = .adf ∨ sp.source = .adfdup then
    let k := if 4 ≤ cfg.generation then sp.xdpi / min sp.xdpi 600 % 256 else 1
    { sp with
      x := sp.x / k, xs := sp.xs / k, y := sp.y / k, w := sp.w / k, wx := sp.wx / k
      h := sp.h / k, xdpi := sp.xdpi / k, ydpi := sp.xdpi / k }
  else sp

def mp150CheckParam (sp : ScanParam) : ScanParam :=
  cfg.checkAdf (cfg.checkTpu (cfg.checkSize (cfg.checkDepth sp)))

/-- The largest resolution of a source. -/
def cfgXdpi (source : Source) : Nat :=
  if source = .flatbed ∨ cfg.extMaxDpi = 0 then cfg.xdpi else cfg.extMaxDpi

def pixmaCheckDpi (dpi max : Nat) : Bool :=
  let temp := dpi / 75
  !(max < dpi || dpi < 75 || 75 * temp ≠ dpi || temp &&& (temp - 1) ≠ 0)

def CLAMP2 (x w minimum maximum dpi : Nat) : Nat × Nat :=
  let m := maximum * dpi / 75
  let x := min x (m - minimum)
  let w := min w (m - x)
  (x, if w < minimum then minimum else w)

/-- The source, as far as the scanner has it. -/
def checkSource : Source → Source
  | .flatbed => .flatbed
  | .tpu => if cfg.cap &&& PIXMA_CAP_TPU ≠ PIXMA_CAP_TPU then .flatbed else .tpu
  | .adf => if cfg.cap &&& PIXMA_CAP_ADF ≠ PIXMA_CAP_ADF then .flatbed else .adf
  | .adfdup =>
    if cfg.cap &&& PIXMA_CAP_ADFDUP ≠ PIXMA_CAP_ADFDUP then
      if cfg.cap &&& PIXMA_CAP_ADF ≠ 0 then .adf else .flatbed
    else .adfdup

/-- What `pixma_check_scan_param` does between the two calls of `check_param`. -/
def clampParam (sp : ScanParam) : ScanParam :=
  let (x, w) := CLAMP2 sp.x sp.w 13 cfg.width sp.xdpi
  let (y, h) := CLAMP2 sp.y sp.h 8 cfg.height sp.ydpi
  { sp with
    x := x, w := w, y := y, h := h, source := cfg.checkSource sp.source
    depth := if sp.depth = 0 then 8 else sp.depth }

/-- `pixma_check_scan_param`, for the scanners of `pixma_mp150.c`. -/
def pixmaCheckScanParam (sp : ScanParam) : Option ScanParam :=
  if ¬ (sp.channels = 3 ∨ sp.channels = 1 ∧ cfg.cap &&& PIXMA_CAP_GRAY ≠ 0) then none
  else if pixmaCheckDpi sp.xdpi (cfg.cfgXdpi sp.source) = false ∨
      pixmaCheckDpi sp.ydpi cfg.ydpi = false then none
  else if ¬ (sp.xdpi = sp.ydpi ∨ sp.xdpi = cfg.cfgXdpi sp.source ∧ sp.ydpi = cfg.ydpi) then none
  else
    let sp := cfg.clampParam (cfg.mp150CheckParam sp)
    if sp.depth % 8 ≠ 0 ∧ sp.depth ≠ 1 then none
    else
      let sp := cfg.mp150CheckParam { sp with lineSize := 0 }
      some { sp with
        lineSize := if sp.lineSize = 0 then sp.depth / 8 * sp.channels * sp.w else sp.lineSize }

def hasCcdSensor : Bool := cfg.cap &&& PIXMA_CAP_CCD ≠ 0

def isCcdGrayscale (sp : ScanParam) : Bool :=
  cfg.hasCcdSensor && sp.channels == 1 && !sp.softwareLineart

def isCcdLineart (sp : ScanParam) : Bool := cfg.hasCcdSensor && sp.softwareLineart

def getCisCcdLineSize (sp : ScanParam) : Nat :=
  (if sp.wx ≠ 0 then sp.lineSize / sp.w * sp.wx else sp.lineSize) *
    if cfg.isCcdGrayscale sp || cfg.isCcdLineart sp then 3 else 1

/-- The bytes of a pixel, as `post_process_image_data` computes them. -/
def c (sp : ScanParam) : Nat :=
  (if cfg.isCcdGrayscale sp || cfg.isCcdLineart sp then 3 else sp.channels) *
    (if sp.softwareLineart then 8 else sp.depth) / 8

/-- The segments of a raw line. -/
def n (sp : ScanParam) : Nat :=
  if cfg.pid = MP600_PID ∨ cfg.pid = MP600R_PID then sp.xdpi / 1200
  else if 3 ≤ cfg.generation then sp.xdpi / 600
  else sp.xdpi / 2400

/-- The pixels of a segment. -/
def m (sp : ScanParam) : Nat := if 0 < cfg.n sp then sp.wx / cfg.n sp else 1

end PixmaConfig

end SaneBackends.Pixma
