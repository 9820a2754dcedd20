import SaneBackends.GenesysConversion
import SaneBackends.GenesysFill

/-!
# Reading data in the order of the frontend

`genesys_read_ordered_data` of `backend/genesys.c`.  The data goes from the read buffer
through up to three stages, each with a buffer for its output: components are reordered, the
distance of the colour lines is corrected, and lines are shrunk or enlarged.  Each call works
on as many lines as there are and as fit into the buffers.
-/

namespace SaneBackends.Genesys

open LineStages LabelledRun Overwrite

/-! ### The scan -/

inductive ColorOrder where
  | rgb | bgr
deriving DecidableEq, Repr

/-- What is fixed for a scan: the fields of `current_setup`, `settings`, `model` and `motor` that
    are used here.  `pixels` is the width of the raw lines, `settingsPixels` that of the
    image.  No document ends early, so that `total_bytes_to_read` is fixed as well. -/
structure ScanSetup where
  channels : Nat
  channels_cases : channels = 1 ∨ channels = 3
  depth : Nat
  depth_cases : depth = 8 ∨ depth = 16
  pixels : Nat
  settingsPixels : Nat
  isCis : Bool
  lineModeColorOrder : ColorOrder
  ldShiftR : Nat
  ldShiftG : Nat
  ldShiftB : Nat
  yres : Nat
  baseYdpi : Nat
  stagger : Nat
  totalBytesToRead : Nat

inductive BufferName where
  | read | lines | shrink | out
deriving DecidableEq, Repr

/-- The stages, in their order. -/
inductive StageName where
  | reorder | ccd | shrink
deriving DecidableEq, Repr

/-- The buffer for the output of a stage. -/
def StageName.dst : StageName → BufferName
  | .reorder => .lines
  | .ccd => .shrink
  | .shrink => .out

namespace ScanSetup

/-- The bytes of a component. -/
def componentSize (setup : ScanSetup) : Nat := setup.depth / 8

/-- `sanei_genesys_compute_max_shift`. -/
def computeMaxShift (setup : ScanSetup) : Nat :=
  if setup.channels > 1 then
    max (max setup.ldShiftR setup.ldShiftB) setup.ldShiftG * setup.yres / setup.baseYdpi
  else 0

/-- `current_setup.max_shift`. -/
def maxShift (setup : ScanSetup) : Nat := setup.computeMaxShift + setup.stagger

def ccdShift (setup : ScanSetup) : List Nat :=
  if setup.channels = 1 then [0, setup.stagger]
  else
    let r := setup.ldShiftR * setup.yres / setup.baseYdpi
    let g := setup.ldShiftG * setup.yres / setup.baseYdpi
    let b := setup.ldShiftB * setup.yres / setup.baseYdpi
    [r, g, b, r + setup.stagger, g + setup.stagger, b + setup.stagger]

/-- `needs_reorder`, on a little endian machine. -/
def needsReorder (setup : ScanSetup) : Bool :=
  let chunky := !setup.isCis && setup.lineModeColorOrder == .rgb
  !(setup.channels != 3 && setup.depth != 16) && !(setup.channels != 3 && setup.depth == 16) &&
    !(setup.channels == 3 && setup.depth == 16 && chunky) &&
    !(setup.channels == 3 && setup.depth == 8 && chunky)

/-- `needs_reorder`, `needs_ccd` and `needs_shrink`. -/
def needs (setup : ScanSetup) : StageName → Bool
  | .reorder => setup.needsReorder
  | .ccd => setup.maxShift > 0
  | .shrink => setup.settingsPixels ≠ setup.pixels

def stages (setup : ScanSetup) : List StageName :=
  [.reorder, .ccd, .shrink].filter setup.needs

def shrinkParams (setup : ScanSetup) : Shrink where
  bytes := setup.componentSize
  channels := setup.channels
  srcPixels := setup.pixels
  dstPixels := setup.settingsPixels

/-- What a stage does with a number of lines.  Chunky pixels are not reordered. -/
def convert (setup : ScanSetup) : StageName → Nat → List SaneByte → Option (List SaneByte)
  | .reorder =>
    match setup.isCis, setup.lineModeColorOrder with
    | true, .rgb => reorderComponentsCis setup.componentSize setup.pixels
    | true, .bgr => reorderComponentsCisBgr setup.componentSize setup.pixels
    | false, .bgr => reorderComponentsBgr setup.componentSize setup.pixels
    | false, .rgb => fun _ _ => some []
  | .ccd => reverseCcd setup.componentSize (setup.pixels * setup.channels) setup.ccdShift
  | .shrink => shrinkLines setup.shrinkParams

/-! ### Sizes -/

/-- `(bytes * 8) / (pixels * channels * depth)`. -/
def linesFor (setup : ScanSetup) (pixels bytes : Nat) : Nat :=
  bytes * 8 / (pixels * setup.channels * setup.depth % UINT) % UINT

/-- `(dst_lines * pixels * channels * depth) / 8`. -/
def bytesFor (setup : ScanSetup) (pixels lines : Nat) : Nat :=
  lines * pixels * setup.channels * setup.depth % UINT / 8

/-- `dst_lines` of a stage for so many bytes available and so much room. -/
def dstLines (setup : ScanSetup) (avail free : Nat) : StageName → Nat
  | .reorder => setup.linesFor setup.pixels (min avail free)
  | .ccd =>
    let extra := setup.maxShift * setup.pixels * setup.channels * setup.depth % UINT / 8
    let bytes := if avail < extra then 0 else avail - extra
    setup.linesFor setup.pixels (min bytes free)
  | .shrink =>
    min (setup.linesFor setup.pixels avail) (setup.linesFor setup.settingsPixels free)

/-- The width of the output of a stage. -/
def dstPixels (setup : ScanSetup) : StageName → Nat
  | .reorder => setup.pixels
  | .ccd => setup.pixels
  | .shrink => setup.settingsPixels

end ScanSetup

/-! ### Reading -/

/-- The fields of `Genesys_Device` that change; `dev` has the read buffer. -/
structure GenesysReader where
  dev : GenesysDevice
  linesBuffer : GenesysBuffer
  shrinkBuffer : GenesysBuffer
  outBuffer : GenesysBuffer
  readActive : Bool
  totalBytesRead : Nat

/-- A call that does not return: a reader is still filling its buffer, or the behaviour is
    undefined because bytes are read that are not available or stored behind a block. -/
inductive Stuck where
  | running | fault
deriving DecidableEq, Repr

namespace GenesysReader

def get (s : GenesysReader) : BufferName → GenesysBuffer
  | .read => s.dev.readBuffer
  | .lines => s.linesBuffer
  | .shrink => s.shrinkBuffer
  | .out => s.outBuffer

def put (s : GenesysReader) (buf : GenesysBuffer) : BufferName → GenesysReader
  | .read => { s with dev := { s.dev with readBuffer := buf } }
  | .lines => { s with linesBuffer := buf }
  | .shrink => { s with shrinkBuffer := buf }
  | .out => { s with outBuffer := buf }

@[simp] theorem get_put_self (s : GenesysReader) (buf : GenesysBuffer) (d : BufferName) :
    (s.put buf d).get d = buf := by
  cases d <;> rfl

theorem get_put_of_ne {s : GenesysReader} {buf : GenesysBuffer} {d e : BufferName} (h : e ≠ d) :
    (s.put buf d).get e = s.get e := by
  cases d <;> cases e <;> first | rfl | exact absurd rfl h

@[simp] theorem totalBytesRead_put (s : GenesysReader) (buf : GenesysBuffer) (d : BufferName) :
    (s.put buf d).totalBytesRead = s.totalBytesRead := by
  cases d <;> rfl

@[simp] theorem readActive_put (s : GenesysReader) (buf : GenesysBuffer) (d : BufferName) :
    (s.put buf d).readActive = s.readActive := by
  cases d <;> rfl

end GenesysReader

/-- A stage, with `src_buffer` in the buffer `src`.  The position in `dst_buffer` is asked for
    even if there is nothing to convert. -/
def runStage (setup : ScanSetup) (st : StageName) (src : BufferName) (s : GenesysReader) :
    Except Stuck (SaneStatus × GenesysReader) :=
  let free := (s.get st.dst).size - (s.get st.dst).avail
  let lines := setup.dstLines (s.get src).avail free st
  let bytes := setup.bytesFor (setup.dstPixels st) lines
  match getWritePos (s.get st.dst) bytes with
  | (writePos, buf) =>
    if lines = 0 then .ok (.good, s.put buf st.dst)
    else
      match writePos, setup.convert st lines (s.get src).content with
      | some ptr, some out =>
        if ptr + out.length ≤ buf.size then
          match bufferProduce (buf.store ptr out) bytes,
            bufferConsume (s.get src) (setup.bytesFor setup.pixels lines) with
          | (.good, buf), (.good, srcBuf) => .ok (.good, (s.put buf st.dst).put srcBuf src)
          | (.good, buf), (status, _) => .ok (status, s.put buf st.dst)
          | (status, buf), _ => .ok (status, s.put buf st.dst)
        else .error .fault
      | _, _ => .error .fault

/-- The stages one after the other; each takes the output of the one before. -/
def runStages (setup : ScanSetup) : List StageName → BufferName → GenesysReader →
    Except Stuck (SaneStatus × BufferName × GenesysReader)
  | [], src, s => .ok (.good, src, s)
  | st :: sts, src, s =>
    match runStage setup st src s with
    | .error e => .error e
    | .ok (.good, s) => runStages setup sts st.dst s
    | .ok (status, s) => .ok (status, src, s)

/-- What a call has returned, and the bytes that have come into the read buffer. -/
structure ReadResult where
  status : SaneStatus
  len : Nat
  destination : List SaneByte
  raw : List SaneByte
  reader : GenesysReader

/-- The end of `genesys_read_ordered_data`: data is moved to the destination. -/
def moveData (setup : ScanSetup) (src : BufferName) (s : GenesysReader) (raw : List SaneByte)
    (len : Nat) : ReadResult :=
  let bytes := min (s.get src).avail len
  let destination := (s.get src).content.take bytes
  let len :=
    if s.totalBytesRead + bytes > setup.totalBytesToRead then
      setup.totalBytesToRead - s.totalBytesRead
    else bytes
  let s := { s with totalBytesRead := s.totalBytesRead + len }
  match bufferConsume (s.get src) bytes with
  | (status, buf) => ⟨status, len, destination, raw, s.put buf src⟩

/-- `genesys_read_ordered_data`, with what the scanner does meanwhile. -/
def readOrderedData (setup : ScanSetup) (s : GenesysReader) (ev : FillEvent) (turns len : Nat) :
    Except Stuck ReadResult :=
  if !s.readActive then .ok ⟨.inval, 0, [], [], s⟩
  else if s.totalBytesRead ≥ setup.totalBytesToRead then .ok ⟨.eof, 0, [], [], s⟩
  else
    let r := fillReadBuffer s.dev ev turns
    let raw := r.stored.take (r.dev.readBuffer.avail - s.dev.readBuffer.avail)
    match r.status with
    | none => .error .running
    | some .good =>
      match runStages setup setup.stages .read { s with dev := r.dev } with
      | .error e => .error e
      | .ok (.good, src, s) => .ok (moveData setup src s raw len)
      | .ok (status, _, s) => .ok ⟨status, len, [], raw, s⟩
    | some status => .ok ⟨status, len, [], raw, { s with dev := r.dev }⟩

/-! ### The stages -/

namespace ScanSetup

variable {setup : ScanSetup}

/-- The bytes of a line of so many pixels. -/
def lineBytes (setup : ScanSetup) (pixels : Nat) : Nat :=
  pixels * setup.channels * setup.componentSize

/-- A line of one stage. -/
def lineStage (setup : ScanSetup) : StageName → LineStage SaneByte
  | .reorder =>
    match setup.isCis, setup.lineModeColorOrder with
    | true, .rgb => cisStage setup.componentSize setup.pixels [0, 1, 2]
    | true, .bgr => cisStage setup.componentSize setup.pixels [2, 1, 0]
    | false, _ => bgrStage setup.componentSize setup.pixels
  | .ccd =>
    ccdStage setup.componentSize (setup.pixels * setup.channels) setup.maxShift setup.ccdShift
  | .shrink => setup.shrinkParams.stage

/-- The image is not narrower than half the raw lines, and the sizes of lines can be computed
    with 32 bits. -/
structure Fits (setup : ScanSetup) : Prop where
  pixels_pos : 0 < setup.pixels
  settingsPixels_pos : 0 < setup.settingsPixels
  half : setup.settingsPixels < setup.pixels → setup.pixels / 2 < setup.settingsPixels
  input_lt : (setup.maxShift + 1) * (setup.pixels * setup.channels * setup.depth) < UINT
  output_lt : setup.settingsPixels * setup.channels * setup.depth < UINT

theorem depth_eq (setup : ScanSetup) : setup.depth = 8 * setup.componentSize := by
  rw [componentSize]
  rcases setup.depth_cases with h | h <;> rw [h]

theorem componentSize_pos (setup : ScanSetup) : 0 < setup.componentSize := by
  rw [componentSize]
  rcases setup.depth_cases with h | h <;> rw [h] <;> decide

theorem channels_pos (setup : ScanSetup) : 0 < setup.channels := by
  rcases setup.channels_cases with h | h <;> rw [h] <;> decide

theorem lineBytes_pos (setup : ScanSetup) {pixels : Nat} (h : 0 < pixels) :
    0 < setup.lineBytes pixels :=
  Nat.mul_pos (Nat.mul_pos h setup.channels_pos) setup.componentSize_pos

theorem bits_eq (setup : ScanSetup) (pixels : Nat) :
    pixels * setup.channels * setup.depth = 8 * setup.lineBytes pixels := by
  rw [depth_eq, lineBytes]
  ring

/-- The lines that are counted are there. -/
theorem linesFor_mul_le {pixels : Nat} (bytes : Nat)
    (h : pixels * setup.channels * setup.depth < UINT) :
    setup.linesFor pixels bytes * setup.lineBytes pixels ≤ bytes := by
  rw [linesFor, Nat.mod_eq_of_lt h, bits_eq, Nat.mul_comm bytes,
    Nat.mul_div_mul_left _ _ (by decide)]
  exact (Nat.mul_le_mul_right _ (Nat.mod_le _ _)).trans (Nat.div_mul_le_self _ _)

theorem bytesFor_eq {pixels lines : Nat} (h : 8 * (lines * setup.lineBytes pixels) < UINT) :
    setup.bytesFor pixels lines = lines * setup.lineBytes pixels := by
  have hbits : lines * pixels * setup.channels * setup.depth
      = 8 * (lines * setup.lineBytes pixels) := by
    rw [depth_eq, lineBytes]
    ring
  rw [bytesFor, hbits, Nat.mod_eq_of_lt h, Nat.mul_div_cancel_left _ (by decide)]

theorem Fits.bits_lt (h : setup.Fits) : setup.pixels * setup.channels * setup.depth < UINT :=
  (Nat.le_mul_of_pos_left _ (Nat.succ_pos _)).trans_lt h.input_lt

theorem Fits.extra_eq (h : setup.Fits) :
    setup.maxShift * setup.pixels * setup.channels * setup.depth % UINT / 8
      = setup.maxShift * setup.lineBytes setup.pixels := by
  have hlt := h.input_lt
  rw [bits_eq, Nat.succ_mul] at hlt
  exact bytesFor_eq (by rw [Nat.mul_left_comm]; omega)

/-- No colour is shifted by more lines than are held back. -/
theorem ccdShift_le (setup : ScanSetup) : ∀ s ∈ setup.ccdShift, s ≤ setup.maxShift := by
  have hmono : ∀ d, d ≤ max (max setup.ldShiftR setup.ldShiftB) setup.ldShiftG →
      d * setup.yres / setup.baseYdpi ≤
        max (max setup.ldShiftR setup.ldShiftB) setup.ldShiftG * setup.yres / setup.baseYdpi :=
    fun d hd => Nat.div_le_div_right (Nat.mul_le_mul_right _ hd)
  have hr := hmono setup.ldShiftR (by omega)
  have hg := hmono setup.ldShiftG (by omega)
  have hb := hmono setup.ldShiftB (by omega)
  intro s hs
  rw [ccdShift] at hs
  rw [maxShift, computeMaxShift]
  rcases setup.channels_cases with h | h
  · rw [if_pos h] at hs
    simp only [List.mem_cons, List.not_mem_nil, or_false] at hs
    omega
  · rw [if_neg (by omega)] at hs
    rw [if_pos (by omega)]
    simp only [List.mem_cons, List.not_mem_nil, or_false] at hs
    omega

/-- What a stage needs to know of a number of lines. -/
theorem Fits.dstLines_spec (h : setup.Fits) (st : StageName) {avail free : Nat}
    (hpos : 0 < setup.dstLines avail free st) :
    (setup.dstLines avail free st + (setup.lineStage st).ahead) * setup.lineBytes setup.pixels
        ≤ avail ∧
      setup.dstLines avail free st * setup.lineBytes (setup.dstPixels st) ≤ free := by
  cases st with
  | reorder =>
    have hahead : (setup.lineStage .reorder).ahead = 0 := by
      rw [lineStage]
      split <;> rfl
    have hle := linesFor_mul_le (min avail free) h.bits_lt
    rw [hahead, dstLines, dstPixels, Nat.add_zero]
    omega
  | ccd =>
    have hahead : (setup.lineStage .ccd).ahead = setup.maxShift := rfl
    rw [hahead]
    simp only [dstLines, dstPixels, h.extra_eq] at hpos ⊢
    have hle := linesFor_mul_le (min (if avail < setup.maxShift * setup.lineBytes setup.pixels
      then 0 else avail - setup.maxShift * setup.lineBytes setup.pixels) free) h.bits_lt
    have hline := setup.lineBytes_pos h.pixels_pos
    have hone := Nat.mul_pos hpos hline
    rw [Nat.add_mul]
    split at hle <;> split at hone <;> split <;> omega
  | shrink =>
    have hahead : (setup.lineStage .shrink).ahead = 0 := rfl
    have hin := linesFor_mul_le avail h.bits_lt
    have hout := linesFor_mul_le free h.output_lt
    rw [hahead, dstLines, dstPixels, Nat.add_zero]
    exact ⟨(Nat.mul_le_mul_right _ (Nat.min_le_left _ _)).trans hin,
      (Nat.mul_le_mul_right _ (Nat.min_le_right _ _)).trans hout⟩

/-- Components are only reordered if there are three and they are not in the right order. -/
theorem needsReorder_cases (h : setup.needs .reorder = true) : setup.channels = 3 ∧
    (setup.isCis = true ∨ setup.lineModeColorOrder = .bgr) := by
  simp only [needs, needsReorder] at h
  rcases setup.channels_cases with hc | hc <;> rcases setup.depth_cases with hd | hd <;>
    cases hcis : setup.isCis <;> cases hcolor : setup.lineModeColorOrder <;>
    simp_all

theorem Fits.lineIn_eq (st : StageName) (hneeds : setup.needs st = true) :
    (setup.lineStage st).lineIn = setup.lineBytes setup.pixels := by
  cases st with
  | reorder =>
    obtain ⟨hc, -⟩ := needsReorder_cases hneeds
    rw [lineBytes, hc, lineStage]
    split
    · rfl
    · rfl
    · exact (Nat.mul_assoc _ _ _).symm
  | ccd => rfl
  | shrink => exact (Nat.mul_assoc _ _ _).symm

theorem Fits.shrinkFits (h : setup.Fits) : setup.shrinkParams.Fits where
  srcPixels_pos := h.pixels_pos
  dstPixels_pos := h.settingsPixels_pos
  sum_lt := by
    have hin := h.bits_lt
    have hout := h.output_lt
    rw [bits_eq] at hin hout
    have hmul := fun px => Nat.le_mul_of_pos_right px
      (Nat.mul_pos setup.channels_pos setup.componentSize_pos)
    have h1 := hmul setup.pixels
    have h2 := hmul setup.settingsPixels
    rw [← Nat.mul_assoc] at h1 h2
    simp only [shrinkParams, lineBytes] at hin hout h1 h2 ⊢
    omega
  half := h.half

/-- The code of a stage makes the lines of the stage. -/
theorem Fits.computes (h : setup.Fits) (st : StageName) (hneeds : setup.needs st = true) :
    Computes (setup.convert st) (setup.lineStage st) := by
  cases st with
  | reorder =>
    obtain ⟨-, hcases⟩ := needsReorder_cases hneeds
    cases hcis : setup.isCis with
    | true =>
      cases hcolor : setup.lineModeColorOrder with
      | rgb =>
        simp only [convert, lineStage, hcis, hcolor]
        exact computes_reorderComponentsCis _ _
      | bgr =>
        simp only [convert, lineStage, hcis, hcolor]
        exact computes_reorderComponentsCisBgr _ _
    | false =>
      have hcolor : setup.lineModeColorOrder = .bgr := by
        rcases hcases with hcases | hcases
        · rw [hcis] at hcases
          cases hcases
        · exact hcases
      simp only [convert, lineStage, hcis, hcolor]
      exact computes_reorderComponentsBgr _ _
  | ccd => exact computes_reverseCcd setup.ccdShift_le
  | shrink => exact Shrink.computes_shrinkLines h.shrinkFits

/-- A line of a stage is as long as the code expects. -/
theorem Fits.length_line (h : setup.Fits) (st : StageName) (hneeds : setup.needs st = true)
    (window : List SaneByte) (hwindow : window.length
      = ((setup.lineStage st).ahead + 1) * (setup.lineStage st).lineIn) :
    ((setup.lineStage st).line window).length = setup.lineBytes (setup.dstPixels st) := by
  cases st with
  | reorder =>
    obtain ⟨hc, -⟩ := needsReorder_cases hneeds
    rw [dstPixels, lineBytes, hc]
    rw [lineStage] at hwindow ⊢
    split at hwindow
    · rw [cisStage, length_copyStage, length_cisIndices]
      · rfl
      · rw [hwindow]
        exact cisIndices_lt (by decide)
    · rw [cisStage, length_copyStage, length_cisIndices]
      · rfl
      · rw [hwindow]
        exact cisIndices_lt (by decide)
    · rw [bgrStage, length_copyStage, length_bgrLineIndices]
      · exact (Nat.mul_assoc _ _ _).symm
      · rw [hwindow]
        exact bgrLineIndices_lt
  | ccd =>
    have hlen := @length_copyStage _ (setup.pixels * setup.channels * setup.componentSize)
      setup.maxShift (ccdIndices setup.componentSize (setup.pixels * setup.channels)
        setup.ccdShift) window (by rw [hwindow]; exact ccdIndices_lt setup.ccdShift_le)
    exact hlen.trans (length_ccdIndices _ _ _)
  | shrink =>
    have hline : window.length = setup.shrinkParams.srcPixels * setup.shrinkParams.pixelSize :=
      hwindow.trans (by rw [lineStage, Shrink.stage, Nat.zero_add, Nat.one_mul])
    exact (Shrink.shrunk_spec h.shrinkFits hline []).1.trans (Nat.mul_assoc _ _ _).symm

end ScanSetup

/-! ### One stage -/

/-- The buffer holds a stream of which the first `used` bytes have been consumed. -/
structure GenesysBuffer.Holds (buf : GenesysBuffer) (stream : List SaneByte) (used : Nat) : Prop
    extends Ok buf where
  size_lt : buf.size < 2 ^ 29
  used_le : used ≤ stream.length
  content_eq : buf.content = stream.drop used

namespace GenesysBuffer.Holds

variable {buf : GenesysBuffer} {stream : List SaneByte} {used k : Nat}

theorem avail_eq (h : buf.Holds stream used) : buf.avail = stream.length - used := by
  rw [← h.toOk.length_content, h.content_eq, List.length_drop]

theorem consume (h : buf.Holds stream used) (hk : k ≤ buf.avail) : ∃ buf',
    bufferConsume buf k = (.good, buf') ∧ buf'.Holds stream (used + k) := by
  obtain ⟨buf', hconsume, hok, hcontent, -, hsize, -, -⟩ := h.toOk.consume hk
  have hused := h.used_le
  have havail := h.avail_eq
  refine ⟨buf', hconsume, hok, ?_, ?_, ?_⟩
  · rw [hsize]
    exact h.size_lt
  · omega
  · rw [hcontent, h.content_eq, List.drop_drop]

/-- Bytes that are appended to the content are appended to the stream. -/
theorem of_append (h : buf.Holds stream used) {buf' : GenesysBuffer} {out : List SaneByte}
    (hok : buf'.Ok) (hsize : buf'.size = buf.size) (hcontent : buf'.content = buf.content ++ out) :
    buf'.Holds (stream ++ out) used where
  toOk := hok
  size_lt := hsize.trans_lt h.size_lt
  used_le := by
    rw [List.length_append]
    exact Nat.le_add_right_of_le h.used_le
  content_eq := by rw [hcontent, h.content_eq, List.drop_append_of_le_length h.used_le]

/-- Storing a whole request behind the stream. -/
theorem store (h : buf.Holds stream used) {out : List SaneByte}
    (hroom : out.length ≤ buf.size - buf.avail) : ∃ ptr buf' buf'',
      getWritePos buf out.length = (some ptr, buf') ∧ ptr + out.length ≤ buf'.size ∧
      bufferProduce (buf'.store ptr out) out.length = (.good, buf'') ∧ buf''.Ok ∧
      buf''.size = buf.size ∧ buf''.content = buf.content ++ out := by
  have hsize := h.size_lt
  have hwrap : buf.size + out.length < SIZE_T := by
    rw [SIZE_T]
    omega
  obtain ⟨ptr, buf', hget, hgrants, hcontent, hsame, -⟩ :=
    GenesysBuffer.getWritePos_some hwrap h.toOk hroom
  obtain ⟨hstore, hstored⟩ : (buf'.store ptr out).Grants ptr out.length ∧
      (buf'.store ptr out).content = buf'.content := hgrants.store (o := 0) (by omega)
  obtain ⟨buf'', hproduce, hgrants'', hcontent'', -, hsame'', -⟩ := hstore.produce le_rfl
  have hblock := hgrants.block
  have hptr := hgrants.room
  have hread : stretch (buf'.store ptr out).buffer ptr out.length = out :=
    stretch_overwrite (by omega)
  refine ⟨ptr, buf', buf'', hget, hgrants.room, hproduce, hgrants''.toOk, ?_, ?_⟩
  · exact hsame''.trans hsame
  · rw [hcontent'', hread, hstored, hcontent]

/-- Asking for no room moves the bytes at most. -/
theorem getWritePos_zero (h : buf.Holds stream used) : ∃ ptr buf',
    getWritePos buf 0 = (ptr, buf') ∧ buf'.Ok ∧ buf'.size = buf.size ∧
      buf'.content = buf.content := by
  have hsize := h.size_lt
  have hwrap : buf.size + 0 < SIZE_T := by
    rw [SIZE_T]
    omega
  obtain ⟨ptr, buf', hget, hgrants, hcontent, hsame, -⟩ :=
    GenesysBuffer.getWritePos_some hwrap h.toOk (Nat.zero_le _)
  exact ⟨some ptr, buf', hget, hgrants.toOk, hsame, hcontent⟩

end GenesysBuffer.Holds

variable {setup : ScanSetup} {s s' : GenesysReader} {inp : List SaneByte} {used c : Nat}

/-- What is kept when buffers change. -/
structure GenesysReader.SameBut (s s' : GenesysReader) (ds : List BufferName) : Prop where
  others : ∀ d, d ∉ ds → s'.get d = s.get d
  totalBytesRead : s'.totalBytesRead = s.totalBytesRead
  readActive : s'.readActive = s.readActive

/-- A stage moves on by some lines, or by none. -/
theorem runStage_spec (h : setup.Fits) {st : StageName} (hneeds : setup.needs st = true)
    {src : BufferName} (hsrc : src ≠ st.dst) (hin : (s.get src).Holds inp
      (c * (setup.lineStage st).lineIn)) (hc : (setup.lineStage st).Enough c inp)
    (hout : (s.get st.dst).Holds ((setup.lineStage st).lines c inp) used) :
    ∃ s' n made, runStage setup st src s = .ok (.good, s') ∧
      (s'.get src).Holds inp ((c + n) * (setup.lineStage st).lineIn) ∧
      (setup.lineStage st).Enough (c + n) inp ∧
      (setup.lineStage st).lines (c + n) inp = (setup.lineStage st).lines c inp ++ made ∧
      ((s'.get st.dst).Ok ∧ (s'.get st.dst).size = (s.get st.dst).size ∧
        (s'.get st.dst).content = (s.get st.dst).content ++ made) ∧
      s.SameBut s' [src, st.dst] := by
  have hlineIn := ScanSetup.Fits.lineIn_eq st hneeds
  have hlinePos := setup.lineBytes_pos h.pixels_pos
  have hsizeIn := hin.size_lt
  have hsizeOut := hout.size_lt
  have hleIn := hin.toOk.avail_le
  have hsmall : 8 * 2 ^ 29 = UINT := rfl
  rw [runStage]
  dsimp only
  generalize hn : setup.dstLines (s.get src).avail
    ((s.get st.dst).size - (s.get st.dst).avail) st = n
  rcases Nat.eq_zero_or_pos n with rfl | hpos
  · -- nothing to convert
    have hbytes : setup.bytesFor (setup.dstPixels st) 0 = 0 := by
      rw [ScanSetup.bytesFor]
      simp
    obtain ⟨ptr, buf, hget, hok, hsize, hcontent⟩ := hout.getWritePos_zero
    rw [hbytes, hget]
    refine ⟨s.put buf st.dst, 0, [], rfl, ?_, hc, (List.append_nil _).symm, ?_, ?_, ?_, ?_⟩
    · rw [GenesysReader.get_put_of_ne hsrc]
      exact hin
    · rw [GenesysReader.get_put_self, List.append_nil]
      exact ⟨hok, hsize, hcontent⟩
    · intro d hd
      rw [GenesysReader.get_put_of_ne]
      rintro rfl
      exact hd (by simp)
    · exact GenesysReader.totalBytesRead_put _ _ _
    · exact GenesysReader.readActive_put _ _ _
  · have hspec := h.dstLines_spec st (hn.symm ▸ hpos)
    rw [hn] at hspec
    obtain ⟨havail, hfree⟩ := hspec
    have hcontent : (n + (setup.lineStage st).ahead) * (setup.lineStage st).lineIn
        ≤ (s.get src).content.length := by
      rw [hin.toOk.length_content, hlineIn]
      exact havail
    have hused : n * setup.lineBytes setup.pixels ≤ (s.get src).avail :=
      (Nat.mul_le_mul_right _ (Nat.le_add_right _ _)).trans havail
    have hconvert := h.computes st hneeds n _ hpos hcontent
    have hlen := LineStage.length_lines hcontent (h.length_line st hneeds)
    obtain ⟨srcBuf, hconsume, hsrcBuf⟩ := hin.consume hused
    have hbytesIn : setup.bytesFor setup.pixels n = n * setup.lineBytes setup.pixels :=
      ScanSetup.bytesFor_eq (by omega)
    have hbytesOut : setup.bytesFor (setup.dstPixels st) n
        = ((setup.lineStage st).lines n (s.get src).content).length := by
      rw [hlen]
      exact ScanSetup.bytesFor_eq (by omega)
    obtain ⟨ptr, buf, buf', hget, hroom, hproduce, hstored⟩ := hout.store (hlen ▸ hfree)
    have hmore : (setup.lineStage st).lines (c + n) inp
        = (setup.lineStage st).lines c inp ++
          (setup.lineStage st).lines n (s.get src).content := by
      rw [LineStage.lines_add, hin.content_eq]
    refine ⟨(s.put buf' st.dst).put srcBuf src, n, _, ?_, ?_, ?_, hmore, ?_, ?_, ?_, ?_⟩
    · rw [hbytesOut, hget]
      simp only [hconvert, hproduce, hbytesIn, hconsume]
      rw [if_neg (by omega), if_pos hroom]
    · rw [GenesysReader.get_put_self, Nat.add_mul, hlineIn]
      rw [hlineIn] at hsrcBuf
      exact hsrcBuf
    · rw [hin.content_eq] at hcontent
      exact LineStage.Enough.add hcontent hpos (hlineIn ▸ hlinePos)
    · rw [GenesysReader.get_put_of_ne (Ne.symm hsrc), GenesysReader.get_put_self]
      exact hstored
    · intro d hd
      simp only [List.mem_cons, List.not_mem_nil, or_false, not_or] at hd
      rw [GenesysReader.get_put_of_ne hd.1, GenesysReader.get_put_of_ne hd.2]
    · rw [GenesysReader.totalBytesRead_put, GenesysReader.totalBytesRead_put]
    · rw [GenesysReader.readActive_put, GenesysReader.readActive_put]

/-! ### All stages -/

/-- From the buffer `src` on, which holds the stream `inp`, each buffer holds what the stage in
    front of it has made so far; the last one holds `out`, of which `used` bytes have been
    delivered. -/
def Chain (setup : ScanSetup) (s : GenesysReader) :
    List StageName → BufferName → List SaneByte → List SaneByte → Nat → Prop
  | [], src, inp, out, used => out = inp ∧ (s.get src).Holds inp used
  | st :: sts, src, inp, out, used => ∃ c, (setup.lineStage st).Enough c inp ∧
      (s.get src).Holds inp (c * (setup.lineStage st).lineIn) ∧
      Chain setup s sts st.dst ((setup.lineStage st).lines c inp) out used

/-- The buffer of the last stage. -/
def lastBuffer : List StageName → BufferName → BufferName
  | [], src => src
  | st :: sts, _ => lastBuffer sts st.dst

/-- The selected stages, once for the whole stream. -/
def ScanSetup.image (setup : ScanSetup) (raw : List SaneByte) : List SaneByte :=
  setup.stages.foldl (fun bs st => (setup.lineStage st).whole bs) raw

variable {sts : List StageName} {src : BufferName} {out more : List SaneByte}

theorem Chain.congr (h : Chain setup s sts src inp out used)
    (hsame : ∀ d ∈ src :: sts.map StageName.dst, s'.get d = s.get d) :
    Chain setup s' sts src inp out used := by
  induction sts generalizing src inp with
  | nil =>
    obtain ⟨hout, hsrc⟩ := h
    refine ⟨hout, ?_⟩
    rw [hsame src (by simp)]
    exact hsrc
  | cons st sts ih =>
    obtain ⟨c, hc, hsrc, hrest⟩ := h
    refine ⟨c, hc, ?_, ih hrest fun d hd => hsame d (List.mem_cons_of_mem _ hd)⟩
    rw [hsame src List.mem_cons_self]
    exact hsrc

theorem lastBuffer_mem (sts : List StageName) (src : BufferName) :
    lastBuffer sts src ∈ src :: sts.map StageName.dst := by
  induction sts generalizing src with
  | nil => exact List.mem_cons_self
  | cons st sts ih => exact List.mem_cons_of_mem _ (ih st.dst)

/-- The first buffer holds `inp`. -/
theorem Chain.first (h : Chain setup s sts src inp out used) :
    ∃ k, (s.get src).Holds inp k := by
  cases sts with
  | nil => exact ⟨used, h.2⟩
  | cons st sts =>
    obtain ⟨c, -, hsrc, -⟩ := h
    exact ⟨_, hsrc⟩

/-- More bytes come into the first buffer. -/
theorem Chain.append (h : Chain setup s sts src inp out used)
    (hsrc : ∀ k, (s.get src).Holds inp k → (s'.get src).Holds (inp ++ more) k)
    (hsame : ∀ d ∈ sts.map StageName.dst, s'.get d = s.get d) :
    ∃ out', Chain setup s' sts src (inp ++ more) out' used ∧ out <+: out' := by
  cases sts with
  | nil =>
    obtain ⟨rfl, hholds⟩ := h
    exact ⟨out ++ more, ⟨rfl, hsrc _ hholds⟩, List.prefix_append _ _⟩
  | cons st sts =>
    obtain ⟨c, hc, hholds, hrest⟩ := h
    refine ⟨out, ⟨c, hc.append more, hsrc _ hholds, ?_⟩, List.prefix_refl _⟩
    rw [LineStage.lines_append hc]
    exact hrest.congr hsame

/-- The stages move the stream on, and keep what they have made before. -/
theorem runStages_spec (h : setup.Fits) (hneeds : ∀ st ∈ sts, setup.needs st = true)
    (hnodup : (src :: sts.map StageName.dst).Nodup)
    (hchain : Chain setup s sts src inp out used) :
    ∃ s' out', runStages setup sts src s = .ok (.good, lastBuffer sts src, s') ∧
      Chain setup s' sts src inp out' used ∧ out <+: out' ∧
      s.SameBut s' (src :: sts.map StageName.dst) := by
  induction sts generalizing s src inp out with
  | nil => exact ⟨s, out, rfl, hchain, List.prefix_refl _, fun _ _ => rfl, rfl, rfl⟩
  | cons st sts ih =>
    obtain ⟨c, hc, hsrc, hrest⟩ := hchain
    obtain ⟨hnotmem, hnodup'⟩ := List.nodup_cons.mp hnodup
    have hne : src ≠ st.dst := by
      rintro heq
      exact hnotmem (heq ▸ List.mem_cons_self)
    obtain ⟨k, hdst⟩ := hrest.first
    obtain ⟨s₁, n, made, hrun, hsrc₁, hc₁, hmade, ⟨hok, hsize, hcontent⟩, hsame₁⟩ :=
      runStage_spec h (hneeds st List.mem_cons_self) hne hsrc hc hdst
    have hothers : ∀ d ∈ sts.map StageName.dst, s₁.get d = s.get d := by
      intro d hd
      apply hsame₁.others
      simp only [List.mem_cons, List.not_mem_nil, or_false, not_or]
      constructor
      · rintro rfl
        exact hnotmem (List.mem_cons_of_mem _ hd)
      · rintro rfl
        exact (List.nodup_cons.mp hnodup').1 hd
    obtain ⟨out₁, hrest₁, hout₁⟩ := hrest.append
      (fun k hk => hk.of_append hok hsize hcontent) hothers
    rw [← hmade] at hrest₁
    obtain ⟨s₂, out₂, hrun₂, hrest₂, hout₂, hsame₂⟩ :=
      ih (fun st' hst' => hneeds st' (List.mem_cons_of_mem _ hst')) hnodup' hrest₁
    refine ⟨s₂, out₂, ?_, ⟨c + n, hc₁, ?_, hrest₂⟩, hout₁.trans hout₂, ?_⟩
    · rw [runStages, hrun]
      exact hrun₂
    · rw [hsame₂.others src hnotmem]
      exact hsrc₁
    · refine ⟨fun d hd => ?_, hsame₂.totalBytesRead.trans hsame₁.totalBytesRead,
        hsame₂.readActive.trans hsame₁.readActive⟩
      rw [hsame₂.others d fun hd' => hd (List.mem_cons_of_mem _ hd')]
      apply hsame₁.others
      simp only [List.mem_cons, List.not_mem_nil, or_false, not_or]
      constructor
      · rintro rfl
        exact hd List.mem_cons_self
      · rintro rfl
        exact hd (List.mem_cons_of_mem _ List.mem_cons_self)

/-- Bytes are taken out of the last buffer. -/
theorem Chain.deliver (h : Chain setup s sts src inp out used) {k : Nat}
    (hnodup : (src :: sts.map StageName.dst).Nodup)
    (hk : k ≤ (s.get (lastBuffer sts src)).avail) : ∃ buf,
      bufferConsume (s.get (lastBuffer sts src)) k = (.good, buf) ∧
      Chain setup (s.put buf (lastBuffer sts src)) sts src inp out (used + k) ∧
      (s.get (lastBuffer sts src)).Holds out used := by
  induction sts generalizing src inp with
  | nil =>
    obtain ⟨rfl, hholds⟩ := h
    obtain ⟨buf, hconsume, hbuf⟩ := hholds.consume hk
    refine ⟨buf, hconsume, ⟨rfl, ?_⟩, hholds⟩
    rw [lastBuffer, GenesysReader.get_put_self]
    exact hbuf
  | cons st sts ih =>
    obtain ⟨c, hc, hsrc, hrest⟩ := h
    obtain ⟨hnotmem, hnodup'⟩ := List.nodup_cons.mp hnodup
    obtain ⟨buf, hconsume, hrest', hholds⟩ := ih hrest hnodup' hk
    have hlast : src ≠ lastBuffer sts st.dst := by
      rintro rfl
      exact hnotmem (lastBuffer_mem sts st.dst)
    refine ⟨buf, hconsume, ⟨c, hc, ?_, hrest'⟩, hholds⟩
    rw [lastBuffer, GenesysReader.get_put_of_ne hlast]
    exact hsrc

/-! ### The image -/

theorem foldl_whole_mono {bs bs' : List SaneByte} (hle : bs <+: bs') :
    sts.foldl (fun bs st => (setup.lineStage st).whole bs) bs <+:
      sts.foldl (fun bs st => (setup.lineStage st).whole bs) bs' := by
  induction sts generalizing bs bs' with
  | nil => exact hle
  | cons st sts ih => exact ih (LineStage.whole_mono hle)

/-- What has been made is the beginning of what the whole stream gives. -/
theorem Chain.isPrefix (h : setup.Fits) (hneeds : ∀ st ∈ sts, setup.needs st = true)
    (hchain : Chain setup s sts src inp out used) :
    out <+: sts.foldl (fun bs st => (setup.lineStage st).whole bs) inp := by
  induction sts generalizing src inp with
  | nil =>
    obtain ⟨rfl, -⟩ := hchain
    exact List.prefix_refl _
  | cons st sts ih =>
    obtain ⟨c, hc, -, hrest⟩ := hchain
    have hneeds' : ∀ st' ∈ sts, setup.needs st' = true :=
      fun st' hst' => hneeds st' (List.mem_cons_of_mem _ hst')
    have hpos := setup.lineBytes_pos h.pixels_pos
    rw [← ScanSetup.Fits.lineIn_eq st (hneeds st List.mem_cons_self)] at hpos
    exact (ih hneeds' hrest).trans
      (foldl_whole_mono (LineStage.lines_isPrefix_whole hpos hc))

theorem ScanSetup.stages_needs (setup : ScanSetup) :
    ∀ st ∈ setup.stages, setup.needs st = true :=
  fun _ hst => (List.mem_filter.mp hst).2

theorem ScanSetup.stages_nodup (setup : ScanSetup) :
    (BufferName.read :: setup.stages.map StageName.dst).Nodup := by
  have hall : (BufferName.read :: [StageName.reorder, .ccd, .shrink].map StageName.dst).Nodup := by
    decide
  exact hall.sublist ((List.filter_sublist.map _).cons_cons _)

/-! ### A scan -/

/-- A call, and what the scanner does meanwhile. -/
structure ReadCall where
  len : Nat
  ev : FillEvent
  turns : Nat

/-- A scan under way: all bytes that have come into the read buffer, and all bytes that the
    caller has got. -/
structure ReadRun where
  reader : GenesysReader
  raw : List SaneByte
  delivered : List SaneByte

def startReading (dev : GenesysDevice) (blocks : BufferName → List SaneByte) : ReadRun where
  reader :=
    { dev := { dev with readBuffer := bufferAlloc (blocks .read) }
      linesBuffer := bufferAlloc (blocks .lines)
      shrinkBuffer := bufferAlloc (blocks .shrink)
      outBuffer := bufferAlloc (blocks .out)
      readActive := true
      totalBytesRead := 0 }
  raw := []
  delivered := []

/-- A call that has returned; without an error the caller has got `len` bytes. -/
def ReadRun.after (u : ReadRun) (r : ReadResult) : ReadRun where
  reader := r.reader
  raw := u.raw ++ r.raw
  delivered := u.delivered ++ if r.status = .good then r.destination.take r.len else []

/-- A call, if it returns. -/
def ReadRun.next (setup : ScanSetup) (u : ReadRun) (call : ReadCall) : Option ReadRun :=
  match readOrderedData setup u.reader call.ev call.turns call.len with
  | .error _ => none
  | .ok r => some (u.after r)

/-- The end of the document is not found during the call. -/
def ReadCall.WholeDocument (call : ReadCall) : Prop :=
  call.ev.cut = 0 ∧ ∀ i, (call.ev.usb i).cut = 0

def ReadRun.Step (setup : ScanSetup) (u : ReadRun) (call : ReadCall) (u' : ReadRun) : Prop :=
  call.WholeDocument ∧ u.next setup call = some u'

/-- What every call keeps: `out` is what the stages have made, of which `used` bytes have been
    consumed.  More than the caller has got has been consumed at the end only. -/
structure ReadRun.Piped (setup : ScanSetup) (u : ReadRun) (out : List SaneByte) (used : Nat) :
    Prop where
  chain : Chain setup u.reader setup.stages .read u.raw out used
  active : u.reader.readActive = true
  total_le : u.reader.totalBytesRead ≤ setup.totalBytesToRead
  used_eq : u.reader.totalBytesRead < setup.totalBytesToRead → used = u.reader.totalBytesRead
  total_le_out : u.reader.totalBytesRead ≤ out.length
  delivered : u.delivered = out.take u.reader.totalBytesRead

variable {u u' : ReadRun}

/-- Filling the read buffer appends to the raw stream. -/
theorem ReadRun.Piped.fill (h : u.Piped setup out used) (ev : FillEvent) (turns : Nat) :
    ∃ out', Chain setup { u.reader with dev := (fillReadBuffer u.reader.dev ev turns).dev }
      setup.stages .read (u.raw ++ (fillReadBuffer u.reader.dev ev turns).stored.take
        ((fillReadBuffer u.reader.dev ev turns).dev.readBuffer.avail
          - u.reader.dev.readBuffer.avail)) out' used ∧ out <+: out' := by
  obtain ⟨k, hk⟩ := h.chain.first
  have hok : u.reader.dev.readBuffer.Ok := hk.toOk
  have hsize : u.reader.dev.readBuffer.size < 2 ^ 29 := hk.size_lt
  obtain ⟨n, hn⟩ := filled_fillReadBuffer hok (hsize.trans (by decide)) ev turns
  rw [hn.count hok]
  apply h.chain.append
  · intro j hj
    exact hj.of_append hn.ok hn.size_eq hn.content
  · intro d hd
    have hne : d ≠ .read := by
      rintro rfl
      exact (List.nodup_cons.mp setup.stages_nodup).1 hd
    cases d with
    | read => exact absurd rfl hne
    | lines => rfl
    | shrink => rfl
    | out => rfl

/-- More bytes in the pipe, none delivered. -/
theorem ReadRun.Piped.of_chain (h : u.Piped setup out used) {s' : GenesysReader}
    {raw out' : List SaneByte} (hchain : Chain setup s' setup.stages .read raw out' used)
    (hout : out <+: out') (htotal : s'.totalBytesRead = u.reader.totalBytesRead)
    (hactive : s'.readActive = u.reader.readActive) :
    ReadRun.Piped setup ⟨s', raw, u.delivered⟩ out' used where
  chain := hchain
  active := hactive.trans h.active
  total_le := htotal.trans_le h.total_le
  used_eq := by
    dsimp only
    rw [htotal]
    exact h.used_eq
  total_le_out := by
    dsimp only
    rw [htotal]
    exact h.total_le_out.trans hout.length_le
  delivered := by
    obtain ⟨more, rfl⟩ := hout
    dsimp only
    rw [htotal, h.delivered, List.take_append_of_le_length h.total_le_out]

/-- The length that is reported: all bytes that are moved, up to the end of the image. -/
theorem reported_le (total bytes left : Nat) (h : left ≤ total) :
    (if left + bytes > total then total - left else bytes) ≤ bytes ∧
      left + (if left + bytes > total then total - left else bytes) ≤ total ∧
      (left + (if left + bytes > total then total - left else bytes) < total →
        (if left + bytes > total then total - left else bytes) = bytes) := by
  split
  · omega
  · omega

theorem GenesysReader.get_total (s : GenesysReader) (total : Nat) (d : BufferName) :
    GenesysReader.get { s with totalBytesRead := total } d = s.get d := by
  cases d <;> rfl

/-- Data is moved to the destination. -/
theorem ReadRun.Piped.move (h : u.Piped setup out used)
    (hlt : u.reader.totalBytesRead < setup.totalBytesToRead) (raw : List SaneByte) (len : Nat) :
    ∃ r, moveData setup (lastBuffer setup.stages .read) u.reader raw len = r ∧
      r.status = .good ∧ r.raw = raw ∧ ∃ used', ReadRun.Piped setup
        ⟨r.reader, u.raw, u.delivered ++ r.destination.take r.len⟩ out used' := by
  refine ⟨_, rfl, ?_⟩
  obtain ⟨buf, hconsume, hchain, hholds⟩ :=
    h.chain.deliver setup.stages_nodup (Nat.min_le_left _ len)
  have havail := hholds.avail_eq
  have hused := h.used_eq hlt
  rw [moveData]
  simp only [GenesysReader.get_total, hconsume]
  generalize hk : min (u.reader.get (lastBuffer setup.stages .read)).avail len = k
    at hconsume hchain
  obtain ⟨hle, htotal, hlast⟩ := reported_le setup.totalBytesToRead k u.reader.totalBytesRead hlt.le
  generalize (if u.reader.totalBytesRead + k > setup.totalBytesToRead then
    setup.totalBytesToRead - u.reader.totalBytesRead else k) = reported at hle htotal hlast
  refine ⟨trivial, trivial, used + k, ?_, ?_, ?_, ?_, ?_, ?_⟩
  · apply hchain.congr
    intro d _
    cases lastBuffer setup.stages .read <;> cases d <;> rfl
  · rw [GenesysReader.readActive_put]
    exact h.active
  · rw [GenesysReader.totalBytesRead_put]
    exact htotal
  · rw [GenesysReader.totalBytesRead_put]
    dsimp only
    intro hmore
    rw [hlast hmore, hused]
  · rw [GenesysReader.totalBytesRead_put]
    have := h.total_le_out
    dsimp only
    omega
  · rw [GenesysReader.totalBytesRead_put, List.take_add, h.delivered, hholds.content_eq, hused,
      List.take_take, Nat.min_eq_left hle]

/-- Every call that returns keeps the pipe, and no call is undefined. -/
theorem ReadRun.Piped.call (hfits : setup.Fits) (h : u.Piped setup out used) (ev : FillEvent)
    (turns len : Nat) : readOrderedData setup u.reader ev turns len = .error .running ∨
      ∃ r out' used', readOrderedData setup u.reader ev turns len = .ok r ∧
        (u.after r).Piped setup out' used' := by
  have hactive : ¬(!u.reader.readActive) = true := by
    rw [h.active]
    decide
  generalize hres : readOrderedData setup u.reader ev turns len = res
  rw [readOrderedData, if_neg hactive] at hres
  split at hres
  · -- the end of the image
    subst hres
    refine .inr ⟨_, out, used, rfl, ?_⟩
    simp only [ReadRun.after, List.append_nil, reduceCtorEq, if_false]
    exact h
  · rename_i hmore
    obtain ⟨out₁, hchain₁, hout₁⟩ := h.fill ev turns
    have hfilled := h.of_chain hchain₁ hout₁ rfl rfl
    dsimp only at hres
    split at hres
    · exact .inl hres.symm
    · obtain ⟨s₂, out₂, hrun, hchain₂, hout₂, hsame⟩ :=
        runStages_spec hfits setup.stages_needs setup.stages_nodup hchain₁
      have hrunning := hfilled.of_chain hchain₂ hout₂ hsame.totalBytesRead hsame.readActive
      have htotal : s₂.totalBytesRead = u.reader.totalBytesRead := hsame.totalBytesRead
      obtain ⟨r, hr, hgood, hraw, used', hmoved⟩ := hrunning.move
        (by dsimp only; omega) ((fillReadBuffer u.reader.dev ev turns).stored.take
          ((fillReadBuffer u.reader.dev ev turns).dev.readBuffer.avail
            - u.reader.dev.readBuffer.avail)) len
      dsimp only at hrun hr
      rw [hrun] at hres
      dsimp only at hres
      rw [hr] at hres
      subst hres
      refine .inr ⟨r, out₂, used', rfl, ?_⟩
      rw [ReadRun.after, hraw, if_pos hgood]
      exact hmoved
    · rename_i status hne _
      subst hres
      refine .inr ⟨_, out₁, used, rfl, ?_⟩
      rw [ReadRun.after]
      dsimp only
      rw [if_neg hne, List.append_nil]
      exact hfilled

/-- A call while the scanner sends the bytes 0, 1, 2, ... -/
def ReadCall.reading (len : Nat) : ReadCall where
  len := len
  ev := .reading 0
  turns := 0

end SaneBackends.Genesys
