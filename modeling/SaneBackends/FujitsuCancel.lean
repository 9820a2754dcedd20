import SaneBackends.CancelFlags
import SaneBackends.DuplexSides

/-!
# Cancelling a scan of the `fujitsu` backend

`sane_start`, `sane_read` and `check_for_cancel` with every exit they have.  What the
scanner answers to the commands of a call, and what has been received by then, is the
input of the call.
-/

namespace SaneBackends.FujitsuCancel

open EarlyExit CancelFlags DuplexSides

inductive DuplexInterlace | none | alt | interlace3091
  deriving DecidableEq

/-- What stays the same during a batch; `jpeg` is `params.format == SANE_FRAME_JPEG`,
    `jpegAlt` is `jpeg_interlace == JPEG_INTERLACE_ALT`, `hardwareSteps` says that the
    scanner has brightness and contrast of its own, and `hasCmdScannerCtl` that it knows the
    command that cancels a scan. -/
structure Config where
  source : Source
  lowMem : Bool
  mustFullyBuffer : Bool
  hardwareSteps : Bool
  duplexInterlace : DuplexInterlace
  jpeg : Bool
  jpegAlt : Bool
  hasCmdScannerCtl : Bool
  bufferSize : Nat

/-- The transfer counters the exits depend on. -/
structure Data where
  side : Side
  eofRx : Sides Bool
  eofTx : Sides Bool
  bytesRx : Sides Nat
  bytesTx : Sides Nat

/-- What a function that reads from the scanner leaves in the counters of a side, and the
    status it returns. -/
structure Received where
  status : SaneStatus
  bytes : Nat
  eof : Bool

/-- What happens during a `sane_read`: what comes from the scanner for each side, and how
    much `read_from_buffer` copies. -/
structure ReadInput where
  front : Received
  back : Received
  copied : Nat

/-- What happens during a `sane_start`: the answers to its commands, the reads of an image
    that is buffered, and what deskewing and cropping make of its size. -/
structure StartInput where
  updateParams : SaneStatus := .good
  functionSource : SaneStatus := .good
  modeSelectAuto : SaneStatus := .good
  modeSelectDf : SaneStatus := .good
  sendLut : SaneStatus := .good
  modeSelectBg : SaneStatus := .good
  modeSelectDropout : SaneStatus := .good
  modeSelectBuff : SaneStatus := .good
  modeSelectPrepick : SaneStatus := .good
  sendEndorser : SaneStatus := .good
  setWindow : SaneStatus := .good
  getPixelsize : SaneStatus := .good
  backupParams : SaneStatus := .good
  endorser : SaneStatus := .good
  lampOn : SaneStatus := .good
  restoreParams : SaneStatus := .good
  setupBuffers : SaneStatus := .good
  objectPosition : SaneStatus := .good
  startScan : SaneStatus := .good
  reads : List ReadInput := []
  finalPixelsize : SaneStatus := .good
  adjusted : Nat → Nat := id

/-- `scanner_control` with the function that cancels a scan -/
def scannerControl (c : Config) (s : Scan Data) : SaneStatus × Scan Data :=
  if c.hasCmdScannerCtl then s.sendCancel else (.good, s)

def checkForCancel (c : Config) (s : Scan Data) : SaneStatus × Scan Data :=
  if s.started && s.cancelled then
    let (ret, s) := scannerControl c s
    (if ret = .good then .cancelled else ret, { s with started := false, cancelled := false })
  else if s.cancelled then (.cancelled, { s with cancelled := false })
  else (.good, s)

/-! ### `sane_read` -/

def Data.receive (side : Side) (r : Received) (d : Data) : Data :=
  { d with bytesRx := d.bytesRx.set side r.bytes, eofRx := d.eofRx.set side r.eof }

/-- The sides are swapped in low-memory mode when there is data waiting on the other one. -/
def lowMemSwap (c : Config) (d : Data) : Data :=
  let other := d.side.other
  if c.lowMem = true ∧ c.source = .adfDuplex ∧
      (d.bytesRx.get other > d.bytesTx.get other ∨
        d.eofRx.get other = true ∧ d.eofTx.get other = false) then
    { d with side := other }
  else d

/-- The side has ended and everything received has been delivered. -/
def Data.drained (d : Data) : Bool :=
  d.eofRx.get d.side && d.bytesTx.get d.side == d.bytesRx.get d.side

def readFromScanner (c : Config) (side : Side) (r : Received) : Call Data Unit := do
  assign (checkForCancel c) fun s => { s with data := s.data.receive side r }
  command (checkForCancel c) r.status

/-- `read_from_3091duplex` and `read_from_JPEGduplex`, which read both sides. -/
def readBothSides (c : Config) (inp : ReadInput) : Call Data Unit := do
  assign (checkForCancel c) fun s => { s with data := s.data.receive .front inp.front }
  assign (checkForCancel c) fun s => { s with data := s.data.receive .back inp.back }
  command (checkForCancel c) inp.front.status

/-- The data from the scanner; every failure is returned at once. -/
def readBlocks (c : Config) (inp : ReadInput) : Call Data Unit :=
  if c.source = .adfDuplex ∧ c.duplexInterlace = .interlace3091 then readBothSides c inp
  else if c.source = .adfDuplex ∧ c.jpeg = true ∧ c.jpegAlt = true then readBothSides c inp
  else if c.source = .adfDuplex ∧ c.jpeg = false ∧ c.duplexInterlace = .alt then do
    readFromScanner c .front inp.front
    let s ← get
    -- the back side must not get too far ahead of the front
    runIf (s.data.bytesRx.back < s.data.bytesRx.front + c.bufferSize)
      (readFromScanner c .back inp.back)
  else do
    let s ← get
    match s.data.side with
    | .front => readFromScanner c .front inp.front
    | .back => readFromScanner c .back inp.back

def Data.readFromBuffer (copied : Nat) (d : Data) : Data :=
  { d with bytesTx := d.bytesTx.set d.side (d.bytesTx.get d.side + copied) }

/-- The exit of `sane_read` at the end of a side. -/
def returnEof (c : Config) : Call Data SaneStatus := do
  assign (checkForCancel c) fun s =>
    { s with data := { s.data with eofTx := s.data.eofTx.set s.data.side true } }
  assign (checkForCancel c) fun s => { s with data := lowMemSwap c s.data }
  return .eof

/-- `sane_read`, called by the frontend or by `sane_start`. -/
def saneRead (c : Config) (nested : Bool) (inp : ReadInput) : Call Data SaneStatus := do
  requireStarted (checkForCancel c)
  point (checkForCancel c)
  let s ← get
  if s.data.drained then returnEof c
  else do
    assign (checkForCancel c) fun s => { s with reading := true }
    readBlocks c inp
    assign (checkForCancel c) fun s => { s with data := s.data.readFromBuffer inp.copied }
    finish (checkForCancel c) nested (lowMemSwap c)

/-! ### `sane_start` -/

/-- The start of a batch; some failures are only logged. -/
def startBatch (c : Config) (inp : StartInput) : Call Data Unit := do
  assign (checkForCancel c) fun s =>
    { s with data := { s.data with side := if c.source = .adfBack then .back else .front } }
  command (checkForCancel c) inp.updateParams
  ignored (checkForCancel c) inp.functionSource
  ignored (checkForCancel c) inp.modeSelectAuto
  ignored (checkForCancel c) inp.modeSelectDf
  runIf (c.hardwareSteps = false) (ignored (checkForCancel c) inp.sendLut)
  ignored (checkForCancel c) inp.modeSelectBg
  ignored (checkForCancel c) inp.modeSelectDropout
  ignored (checkForCancel c) inp.modeSelectBuff
  ignored (checkForCancel c) inp.modeSelectPrepick
  ignored (checkForCancel c) inp.sendEndorser
  command (checkForCancel c) inp.setWindow
  command (checkForCancel c) inp.getPixelsize
  command (checkForCancel c) inp.backupParams
  command (checkForCancel c) inp.endorser
  ignored (checkForCancel c) inp.lampOn

/-- The counters of a new sheet of paper. -/
def Data.newSheet (d : Data) : Data :=
  { d with eofRx := ⟨false, false⟩, eofTx := ⟨false, false⟩, bytesRx := ⟨0, 0⟩, bytesTx := ⟨0, 0⟩ }

/-- A command whose failure clears `started` before it is returned. -/
def stopping (c : Config) (ret : SaneStatus) : Call Data Unit := do
  point (checkForCancel c)
  if ret ≠ .good then do
    assign (checkForCancel c) fun s => { s with started := false }
    throw ret
  else pure ()

/-- A new sheet of paper is loaded and its scan is started. -/
def startSheet (c : Config) (inp : StartInput) : Call Data Unit := do
  assign (checkForCancel c) fun s => { s with data := s.data.newSheet }
  let s ← get
  runIf (s.started = false) do
    command (checkForCancel c) inp.setupBuffers
    assign (checkForCancel c) fun s => { s with started := true }
  stopping c inp.objectPosition
  stopping c inp.startScan

/-- The whole image is read before `sane_start` returns. -/
def bufferSide (c : Config) (inp : StartInput) : Call Data Unit := do
  let ret ← bufferImage (fun d : Data => d.eofRx.get d.side) (saneRead c true) inp.reads
  if ret ≠ .good then errors (checkForCancel c) [.started, .cancelled, .reading] ret
  else do
    command (checkForCancel c) inp.finalPixelsize
    assign (checkForCancel c) fun s => { s with data := { s.data with
      bytesRx := s.data.bytesRx.set s.data.side (inp.adjusted (s.data.bytesRx.get s.data.side)) } }

/-- Low-memory mode has moved the side marker when both sides are delivered. -/
def resetSide (c : Config) (d : Data) : Data :=
  if c.source = .adfDuplex ∧ c.lowMem = true ∧ d.eofTx.front = true ∧ d.eofTx.back = true then
    { d with side := .back }
  else d

/-- A scan that is already running switches sides. -/
def switchSide (c : Config) (d : Data) : Data :=
  if c.source = .adfDuplex then { d with side := d.side.other } else d

def saneStart (c : Config) (inp : StartInput) : Call Data SaneStatus := do
  protectStart (checkForCancel c) fun d => !d.eofTx.get d.side
  assign (checkForCancel c) fun s => { s with data := resetSide c s.data }
  let s ← get
  (if s.started = false then startBatch c inp
    else assign (checkForCancel c) fun s => { s with data := switchSide c s.data })
  command (checkForCancel c) inp.restoreParams
  let s ← get
  runIf (s.data.side = .front ∨ c.source = .adfBack) (startSheet c inp)
  runIf (c.mustFullyBuffer = true) (bufferSide c inp)
  finish (checkForCancel c) false id

def backend (c : Config) : Backend Data StartInput ReadInput where
  checkForCancel := checkForCancel c
  saneStart := saneStart c
  saneRead := saneRead c false

theorem scannerControl_frame (c : Config) (s : Scan Data) :
    ((scannerControl c s).2.reading = s.reading ∧ (scannerControl c s).2.data = s.data ∧
      (scannerControl c s).2.hit = s.hit ∧ (scannerControl c s).2.closing = s.closing ∧
      (scannerControl c s).2.cancels = s.cancels) ∧
      ∀ ret ∈ (scannerControl c s).2.commands, ret ∈ s.commands := by
  rw [scannerControl]
  split
  · exact ⟨⟨rfl, rfl, rfl, rfl, rfl⟩, fun ret hret => List.mem_of_mem_tail hret⟩
  · exact ⟨⟨rfl, rfl, rfl, rfl, rfl⟩, fun ret hret => hret⟩

/-- The look at the flag tells what the answer to the cancel command leaves it to tell. -/
theorem checkForCancel_sound (c : Config) {w : Report}
    (hw : ∀ ret, w.answers ret → ret ≠ .good → w.tells ret) : Check.Sound (checkForCancel c) w where
  idle s hs := by simp [checkForCancel, hs]
  stops s hs hanswers := by
    have hanswer : ∀ ret, ret ≠ .good → (scannerControl c s).1 = ret → w.tells ret := by
      intro ret hbad hret
      rw [scannerControl] at hret
      split at hret
      · cases hcommands : s.commands with
        | nil =>
          rw [Scan.sendCancel, hcommands] at hret
          exact absurd hret.symm hbad
        | cons answer later =>
          rw [Scan.sendCancel, hcommands] at hret
          refine hw ret (hanswers ret ?_) hbad
          rw [hcommands, ← hret]
          exact List.mem_cons_self
      · exact absurd hret.symm hbad
    rw [checkForCancel]
    split
    · dsimp only
      split
      · exact w.cancelled
      · rename_i hbad
        exact hanswer _ hbad rfl
    · exact w.cancelled
  stopped s hs := by
    rw [checkForCancel]
    split
    · rfl
    · rename_i hnot
      simpa [hs] using hnot
  frame s := by
    rw [checkForCancel]
    split
    · exact (scannerControl_frame c s).1
    · split <;> exact ⟨rfl, rfl, rfl, rfl, rfl⟩
  commands s := by
    rw [checkForCancel]
    split
    · exact (scannerControl_frame c s).2
    · split <;> exact fun ret hret => hret

theorem startReport_sound (c : Config) : Check.Sound (checkForCancel c) startReport :=
  checkForCancel_sound c fun _ _ hbad => hbad

/-- A cancel command that is answered with EOF would hide the cancel. -/
theorem readReport_sound (c : Config) : Check.Sound (checkForCancel c) (readReport (· ≠ .eof)) :=
  checkForCancel_sound c fun _ hanswer hbad => ⟨hbad, hanswer⟩

theorem checkForCancel_sent {c : Config} (hc : c.hasCmdScannerCtl = true) (s : Scan Data)
    (hcancelled : s.cancelled = true) (hstarted : s.started = true) :
    (checkForCancel c s).2.sent = s.sent + 1 := by
  simp [checkForCancel, scannerControl, hcancelled, hstarted, hc, Scan.sendCancel]

/-! ### The exits of `sane_read` -/

variable {c : Config} {w : Report} {inp : ReadInput} {nested : Bool}
  {R : SaneStatus → Scan Data → Prop}

/-- The reads of the scanner succeed. -/
structure ReadInput.Good (inp : ReadInput) : Prop where
  front : inp.front.status = .good
  back : inp.back.status = .good

theorem returned_failed {ret : SaneStatus} (h : nested = false → ret = .good) (hbad : ret ≠ .good)
    (s : Scan Data) : Returned w nested ret s := by
  cases nested with
  | true => exact fun hgood => absurd hgood hbad
  | false => exact absurd (h rfl) hbad

theorem readFromScanner_ensures (hcheck : Check.Sound (checkForCancel c) w) {side : Side}
    {r : Received} (hr : nested = false → r.status = .good) :
    Ensures (Inside w) (readFromScanner c side r) (fun _ => Inside w) (Returned w nested) := by
  have hkept : Kept (checkForCancel c) (Inside w) := Inside.kept hcheck
  refine hkept.assign (Q := Inside w) (fun _ hs => hs) ?_
  exact hkept.ensures_command fun hbad s _ => returned_failed hr hbad s

theorem readBothSides_ensures (hcheck : Check.Sound (checkForCancel c) w)
    (hgood : nested = false → inp.Good) :
    Ensures (Inside w) (readBothSides c inp) (fun _ => Inside w) (Returned w nested) := by
  have hkept : Kept (checkForCancel c) (Inside w) := Inside.kept hcheck
  refine hkept.assign (Q := Inside w) (fun _ hs => hs) ?_
  refine hkept.assign (Q := Inside w) (fun _ hs => hs) ?_
  exact hkept.ensures_command fun hbad s _ => returned_failed (fun h => (hgood h).front) hbad s

theorem readBlocks_ensures (hcheck : Check.Sound (checkForCancel c) w)
    (hgood : nested = false → inp.Good) :
    Ensures (Inside w) (readBlocks c inp) (fun _ => Inside w) (Returned w nested) := by
  have hfront : Ensures (Inside w) (readFromScanner c .front inp.front) (fun _ => Inside w)
      (Returned w nested) := readFromScanner_ensures hcheck fun h => (hgood h).front
  have hback : Ensures (Inside w) (readFromScanner c .back inp.back) (fun _ => Inside w)
      (Returned w nested) := readFromScanner_ensures hcheck fun h => (hgood h).back
  refine .ite (fun _ => readBothSides_ensures hcheck hgood) fun _ => ?_
  refine .ite (fun _ => readBothSides_ensures hcheck hgood) fun _ => ?_
  refine .ite (fun _ => ?_) fun _ => ?_
  · exact hfront.bind fun _ => .peek fun t => runIf_ensures hback
  · refine .peek fun t => ?_
    cases t.data.side with
    | front => exact hfront
    | back => exact hback

theorem returnEof_ensures (hcheck : Check.Sound (checkForCancel c) w) :
    Ensures (Before w nested) (returnEof c) (Returned w nested) (Returned w nested) := by
  have hkept : Kept (checkForCancel c) (Before (δ := Data) w nested) := Before.kept hcheck nested
  refine hkept.assign (Q := Before w nested) (fun s hs => ?_) ?_
  · cases nested <;> exact hs
  refine hkept.assign (Q := Before w nested) (fun s hs => ?_) ?_
  · cases nested <;> exact hs
  exact .pure fun s hs => hs.returned

/-- `sane_read` loses no cancel when its reads succeed; called by `sane_start` it hands a
    cancel on or reports it. -/
theorem saneRead_ensures (hcheck : Check.Sound (checkForCancel c) w)
    (hgood : nested = false → inp.Good) :
    Ensures (Before w nested) (saneRead c nested inp) (Returned w nested)
      (Returned w nested) := by
  have hbefore : Kept (checkForCancel c) (Before w nested) := Before.kept hcheck nested
  have hinside : Kept (checkForCancel c) (Inside w) := Inside.kept hcheck
  refine (requireStarted_ensures hcheck nested).bind fun _ => ?_
  refine hbefore.point (.peek fun t => .ite (fun _ => returnEof_ensures hcheck) fun _ => ?_)
  refine hbefore.assign (Q := Inside w) (fun s hs => hs.inside) ?_
  refine (readBlocks_ensures hcheck hgood).bind fun _ => ?_
  refine hinside.assign (Q := Inside w) (fun _ hs => hs) ?_
  exact finish_ensures hcheck

/-! ### The exits of `sane_start` -/

/-- The commands whose failure `sane_start` returns at once succeed. -/
structure StartInput.Good (inp : StartInput) : Prop where
  updateParams : inp.updateParams = .good
  setWindow : inp.setWindow = .good
  getPixelsize : inp.getPixelsize = .good
  backupParams : inp.backupParams = .good
  endorser : inp.endorser = .good
  restoreParams : inp.restoreParams = .good
  setupBuffers : inp.setupBuffers = .good
  objectPosition : inp.objectPosition = .good
  startScan : inp.startScan = .good
  finalPixelsize : inp.finalPixelsize = .good

variable {inp : StartInput}

theorem startBatch_ensures (hcheck : Check.Sound (checkForCancel c) w) (hgood : inp.Good) :
    Ensures (Inside w) (startBatch c inp) (fun _ => Inside w) R := by
  have hkept : Kept (checkForCancel c) (Inside w) := Inside.kept hcheck
  refine hkept.assign (Q := Inside w) (fun _ hs => hs) ?_
  refine hkept.command (fun hbad => absurd hgood.updateParams hbad) ?_
  refine hkept.point (hkept.point (hkept.point ?_))
  refine (runIf_ensures hkept.ensures).bind fun _ => ?_
  refine hkept.point (hkept.point (hkept.point (hkept.point (hkept.point ?_))))
  refine hkept.command (fun hbad => absurd hgood.setWindow hbad) ?_
  refine hkept.command (fun hbad => absurd hgood.getPixelsize hbad) ?_
  refine hkept.command (fun hbad => absurd hgood.backupParams hbad) ?_
  refine hkept.command (fun hbad => absurd hgood.endorser hbad) ?_
  exact hkept.ensures

theorem stopping_ensures (hcheck : Check.Sound (checkForCancel c) w) {ret : SaneStatus}
    (hret : ret = .good) : Ensures (Inside w) (stopping c ret) (fun _ => Inside w) R := by
  have hkept : Kept (checkForCancel c) (Inside w) := Inside.kept hcheck
  refine hkept.point (.ite (fun hbad => absurd hret hbad) fun _ => ?_)
  exact .pure fun _ hs => hs

theorem startSheet_ensures (hcheck : Check.Sound (checkForCancel c) w) (hgood : inp.Good) :
    Ensures (Inside w) (startSheet c inp) (fun _ => Inside w) R := by
  have hkept : Kept (checkForCancel c) (Inside w) := Inside.kept hcheck
  refine hkept.assign (Q := Inside w) (fun _ hs => hs) (.peek fun t => ?_)
  refine (runIf_ensures ?_).bind fun _ => ?_
  · refine hkept.command (fun hbad => absurd hgood.setupBuffers hbad) ?_
    exact hkept.ensures_assign fun _ hs => hs
  · refine (stopping_ensures hcheck hgood.objectPosition).bind fun _ => ?_
    exact stopping_ensures hcheck hgood.startScan

theorem bufferSide_ensures (hcheck : Check.Sound (checkForCancel c) startReport)
    (hgood : inp.Good) :
    Ensures (Inside startReport) (bufferSide c inp) (fun _ => Inside startReport)
      (Returned startReport false) := by
  have hkept : Kept (checkForCancel c) (Inside startReport) := Inside.kept hcheck
  have hread : ∀ r, Ensures (Inside startReport) (saneRead c true r) (Returned startReport true)
      (Returned startReport true) := by
    intro r
    have h : Ensures (Before startReport true) (saneRead c true r) (Returned startReport true)
      (Returned startReport true) := saneRead_ensures hcheck fun h => absurd h (by decide)
    exact h
  refine (bufferImage_ensures hread inp.reads).bind fun ret => ?_
  refine .ite (fun hbad => ?_) fun hret => ?_
  · refine (errors_ensures hcheck (by decide) (by decide)).conseq (fun _ _ => trivial)
      (fun _ _ hs => hs) ?_
    rintro _ s ⟨rfl, hs⟩
    exact hs.returned hbad
  · refine (hkept.command (fun hbad => absurd hgood.finalPixelsize hbad) ?_).conseq
      (fun s hs => hs (not_not.mp hret)) (fun _ _ hs => hs) fun _ _ hs => hs
    exact hkept.ensures_assign fun _ hs => hs

/-- `sane_start` loses no cancel when no side is left unfinished and the commands succeed
    whose failure it returns at once. -/
theorem saneStart_ensures {s₀ : Scan Data} (hgood : inp.Good)
    (hdone : ¬ (s₀.started = true ∧ (!s₀.data.eofTx.get s₀.data.side) = true)) :
    Ensures (fun s => Quiet startReport s ∧ Untouched s₀ s) (saneStart c inp)
      (Returned startReport false) (Returned startReport false) := by
  have hcheck := startReport_sound c
  have hkept : Kept (checkForCancel c) (Inside startReport) := Inside.kept hcheck
  refine (protectStart_ensures hcheck hdone).bind fun _ => ?_
  refine hkept.assign (Q := Inside startReport) (fun _ hs => hs) (.peek fun t => ?_)
  refine Ensures.bind (Q := fun _ => Inside startReport) ?_ fun _ => ?_
  · refine .ite (fun _ => startBatch_ensures hcheck hgood) fun _ => ?_
    exact hkept.ensures_assign fun _ hs => hs
  refine hkept.command (fun hbad => absurd hgood.restoreParams hbad) (.peek fun t => ?_)
  refine (runIf_ensures (startSheet_ensures hcheck hgood)).bind fun _ => ?_
  refine (runIf_ensures (bufferSide_ensures hcheck hgood)).bind fun _ => ?_
  exact finish_ensures hcheck

/-! ### Runs -/

/-- The inputs with which a call is kept from its unprotected exits: the side in work is not
    left unfinished, the commands succeed whose failure is returned at once, and no cancel
    arrives where nobody is going to look at the flag.  In `sane_read` a cancel command is
    not answered with EOF, and between calls the scanner knows that command. -/
def Fine (c : Config) (s : Scan Data) : Op StartInput ReadInput → Prop
  | .start inp cancels _ => Watched cancels ∧ inp.Good ∧
      ¬ (s.started = true ∧ (!s.data.eofTx.get s.data.side) = true)
  | .read inp cancels commands => Watched cancels ∧ inp.Good ∧ ∀ ret ∈ commands, ret ≠ .eof
  | .cancel _ => s.started = true → c.hasCmdScannerCtl = true

theorem step_obeyed (s : Scan Data) (op : Op StartInput ReadInput) (hs : s.reading = false)
    (hfine : Fine c s op) :
    Obeyed s op ((backend c).step s op).1 ((backend c).step s op).2 := by
  cases op with
  | start inp cancels commands =>
    obtain ⟨hcancels, hgood, hdone⟩ := hfine
    exact acted_of_ensures (saneStart_ensures (c := c) hgood hdone)
      ⟨enter_quiet hs hcancels fun _ _ => trivial, rfl, fun hstarted => hstarted⟩
  | read inp cancels commands =>
    obtain ⟨hcancels, hgood, hcommands⟩ := hfine
    have hm : Ensures (Before (readReport (· ≠ .eof)) false) (saneRead c false inp)
        (Returned (readReport (· ≠ .eof)) false) (Returned (readReport (· ≠ .eof)) false) :=
      saneRead_ensures (readReport_sound c) fun _ => hgood
    exact acted_of_ensures hm (enter_quiet hs hcancels hcommands)
  | cancel commands =>
    refine cancel_obeyed (b := backend c) (startReport_sound c) hs ?_ commands
    exact fun t hcancelled hstarted h => checkForCancel_sent (hfine h) t hcancelled hstarted

end SaneBackends.FujitsuCancel
