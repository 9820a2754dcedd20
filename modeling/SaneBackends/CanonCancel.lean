import SaneBackends.CancelFlags
import SaneBackends.DuplexSides

/-!
# Cancelling a scan of the `canon_dr` backend

The protocol is that of the `fujitsu` backend, but an early return of `sane_start` and
`sane_read` goes to `errors:`, where the flags are cleared, in an order of its own in each of
the two.
-/

namespace SaneBackends.CanonCancel

open EarlyExit CancelFlags DuplexSides

/-- What stays the same during a batch; `interlaced` says that `duplex_interlace` is not
    `DUPLEX_INTERLACE_NONE`, `buffered` that software deskewing, cropping or despeckling
    needs the whole image. -/
structure Config where
  source : Source
  jpeg : Bool
  interlaced : Bool
  buffermode : Bool
  alwaysOp : Bool
  buffered : Bool

/-- The counters the exits depend on: `u.eof`, `s.eof`, `u.bytes_sent`, `i.bytes_tot`, and
    the pages counted here and by the scanner. -/
structure Data where
  side : Side
  userEof : Sides Bool
  scannerEof : Sides Bool
  bytesSent : Sides Nat
  bytesTot : Sides Nat
  prevPage : Nat
  panelCounter : Nat

/-- What a function that reads from the scanner leaves in the counters of a side. -/
structure Received where
  bytesTot : Nat
  eof : Bool

/-- What happens during a `sane_read`: the status of the function that reads from the
    scanner, what it leaves in the counters, and how much `read_from_buffer` copies. -/
structure ReadInput where
  status : SaneStatus
  front : Received
  back : Received
  copied : Nat

def ReadInput.received (inp : ReadInput) : Side → Received
  | .front => inp.front
  | .back => inp.back

/-- What happens during a `sane_start`: the answers to its commands, the page counter that
    the panel shows, the reads of an image that is buffered, and what cropping makes of its
    size. -/
structure StartInput where
  eject : SaneStatus := .good
  waitEject : SaneStatus := .good
  loadLut : SaneStatus := .good
  calibrateAFE : SaneStatus := .good
  calibrateFine : SaneStatus := .good
  calibrateFineBuffer : SaneStatus := .good
  sendPanel : SaneStatus := .good
  updateParams : SaneStatus := .good
  setWindow : SaneStatus := .good
  ssmBuffer : SaneStatus := .good
  ssmDo : SaneStatus := .good
  ssmDf : SaneStatus := .good
  cleanParams : SaneStatus := .good
  imageBuffers : SaneStatus := .good
  loadUserLut : SaneStatus := .good
  objectPosition : SaneStatus := .good
  waitLoad : SaneStatus := .good
  startScan : SaneStatus := .good
  updateIParams : SaneStatus := .good
  readPanel : SaneStatus := .good
  panelCounter : Nat := 0
  totals : Sides Nat := ⟨0, 0⟩
  reads : List ReadInput := []
  adjusted : Nat → Nat := id

/-- `check_for_cancel`: the cancel command and the eject command may fail. -/
def checkForCancel (s : Scan Data) : SaneStatus × Scan Data :=
  if s.started && s.cancelled then
    let (_, s) := s.sendCancel
    (.cancelled, { s with started := false, cancelled := false })
  else if s.cancelled then (.cancelled, { s with cancelled := false })
  else (.good, s)

/-! ### `sane_read` -/

def Data.receive (side : Side) (r : Received) (d : Data) : Data :=
  { d with
    bytesTot := d.bytesTot.set side r.bytesTot
    scannerEof := d.scannerEof.set side r.eof }

/-- A page more has been read when its last block has. -/
def Data.countPage (ended : Bool) (d : Data) : Data :=
  if ended then { d with prevPage := d.prevPage + 1 } else d

/-- Everything of the side has been delivered. -/
def Data.delivered (d : Data) : Bool := d.bytesSent.get d.side == d.bytesTot.get d.side

/-- The data from the scanner, for both sides at once or for the side in work. -/
def readBlocks (c : Config) (inp : ReadInput) : Call Data Unit :=
  if c.source = .adfDuplex ∧ c.jpeg = false ∧ c.interlaced = true then do
    let s ← get
    runIf (s.data.scannerEof.front = false ∨ s.data.scannerEof.back = false) do
      assign checkForCancel fun s => { s with data := s.data.receive .front inp.front }
      assign checkForCancel fun s => { s with data := s.data.receive .back inp.back }
      command checkForCancel inp.status
      assign checkForCancel fun s =>
        { s with data := s.data.countPage (s.data.scannerEof.front && s.data.scannerEof.back) }
  else do
    let s ← get
    runIf (s.data.scannerEof.get s.data.side = false) do
      assign checkForCancel fun s =>
        { s with data := s.data.receive s.data.side (inp.received s.data.side) }
      command checkForCancel inp.status
      assign checkForCancel fun s =>
        { s with data := s.data.countPage (s.data.scannerEof.get s.data.side) }

def Data.readFromBuffer (copied : Nat) (d : Data) : Data :=
  { d with bytesSent := d.bytesSent.set d.side (d.bytesSent.get d.side + copied) }

/-- The exit of `sane_read` at the end of a side. -/
def returnEof : Call Data SaneStatus := do
  assign checkForCancel fun s =>
    { s with data := { s.data with userEof := s.data.userEof.set s.data.side true } }
  return .eof

/-- The part of `sane_read` whose early returns go to `errors:`. -/
def readBody (c : Config) (nested : Bool) (inp : ReadInput) : Call Data SaneStatus := do
  assign checkForCancel fun s => { s with reading := true }
  readBlocks c inp
  assign checkForCancel fun s => { s with data := s.data.readFromBuffer inp.copied }
  finish checkForCancel nested id

/-- `sane_read`, called by the frontend or by `sane_start`. -/
def saneRead (c : Config) (nested : Bool) (inp : ReadInput) : Call Data SaneStatus := do
  requireStarted checkForCancel
  point checkForCancel
  let s ← get
  if s.data.delivered then returnEof
  else (readBody c nested inp).orErrors checkForCancel [.reading, .cancelled, .started]

/-! ### `sane_start` -/

def Data.cleanParams (totals : Sides Nat) (d : Data) : Data :=
  { d with
    userEof := ⟨false, false⟩
    scannerEof := ⟨false, false⟩
    bytesSent := ⟨0, 0⟩
    bytesTot := totals }

/-- The start of a batch. -/
def startBatch (c : Config) (inp : StartInput) : Call Data Unit := do
  assign checkForCancel fun s =>
    { s with data := { s.data with side := if c.source = .adfBack then .back else .front } }
  ignored checkForCancel inp.eject
  command checkForCancel inp.waitEject
  command checkForCancel inp.loadLut
  command checkForCancel inp.calibrateAFE
  command checkForCancel inp.calibrateFine
  command checkForCancel inp.calibrateFineBuffer
  assign checkForCancel fun s => { s with data := { s.data with panelCounter := 0, prevPage := 0 } }
  ignored checkForCancel inp.sendPanel
  command checkForCancel inp.updateParams
  command checkForCancel inp.setWindow
  command checkForCancel inp.ssmBuffer
  command checkForCancel inp.ssmDo
  command checkForCancel inp.ssmDf
  assign checkForCancel fun s => { s with data := s.data.cleanParams inp.totals }
  command checkForCancel inp.cleanParams
  command checkForCancel inp.imageBuffers
  command checkForCancel inp.loadUserLut
  command checkForCancel inp.objectPosition
  command checkForCancel inp.waitLoad
  command checkForCancel inp.startScan
  assign checkForCancel fun s => { s with started := true }

/-- A new sheet of paper of a batch. -/
def nextSheet (c : Config) (inp : StartInput) : Call Data Unit := do
  assign checkForCancel fun s => { s with data := s.data.cleanParams inp.totals }
  command checkForCancel inp.cleanParams
  (if c.alwaysOp = true ∨ c.buffermode = false then do
      command checkForCancel inp.objectPosition
      runIf (c.buffermode = false) (command checkForCancel inp.startScan)
    else do
      assign checkForCancel fun s =>
        { s with data := { s.data with panelCounter := inp.panelCounter } }
      command checkForCancel inp.readPanel
      let s ← get
      runIf (s.data.prevPage = s.data.panelCounter) (throw .noDocs))

/-- Duplex scans switch sides. -/
def switchSide (c : Config) (d : Data) : Data :=
  if c.source = .adfDuplex then { d with side := d.side.other } else d

/-- The images of a batch after the first. -/
def nextImage (c : Config) (inp : StartInput) : Call Data Unit := do
  assign checkForCancel fun s => { s with data := switchSide c s.data }
  command checkForCancel inp.updateIParams
  let s ← get
  runIf (s.data.side = .front ∨ c.source = .adfBack) (nextSheet c inp)

/-- Cropping changes the size of the side. -/
def Data.crop (adjusted : Nat → Nat) (d : Data) : Data :=
  { d with bytesTot := d.bytesTot.set d.side (adjusted (d.bytesTot.get d.side)) }

/-- The whole image is read before `sane_start` returns. -/
def bufferSide (c : Config) (inp : StartInput) : Call Data Unit := do
  let ret ← bufferImage (fun d : Data => d.scannerEof.get d.side) (saneRead c true) inp.reads
  if ret ≠ .good then throw ret
  else assign checkForCancel fun s => { s with data := s.data.crop inp.adjusted }

/-- The part of `sane_start` whose early returns go to `errors:`. -/
def startBody (c : Config) (inp : StartInput) : Call Data SaneStatus := do
  let s ← get
  (if s.started = false then startBatch c inp else nextImage c inp)
  runIf (c.buffered = true ∧ c.jpeg = false) (bufferSide c inp)
  finish checkForCancel false id

def saneStart (c : Config) (inp : StartInput) : Call Data SaneStatus := do
  protectStart checkForCancel fun d => !d.userEof.get d.side
  (startBody c inp).orErrors checkForCancel [.started, .cancelled, .reading]

def backend (c : Config) : Backend Data StartInput ReadInput where
  checkForCancel := checkForCancel
  saneStart := saneStart c
  saneRead := saneRead c false

theorem checkForCancel_sound (w : Report) : Check.Sound checkForCancel w where
  idle s hs := by simp [checkForCancel, hs]
  stops s hs _ := by
    rw [checkForCancel]
    split <;> exact w.cancelled
  stopped s hs := by
    rw [checkForCancel]
    split
    · rfl
    · rename_i hnot
      simpa [hs] using hnot
  frame s := by
    rw [checkForCancel]
    split
    · exact ⟨rfl, rfl, rfl, rfl, rfl⟩
    · split <;> exact ⟨rfl, rfl, rfl, rfl, rfl⟩
  commands s := by
    rw [checkForCancel]
    split
    · exact fun ret hret => List.mem_of_mem_tail hret
    · split <;> exact fun ret hret => hret

theorem checkForCancel_sent (s : Scan Data) (hcancelled : s.cancelled = true)
    (hstarted : s.started = true) : (checkForCancel s).2.sent = s.sent + 1 := by
  simp [checkForCancel, hcancelled, hstarted, Scan.sendCancel]

/-! ### The exits of `sane_read` -/

variable {c : Config} {w : Report} {inp : ReadInput} {nested : Bool}

/-- An early return that goes to `errors:` tells that the call has failed. -/
def Failed (w : Report) (ret : SaneStatus) (_ : Scan Data) : Prop := w.tells ret

theorem readBlocks_ensures (hstatus : inp.status ≠ .good → w.tells inp.status) :
    Ensures (Inside w) (readBlocks c inp) (fun _ => Inside w) (Failed w) := by
  have hkept : Kept checkForCancel (Inside w) := Inside.kept (checkForCancel_sound w)
  refine .ite (fun _ => ?_) fun _ => ?_
  · refine .peek fun t => runIf_ensures ?_
    refine hkept.assign (Q := Inside w) (fun _ hs => hs) ?_
    refine hkept.assign (Q := Inside w) (fun _ hs => hs) ?_
    refine hkept.command (fun hbad _ _ => hstatus hbad) ?_
    exact hkept.ensures_assign fun _ hs => hs
  · refine .peek fun t => runIf_ensures ?_
    refine hkept.assign (Q := Inside w) (fun _ hs => hs) ?_
    refine hkept.command (fun hbad _ _ => hstatus hbad) ?_
    exact hkept.ensures_assign fun _ hs => hs

theorem returnEof_ensures :
    Ensures (Before w nested) returnEof (Returned w nested) (Returned w nested) := by
  have hkept : Kept checkForCancel (Before (δ := Data) w nested) :=
    Before.kept (checkForCancel_sound w) nested
  refine hkept.assign (Q := Before w nested) (fun s hs => ?_) ?_
  · cases nested <;> exact hs
  exact .pure fun s hs => hs.returned

theorem readBody_ensures (hstatus : inp.status ≠ .good → w.tells inp.status) :
    Ensures (Before w nested) (readBody c nested inp) (Returned w nested) (Failed w) := by
  have hcheck := checkForCancel_sound w
  have hinside : Kept checkForCancel (Inside w) := Inside.kept hcheck
  refine (Before.kept hcheck nested).assign (Q := Inside w) (fun s hs => hs.inside) ?_
  refine (readBlocks_ensures hstatus).bind fun _ => ?_
  refine hinside.assign (Q := Inside w) (fun _ hs => hs) ?_
  exact finish_ensures hcheck

/-- `sane_read` loses no cancel; called by `sane_start` it hands a cancel on or reports it. -/
theorem saneRead_ensures (hstatus : inp.status ≠ .good → w.tells inp.status) :
    Ensures (Before w nested) (saneRead c nested inp) (Returned w nested)
      (Returned w nested) := by
  have hcheck := checkForCancel_sound w
  have hbefore : Kept checkForCancel (Before w nested) := Before.kept hcheck nested
  refine (requireStarted_ensures hcheck nested).bind fun _ => ?_
  refine hbefore.point (.peek fun t => .ite (fun _ => returnEof_ensures) fun _ => ?_)
  refine orErrors_ensures hcheck (by decide) (by decide) (readBody_ensures hstatus) ?_
  exact fun _ _ hbad hs => hs.returned hbad

/-! ### The exits of `sane_start` -/

variable {inp : StartInput}

theorem startBatch_ensures : Ensures (Inside startReport) (startBatch c inp)
    (fun _ => Inside startReport) (Failed startReport) := by
  have hkept : Kept checkForCancel (Inside startReport) := Inside.kept (checkForCancel_sound _)
  have hfail : ∀ ret : SaneStatus, ret ≠ .good → ∀ s, Inside startReport s →
      Failed startReport ret s := fun ret hbad _ _ => hbad
  refine hkept.assign (Q := Inside startReport) (fun _ hs => hs) (hkept.point ?_)
  refine hkept.command (hfail _) (hkept.command (hfail _) (hkept.command (hfail _) ?_))
  refine hkept.command (hfail _) (hkept.command (hfail _) ?_)
  refine hkept.assign (Q := Inside startReport) (fun _ hs => hs) (hkept.point ?_)
  refine hkept.command (hfail _) (hkept.command (hfail _) (hkept.command (hfail _) ?_))
  refine hkept.command (hfail _) (hkept.command (hfail _) ?_)
  refine hkept.assign (Q := Inside startReport) (fun _ hs => hs) ?_
  refine hkept.command (hfail _) (hkept.command (hfail _) (hkept.command (hfail _) ?_))
  refine hkept.command (hfail _) (hkept.command (hfail _) (hkept.command (hfail _) ?_))
  exact hkept.ensures_assign fun _ hs => hs

theorem nextImage_ensures : Ensures (Inside startReport) (nextImage c inp)
    (fun _ => Inside startReport) (Failed startReport) := by
  have hkept : Kept checkForCancel (Inside startReport) := Inside.kept (checkForCancel_sound _)
  refine hkept.assign (Q := Inside startReport) (fun _ hs => hs) ?_
  refine hkept.command (fun hbad _ _ => hbad) (.peek fun t => runIf_ensures ?_)
  refine hkept.assign (Q := Inside startReport) (fun _ hs => hs) ?_
  refine hkept.command (fun hbad _ _ => hbad) (.ite (fun _ => ?_) fun _ => ?_)
  · refine hkept.command (fun hbad _ _ => hbad) (runIf_ensures ?_)
    exact hkept.ensures_command fun hbad _ _ => hbad
  · refine hkept.assign (Q := Inside startReport) (fun _ hs => hs) ?_
    refine hkept.command (fun hbad _ _ => hbad) (.peek fun t => runIf_ensures ?_)
    exact .throw fun s _ => (by decide : SaneStatus.noDocs ≠ .good)

theorem bufferSide_ensures : Ensures (Inside startReport) (bufferSide c inp)
    (fun _ => Inside startReport) (Failed startReport) := by
  have hkept : Kept checkForCancel (Inside startReport) := Inside.kept (checkForCancel_sound _)
  have hread : ∀ r, Ensures (Inside startReport) (saneRead c true r) (Returned startReport true)
      (Returned startReport true) := by
    intro r
    have h : Ensures (Before startReport true) (saneRead c true r) (Returned startReport true)
      (Returned startReport true) := saneRead_ensures fun hbad => hbad
    exact h
  refine (bufferImage_ensures hread inp.reads).bind fun ret => ?_
  refine .ite (fun hbad => .throw fun _ _ => hbad) fun hret => ?_
  have hcrop : Ensures (Inside startReport) (assign checkForCancel fun s =>
      { s with data := s.data.crop inp.adjusted }) (fun _ => Inside startReport)
      (Failed startReport) := hkept.ensures_assign fun _ hs => hs
  exact hcrop.conseq (fun s hs => hs (not_not.mp hret)) (fun _ _ hs => hs) fun _ _ hs => hs

theorem startBody_ensures : Ensures (Inside startReport) (startBody c inp)
    (Returned startReport false) (Failed startReport) := by
  refine .peek fun t => Ensures.bind (Q := fun _ => Inside startReport) ?_ fun _ => ?_
  · exact .ite (fun _ => startBatch_ensures) fun _ => nextImage_ensures
  · refine (runIf_ensures bufferSide_ensures).bind fun _ => ?_
    exact finish_ensures (checkForCancel_sound _)

/-- `sane_start` loses no cancel when no side is left unfinished. -/
theorem saneStart_ensures {s₀ : Scan Data}
    (hdone : ¬ (s₀.started = true ∧ (!s₀.data.userEof.get s₀.data.side) = true)) :
    Ensures (fun s => Quiet startReport s ∧ Untouched s₀ s) (saneStart c inp)
      (Returned startReport false) (Returned startReport false) := by
  have hcheck := checkForCancel_sound startReport
  refine (protectStart_ensures hcheck hdone).bind fun _ => ?_
  refine orErrors_ensures hcheck (by decide) (by decide) startBody_ensures ?_
  exact fun _ _ hbad hs => hs.returned hbad

/-! ### Runs -/

/-- The inputs with which a call is kept from its unprotected exits: the side in work is not
    left unfinished, and no cancel arrives where nobody is going to look at the flag.  The
    functions that read for `sane_read` do not fail with EOF. -/
def Fine (s : Scan Data) : Op StartInput ReadInput → Prop
  | .start _ cancels _ => Watched cancels ∧
      ¬ (s.started = true ∧ (!s.data.userEof.get s.data.side) = true)
  | .read inp cancels _ => Watched cancels ∧ inp.status ≠ .eof
  | .cancel _ => True

theorem step_obeyed (s : Scan Data) (op : Op StartInput ReadInput) (hs : s.reading = false)
    (hfine : Fine s op) :
    Obeyed s op ((backend c).step s op).1 ((backend c).step s op).2 := by
  cases op with
  | start inp cancels commands =>
    exact acted_of_ensures (saneStart_ensures (c := c) hfine.2)
      ⟨enter_quiet hs hfine.1 fun _ _ => trivial, rfl, fun hstarted => hstarted⟩
  | read inp cancels commands =>
    have hm : Ensures (Before (readReport fun _ => True) false) (saneRead c false inp)
        (Returned (readReport fun _ => True) false) (Returned (readReport fun _ => True) false) :=
      saneRead_ensures fun hbad => ⟨hbad, hfine.2⟩
    exact acted_of_ensures hm (enter_quiet hs hfine.1 fun _ _ => trivial)
  | cancel commands =>
    refine cancel_obeyed (b := backend c) (checkForCancel_sound startReport) hs ?_ commands
    exact fun t hcancelled hstarted _ => checkForCancel_sent t hcancelled hstarted

end SaneBackends.CanonCancel
