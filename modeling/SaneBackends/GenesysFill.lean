import SaneBackends.GenesysBuffer

/-!
# Filling the read buffer of a Genesys scanner

`genesys_fill_read_buffer` of `backend/genesys.c` with the readers below it.  The size of a
read is rounded to 256 bytes, the last one up; some sensors are read a line at a time into a
buffer of its own, from which the bytes are copied in another order.
-/

namespace SaneBackends.Genesys

open Overwrite LabelledRun

/-! ### The device -/

/-- What a call of `bulk_read_data` does.  If it is successful, all bytes asked for have
    arrived, otherwise some.  For one scanner it looks for the end of the document as well,
    and takes `cut` bytes off what is still to be read. -/
structure BulkRead where
  status : SaneStatus
  bytes : Nat → SaneByte
  arrived : Nat
  cut : Nat

/-- The bytes that have been stored. -/
def BulkRead.stored (r : BulkRead) (size : Nat) : List SaneByte :=
  (List.range (if r.status = .good then size else min r.arrived size)).map r.bytes

theorem BulkRead.length_stored (r : BulkRead) (size : Nat) : (r.stored size).length ≤ size := by
  rw [BulkRead.stored, List.length_map, List.length_range]
  split
  · exact le_rfl
  · exact Nat.min_le_right _ _

theorem BulkRead.length_stored_good {r : BulkRead} (h : r.status = .good) (size : Nat) :
    (r.stored size).length = size := by
  rw [BulkRead.stored, List.length_map, List.length_range, if_pos h]

/-- The fields of `Genesys_Device` that are used here.  `oeBuffer` is what stands in memory
    from the block of `oe_buffer` on, `depth` the depth that the segments are read with.
    The sensors have 1, 2, 4 or 8 segments.  `takenOff` counts the bytes that the ends of
    documents have taken off `readBytesLeft`. -/
structure GenesysDevice where
  isSheetfed : Bool
  doubleXres : Bool
  depth : Nat
  channels : Nat
  lineInterp : Nat
  segnb : Nat
  segnb_dvd : 1 < segnb → segnb ∣ 8
  order : Nat → Nat
  bpl : Nat
  dist : Nat
  len : Nat
  skip : Nat
  cur : Nat
  lineCount : Nat
  oeBuffer : Nat → SaneByte
  oeSize : Nat
  oePos : Nat
  oeAvail : Nat
  readBuffer : GenesysBuffer
  readBytesLeft : Nat
  takenOff : Nat

/-- The document is shorter than the scan. -/
def GenesysDevice.cutBytes (dev : GenesysDevice) (n : Nat) : GenesysDevice :=
  { dev with
    readBytesLeft := dev.readBytesLeft - n
    takenOff := dev.takenOff + min n dev.readBytesLeft }

/-- `bulk_read_data`, apart from storing. -/
def bulkReadData (dev : GenesysDevice) (r : BulkRead) : GenesysDevice :=
  if dev.isSheetfed then dev.cutBytes r.cut else dev

/-- `accurate_line_read` into `oe_buffer`. -/
def accurateLineRead (dev : GenesysDevice) (r : BulkRead) : SaneStatus × GenesysDevice :=
  let dev := bulkReadData dev r
  let bs := r.stored dev.oeSize
  let dev := { dev with oeBuffer := fun i => bs.getD i (dev.oeBuffer i) }
  if r.status = .good then (.good, { dev with oeAvail := dev.oeSize, oePos := 0 })
  else (.ioError, dev)

/-! ### The readers -/

/-- A reader under way.  `usb` is what the calls of `bulk_read_data` are going to do, `stored`
    what has been stored from `work_buffer_dst` on; `count` is its length. -/
structure Filling where
  dev : GenesysDevice
  usb : Nat → BulkRead
  stored : List SaneByte

def Filling.readLine (f : Filling) : SaneStatus × Filling :=
  ((accurateLineRead f.dev (f.usb 0)).1,
    { f with dev := (accurateLineRead f.dev (f.usb 0)).2, usb := fun i => f.usb (i + 1) })

/-- "Read a new buffer if needed." -/
def Filling.readIfUsedUp (f : Filling) : SaneStatus × Filling :=
  if f.dev.oePos ≥ f.dev.oeAvail then f.readLine else (.good, f)

/-- The loop of a reader, at most so many turns; without a status it has not ended by then. -/
def fillLoop (turn : Filling → SaneStatus × Filling) (size : Nat) :
    Nat → Filling → Option SaneStatus × Filling
  | 0, f => (none, f)
  | turns + 1, f =>
    if f.stored.length < size then
      match turn f with
      | (.good, f) => fillLoop turn size turns f
      | (_, f) => (some .ioError, f)
    else (some .good, f)

/-- What both readers do. -/
def fillFrom (turn : Filling → SaneStatus × Filling) (size turns : Nat) (f : Filling) :
    Option SaneStatus × Filling :=
  if f.dev.oeAvail = 0 then
    match f.readLine with
    | (.good, f) => fillLoop turn size turns f
    | (_, f) => (some .ioError, f)
  else fillLoop turn size turns f

/-- "Go to next line if needed"; only one reader counts the lines. -/
def Filling.nextLine (f : Filling) (counted : Nat) : Filling :=
  if f.dev.cur = f.dev.len then
    { f with dev := { f.dev with
        oePos := f.dev.oePos + f.dev.bpl, cur := 0, lineCount := f.dev.lineCount + counted } }
  else f

/-- A byte is copied from one line in `lineInterp`. -/
def Filling.copyInterp (f : Filling) : Filling :=
  let bs :=
    if f.dev.lineCount / f.dev.channels % f.dev.lineInterp = 0 then
      [f.dev.oeBuffer (f.dev.cur + f.dev.oePos)]
    else []
  { f with dev := { f.dev with cur := f.dev.cur + 1 }, stored := f.stored ++ bs }

/-- A turn of `genesys_fill_line_interp_buffer`. -/
def interpTurn (f : Filling) : SaneStatus × Filling := (f.copyInterp.nextLine 1).readIfUsedUp

/-- The byte of segment `n`. -/
def GenesysDevice.segmentByte (dev : GenesysDevice) (n i : Nat) : SaneByte :=
  dev.oeBuffer (dev.cur + dev.skip + dev.dist * dev.order n + dev.oePos + i)

/-- "Interleaving is at bit level": bit `i` of all segments, one after the other. -/
def GenesysDevice.interleaveBits (dev : GenesysDevice) : List SaneByte :=
  (List.range 8).foldl (fun group i =>
    (List.range dev.segnb).foldl (fun group n =>
      group.modify (i * dev.segnb / 8) fun b =>
        if dev.segmentByte n 0 &&& (128#8 >>> i) ≠ 0 then (b <<< 1) ||| 1 else b <<< 1) group)
    (List.replicate dev.segnb 0)

/-- What is stored for one position of the segments, and how far `cur` is moved then. -/
def GenesysDevice.segmentGroup (dev : GenesysDevice) : List SaneByte × Nat :=
  if dev.depth = 1 then (dev.interleaveBits, 1)
  else if dev.depth = 8 then ((List.range dev.segnb).map fun n => dev.segmentByte n 0, 1)
  else
    ((List.range dev.segnb).flatMap fun n => [dev.segmentByte n 0, dev.segmentByte n 1], 2)

/-- The inner loops of `genesys_fill_segmented_buffer`; `cur` grows in every turn. -/
def segmentLoop (size : Nat) : Nat → Filling → Filling
  | 0, f => f
  | turns + 1, f =>
    if f.dev.cur < f.dev.len ∧ f.stored.length < size then
      segmentLoop size turns { f with
        dev := { f.dev with cur := f.dev.cur + f.dev.segmentGroup.2 }
        stored := f.stored ++ f.dev.segmentGroup.1 }
    else f

def Filling.copySegments (f : Filling) (size : Nat) : Filling :=
  if f.dev.doubleXres then
    { f with
      dev := { f.dev with cur := f.dev.cur + 1 }
      stored := f.stored ++ [f.dev.oeBuffer (f.dev.cur + f.dev.oePos)] }
  else if f.dev.depth = 1 ∨ f.dev.depth = 8 ∨ f.dev.depth = 16 then
    segmentLoop size (f.dev.len - f.dev.cur) f
  else f

/-- A turn of `genesys_fill_segmented_buffer`. -/
def segmentedTurn (size : Nat) (f : Filling) : SaneStatus × Filling :=
  ((f.copySegments size).nextLine 0).readIfUsedUp

/-- The choice of the reader. -/
def readInto (dev : GenesysDevice) (usb : Nat → BulkRead) (size turns : Nat) :
    Option SaneStatus × Filling :=
  if dev.lineInterp > 0 then fillFrom interpTurn size turns ⟨dev, usb, []⟩
  else if dev.segnb > 1 then fillFrom (segmentedTurn size) size turns ⟨dev, usb, []⟩
  else (some (usb 0).status,
    ⟨bulkReadData dev (usb 0), fun i => usb (i + 1), (usb 0).stored size⟩)

/-! ### Filling the buffer -/

/-- The size of a read for so much space and so many bytes left. -/
def readSize (space left : Nat) : Nat :=
  let size := space - space % 2
  let size := size - size % 256
  if left < size then
    let size := if left % 256 ≠ 0 then left + 256 else left
    size - size % 256
  else size

/-- What the scanner does while the buffer is filled: `detect_document_end`, which may take
    bytes off, and the calls of `bulk_read_data`. -/
structure FillEvent where
  documentEnd : SaneStatus
  cut : Nat
  usb : Nat → BulkRead

/-- Where a call has stored what, and what it has returned (if it has returned). -/
structure FillResult where
  status : Option SaneStatus
  writePos : Option Nat
  stored : List SaneByte
  dev : GenesysDevice

/-- `detect_document_end`, for a sheetfed scanner. -/
def detectDocumentEnd (dev : GenesysDevice) (ev : FillEvent) : SaneStatus × GenesysDevice :=
  if dev.isSheetfed then (ev.documentEnd, dev.cutBytes ev.cut) else (.good, dev)

/-- The second half of `genesys_fill_read_buffer`: `size` bytes are read, and those that are
    still to be read are produced. -/
def readBlock (dev : GenesysDevice) (writePos : Option Nat) (size : Nat) (usb : Nat → BulkRead)
    (turns : Nat) : FillResult :=
  match readInto dev usb size turns with
  | (status, f) =>
    let dev :=
      match writePos with
      | none => f.dev
      | some ptr => { f.dev with readBuffer := f.dev.readBuffer.store ptr f.stored }
    match status with
    | none => ⟨none, writePos, f.stored, dev⟩
    | some .good =>
      let size := if size > dev.readBytesLeft then dev.readBytesLeft else size
      let dev := { dev with readBytesLeft := dev.readBytesLeft - size }
      let (status, buf) := bufferProduce dev.readBuffer size
      ⟨some status, writePos, f.stored, { dev with readBuffer := buf }⟩
    | some _ => ⟨some .ioError, writePos, f.stored, dev⟩

/-- `genesys_fill_read_buffer`, when the loop of a reader makes at most so many turns. -/
def fillReadBuffer (dev : GenesysDevice) (ev : FillEvent) (turns : Nat) : FillResult :=
  match detectDocumentEnd dev ev with
  | (.good, dev) =>
    let space := dev.readBuffer.size - dev.readBuffer.avail
    match getWritePos dev.readBuffer space with
    | (writePos, buf) =>
      let size := readSize space dev.readBytesLeft
      if size = 0 then ⟨some .good, writePos, [], { dev with readBuffer := buf }⟩
      else readBlock { dev with readBuffer := buf } writePos size ev.usb turns
  | (status, dev) => ⟨some status, none, [], dev⟩

/-! ### What the readers store -/

/-- What a reader leaves alone; what is taken off the bytes left is counted. -/
structure GenesysDevice.Keeps (dev dev' : GenesysDevice) : Prop where
  readBuffer : dev'.readBuffer = dev.readBuffer
  isSheetfed : dev'.isSheetfed = dev.isSheetfed
  doubleXres : dev'.doubleXres = dev.doubleXres
  depth : dev'.depth = dev.depth
  segnb : dev'.segnb = dev.segnb
  left : dev'.readBytesLeft + dev'.takenOff = dev.readBytesLeft + dev.takenOff
  whole : dev.isSheetfed = false → dev'.takenOff = dev.takenOff

variable {dev dev' dev'' : GenesysDevice} {size turns : Nat} {f : Filling}

theorem GenesysDevice.Keeps.refl (dev : GenesysDevice) : dev.Keeps dev :=
  ⟨rfl, rfl, rfl, rfl, rfl, rfl, fun _ => rfl⟩

theorem GenesysDevice.Keeps.trans (h : dev.Keeps dev') (h' : dev'.Keeps dev'') :
    dev.Keeps dev'' where
  readBuffer := h'.readBuffer.trans h.readBuffer
  isSheetfed := h'.isSheetfed.trans h.isSheetfed
  doubleXres := h'.doubleXres.trans h.doubleXres
  depth := h'.depth.trans h.depth
  segnb := h'.segnb.trans h.segnb
  left := h'.left.trans h.left
  whole hs := (h'.whole (h.isSheetfed.trans hs)).trans (h.whole hs)

theorem keeps_bulkReadData (dev : GenesysDevice) (r : BulkRead) :
    dev.Keeps (bulkReadData dev r) := by
  rw [bulkReadData]
  split
  · rename_i hsheet
    refine ⟨rfl, rfl, rfl, rfl, rfl, ?_, fun hs => ?_⟩
    · simp only [GenesysDevice.cutBytes]
      omega
    · rw [hs] at hsheet
      cases hsheet
  · exact .refl dev

theorem keeps_accurateLineRead (dev : GenesysDevice) (r : BulkRead) :
    dev.Keeps (accurateLineRead dev r).2 := by
  have h := keeps_bulkReadData dev r
  simp only [accurateLineRead]
  split
  · exact ⟨h.readBuffer, h.isSheetfed, h.doubleXres, h.depth, h.segnb, h.left, h.whole⟩
  · exact ⟨h.readBuffer, h.isSheetfed, h.doubleXres, h.depth, h.segnb, h.left, h.whole⟩

/-- The end of a turn stores nothing. -/
theorem Filling.keeps_nextLine (f : Filling) (counted : Nat) :
    f.dev.Keeps (f.nextLine counted).readIfUsedUp.2.dev ∧
      (f.nextLine counted).readIfUsedUp.2.stored = f.stored := by
  have hnext : f.dev.Keeps (f.nextLine counted).dev ∧
      (f.nextLine counted).stored = f.stored := by
    rw [Filling.nextLine]
    split
    · exact ⟨⟨rfl, rfl, rfl, rfl, rfl, rfl, fun _ => rfl⟩, rfl⟩
    · exact ⟨.refl _, rfl⟩
  rw [Filling.readIfUsedUp]
  split
  · exact ⟨hnext.1.trans (keeps_accurateLineRead _ _), hnext.2⟩
  · exact hnext

/-- What every turn keeps holds when the loop is left, or is not yet left. -/
theorem fillLoop_keeps {turn : Filling → SaneStatus × Filling} {P : Filling → Prop}
    (hturn : ∀ f, P f → f.stored.length < size → P (turn f).2) (turns : Nat) (h : P f) :
    P (fillLoop turn size turns f).2 := by
  induction turns generalizing f with
  | zero => exact h
  | succ turns ih =>
    rw [fillLoop]
    split
    · rename_i hlt
      have hnext := hturn f h hlt
      split
      · rename_i f' hf'
        rw [hf'] at hnext
        exact ih hnext
      · rename_i st f' _ hf'
        rwa [hf'] at hnext
    · exact h

/-- A loop that has ended well has stored enough. -/
theorem fillLoop_good {turn : Filling → SaneStatus × Filling} (turns : Nat)
    (h : (fillLoop turn size turns f).1 = some .good) :
    size ≤ (fillLoop turn size turns f).2.stored.length := by
  induction turns generalizing f with
  | zero => cases h
  | succ turns ih =>
    rw [fillLoop] at h ⊢
    split at h
    · rename_i hlt
      rw [if_pos hlt]
      split at h
      · exact ih h
      · cases h
    · rename_i hge
      rw [if_neg hge]
      exact Nat.le_of_not_lt hge

/-- A reader has stored no more than it was asked for, and if it was successful no less. -/
structure Filled (dev : GenesysDevice) (size : Nat) (r : Option SaneStatus × Filling) : Prop where
  keeps : dev.Keeps r.2.dev
  length_le : r.2.stored.length ≤ size
  le_length : r.1 = some .good → size ≤ r.2.stored.length

/-- A reader that stores in groups of `step` bytes. -/
theorem filled_of_turn {turn : Filling → SaneStatus × Filling} {usb : Nat → BulkRead}
    (step : Nat) (hturn : ∀ f, dev.Keeps f.dev → step ∣ f.stored.length → f.stored.length < size →
      dev.Keeps (turn f).2.dev ∧ step ∣ (turn f).2.stored.length ∧
        (turn f).2.stored.length ≤ size) :
    Filled dev size (fillFrom turn size turns ⟨dev, usb, []⟩) := by
  have hloop : ∀ f : Filling, dev.Keeps f.dev → f.stored = [] →
      Filled dev size (fillLoop turn size turns f) := by
    intro f hkeeps hnil
    have h := fillLoop_keeps
      (P := fun f => dev.Keeps f.dev ∧ step ∣ f.stored.length ∧ f.stored.length ≤ size)
      (fun f hf hlt => hturn f hf.1 hf.2.1 hlt) turns (f := f) (by simp [hnil, hkeeps])
    exact ⟨h.1, h.2.2, fillLoop_good turns⟩
  rw [fillFrom]
  split
  · have hread := keeps_accurateLineRead dev (usb 0)
    split
    · rename_i f hf
      have hdev : f = (Filling.readLine ⟨dev, usb, []⟩).2 := by rw [hf]
      subst hdev
      exact hloop _ hread rfl
    · rename_i st f _ hf
      have hdev : f = (Filling.readLine ⟨dev, usb, []⟩).2 := by rw [hf]
      subst hdev
      exact ⟨hread, Nat.zero_le _, fun h => by cases h⟩
  · exact hloop _ (.refl dev) rfl

theorem keeps_interpTurn (h : dev.Keeps f.dev) (hlt : f.stored.length < size) :
    dev.Keeps (interpTurn f).2.dev ∧ (interpTurn f).2.stored.length ≤ size := by
  have hcopy : dev.Keeps f.copyInterp.dev :=
    h.trans ⟨rfl, rfl, rfl, rfl, rfl, rfl, fun _ => rfl⟩
  have hlen : f.copyInterp.stored.length ≤ size := by
    simp only [Filling.copyInterp, List.length_append]
    split
    · exact hlt
    · exact hlt.le
  obtain ⟨hnext, hsame⟩ := f.copyInterp.keeps_nextLine 1
  rw [interpTurn, hsame]
  exact ⟨hcopy.trans hnext, hlen⟩

/-- How many bytes the reader of segments stores at once. -/
def GenesysDevice.segmentStep (dev : GenesysDevice) : Nat :=
  if dev.doubleXres then 1
  else if dev.depth = 1 ∨ dev.depth = 8 then dev.segnb
  else 2 * dev.segnb

attribute [grind =] GenesysDevice.segmentStep

theorem GenesysDevice.Keeps.segmentStep (h : dev.Keeps dev') :
    dev'.segmentStep = dev.segmentStep := by
  rw [GenesysDevice.segmentStep, GenesysDevice.segmentStep, h.doubleXres, h.depth, h.segnb]

/-- A whole number of groups makes 256 bytes. -/
theorem GenesysDevice.segmentStep_dvd (dev : GenesysDevice) (h : 1 < dev.segnb) :
    dev.segmentStep ∣ 256 := by
  have hdvd := dev.segnb_dvd h
  rw [GenesysDevice.segmentStep]
  split
  · exact Nat.one_dvd _
  · split
    · exact hdvd.trans (by decide)
    · exact (Nat.mul_dvd_mul_left 2 hdvd).trans (by decide)

theorem length_foldl_modify (is : List Nat) (group : List SaneByte)
    (k : Nat → Nat) (g : Nat → SaneByte → SaneByte) :
    (is.foldl (fun group i => group.modify (k i) (g i)) group).length = group.length := by
  induction is generalizing group with
  | nil => rfl
  | cons i is ih => rw [List.foldl_cons, ih, List.length_modify]

theorem GenesysDevice.length_interleaveBits (dev : GenesysDevice) :
    dev.interleaveBits.length = dev.segnb := by
  have hfold : ∀ (is : List Nat) (group : List SaneByte),
      (is.foldl (fun group i => (List.range dev.segnb).foldl (fun group n =>
        group.modify (i * dev.segnb / 8) fun b =>
          if dev.segmentByte n 0 &&& (128#8 >>> i) ≠ 0 then (b <<< 1) ||| 1 else b <<< 1)
        group) group).length = group.length := by
    intro is
    induction is with
    | nil => exact fun _ => rfl
    | cons i is ih =>
      intro group
      rw [List.foldl_cons, ih]
      exact length_foldl_modify _ _ (fun _ => i * dev.segnb / 8) _
  rw [GenesysDevice.interleaveBits, hfold, List.length_replicate]

theorem GenesysDevice.length_segmentGroup {dev : GenesysDevice} (h : dev.doubleXres = false) :
    dev.segmentGroup.1.length = dev.segmentStep := by
  rw [GenesysDevice.segmentGroup, GenesysDevice.segmentStep, h]
  by_cases h1 : dev.depth = 1
  · simp [h1, GenesysDevice.length_interleaveBits]
  · by_cases h8 : dev.depth = 8
    · simp [h8]
    · simp [h1, h8, Nat.mul_comm]

/-- The inner loop stores whole groups, and none behind the size. -/
theorem keeps_segmentLoop {dev : GenesysDevice} (hx : dev.doubleXres = false)
    (hdvd : dev.segmentStep ∣ size) (n : Nat) (h : dev.Keeps f.dev)
    (hgroups : dev.segmentStep ∣ f.stored.length) (hle : f.stored.length ≤ size) :
    dev.Keeps (segmentLoop size n f).dev ∧
      dev.segmentStep ∣ (segmentLoop size n f).stored.length ∧
      (segmentLoop size n f).stored.length ≤ size := by
  induction n generalizing f with
  | zero => exact ⟨h, hgroups, hle⟩
  | succ n ih =>
    rw [segmentLoop]
    split
    · rename_i hgo
      have hlen : f.dev.segmentGroup.1.length = dev.segmentStep := by
        rw [GenesysDevice.length_segmentGroup (h.doubleXres.trans hx), h.segmentStep]
      have hmore : dev.segmentStep ≤ size - f.stored.length :=
        Nat.le_of_dvd (by omega) (Nat.dvd_sub hdvd hgroups)
      apply ih
      · exact h.trans ⟨rfl, rfl, rfl, rfl, rfl, rfl, fun _ => rfl⟩
      · dsimp only
        rw [List.length_append, hlen]
        exact Nat.dvd_add hgroups (Nat.dvd_refl _)
      · dsimp only
        rw [List.length_append, hlen]
        omega
    · exact ⟨h, hgroups, hle⟩

theorem keeps_copySegments (hdvd : dev.segmentStep ∣ size) (h : dev.Keeps f.dev)
    (hgroups : dev.segmentStep ∣ f.stored.length) (hlt : f.stored.length < size) :
    dev.Keeps (f.copySegments size).dev ∧
      dev.segmentStep ∣ (f.copySegments size).stored.length ∧
      (f.copySegments size).stored.length ≤ size := by
  rw [Filling.copySegments]
  split
  · rename_i hx
    have hone : dev.segmentStep = 1 := by
      rw [GenesysDevice.segmentStep, if_pos (h.doubleXres ▸ hx)]
    refine ⟨h.trans ⟨rfl, rfl, rfl, rfl, rfl, rfl, fun _ => rfl⟩, ?_, ?_⟩
    · rw [hone]
      exact Nat.one_dvd _
    · dsimp only
      rw [List.length_append, List.length_singleton]
      exact hlt
  · rename_i hx
    split
    · exact keeps_segmentLoop (h.doubleXres ▸ Bool.eq_false_iff.mpr hx) hdvd _ h hgroups hlt.le
    · exact ⟨h, hgroups, hlt.le⟩

theorem keeps_segmentedTurn (hdvd : dev.segmentStep ∣ size) (h : dev.Keeps f.dev)
    (hgroups : dev.segmentStep ∣ f.stored.length) (hlt : f.stored.length < size) :
    dev.Keeps (segmentedTurn size f).2.dev ∧
      dev.segmentStep ∣ (segmentedTurn size f).2.stored.length ∧
      (segmentedTurn size f).2.stored.length ≤ size := by
  obtain ⟨hcopy, hrest⟩ := keeps_copySegments hdvd h hgroups hlt
  obtain ⟨hnext, hsame⟩ := (f.copySegments size).keeps_nextLine 0
  rw [segmentedTurn, hsame]
  exact ⟨hcopy.trans hnext, hrest⟩

/-- All three readers store within the size that they are asked for. -/
theorem filled_readInto (dev : GenesysDevice) (usb : Nat → BulkRead) (h256 : 256 ∣ size)
    (turns : Nat) : Filled dev size (readInto dev usb size turns) := by
  rw [readInto]
  split
  · apply filled_of_turn 1
    intro f hf _ hlt
    obtain ⟨hkeeps, hle⟩ := keeps_interpTurn hf hlt
    exact ⟨hkeeps, Nat.one_dvd _, hle⟩
  · split
    · rename_i hseg
      apply filled_of_turn dev.segmentStep
      intro f hf hgroups hlt
      exact keeps_segmentedTurn ((dev.segmentStep_dvd hseg).trans h256) hf hgroups hlt
    · refine ⟨keeps_bulkReadData _ _, (usb 0).length_stored size, fun hgood => ?_⟩
      exact ((usb 0).length_stored_good (Option.some.inj hgood) size).ge

/-! ### What a call does -/

theorem dvd_readSize (space left : Nat) : 256 ∣ readSize space left := by
  rw [readSize]
  split <;> exact Nat.dvd_sub_mod _

/-- The last size may be rounded up, but not beyond the space. -/
theorem readSize_le (space left : Nat) : readSize space left ≤ space := by
  simp only [readSize]
  split
  · split <;> omega
  · omega

/-- The call produces the first `n` of the bytes that it has stored, all of them in the
    space that was granted. -/
structure GenesysDevice.FilledBy (dev : GenesysDevice) (n : Nat) (r : FillResult) : Prop where
  inside : r.stored = [] ∨
    ∃ ptr, r.writePos = some ptr ∧ ptr + r.stored.length ≤ dev.readBuffer.size
  ok : r.dev.readBuffer.Ok
  size_eq : r.dev.readBuffer.size = dev.readBuffer.size
  content : r.dev.readBuffer.content = dev.readBuffer.content ++ r.stored.take n
  le_stored : n ≤ r.stored.length
  left : r.dev.readBytesLeft + r.dev.takenOff + n = dev.readBytesLeft + dev.takenOff
  isSheetfed : r.dev.isSheetfed = dev.isSheetfed
  whole : dev.isSheetfed = false → r.dev.takenOff = dev.takenOff

/-- How many bytes have been produced can be seen from the buffer. -/
theorem GenesysDevice.FilledBy.count {n : Nat} {r : FillResult} (h : dev.FilledBy n r)
    (hok : dev.readBuffer.Ok) : r.dev.readBuffer.avail - dev.readBuffer.avail = n := by
  have hlen := congrArg List.length h.content
  rw [List.length_append, h.ok.length_content, hok.length_content,
    List.length_take_of_le h.le_stored] at hlen
  omega

/-- Only the contents of the buffer and the bytes that are left count. -/
theorem GenesysDevice.FilledBy.of_keeps {n : Nat} {r : FillResult} (hr : dev'.FilledBy n r)
    (h : dev.Keeps { dev' with readBuffer := dev.readBuffer })
    (hsize : dev'.readBuffer.size = dev.readBuffer.size)
    (hcontent : dev'.readBuffer.content = dev.readBuffer.content) : dev.FilledBy n r where
  inside := hsize ▸ hr.inside
  ok := hr.ok
  size_eq := hr.size_eq.trans hsize
  content := hcontent ▸ hr.content
  le_stored := hr.le_stored
  left := hr.left.trans h.left
  isSheetfed := hr.isSheetfed.trans h.isSheetfed
  whole hs := (hr.whole (h.isSheetfed.trans hs)).trans (h.whole hs)

/-- A call that produces nothing. -/
theorem GenesysDevice.filledBy_zero (hok : dev.readBuffer.Ok) (status : Option SaneStatus)
    {writePos : Option Nat} {stored : List SaneByte}
    (hinside : stored = [] ∨
      ∃ ptr, writePos = some ptr ∧ ptr + stored.length ≤ dev.readBuffer.size) :
    dev.FilledBy 0 ⟨status, writePos, stored, dev⟩ where
  inside := hinside
  ok := hok
  size_eq := rfl
  content := by rw [List.take_zero, List.append_nil]
  le_stored := Nat.zero_le _
  left := rfl
  isSheetfed := rfl
  whole _ := rfl

theorem keeps_detectDocumentEnd (dev : GenesysDevice) (ev : FillEvent) :
    dev.Keeps (detectDocumentEnd dev ev).2 := by
  have h := keeps_bulkReadData dev ⟨ev.documentEnd, fun _ => 0, 0, ev.cut⟩
  rw [bulkReadData] at h
  rw [detectDocumentEnd]
  split
  · rename_i hsheet
    rwa [if_pos hsheet] at h
  · exact .refl dev

/-- The block is stored in the space, and what is produced is the front of it. -/
theorem filled_readBlock {ptr space : Nat} (hgrants : dev.readBuffer.Grants ptr space)
    (hle : size ≤ space) (h256 : 256 ∣ size) (usb : Nat → BulkRead) (turns : Nat) :
    ∃ n, dev.FilledBy n (readBlock dev (some ptr) size usb turns) := by
  obtain ⟨hkeeps, hlen, hfull⟩ := filled_readInto dev usb h256 turns
  rw [readBlock]
  generalize readInto dev usb size turns = r at hkeeps hlen hfull
  obtain ⟨status, f⟩ := r
  dsimp only at hkeeps hlen hfull ⊢
  rw [hkeeps.readBuffer]
  have hroom := hgrants.room
  have hblock := hgrants.block
  have hinside : ptr + f.stored.length ≤ dev.readBuffer.size := by omega
  obtain ⟨hstore, hcontent⟩ : (dev.readBuffer.store ptr f.stored).Grants ptr space ∧
      (dev.readBuffer.store ptr f.stored).content = dev.readBuffer.content :=
    hgrants.store (o := 0) (by omega)
  have hkept : dev.Keeps { f.dev with readBuffer := dev.readBuffer } :=
    ⟨rfl, hkeeps.isSheetfed, hkeeps.doubleXres, hkeeps.depth, hkeeps.segnb, hkeeps.left,
      hkeeps.whole⟩
  have hnone : ∀ st : Option SaneStatus, dev.FilledBy 0
      ⟨st, some ptr, f.stored,
        { f.dev with readBuffer := dev.readBuffer.store ptr f.stored }⟩ := by
    intro st
    have hzero : GenesysDevice.FilledBy
        { f.dev with readBuffer := dev.readBuffer.store ptr f.stored } 0
        ⟨st, some ptr, f.stored, { f.dev with readBuffer := dev.readBuffer.store ptr f.stored }⟩ :=
      GenesysDevice.filledBy_zero hstore.toOk st (.inr ⟨ptr, rfl, hinside⟩)
    exact hzero.of_keeps hkept rfl hcontent
  split
  · exact ⟨0, hnone none⟩
  · -- the produced bytes fit because the size is no larger than the space
    have hn : (if size > f.dev.readBytesLeft then f.dev.readBytesLeft else size) ≤ size ∧
        (if size > f.dev.readBytesLeft then f.dev.readBytesLeft else size)
          ≤ f.dev.readBytesLeft := by
      split <;> omega
    generalize (if size > f.dev.readBytesLeft then f.dev.readBytesLeft else size) = n at hn
    have hstored : n ≤ f.stored.length := hn.1.trans (hfull rfl)
    obtain ⟨buf, hproduce, hgrants', hcontent', -, hsize, -⟩ := hstore.produce (hn.1.trans hle)
    have hfirst : stretch (dev.readBuffer.store ptr f.stored).buffer ptr n
        = f.stored.take n := by
      rw [← take_stretch hstored]
      congr 1
      exact stretch_overwrite (by omega)
    have hleft := hkept.left
    dsimp only at hleft
    simp only [hproduce]
    refine ⟨n, .inr ⟨ptr, rfl, hinside⟩, hgrants'.toOk, hsize, ?_, hstored, ?_,
      hkept.isSheetfed, hkept.whole⟩
    · rw [hcontent', hcontent, hfirst]
    · dsimp only
      omega
  · exact ⟨0, hnone (some .ioError)⟩

theorem filled_fillReadBuffer (hok : dev.readBuffer.Ok) (hsize : dev.readBuffer.size < 2 ^ 63)
    (ev : FillEvent) (turns : Nat) : ∃ n, dev.FilledBy n (fillReadBuffer dev ev turns) := by
  have hdetect := keeps_detectDocumentEnd dev ev
  rw [fillReadBuffer]
  split
  · rename_i dev₁ hdev₁
    rw [hdev₁] at hdetect
    have hbuf : dev₁.readBuffer = dev.readBuffer := hdetect.readBuffer
    have hwrap : dev.readBuffer.size + (dev.readBuffer.size - dev.readBuffer.avail) < SIZE_T := by
      rw [SIZE_T]
      omega
    obtain ⟨ptr, buf, hget, hgrants, hcontent, hsame, -⟩ :=
      GenesysBuffer.getWritePos_some hwrap hok le_rfl
    have hkept : dev.Keeps { dev₁ with readBuffer := dev.readBuffer } :=
      ⟨rfl, hdetect.isSheetfed, hdetect.doubleXres, hdetect.depth, hdetect.segnb, hdetect.left,
        hdetect.whole⟩
    dsimp only
    rw [hbuf, hget]
    dsimp only
    split
    · have hzero : GenesysDevice.FilledBy { dev₁ with readBuffer := buf } 0
          ⟨some .good, some ptr, [], { dev₁ with readBuffer := buf }⟩ :=
        GenesysDevice.filledBy_zero hgrants.toOk _ (.inl rfl)
      exact ⟨0, hzero.of_keeps hkept hsame hcontent⟩
    · obtain ⟨n, hn⟩ := @filled_readBlock { dev₁ with readBuffer := buf } _ _ _ hgrants
        (readSize_le _ dev₁.readBytesLeft) (dvd_readSize _ _) ev.usb turns
      exact ⟨n, hn.of_keeps hkept hsame hcontent⟩
  · rename_i dev₁ _ hdev₁
    rw [hdev₁] at hdetect
    have hbuf : dev₁.readBuffer = dev.readBuffer := hdetect.readBuffer
    refine ⟨0, .of_keeps (GenesysDevice.filledBy_zero (hbuf ▸ hok) _ (.inl rfl)) ?_ ?_ ?_⟩
    · exact hbuf ▸ hdetect
    · rw [hbuf]
    · rw [hbuf]

/-! ### A scan -/

/-- The buffer is filled, or bytes are taken out of it. -/
inductive ScanOp where
  | fill (ev : FillEvent) (turns : Nat)
  | consume (size : Nat)

/-- A scan under way, with all bytes that have been produced and how many of them have been
    consumed. -/
structure ScanUse where
  dev : GenesysDevice
  produced : List SaneByte
  consumed : Nat

/-- A scan starts with an empty buffer. -/
def startFilling (dev : GenesysDevice) (block : List SaneByte) : ScanUse where
  dev := { dev with readBuffer := bufferAlloc block, takenOff := 0 }
  produced := []
  consumed := 0

def ScanUse.exec (u : ScanUse) : ScanOp → Option ScanUse
  | .fill ev turns =>
    let r := fillReadBuffer u.dev ev turns
    if r.status.isSome then
      some { u with
        dev := r.dev
        produced := u.produced ++
          r.stored.take (r.dev.readBuffer.avail - u.dev.readBuffer.avail) }
    else none
  | .consume k =>
    if k ≤ u.dev.readBuffer.avail then
      some { u with
        dev := { u.dev with readBuffer := (bufferConsume u.dev.readBuffer k).2 }
        consumed := u.consumed + k }
    else none

def ScanUse.Step (u : ScanUse) (op : ScanOp) (u' : ScanUse) : Prop := u.exec op = some u'

/-- What every step of a scan keeps. -/
structure ScanUse.Counts (dev : GenesysDevice) (block : List SaneByte) (u : ScanUse) : Prop where
  ok : u.dev.readBuffer.Ok
  size_eq : u.dev.readBuffer.size = block.length
  content : u.dev.readBuffer.content = u.produced.drop u.consumed
  consumed_le : u.consumed ≤ u.produced.length
  total : u.produced.length + u.dev.readBytesLeft + u.dev.takenOff = dev.readBytesLeft
  isSheetfed : u.dev.isSheetfed = dev.isSheetfed
  whole : dev.isSheetfed = false → u.dev.takenOff = 0

variable {block : List SaneByte} {u u' : ScanUse}

theorem ScanUse.counts_start (dev : GenesysDevice) (block : List SaneByte) :
    (startFilling dev block).Counts dev block where
  ok := GenesysBuffer.ok_alloc block
  size_eq := rfl
  content := rfl
  consumed_le := le_rfl
  total := Nat.zero_add _
  isSheetfed := rfl
  whole _ := rfl

theorem ScanUse.Counts.fill (hblock : block.length < 2 ^ 63) (h : u.Counts dev block)
    {ev : FillEvent} {turns : Nat} (he : u.exec (.fill ev turns) = some u') :
    u'.Counts dev block := by
  obtain ⟨n, hn⟩ := filled_fillReadBuffer h.ok (h.size_eq ▸ hblock) ev turns
  simp only [ScanUse.exec] at he
  split at he
  · rw [hn.count h.ok] at he
    cases he
    have hleft := hn.left
    have htotal := h.total
    constructor
    · exact hn.ok
    · exact hn.size_eq.trans h.size_eq
    · dsimp only
      rw [hn.content, h.content, List.drop_append_of_le_length h.consumed_le]
    · dsimp only
      rw [List.length_append]
      exact Nat.le_add_right_of_le h.consumed_le
    · dsimp only
      rw [List.length_append, List.length_take_of_le hn.le_stored]
      omega
    · exact hn.isSheetfed.trans h.isSheetfed
    · intro hs
      exact (hn.whole (h.isSheetfed.trans hs)).trans (h.whole hs)
  · cases he

theorem ScanUse.Counts.consume (h : u.Counts dev block) {k : Nat}
    (he : u.exec (.consume k) = some u') : u'.Counts dev block := by
  simp only [ScanUse.exec] at he
  split at he
  · rename_i hk
    cases he
    obtain ⟨buf, hconsume, hok, hcontent, -, hsize, -, -⟩ := h.ok.consume hk
    have hlen := h.ok.length_content
    have hle := h.consumed_le
    rw [h.content, List.length_drop] at hlen
    rw [hconsume]
    constructor
    · exact hok
    · exact hsize.trans h.size_eq
    · dsimp only
      rw [hcontent, h.content, List.drop_drop]
    · dsimp only
      omega
    · exact h.total
    · exact h.isSheetfed
    · exact h.whole
  · cases he

/-- A device without any of the special sensors, with 600 bytes to read. -/
def plainDevice (isSheetfed : Bool) : GenesysDevice where
  isSheetfed := isSheetfed
  doubleXres := false
  depth := 8
  channels := 1
  lineInterp := 0
  segnb := 0
  segnb_dvd h := absurd h (by decide)
  order _ := 0
  bpl := 0
  dist := 0
  len := 0
  skip := 0
  cur := 0
  lineCount := 0
  oeBuffer _ := 0
  oeSize := 0
  oePos := 0
  oeAvail := 0
  readBuffer := bufferAlloc []
  readBytesLeft := 600
  takenOff := 0

/-- All reads are successful; the end of the document takes `cut` bytes off. -/
def FillEvent.reading (cut : Nat) : FillEvent where
  documentEnd := .good
  cut := cut
  usb _ := ⟨.good, fun i => BitVec.ofNat 8 i, 0, 0⟩

end SaneBackends.Genesys
