import SaneBackends.GenesysFill
import SaneBackends.BitPacking
import SaneBackends.BitPrefixes
import SaneBackends.Pieces

/-!
# The lines that the readers of a Genesys scanner deliver

`genesys_fill_segmented_buffer` and `genesys_fill_line_interp_buffer` of `backend/genesys.c` are
called again and again, with requests that know nothing of the lines.  A cursor in the line and
the buffer of lines are kept from call to call, so what all calls have delivered are the first
bytes of the lines, put in order, however the requests cut them.
-/

namespace SaneBackends.Genesys

open LabelledRun Pieces BitPacking BitPrefixes

/-! ### The lines -/

/-- Byte `j` of the raw stream: the scanner is read in blocks of the size of `oe_buffer`. -/
def GenesysDevice.rawByte (dev : GenesysDevice) (usb : Nat → BulkRead) (j : Nat) : SaneByte :=
  (usb (j / dev.oeSize)).bytes (j % dev.oeSize)

/-- The raw lines follow one another without a gap. -/
def GenesysDevice.rawLine (dev : GenesysDevice) (usb : Nat → BulkRead) (l : Nat) :
    List SaneByte :=
  (List.range dev.bpl).map fun i => dev.rawByte usb (l * dev.bpl + i)

def GenesysDevice.segment (dev : GenesysDevice) (usb : Nat → BulkRead) (l n : Nat) :
    List SaneByte :=
  ((dev.rawLine usb l).drop (dev.skip + dev.dist * dev.order n)).take dev.len

/-- Byte `j` of `k` segments whose samples of `depth` bits are taken in turn.  Bit `b` of the
    result is in sample `b / depth`, and this is the next one of segment `b / depth % k`. -/
def interleavedByte (depth k : Nat) (segs : Nat → List SaneByte) (j : Nat) : SaneByte :=
  wordOf 8 fun i =>
    bitAt (segs ((8 * j + i) / depth % k))
      ((8 * j + i) / depth / k * depth + (8 * j + i) % depth)

def GenesysDevice.interleavedLine (dev : GenesysDevice) (usb : Nat → BulkRead) (l : Nat) :
    List SaneByte :=
  (List.range (dev.len * dev.segnb)).map
    (interleavedByte dev.depth dev.segnb (dev.segment usb l))

/-- One line of `lineInterp` is kept; a line consists of one row of each channel. -/
def GenesysDevice.keptLine (dev : GenesysDevice) (usb : Nat → BulkRead) (l : Nat) :
    List SaneByte :=
  if l / dev.channels % dev.lineInterp = 0 then (dev.rawLine usb l).take dev.len else []

/-! ### Calls of a reader -/

def genesysFillSegmentedBuffer (dev : GenesysDevice) (usb : Nat → BulkRead) (size turns : Nat) :
    Option SaneStatus × Filling :=
  fillFrom (segmentedTurn size) size turns ⟨dev, usb, []⟩

def genesysFillLineInterpBuffer (dev : GenesysDevice) (usb : Nat → BulkRead) (size turns : Nat) :
    Option SaneStatus × Filling :=
  fillFrom interpTurn size turns ⟨dev, usb, []⟩

/-- A scan with what has been delivered; `usb` is what the calls of `bulk_read_data` are going
    to do. -/
structure LineScan where
  dev : GenesysDevice
  usb : Nat → BulkRead
  delivered : List SaneByte

def LineScan.Step
    (fill : GenesysDevice → (Nat → BulkRead) → Nat → Nat → Option SaneStatus × Filling)
    (u : LineScan) (size : Nat) (u' : LineScan) : Prop :=
  ∃ turns, (fill u.dev u.usb size turns).1 = some .good ∧
    u' = ⟨(fill u.dev u.usb size turns).2.dev, (fill u.dev u.usb size turns).2.usb,
      u.delivered ++ (fill u.dev u.usb size turns).2.stored⟩

/-- A reader that stores pieces, one or more in a turn.  `At p` says that the first `p` pieces
    have been stored. -/
structure StoresPieces (dev : GenesysDevice) (usb : Nat → BulkRead)
    (turn : Nat → Filling → SaneStatus × Filling) (piece : Nat → List SaneByte)
    (At : Nat → Filling → Prop) : Prop where
  empty : dev.oeAvail = 0
  avail : ∀ {p f}, At p f → f.dev.oeAvail ≠ 0
  congr : ∀ {p f} stored, At p f → At p { f with stored := stored }
  begins : (usb 0).status = .good → At 0 (Filling.readLine ⟨dev, usb, []⟩).2
  step : ∀ {size p f}, At p f → f.stored.length < size → (turn size f).1 = .good →
    ∃ n, 0 < n ∧ At (p + n) (turn size f).2 ∧
      (turn size f).2.stored = f.stored ++ upTo (fun i => piece (p + i)) n
  good : ∀ {size p f}, (∀ i, (usb i).status = .good) → At p f → (turn size f).1 = .good
  endless : ∀ k, ∃ p, k ≤ (upTo piece p).length

variable {dev dev' : GenesysDevice} {usb : Nat → BulkRead} {size turns p : Nat} {f : Filling}
  {turn : Nat → Filling → SaneStatus × Filling} {piece : Nat → List SaneByte}
  {At : Nat → Filling → Prop} {done : List SaneByte}

theorem readLine_fst (f : Filling) : f.readLine.1 = .good ↔ (f.usb 0).status = .good := by
  simp only [Filling.readLine, accurateLineRead]
  split
  · rename_i hgood
    exact ⟨fun _ => hgood, fun _ => rfl⟩
  · rename_i hbad
    exact ⟨fun h => absurd h (show SaneStatus.ioError ≠ .good by decide), fun h => absurd h hbad⟩

theorem StoresPieces.loop (h : StoresPieces dev usb turn piece At) (hat : At p f)
    (hdone : done ++ f.stored = upTo piece p)
    (hgood : (fillLoop (turn size) size turns f).1 = some .good) :
    ∃ q, At q (fillLoop (turn size) size turns f).2 ∧
      done ++ (fillLoop (turn size) size turns f).2.stored = upTo piece q := by
  induction turns generalizing f p with
  | zero => cases hgood
  | succ turns ih =>
    rw [fillLoop] at hgood ⊢
    split at hgood
    · rename_i hlt
      rw [if_pos hlt]
      split at hgood
      · rename_i f' hf'
        have hst : (turn size f).1 = .good := by rw [hf']
        obtain ⟨n, -, hat', hstored⟩ := h.step hat hlt hst
        rw [hf'] at hat' hstored
        refine ih hat' ?_ hgood
        rw [hstored, ← List.append_assoc, hdone, ← upTo_add]
      · cases hgood
    · rename_i hge
      rw [if_neg hge]
      exact ⟨p, hat, hdone⟩

/-- The loop is left when the pieces have brought enough. -/
theorem StoresPieces.loop_returns (h : StoresPieces dev usb turn piece At) {last : Nat}
    (hlast : done.length + size ≤ (upTo piece last).length) (hat : At p f)
    (hdone : done ++ f.stored = upTo piece p) (hturns : last - p < turns) :
    ∃ st, (fillLoop (turn size) size turns f).1 = some st ∧
      ((∀ i, (usb i).status = .good) → st = .good) := by
  have henough : ∀ {q : Nat} {g : Filling}, done ++ g.stored = upTo piece q → last ≤ q →
      size ≤ g.stored.length := by
    intro q g hg hq
    have hlen := congrArg List.length hg
    have hmono := length_upTo_mono piece hq
    rw [List.length_append] at hlen
    omega
  induction turns generalizing f p with
  | zero => omega
  | succ turns ih =>
    rw [fillLoop]
    split
    · rename_i hlt
      have hp : p < last := by
        by_contra hge
        exact absurd (henough hdone (Nat.le_of_not_lt hge)) (Nat.not_le_of_lt hlt)
      split
      · rename_i f' hf'
        have hst : (turn size f).1 = .good := by rw [hf']
        obtain ⟨n, hn, hat', hstored⟩ := h.step hat hlt hst
        rw [hf'] at hat' hstored
        refine ih hat' ?_ (by omega)
        rw [hstored, ← List.append_assoc, hdone, ← upTo_add]
      · rename_i st f' hbad hf'
        refine ⟨.ioError, rfl, fun hall => ?_⟩
        have hst : (turn size f).1 = .good := h.good hall hat
        rw [hf'] at hst
        exact absurd hst hbad
    · exact ⟨.good, rfl, fun _ => rfl⟩

/-- Between the calls: nothing has been read yet, or `p` pieces have been stored. -/
def Ready (dev : GenesysDevice) (usb : Nat → BulkRead) (At : Nat → Filling → Prop) (p : Nat)
    (f : Filling) : Prop :=
  At p f ∨ p = 0 ∧ f.dev = dev ∧ f.usb = usb

theorem StoresPieces.call (h : StoresPieces dev usb turn piece At) {u : LineScan}
    (hready : Ready dev usb At p ⟨u.dev, u.usb, []⟩) (hdone : u.delivered = upTo piece p)
    (hgood : (fillFrom (turn size) size turns ⟨u.dev, u.usb, []⟩).1 = some .good) :
    ∃ q, At q (fillFrom (turn size) size turns ⟨u.dev, u.usb, []⟩).2 ∧
      u.delivered ++ (fillFrom (turn size) size turns ⟨u.dev, u.usb, []⟩).2.stored =
        upTo piece q := by
  rcases hready with hat | ⟨rfl, hdev, husb⟩
  · rw [fillFrom, if_neg (h.avail hat)] at hgood ⊢
    exact h.loop hat (by rw [List.append_nil, hdone]) hgood
  · dsimp only at hdev husb
    rw [hdev, husb] at hgood ⊢
    rw [fillFrom, if_pos h.empty] at hgood ⊢
    split at hgood
    · rename_i f' hf'
      have hread : (usb 0).status = .good := by
        rw [← readLine_fst ⟨dev, usb, []⟩, hf']
      have hat := h.begins hread
      rw [hf'] at hat
      have hnil : f'.stored = [] := (congrArg (fun r => r.2.stored) hf').symm
      exact h.loop hat (by rw [hnil, List.append_nil, hdone]) hgood
    · cases hgood

/-- Every call returns, and with success if all reads are successful. -/
theorem StoresPieces.returns (h : StoresPieces dev usb turn piece At) {u : LineScan}
    (hready : Ready dev usb At p ⟨u.dev, u.usb, []⟩) (hdone : u.delivered = upTo piece p)
    (size : Nat) :
    ∃ turns st, (fillFrom (turn size) size turns ⟨u.dev, u.usb, []⟩).1 = some st ∧
      ((∀ i, (usb i).status = .good) → st = .good) := by
  obtain ⟨last, hlast⟩ := h.endless (u.delivered.length + size)
  refine ⟨last + 1, ?_⟩
  rcases hready with hat | ⟨rfl, hdev, husb⟩
  · rw [fillFrom, if_neg (h.avail hat)]
    exact h.loop_returns hlast hat (by rw [List.append_nil, hdone]) (by omega)
  · dsimp only at hdev husb
    rw [hdev, husb, fillFrom, if_pos h.empty]
    split
    · rename_i f' hf'
      have hread : (usb 0).status = .good := by
        rw [← readLine_fst ⟨dev, usb, []⟩, hf']
      have hat := h.begins hread
      rw [hf'] at hat
      have hnil : f'.stored = [] := (congrArg (fun r => r.2.stored) hf').symm
      exact h.loop_returns hlast hat (by rw [hnil, List.append_nil, hdone]) (by omega)
    · rename_i st f' hbad hf'
      refine ⟨.ioError, rfl, fun hall => ?_⟩
      have hst := (readLine_fst ⟨dev, usb, []⟩).mpr (hall 0)
      rw [hf'] at hst
      exact absurd hst hbad

/-- What answered requests have delivered, if every answer has the size of its request. -/
theorem StoresPieces.run (h : StoresPieces dev usb turn piece At) (asked : Nat → Prop)
    (hfilled : ∀ {p : Nat} {u : LineScan} {size turns : Nat}, asked size →
      Ready dev usb At p ⟨u.dev, u.usb, []⟩ →
      Filled u.dev size (fillFrom (turn size) size turns ⟨u.dev, u.usb, []⟩))
    {sizes : List Nat} {u : LineScan} (hasked : ∀ size ∈ sizes, asked size)
    (hrun : Run (LineScan.Step fun dev usb size turns =>
      fillFrom (turn size) size turns ⟨dev, usb, []⟩) ⟨dev, usb, []⟩ sizes u) :
    ∃ p, Ready dev usb At p ⟨u.dev, u.usb, []⟩ ∧ u.delivered = upTo piece p ∧
      u.delivered.length = sizes.sum := by
  have hinv : (∀ size ∈ sizes, asked size) →
      ∃ p, Ready dev usb At p ⟨u.dev, u.usb, []⟩ ∧ u.delivered = upTo piece p ∧
        u.delivered.length = sizes.sum := by
    apply hrun.history (I := fun sizes u => (∀ size ∈ sizes, asked size) →
      ∃ p, Ready dev usb At p ⟨u.dev, u.usb, []⟩ ∧ u.delivered = upTo piece p ∧
        u.delivered.length = sizes.sum)
    · intro _
      exact ⟨0, .inr ⟨rfl, rfl, rfl⟩, rfl, rfl⟩
    · intro sizes v size v' ih hstep hall
      obtain ⟨p, hready, hdone, hlen⟩ := ih fun s hs => hall s (List.mem_append_left _ hs)
      obtain ⟨turns, hgood, rfl⟩ := hstep
      obtain ⟨q, hat, hstored⟩ := h.call hready hdone hgood
      have hok : asked size := hall size (List.mem_append_right _ (List.mem_singleton_self size))
      have hfill : Filled v.dev size (fillFrom (turn size) size turns ⟨v.dev, v.usb, []⟩) :=
        hfilled hok hready
      refine ⟨q, .inl (h.congr [] hat), hstored, ?_⟩
      dsimp only
      rw [List.length_append, hlen, List.sum_append, List.sum_singleton,
        Nat.le_antisymm hfill.length_le (hfill.le_length hgood)]
  exact hinv hasked

/-! ### The cursor -/

structure GenesysDevice.SameSetup (dev dev' : GenesysDevice) : Prop where
  keeps : dev.Keeps dev'
  channels : dev'.channels = dev.channels
  lineInterp : dev'.lineInterp = dev.lineInterp
  order : dev'.order = dev.order
  bpl : dev'.bpl = dev.bpl
  dist : dev'.dist = dev.dist
  len : dev'.len = dev.len
  skip : dev'.skip = dev.skip
  oeSize : dev'.oeSize = dev.oeSize

/-- The buffer for lines holds whole lines, and a scan starts without any of them. -/
structure GenesysDevice.HasLines (dev : GenesysDevice) : Prop where
  bpl_dvd : dev.bpl ∣ dev.oeSize
  oeSize_pos : 0 < dev.oeSize
  len_pos : 0 < dev.len
  empty : dev.oeAvail = 0
  first : dev.cur = 0

/-- The cursor stands at byte `c` of line `l`, and the line is in the buffer: read number `r` of
    the scan has brought it. -/
structure CursorAt (dev : GenesysDevice) (usb : Nat → BulkRead) (counted l c : Nat)
    (f : Filling) : Prop where
  same : dev.SameSetup f.dev
  avail : f.dev.oeAvail = dev.oeSize
  cur : f.dev.cur = c
  lineCount : f.dev.lineCount = dev.lineCount + counted * l
  inside : f.dev.oePos < dev.oeSize
  read : ∃ r, (f.usb = fun i => usb (r + 1 + i)) ∧
    l * dev.bpl = r * dev.oeSize + f.dev.oePos ∧
    ∀ i < dev.oeSize, f.dev.oeBuffer i = (usb r).bytes i

variable {counted l c : Nat}

theorem bulkReadData_eq (dev : GenesysDevice) (r : BulkRead) :
    ∃ left off, bulkReadData dev r = { dev with readBytesLeft := left, takenOff := off } := by
  rw [bulkReadData]
  split
  · exact ⟨_, _, rfl⟩
  · exact ⟨dev.readBytesLeft, dev.takenOff, rfl⟩

structure LinesRead (dev : GenesysDevice) (f f' : Filling) : Prop where
  same : dev.SameSetup f'.dev
  avail : f'.dev.oeAvail = dev.oeSize
  cur : f'.dev.cur = f.dev.cur
  lineCount : f'.dev.lineCount = f.dev.lineCount
  oePos : f'.dev.oePos = 0
  usb : f'.usb = fun i => f.usb (i + 1)
  stored : f'.stored = f.stored
  bytes : ∀ i < dev.oeSize, f'.dev.oeBuffer i = (f.usb 0).bytes i

theorem linesRead_readLine (hsame : dev.SameSetup f.dev) (hgood : (f.usb 0).status = .good) :
    LinesRead dev f f.readLine.2 := by
  have hkeeps := hsame.keeps.trans (keeps_accurateLineRead f.dev (f.usb 0))
  have hsize := hsame.oeSize
  obtain ⟨left, off, hread⟩ := bulkReadData_eq f.dev (f.usb 0)
  rw [Filling.readLine]
  simp only [accurateLineRead, hread, hgood, if_true] at hkeeps ⊢
  refine ⟨⟨hkeeps, hsame.channels, hsame.lineInterp, hsame.order, hsame.bpl, hsame.dist,
    hsame.len, hsame.skip, hsize⟩, hsize, rfl, rfl, rfl, rfl, rfl, ?_⟩
  intro i hi
  have hbyte : ((f.usb 0).stored f.dev.oeSize)[i]? = some ((f.usb 0).bytes i) := by
    rw [BulkRead.stored, if_pos hgood, List.getElem?_map, List.getElem?_range (hsize ▸ hi)]
    rfl
  simp only [List.getD_eq_getElem?_getD, hbyte, Option.getD_some]

theorem cursorAt_start (h : dev.HasLines) (hgood : (usb 0).status = .good) :
    CursorAt dev usb counted 0 0 (Filling.readLine ⟨dev, usb, []⟩).2 := by
  have hself : dev.SameSetup dev := ⟨.refl dev, rfl, rfl, rfl, rfl, rfl, rfl, rfl, rfl⟩
  have hread : LinesRead dev ⟨dev, usb, []⟩ _ := linesRead_readLine hself hgood
  refine ⟨hread.same, hread.avail, hread.cur.trans h.first, hread.lineCount, ?_, 0, ?_, ?_,
    hread.bytes⟩
  · rw [hread.oePos]
    exact h.oeSize_pos
  · rw [hread.usb]
    simp only [Nat.zero_add, Nat.add_comm]
  · rw [hread.oePos, Nat.zero_mul, Nat.zero_mul]

theorem CursorAt.move (h : CursorAt dev usb counted l c f) (c' : Nat) (stored : List SaneByte) :
    CursorAt dev usb counted l c' { f with dev := { f.dev with cur := c' }, stored := stored } := by
  have hk := h.same.keeps
  refine ⟨⟨⟨hk.readBuffer, hk.isSheetfed, hk.doubleXres, hk.depth, hk.segnb, hk.left, hk.whole⟩,
    h.same.channels, h.same.lineInterp, h.same.order, h.same.bpl, h.same.dist, h.same.len,
    h.same.skip, h.same.oeSize⟩, h.avail, rfl, h.lineCount, h.inside, h.read⟩

theorem CursorAt.storing (h : CursorAt dev usb counted l c f) (stored : List SaneByte) :
    CursorAt dev usb counted l c { f with stored := stored } :=
  ⟨h.same, h.avail, h.cur, h.lineCount, h.inside, h.read⟩

theorem CursorAt.room (h : CursorAt dev usb counted l c f) (hlines : dev.HasLines) :
    f.dev.oePos + dev.bpl ≤ dev.oeSize := by
  obtain ⟨r, -, hplace, -⟩ := h.read
  obtain ⟨k, hk⟩ := hlines.bpl_dvd
  have hdvd : dev.bpl ∣ f.dev.oePos := by
    have hsum : dev.bpl ∣ r * dev.oeSize + f.dev.oePos := hplace ▸ Nat.dvd_mul_left _ _
    exact (Nat.dvd_add_right (hlines.bpl_dvd.mul_left r)).mp hsum
  obtain ⟨a, ha⟩ := hdvd
  have hlt : a < k := by
    have hinside := h.inside
    rw [ha, hk] at hinside
    exact Nat.lt_of_mul_lt_mul_left hinside
  rw [ha, hk, ← Nat.mul_succ]
  exact Nat.mul_le_mul_left _ hlt

theorem CursorAt.byte (h : CursorAt dev usb counted l c f) (hlines : dev.HasLines) {i : Nat}
    (hi : i < dev.bpl) :
    f.dev.oeBuffer (f.dev.oePos + i) = dev.rawByte usb (l * dev.bpl + i) := by
  obtain ⟨r, -, hplace, hbytes⟩ := h.read
  have hroom := h.room hlines
  have hlt : f.dev.oePos + i < dev.oeSize := by omega
  rw [hbytes _ hlt, GenesysDevice.rawByte, hplace, Nat.add_assoc, Nat.mul_comm,
    Nat.mul_add_div hlines.oeSize_pos, Nat.div_eq_of_lt hlt, Nat.mul_add_mod,
    Nat.mod_eq_of_lt hlt, Nat.add_zero]

/-- Only the end of a line moves the cursor to another one, and there are always lines in the
    buffer. -/
theorem CursorAt.next (hlines : dev.HasLines) (h : CursorAt dev usb counted l c f)
    (hgood : (f.nextLine counted).readIfUsedUp.1 = .good) :
    CursorAt dev usb counted (if c = dev.len then l + 1 else l) (if c = dev.len then 0 else c)
      (f.nextLine counted).readIfUsedUp.2 := by
  obtain ⟨r, husb, hplace, hbytes⟩ := h.read
  have hcur : f.dev.cur = f.dev.len ↔ c = dev.len := by rw [h.cur, h.same.len]
  by_cases hend : c = dev.len
  · rw [if_pos hend, if_pos hend]
    have hroom := h.room hlines
    rw [Filling.nextLine, if_pos (hcur.mpr hend)] at hgood ⊢
    have hsame : dev.SameSetup { f.dev with
        oePos := f.dev.oePos + f.dev.bpl, cur := 0, lineCount := f.dev.lineCount + counted } := by
      have hk := h.same.keeps
      exact ⟨⟨hk.readBuffer, hk.isSheetfed, hk.doubleXres, hk.depth, hk.segnb, hk.left, hk.whole⟩,
        h.same.channels, h.same.lineInterp, h.same.order, h.same.bpl, h.same.dist, h.same.len,
        h.same.skip, h.same.oeSize⟩
    have hcount : f.dev.lineCount + counted = dev.lineCount + counted * (l + 1) := by
      rw [h.lineCount, Nat.mul_succ, Nat.add_assoc]
    have hline : (l + 1) * dev.bpl = r * dev.oeSize + (f.dev.oePos + f.dev.bpl) := by
      rw [Nat.succ_mul, hplace, h.same.bpl, Nat.add_assoc]
    rw [Filling.readIfUsedUp] at hgood ⊢
    by_cases hused : f.dev.oePos + f.dev.bpl ≥ f.dev.oeAvail
    · -- the line was the last one of the buffer
      rw [if_pos hused] at hgood ⊢
      have hread := linesRead_readLine hsame ((readLine_fst _).mp hgood)
      have hfull : f.dev.oePos + f.dev.bpl = dev.oeSize := by
        rw [h.avail] at hused
        rw [h.same.bpl] at hused ⊢
        exact Nat.le_antisymm hroom hused
      refine ⟨hread.same, hread.avail, hread.cur, hread.lineCount.trans hcount, ?_, r + 1, ?_, ?_,
        ?_⟩
      · rw [hread.oePos]
        exact hlines.oeSize_pos
      · rw [hread.usb]
        dsimp only
        rw [husb]
        funext i
        dsimp only
        congr 1
        omega
      · rw [hread.oePos, hline, hfull, Nat.succ_mul, Nat.add_zero]
      · intro i hi
        rw [hread.bytes i hi]
        exact congrArg (fun usb : Nat → BulkRead => (usb 0).bytes i) husb
    · rw [if_neg hused]
      refine ⟨hsame, h.avail, rfl, hcount, ?_, r, husb, hline, hbytes⟩
      rw [h.avail] at hused
      exact Nat.lt_of_not_le hused
  · rw [if_neg hend, if_neg hend]
    rw [Filling.nextLine, if_neg (mt hcur.mp hend)] at hgood ⊢
    have hmore : ¬ f.dev.oePos ≥ f.dev.oeAvail := by
      rw [h.avail]
      exact Nat.not_le_of_lt h.inside
    rw [Filling.readIfUsedUp, if_neg hmore]
    exact h

theorem CursorAt.next_good (h : CursorAt dev usb counted l c f)
    (hall : ∀ i, (usb i).status = .good) : (f.nextLine counted).readIfUsedUp.1 = .good := by
  obtain ⟨r, husb, -, -⟩ := h.read
  have hnext : (f.nextLine counted).usb = f.usb := by
    rw [Filling.nextLine]
    split <;> rfl
  rw [Filling.readIfUsedUp]
  split
  · rw [readLine_fst, hnext, husb]
    exact hall _
  · rfl

end SaneBackends.Genesys
