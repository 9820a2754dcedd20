import SaneBackends.FujitsuCopy
import SaneBackends.FaultState
import SaneBackends.LabelledRun

/-!
# The side buffers of the `fujitsu` backend through a whole scan

What an observer sees of a sheet are the READ commands that the scanner has answered and the
bytes that the frontend has got.  As long as the scanner sends whole lines where the colours
of a line have to be put in order, the counters of a side agree with each other and the
frontend gets the image of what the scanner has sent.
-/

namespace SaneBackends.FujitsuBuffer

open DrainBuffer DuplexSides FaultState LabelledRun LineStages

/-! ### What an observer sees -/

/-- The bytes that the scanner has sent for a side. -/
def sent (ts : List Transfer) (side : Side) : List SaneByte :=
  ts.flatMap fun t => if t.side = side then t.data else []

/-- The last READ of a side was a short one. -/
def shortRead (ts : List Transfer) (side : Side) : Bool :=
  ts.foldl (fun ili t => if t.side = side then t.ili else ili) false

/-- All bytes of the side have come, or at some time the paper had run out and the last READ of
    the side had been a short one. -/
def Ended (c : Config) (ts : List Transfer) (side : Side) : Prop :=
  (sent ts side ≠ [] ∧ (sent ts side).length = c.bytesTot side) ∨
    ∃ us, us <+: ts ∧ us.any Transfer.eom = true ∧ shortRead us side = true

/-- What has happened since the sheet was fed. -/
structure Page where
  transfers : List Transfer := []
  delivered : Sides (List SaneByte) := ⟨[], []⟩

def Page.send (page : Page) (ts : List Transfer) : Page :=
  { page with transfers := page.transfers ++ ts }

def Page.deliver (page : Page) (side : Side) (data : List SaneByte) : Page :=
  { page with delivered := page.delivered.set side (page.delivered.get side ++ data) }

def Page.after (page : Page) (out : Outcome) : Page :=
  ((if out.newSheet then {} else page).send out.transfers).deliver out.side out.data

inductive Op (c : Config)
  | start (inp : StartInput c)
  | read (inp : ReadInput) (maxLen : Nat)

def exec {c : Config} (s : Scanner c) : Op c → Except Stop (Outcome × Scanner c)
  | .start inp => saneStart s inp
  | .read inp maxLen => saneRead s inp maxLen

structure Event (c : Config) where
  op : Op c
  out : Outcome

def pageOf {c : Config} (es : List (Event c)) : Page :=
  es.foldl (fun page e => page.after e.out) {}

def Step {c : Config} (s : Scanner c) (e : Event c) (s' : Scanner c) : Prop :=
  exec s e.op = .ok (e.out, s')

/-- The bytes of a READ can be converted: where the colours of a line have to be put in order
    they are whole lines, of the width that the page has. -/
def Transfer.Whole (c : Config) (t : Transfer) : Prop :=
  c.unit ∣ t.data.length ∧
    (c.Interlaced → t.data ≠ [] → t.bytesPerLine = c.params.bytesPerLine)

def FineStep {c : Config} (s : Scanner c) (e : Event c) (s' : Scanner c) : Prop :=
  Step s e s' ∧ ∀ t ∈ e.out.transfers, t.Whole c

variable {c : Config} {page : Page} {ts us : List Transfer} {t : Transfer} {side i : Side}

theorem sent_append : sent (ts ++ us) side = sent ts side ++ sent us side :=
  List.flatMap_append

theorem sent_snoc_self (h : t.side = side) : sent (ts ++ [t]) side = sent ts side ++ t.data := by
  rw [sent_append]
  simp [sent, h]

theorem sent_snoc_other (h : t.side ≠ side) : sent (ts ++ [t]) side = sent ts side := by
  rw [sent_append]
  simp [sent, h]

theorem shortRead_snoc_self (h : t.side = side) : shortRead (ts ++ [t]) side = t.ili := by
  simp [shortRead, List.foldl_append, h]

theorem shortRead_snoc_other (h : t.side ≠ side) :
    shortRead (ts ++ [t]) side = shortRead ts side := by
  simp [shortRead, List.foldl_append, h]

theorem any_eom_snoc :
    (ts ++ [t]).any Transfer.eom = (ts.any Transfer.eom || t.eom) := by
  simp

/-- After one more READ. -/
theorem ended_snoc : Ended c (ts ++ [t]) side ↔
    (sent (ts ++ [t]) side ≠ [] ∧ (sent (ts ++ [t]) side).length = c.bytesTot side) ∨
      (∃ us, us <+: ts ∧ us.any Transfer.eom = true ∧ shortRead us side = true) ∨
      ((ts ++ [t]).any Transfer.eom = true ∧ shortRead (ts ++ [t]) side = true) := by
  rw [Ended]
  apply or_congr_right
  constructor
  · rintro ⟨us, hprefix, heom, hshort⟩
    rcases List.prefix_concat_iff.mp hprefix with rfl | hprefix
    · exact .inr ⟨heom, hshort⟩
    · exact .inl ⟨us, hprefix, heom, hshort⟩
  · rintro (⟨us, hprefix, heom, hshort⟩ | ⟨heom, hshort⟩)
    · exact ⟨us, hprefix.trans (List.prefix_append ..), heom, hshort⟩
    · exact ⟨_, List.prefix_rfl, heom, hshort⟩

/-- A READ that brings nothing for a side ends it only with the two flags. -/
theorem ended_snoc_quiet (h : sent (ts ++ [t]) side = sent ts side) :
    Ended c (ts ++ [t]) side ↔ Ended c ts side ∨
      ((ts ++ [t]).any Transfer.eom = true ∧ shortRead (ts ++ [t]) side = true) := by
  rw [ended_snoc, h, ← or_assoc]
  rfl

/-! ### The buffers -/

/-- The positions of a buffer are inside of its block. -/
def Safe (s : Scanner c) : Prop :=
  ∀ side, ∃ q, (s.sides.get side).buffer.Holds (s.sides.get side).buffTot q

theorem request_le (lineBytes : Nat) (d : SideState) :
    request c lineBytes d ≤ d.buffTot - d.buffer.rx := by
  rw [request]
  have hle : (if c.bufferSize > d.buffTot - d.buffer.rx then d.buffTot - d.buffer.rx
      else c.bufferSize) ≤ d.buffTot - d.buffer.rx := by
    split
    · exact Nat.le_refl _
    · omega
  generalize (if c.bufferSize > d.buffTot - d.buffer.rx then d.buffTot - d.buffer.rx
      else c.bufferSize) = bytes at hle
  have hmod := Nat.sub_le bytes (bytes % lineBytes)
  split
  · exact (Nat.sub_le _ _).trans (hmod.trans hle)
  · exact hmod.trans hle

theorem dvd_request (lineBytes : Nat) (d : SideState) : lineBytes ∣ request c lineBytes d := by
  rw [request]
  generalize (if c.bufferSize > d.buffTot - d.buffer.rx then d.buffTot - d.buffer.rx
      else c.bufferSize) = bytes
  split
  · exact Nat.dvd_sub (Nat.dvd_sub_mod _) (Nat.dvd_refl _)
  · exact Nat.dvd_sub_mod _

variable {p : Params c.mode} {d d' : SideState} {buf : Nat → SaneByte} {len : Nat}
  {q : List SaneByte}

theorem copyBuffer_eq {b : Buffer SaneByte}
    (h : storeBytes c p (invert c len buf) len d.buffer = some b) :
    copyBuffer c p buf len d = some { d with
      buffer := b
      bytesRx := d.bytesRx + len
      linesRx := d.linesRx + len / p.bytesPerLine
      eofRx := d.eofRx || decide (d.bytesRx + len = d.bytesTot) } := by
  rw [copyBuffer, h]
  rfl

/-- Whole lines are stored as their image. -/
theorem copyBuffer_whole (buf : Nat → SaneByte) (h : d.buffer.Holds d.buffTot q)
    (hlen : c.unit ∣ len) (hp : c.Interlaced → p.bytesPerLine = c.params.bytesPerLine)
    (hroom : d.buffer.rx + len ≤ d.buffTot) :
    ∃ b : Buffer SaneByte, copyBuffer c p buf len d = some { d with
        buffer := b
        bytesRx := d.bytesRx + len
        linesRx := d.linesRx + len / p.bytesPerLine
        eofRx := d.eofRx || decide (d.bytesRx + len = d.bytesTot) } ∧
      b.Holds d.buffTot (q ++ c.convert ((List.range len).map buf)) ∧
      b.rx = d.buffer.rx + len := by
  have hinside : d.buffer.rx ≤ d.buffer.cells.length := by
    rw [h.length_cells]
    exact h.inside
  have hdata : ((List.range len).map buf).length = len := by
    rw [List.length_map, List.length_range]
  have himage : (c.convert ((List.range len).map buf)).length = len := by
    rw [length_convert (by rwa [hdata]), hdata]
  have hfits : d.buffer.rx + (c.convert ((List.range len).map buf)).length ≤ d.buffTot := by
    rwa [himage]
  obtain ⟨b, hput, hholds, hrx, -⟩ := h.put hfits
  rw [himage] at hrx
  refine ⟨b, copyBuffer_eq ?_, hholds, hrx⟩
  rw [storeBytes_whole hlen hp hinside, map_invert]
  exact hput

/-- In any case the buffer is not left. -/
theorem copyBuffer_safe (buf : Nat → SaneByte) {bytes : Nat} (h : d.buffer.Holds d.buffTot q)
    (hbytes : p.bytesPerLine ∣ bytes) (hlen : len ≤ bytes)
    (hroom : d.buffer.rx + bytes ≤ d.buffTot) :
    ∃ d', copyBuffer c p buf len d = some d' ∧ d'.buffTot = d.buffTot ∧
      ∃ q', d'.buffer.Holds d.buffTot q' := by
  have hinside : d.buffer.rx ≤ d.buffer.cells.length := by
    rw [h.length_cells]
    exact h.inside
  obtain ⟨stored, hstore, hle⟩ :=
    storeBytes_fits (c := c) (invert c len buf) hbytes hlen hinside
  have hfits : d.buffer.rx + stored.length ≤ d.buffTot := by omega
  obtain ⟨b, hput, hholds, -, -⟩ := h.put hfits
  exact ⟨_, copyBuffer_eq (hstore.trans hput), rfl, _, hholds⟩

/-! ### Reading from the scanner -/

variable {s s' : Scanner c} {a : Answer} {ret : SaneStatus}

@[simp] theorem get_setSide_self (s : Scanner c) (side : Side) (d : SideState) :
    (s.setSide side d).sides.get side = d :=
  Sides.get_set_self ..

@[simp] theorem get_setSide_of_ne (s : Scanner c) (h : i ≠ side) (d : SideState) :
    (s.setSide side d).sides.get i = s.sides.get i :=
  Sides.get_set_of_ne _ h _

/-- The state of a side after the flags of a READ have been noted. -/
theorem get_note (ili eom : Bool) (i : Side) :
    (s.note side ili eom).sides.get i =
      { (if i = side then { s.sides.get i with iliRx := ili } else s.sides.get i) with
        eofRx := (s.sides.get i).eofRx ||
          ((s.eomRx || eom) && (if i = side then ili else (s.sides.get i).iliRx)) } := by
  cases side <;> cases i <;> rfl

theorem checkRic_ne_eof (c : Config) (d : SideState) (ret : SaneStatus) :
    checkRic c d ret ≠ .eof := by
  rw [checkRic]
  split
  · by_cases h : c.scannerCtl = true
    · cases ret <;> simp [scannerControlRic, h]
    · simp [scannerControlRic, h]
  · decide

theorem Answer.ret_ne_eof (a : Answer) : a.ret ≠ .eof := by
  rw [Answer.ret]
  split
  · decide
  · rename_i h
    exact fun heof => h (.inr (.inl heof))

theorem Answer.inLen_le (a : Answer) (bytes : Nat) : a.inLen bytes ≤ bytes := by
  rw [Answer.inLen]
  split
  · exact Nat.min_le_right _ _
  · exact Nat.zero_le _

/-- What a call of `read_from_scanner` can do. -/
theorem readFromScanner_cases (h : readFromScanner s side a = .ok (ret, ts, s')) :
    ret ≠ .eof ∧ ((ts = [] ∧ s' = s) ∨
      ((s.sides.get side).eofRx = false ∧
        ∃ len d', len ≤ request c s.params.bytesPerLine (s.sides.get side) ∧
          copyReceived c s.params a.buf len (s.sides.get side) = .ok d' ∧
          ts = [⟨side, s.params.bytesPerLine, (List.range len).map a.buf, a.ili, a.eom⟩] ∧
          s' = (s.setSide side d').note side a.ili a.eom)) := by
  rw [readFromScanner] at h
  split at h
  · cases h
    exact ⟨by decide, .inl ⟨rfl, rfl⟩⟩
  rename_i hopen
  split at h
  · cases h
    exact ⟨by decide, .inl ⟨rfl, rfl⟩⟩
  split at h
  · cases h
    exact ⟨checkRic_ne_eof _ _ _, .inl ⟨rfl, rfl⟩⟩
  obtain ⟨d', hd, h⟩ := bind_eq_ok.mp h
  cases h
  exact ⟨a.ret_ne_eof, .inr ⟨Bool.eq_false_iff.mpr hopen, _, d', a.inLen_le _, hd, rfl, rfl⟩⟩

/-- Receiving never leaves the buffer. -/
theorem copyReceived_safe (buf : Nat → SaneByte) {bytes : Nat} (h : d.buffer.Holds d.buffTot q)
    (hbytes : p.bytesPerLine ∣ bytes) (hlen : len ≤ bytes)
    (hroom : bytes ≤ d.buffTot - d.buffer.rx) :
    ∃ d', copyReceived c p buf len d = .ok d' ∧ d'.buffTot = d.buffTot ∧
      ∃ q', d'.buffer.Holds d.buffTot q' := by
  have hinside := h.inside
  rw [copyReceived]
  split
  · obtain ⟨d', hcopy, htot, hholds⟩ :=
      copyBuffer_safe (c := c) buf h hbytes hlen (by omega)
    exact ⟨d', by rw [hcopy]; rfl, htot, hholds⟩
  · exact ⟨d, rfl, rfl, q, h⟩

theorem readFromScanner_safe (h : Safe s) (side : Side) (a : Answer) :
    ∃ r, readFromScanner s side a = .ok r ∧ Safe r.2.2 := by
  rw [readFromScanner]
  split
  · exact ⟨_, rfl, h⟩
  split
  · exact ⟨_, rfl, h⟩
  split
  · exact ⟨_, rfl, h⟩
  obtain ⟨q, hq⟩ := h side
  obtain ⟨d', hcopy, htot, hholds⟩ := copyReceived_safe (c := c) a.buf hq
    (dvd_request s.params.bytesPerLine _) (a.inLen_le _) (request_le _ _)
  refine ⟨_, bind_eq_ok.mpr ⟨d', hcopy, rfl⟩, fun i => ?_⟩
  dsimp only
  rw [get_note]
  rcases eq_or_ne i side with rfl | hne
  · rw [if_pos rfl, get_setSide_self]
    dsimp only
    rw [htot]
    exact hholds
  · rw [if_neg hne, get_setSide_of_ne _ hne]
    exact h i

/-! ### The invariant -/

/-- What the counters and the buffer of a side say about the sheet. -/
structure SideInv (c : Config) (page : Page) (side : Side) (d : SideState) : Prop where
  bytesRx : d.bytesRx = (sent page.transfers side).length
  bytesTx : d.bytesTx = (page.delivered.get side).length
  lines : c.unit ∣ (sent page.transfers side).length
  holds : ∃ q, d.buffer.Holds d.buffTot q ∧
    c.convert (sent page.transfers side) = page.delivered.get side ++ q
  iliRx : d.iliRx = shortRead page.transfers side
  eofRx : d.eofRx = true ↔ Ended c page.transfers side
  eofTx : d.eofTx = true → d.eofRx = true ∧ d.bytesTx = d.bytesRx

structure Inv (page : Page) (s : Scanner c) : Prop where
  sides : ∀ side, SideInv c page side (s.sides.get side)
  eomRx : s.eomRx = page.transfers.any Transfer.eom
  totals : s.started = true → ∀ side, (s.sides.get side).bytesTot = c.bytesTot side ∧
    (s.sides.get side).buffTot = c.buffTot side

theorem SideInv.safe (h : SideInv c page side d) : ∃ q, d.buffer.Holds d.buffTot q := by
  obtain ⟨q, hq, -⟩ := h.holds
  exact ⟨q, hq⟩

theorem Inv.safe (h : Inv page s) : Safe s := fun side => (h.sides side).safe

/-- What the frontend has not got is in the buffer. -/
theorem SideInv.pending (h : SideInv c page side d) :
    c.convert (sent page.transfers side) = page.delivered.get side ++ d.buffer.pending := by
  obtain ⟨q, hq, hconvert⟩ := h.holds
  rw [hconvert, hq.pending]

theorem SideInv.length (h : SideInv c page side d) :
    d.bytesRx = d.bytesTx + d.buffer.pending.length := by
  have hlen := congrArg List.length h.pending
  rw [length_convert h.lines, List.length_append] at hlen
  rw [h.bytesRx, h.bytesTx, hlen]

/-- When as much has been sent as has been received, the frontend has got all. -/
theorem SideInv.complete_iff (h : SideInv c page side d) : d.bytesTx = d.bytesRx ↔
    page.delivered.get side = c.convert (sent page.transfers side) := by
  have hlen := h.length
  rw [h.pending]
  constructor
  · intro heq
    have hnil : d.buffer.pending = [] := List.length_eq_zero_iff.mp (by omega)
    rw [hnil, List.append_nil]
  · intro heq
    have hnil : d.buffer.pending = [] := by
      have := congrArg List.length heq
      rw [List.length_append] at this
      exact List.length_eq_zero_iff.mp (by omega)
    rw [hnil, List.length_nil] at hlen
    omega

/-- The state of a side after whole lines have been received. -/
theorem copyReceived_whole (h : d.buffer.Holds d.buffTot q) (hopen : d.eofRx = false)
    (hlen : c.unit ∣ len)
    (hp : c.Interlaced → len ≠ 0 → p.bytesPerLine = c.params.bytesPerLine)
    (hroom : len ≤ d.buffTot - d.buffer.rx) (hcopy : copyReceived c p buf len d = .ok d') :
    ∃ (b : Buffer SaneByte) (lines : Nat), d' = { d with
        buffer := b
        bytesRx := d.bytesRx + len
        linesRx := lines
        eofRx := decide (len ≠ 0 ∧ d.bytesRx + len = d.bytesTot) } ∧
      b.Holds d.buffTot (q ++ c.convert ((List.range len).map buf)) := by
  have hinside := h.inside
  rw [copyReceived] at hcopy
  split at hcopy
  · rename_i hne
    obtain ⟨b, hcopied, hholds, -⟩ := copyBuffer_whole buf h hlen (fun hi => hp hi hne)
      (by omega)
    rw [hcopied] at hcopy
    cases hcopy
    refine ⟨b, d.linesRx + len / p.bytesPerLine, ?_, hholds⟩
    simp [hopen, hne]
  · rename_i hzero
    have hzero : len = 0 := Decidable.not_not.mp hzero
    subst hzero
    cases hcopy
    refine ⟨d.buffer, d.linesRx, ?_, ?_⟩
    · simp [← hopen]
    · rw [List.range_zero, List.map_nil, convert_nil, List.append_nil]
      exact h

/-- A READ for the side. -/
theorem SideInv.receive (h : SideInv c page t.side d) (hopen : d.eofRx = false)
    (htot : d.bytesTot = c.bytesTot t.side) (hcopy : copyReceived c p buf len d = .ok d')
    (hdata : t.data = (List.range len).map buf) (hline : t.bytesPerLine = p.bytesPerLine)
    (hwhole : t.Whole c) (hroom : len ≤ d.buffTot - d.buffer.rx) :
    SideInv c (page.send [t]) t.side { d' with
        iliRx := t.ili
        eofRx := d'.eofRx || ((page.transfers ++ [t]).any Transfer.eom && t.ili) } ∧
      d'.eofTx = d.eofTx ∧ d'.bytesTot = d.bytesTot ∧ d'.buffTot = d.buffTot := by
  have hlength : t.data.length = len := by rw [hdata, List.length_map, List.length_range]
  have hsent : sent (page.send [t]).transfers t.side = sent page.transfers t.side ++ t.data :=
    sent_snoc_self rfl
  obtain ⟨q, hq, hconvert⟩ := h.holds
  obtain ⟨hunit, hwidth⟩ := hwhole
  have hp : c.Interlaced → len ≠ 0 → p.bytesPerLine = c.params.bytesPerLine := by
    intro hi hne
    rw [← hline]
    refine hwidth hi fun hnil => hne ?_
    rw [← hlength, hnil]
    rfl
  rw [hlength] at hunit
  obtain ⟨b, lines, rfl, hb⟩ := copyReceived_whole hq hopen hunit hp hroom hcopy
  have hnotEnded : ¬ Ended c page.transfers t.side := by
    rw [← h.eofRx, hopen]
    exact Bool.false_ne_true
  rw [Ended, not_or] at hnotEnded
  refine ⟨⟨?_, h.bytesTx, ?_, ⟨_, hb, ?_⟩, ?_, ?_, ?_⟩, rfl, rfl, rfl⟩
  · rw [hsent, List.length_append, hlength, ← h.bytesRx]
  · rw [hsent, List.length_append, hlength]
    exact Nat.dvd_add h.lines hunit
  · rw [hsent, convert_append h.lines, hconvert, hdata, List.append_assoc]
    rfl
  · exact (shortRead_snoc_self rfl).symm
  · change _ ↔ Ended c (page.transfers ++ [t]) t.side
    rw [ended_snoc, or_iff_right hnotEnded.2, shortRead_snoc_self rfl, Bool.or_eq_true,
      Bool.and_eq_true, decide_eq_true_eq]
    apply or_congr_left
    change _ ↔ sent (page.send [t]).transfers t.side ≠ [] ∧ _
    change _ ↔ _ ∧ (sent (page.send [t]).transfers t.side).length = _
    rw [hsent, List.length_append, hlength, ← h.bytesRx, htot]
    constructor
    · rintro ⟨hne, heq⟩
      refine ⟨fun hnil => hne ?_, heq⟩
      rw [← hlength, (List.append_eq_nil_iff.mp hnil).2]
      rfl
    · rintro ⟨hne, heq⟩
      refine ⟨fun hzero => hnotEnded.1 ?_, heq⟩
      have hnil : t.data = [] := List.length_eq_zero_iff.mp (hlength.trans hzero)
      rw [hnil, List.append_nil] at hne
      refine ⟨hne, ?_⟩
      rw [← h.bytesRx, ← heq, hzero, Nat.add_zero]
  · intro hdone
    have hdone := (h.eofTx hdone).1
    rw [hopen] at hdone
    exact absurd hdone Bool.false_ne_true

/-- A READ for the other side. -/
theorem SideInv.other (h : SideInv c page side d) (hother : t.side ≠ side) :
    SideInv c (page.send [t]) side { d with
      eofRx := d.eofRx || ((page.transfers ++ [t]).any Transfer.eom && d.iliRx) } := by
  have hsent : sent (page.send [t]).transfers side = sent page.transfers side :=
    sent_snoc_other hother
  have hshort : shortRead (page.send [t]).transfers side = shortRead page.transfers side :=
    shortRead_snoc_other hother
  constructor
  · rw [hsent]
    exact h.bytesRx
  · exact h.bytesTx
  · rw [hsent]
    exact h.lines
  · rw [hsent]
    exact h.holds
  · rw [hshort]
    exact h.iliRx
  · change _ ↔ Ended c (page.transfers ++ [t]) side
    rw [ended_snoc_quiet (sent_snoc_other hother), Bool.or_eq_true, Bool.and_eq_true, h.eofRx,
      h.iliRx, shortRead_snoc_other hother]
  · intro hdone
    obtain ⟨heof, hall⟩ := h.eofTx hdone
    exact ⟨by rw [heof, Bool.true_or], hall⟩

/-- What reading from the scanner leaves as it is. -/
structure Frame (s s' : Scanner c) : Prop where
  started : s'.started = s.started
  side : s'.side = s.side
  eofTx : ∀ side, (s'.sides.get side).eofTx = (s.sides.get side).eofTx

theorem Frame.refl (s : Scanner c) : Frame s s := ⟨rfl, rfl, fun _ => rfl⟩

theorem Frame.trans {s'' : Scanner c} (h : Frame s s') (h' : Frame s' s'') : Frame s s'' :=
  ⟨h'.started.trans h.started, h'.side.trans h.side, fun i => (h'.eofTx i).trans (h.eofTx i)⟩

theorem readFromScanner_inv (h : Inv page s) (hstarted : s.started = true)
    (hread : readFromScanner s side a = .ok (ret, ts, s')) (hfine : ∀ t ∈ ts, t.Whole c) :
    Inv (page.send ts) s' ∧ Frame s s' ∧ ∀ t ∈ ts, t.side = side := by
  obtain ⟨-, ⟨rfl, rfl⟩ | ⟨hopen, len, d', hlen, hcopy, rfl, rfl⟩⟩ := readFromScanner_cases hread
  · refine ⟨?_, Frame.refl _, fun t ht => nomatch ht⟩
    rwa [Page.send, List.append_nil]
  obtain ⟨htot, hbuff⟩ := h.totals hstarted side
  obtain ⟨hself, heofTx, hbytesTot, hbuffTot⟩ := (h.sides side).receive hopen htot hcopy
    (t := ⟨side, s.params.bytesPerLine, (List.range len).map a.buf, a.ili, a.eom⟩) rfl rfl
    (hfine _ (List.mem_singleton.mpr rfl)) (hlen.trans (request_le _ _))
  rw [any_eom_snoc, ← h.eomRx] at hself
  have hnote : ∀ i, ((s.setSide side d').note side a.ili
      a.eom).sides.get i = if i = side then
        { d' with iliRx := a.ili, eofRx := d'.eofRx || ((s.eomRx || a.eom) && a.ili) }
      else { s.sides.get i with
        eofRx := (s.sides.get i).eofRx || ((s.eomRx || a.eom) && (s.sides.get i).iliRx) } := by
    intro i
    rw [get_note]
    rcases eq_or_ne i side with rfl | hne
    · simp only [if_true, get_setSide_self]
      rfl
    · simp only [if_neg hne, get_setSide_of_ne _ hne]
      rfl
  refine ⟨⟨fun i => ?_, ?_, fun _ i => ?_⟩, ⟨rfl, rfl, fun i => ?_⟩, ?_⟩
  · rw [hnote]
    rcases eq_or_ne i side with rfl | hne
    · rw [if_pos rfl]
      exact hself
    · rw [if_neg hne]
      have hother := (h.sides i).other
        (t := ⟨side, s.params.bytesPerLine, (List.range len).map a.buf, a.ili, a.eom⟩) hne.symm
      rwa [any_eom_snoc, ← h.eomRx] at hother
  · change (s.eomRx || a.eom) = _
    rw [Page.send, any_eom_snoc, h.eomRx]
  · rw [hnote]
    rcases eq_or_ne i side with rfl | hne
    · rw [if_pos rfl]
      exact ⟨hbytesTot.trans htot, hbuffTot.trans hbuff⟩
    · rw [if_neg hne]
      exact h.totals hstarted i
  · rw [hnote]
    rcases eq_or_ne i side with rfl | hne
    · rw [if_pos rfl]
      exact heofTx
    · rw [if_neg hne]
  · intro t ht
    rw [List.mem_singleton.mp ht]

end SaneBackends.FujitsuBuffer
