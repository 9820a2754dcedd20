import SaneBackends.RingBuffer
import SaneBackends.LabelledRun
import SaneBackends.SaneTypes

/-!
# The scan loop of `saned`

`do_scan` moves what the backend delivers into a ring buffer and from there to the data
socket.  Each successful read becomes a record, its length in four bytes and its data;
the end is marked by the length `0xffffffff` and a status byte.  When a read fails, the
four bytes reserved for its length are given back to the reader but stay counted, so
four bytes of old memory follow the status byte.
-/

namespace SaneBackends

open RingBuffer Overwrite LabelledRun WordBytes

/-- `sizeof (buf)`. -/
def SCAN_BUF_SIZE : Nat := 8192

/-- The local variables of `do_scan`.  `beFd` tells whether `be_fd >= 0` and `timeout`
    whether there is one; `left` is set by the `break` statements.  `written` is what the
    data socket has accepted. -/
structure ScanLoop where
  buf : List SaneByte
  reader : Nat
  writer : Nat
  bytesInBuf : Nat
  statusDirty : Bool
  status : SaneStatus
  beFd : Bool
  timeout : Bool
  left : Bool
  written : List SaneByte
deriving DecidableEq, Repr

/-- In front of the loop, with the buffer as it is found on the stack; the backend has a
    file descriptor for `select`, or the loop polls it. -/
def ScanLoop.initial (buf : List SaneByte) (selectFd : Bool) : ScanLoop :=
  ⟨buf, 0, 0, 0, false, .good, selectFd, !selectFd, false, []⟩

/-- `store_reclen`; of `reclen` only the low 32 bits are used. -/
def storeReclen (buf : List SaneByte) (bufSize i : Nat) (reclen : SaneWord) :
    List SaneByte × Nat :=
  let buf := buf.set i ((reclen >>> 24).setWidth 8)
  let i := next bufSize i
  let buf := buf.set i ((reclen >>> 16).setWidth 8)
  let i := next bufSize i
  let buf := buf.set i ((reclen >>> 8).setWidth 8)
  let i := next bufSize i
  let buf := buf.set i ((reclen >>> 0).setWidth 8)
  (buf, next bufSize i)

/-- The call made in a pass through the loop, and what it returns. -/
inductive Transfer where
  /-- Neither the socket nor the backend is ready. -/
  | idle
  /-- `write` accepts a number of bytes, or fails. -/
  | write (nwritten : Option Nat)
  /-- `sane_read` stores bytes and says that the first `length` of them are data. -/
  | read (status : SaneStatus) (stored : List SaneByte) (length : Nat)
deriving DecidableEq, Repr

/-- What happens in a pass through the loop. -/
inductive Pass where
  /-- `select` fails with `EBADF`: the backend has closed its file descriptor. -/
  | badFd
  /-- `select` fails in another way. -/
  | selectFailed
  /-- `select` succeeds; after the transfer a request may be processed, and it leaves
      `docancel` with this value. -/
  | ready (transfer : Transfer) (request : Option Bool)
deriving DecidableEq, Repr

/-- The number of bytes given to `write`. -/
def ScanLoop.toWrite (s : ScanLoop) : Nat :=
  if SCAN_BUF_SIZE < s.writer + s.bytesInBuf then SCAN_BUF_SIZE - s.writer else s.bytesInBuf

/-- The reader index behind the four bytes reserved for the length. -/
def ScanLoop.dataIndex (s : ScanLoop) : Nat :=
  if SCAN_BUF_SIZE ≤ s.reader + 4 then s.reader + 4 - SCAN_BUF_SIZE else s.reader + 4

/-- The number of bytes asked from `sane_read`. -/
def ScanLoop.toRead (s : ScanLoop) : Nat :=
  if SCAN_BUF_SIZE < s.dataIndex + (SCAN_BUF_SIZE - 4) then SCAN_BUF_SIZE - s.dataIndex
  else SCAN_BUF_SIZE - 4

def ScanLoop.wrote (s : ScanLoop) (nwritten : Nat) : ScanLoop :=
  { s with
    bytesInBuf := s.bytesInBuf - nwritten
    writer := if s.writer + nwritten = SCAN_BUF_SIZE then 0 else s.writer + nwritten
    written := s.written ++ (s.buf.drop s.writer).take nwritten }

def ScanLoop.didRead (s : ScanLoop) (status : SaneStatus) (stored : List SaneByte)
    (length : Nat) : ScanLoop :=
  let i := s.reader
  let reader := s.dataIndex
  let buf := overwrite s.buf reader stored
  let reader := if SCAN_BUF_SIZE ≤ reader + length then 0 else reader + length
  let bytesInBuf := s.bytesInBuf + (length + 4)
  if status ≠ .good then
    -- restore reader index
    { s with
      buf := buf
      reader := i
      bytesInBuf := bytesInBuf
      status := status
      statusDirty := true }
  else
    { s with
      buf := (storeReclen buf SCAN_BUF_SIZE i (BitVec.ofNat 32 length)).1
      reader := reader
      bytesInBuf := bytesInBuf
      status := status }

/-- The loop is left with this status. -/
def ScanLoop.broken (s : ScanLoop) (status : SaneStatus) : ScanLoop :=
  { s with status := status, left := true }

/-- The transfer of one pass.  There is no result where the code makes another call. -/
def ScanLoop.transfer (s : ScanLoop) : Transfer → Option ScanLoop
  | .idle =>
      -- without a file descriptor the backend is read as soon as the buffer is empty
      if s.bytesInBuf = 0 ∧ s.status = .good ∧ s.timeout then none else some s
  | .write nwritten =>
      if s.bytesInBuf = 0 then none
      else
        match nwritten with
        | none => some (s.broken .cancelled)
        | some n => if n ≤ s.toWrite then some (s.wrote n) else none
  | .read status stored length =>
      if s.bytesInBuf = 0 ∧ s.status = .good ∧ (s.timeout || s.beFd) ∧
          stored.length ≤ s.toRead ∧ length ≤ stored.length then
        some (s.didRead status stored length)
      else none

/-- The status in the byte that ends the stream. -/
def SaneStatus.byte (st : SaneStatus) : SaneByte := BitVec.ofNat 8 st.code

/-- The end of the stream is put into the buffer as soon as there is room for it. -/
def ScanLoop.putStatus (s : ScanLoop) : ScanLoop :=
  if s.statusDirty ∧ 5 ≤ SCAN_BUF_SIZE - s.bytesInBuf then
    let (buf, reader) := storeReclen s.buf SCAN_BUF_SIZE s.reader 0xffffffff
    { s with
      statusDirty := false
      buf := buf.set reader s.status.byte
      reader := reader
      bytesInBuf := s.bytesInBuf + 5 }
  else s

/-- `if (handle[h].docancel) break;` -/
def ScanLoop.processed (s : ScanLoop) : Option Bool → ScanLoop
  | some true => { s with left := true }
  | _ => s

/-- The body of the loop. -/
def ScanLoop.pass (s : ScanLoop) : Pass → Option ScanLoop
  | .badFd =>
      if s.beFd then
        some { s with
          beFd := false
          statusDirty := if s.status = .good then true else s.statusDirty
          status := .eof }
      else none
  | .selectFailed => some (s.broken .ioError)
  | .ready t request =>
      (s.transfer t).map fun s => if s.left then s else s.putStatus.processed request

/-- The condition of the loop. -/
def ScanLoop.Again (s : ScanLoop) : Prop :=
  s.status = .good ∨ 0 < s.bytesInBuf ∨ s.statusDirty = true

instance (s : ScanLoop) : Decidable s.Again := inferInstanceAs (Decidable (_ ∨ _ ∨ _))

/-- The loop has come to its end. -/
def ScanLoop.Finished (s : ScanLoop) : Prop := s.left = false ∧ ¬ s.Again

instance (s : ScanLoop) : Decidable s.Finished := inferInstanceAs (Decidable (_ ∧ _))

/-! ### What has to be sent -/

/-- The record of a successful read. -/
def Pass.record : Pass → List SaneByte
  | .ready (.read .good stored length) _ =>
      bytesBE (BitVec.ofNat 32 length) ++ stored.take length
  | _ => []

/-- The status with which a pass ends the scan. -/
def Pass.ending : Pass → Option SaneStatus
  | .badFd => some .eof
  | .ready (.read .good _ _) _ => none
  | .ready (.read st _ _) _ => some st
  | _ => none

/-- The scan is ended by `sane_read`. -/
def Pass.readFails : Pass → Bool
  | .ready (.read .good _ _) _ => false
  | .ready (.read _ _ _) _ => true
  | _ => false

/-- A read that fails delivers no data. -/
def Pass.Honest : Pass → Prop
  | .ready (.read st _ length) _ => st ≠ .good → length = 0
  | _ => True

instance : DecidablePred Pass.Honest
  | .badFd | .selectFailed | .ready .idle _ | .ready (.write _) _ => .isTrue trivial
  | .ready (.read st _ length) _ => inferInstanceAs (Decidable (st ≠ .good → length = 0))

/-- The mark for the end of the data, and the status. -/
def endMark (st : SaneStatus) : List SaneByte := bytesBE 0xffffffff ++ [st.byte]

@[simp] theorem length_endMark (st : SaneStatus) : (endMark st).length = 5 := rfl

def records (ps : List Pass) : List SaneByte := ps.flatMap Pass.record

def ending (ps : List Pass) : Option SaneStatus := ps.findSome? Pass.ending

/-- The stream for the client: the records, and the end when there is one. -/
def scanStream (ps : List Pass) : List SaneByte := records ps ++ (ending ps).elim [] endMark

/-- One pass of a loop that goes on. -/
def Pass.Step (s : ScanLoop) (p : Pass) (s' : ScanLoop) : Prop :=
  s.left = false ∧ s.Again ∧ p.Honest ∧ s.pass p = some s'

/-! ### The bytes in the buffer -/

structure ScanLoop.Sized (s : ScanLoop) : Prop where
  buf : s.buf.length = SCAN_BUF_SIZE
  writer : s.writer < SCAN_BUF_SIZE
  fits : s.bytesInBuf ≤ SCAN_BUF_SIZE

/-- What is in the buffer and has not been written. -/
def ScanLoop.pending (s : ScanLoop) : List SaneByte := ring s.buf s.writer s.bytesInBuf

theorem storeReclen_eq {buf : List SaneByte} (hbuf : buf.length = SCAN_BUF_SIZE) (i : Nat)
    (reclen : SaneWord) : storeReclen buf SCAN_BUF_SIZE i reclen = store buf i (bytesBE reclen) := by
  simp only [storeReclen, bytesBE, store, List.length_set, hbuf]

/-- `write` is given a stretch of the pending bytes in front of the end of the buffer. -/
theorem toWrite_le (s : ScanLoop) (hs : s.Sized) :
    s.toWrite ≤ s.bytesInBuf ∧ s.writer + s.toWrite ≤ SCAN_BUF_SIZE := by
  have hwriter := hs.writer
  unfold ScanLoop.toWrite
  split_ifs <;> omega

theorem wrote_writer {s : ScanLoop} (hs : s.Sized) {n : Nat} (hn : n ≤ s.toWrite) :
    (s.wrote n).writer = (s.writer + n) % SCAN_BUF_SIZE := by
  have hle := (toWrite_le s hs).2
  simp only [ScanLoop.wrote]
  split_ifs with h
  · rw [h, Nat.mod_self]
  · rw [Nat.mod_eq_of_lt (by omega)]

theorem wrote_sized {s : ScanLoop} (hs : s.Sized) {n : Nat} (hn : n ≤ s.toWrite) :
    (s.wrote n).Sized where
  buf := hs.buf
  writer := by
    rw [wrote_writer hs hn]
    exact Nat.mod_lt _ (by decide)
  fits := (Nat.sub_le ..).trans hs.fits

/-- A write moves bytes from the front of the pending ones to the socket. -/
theorem wrote_sent {s : ScanLoop} (hs : s.Sized) {n : Nat} (hn : n ≤ s.toWrite) :
    (s.wrote n).written ++ (s.wrote n).pending = s.written ++ s.pending := by
  obtain ⟨hb, hw⟩ := toWrite_le s hs
  have hfits := hs.fits
  have hfront : (s.buf.drop s.writer).take n = s.pending.take n := by
    rw [ScanLoop.pending, take_ring (by omega), ring_eq_stretch (by rw [hs.buf]; omega)]
  have hrest : (s.wrote n).pending = s.pending.drop n := by
    rw [ScanLoop.pending, ScanLoop.pending, wrote_writer hs hn,
      drop_ring (by omega) (by rw [hs.buf]; exact hfits), ← hs.buf]
    exact ring_mod
  rw [hrest]
  simp only [ScanLoop.wrote, hfront, List.append_assoc, List.take_append_drop]

theorem wrote_reader {s : ScanLoop} (hs : s.Sized) {n : Nat} (hn : n ≤ s.toWrite) :
    ((s.wrote n).writer + (s.wrote n).bytesInBuf) % SCAN_BUF_SIZE =
      (s.writer + s.bytesInBuf) % SCAN_BUF_SIZE := by
  have hb := (toWrite_le s hs).1
  rw [wrote_writer hs hn, Nat.mod_add_mod]
  simp only [ScanLoop.wrote]
  congr 1
  omega

theorem dataIndex_eq {s : ScanLoop} (hreader : s.reader < SCAN_BUF_SIZE) :
    s.dataIndex = (s.reader + 4) % SCAN_BUF_SIZE := by
  unfold ScanLoop.dataIndex
  unfold SCAN_BUF_SIZE at *
  split_ifs <;> omega

theorem toRead_le {s : ScanLoop} (hreader : s.reader < SCAN_BUF_SIZE) :
    s.dataIndex + s.toRead ≤ SCAN_BUF_SIZE ∧ s.toRead + 4 ≤ SCAN_BUF_SIZE := by
  have hlt : s.dataIndex < SCAN_BUF_SIZE := by
    rw [dataIndex_eq hreader]
    exact Nat.mod_lt _ (by decide)
  unfold ScanLoop.toRead
  unfold SCAN_BUF_SIZE at *
  split_ifs <;> omega

/-- The buffer after `sane_read`, in front of the record it belongs to. -/
theorem ring_stored {s : ScanLoop} (hs : s.Sized) (hreader : s.reader < SCAN_BUF_SIZE)
    {stored : List SaneByte} (hlen : stored.length ≤ s.toRead) :
    (overwrite s.buf s.dataIndex stored).length = SCAN_BUF_SIZE ∧
      ∀ k ≤ stored.length,
        (ring (overwrite s.buf s.dataIndex stored) s.reader (4 + k)).drop 4 = stored.take k := by
  obtain ⟨hdata, hread⟩ := toRead_le hreader
  have hbuf := hs.buf
  refine ⟨by rw [length_overwrite (by omega), hbuf], fun k hk => ?_⟩
  have hring := @ring_store _ s.buf stored s.reader 4 (by omega)
  rw [hbuf, ← dataIndex_eq hreader, store_eq_overwrite (by omega)] at hring
  rw [← take_ring (by omega : 4 + k ≤ 4 + stored.length), hring, List.drop_take,
    Nat.add_sub_cancel_left, List.drop_left' (length_ring (by omega))]

/-- A successful read adds its record to the pending bytes. -/
theorem didRead_good_pending {s : ScanLoop} (hs : s.Sized) (hreader : s.reader = s.writer)
    (hempty : s.bytesInBuf = 0) {stored : List SaneByte} {length : Nat}
    (hstored : stored.length ≤ s.toRead) (hlength : length ≤ stored.length) :
    (s.didRead .good stored length).pending =
      bytesBE (BitVec.ofNat 32 length) ++ stored.take length := by
  have hwriter := hs.writer
  obtain ⟨hlen, hring⟩ := ring_stored hs (hreader ▸ hwriter) hstored
  have hread := (toRead_le (hreader ▸ hwriter)).2
  have hfront := @ring_store_front _ (overwrite s.buf s.dataIndex stored)
    (bytesBE (BitVec.ofNat 32 length)) s.reader length (by rw [length_bytesBE]; omega)
  rw [length_bytesBE, hlen, Nat.mod_eq_of_lt (by omega), hring length hlength] at hfront
  rw [← hfront, ScanLoop.pending]
  simp only [ScanLoop.didRead, ne_eq, not_true_eq_false, if_false, storeReclen_eq hlen, hempty,
    hreader, Nat.zero_add, Nat.add_comm length 4]

theorem putStatus_of_clean {s : ScanLoop} (h : s.statusDirty = false) : s.putStatus = s := by
  rw [ScanLoop.putStatus, if_neg]
  rw [h]
  simp

/-- Where there is room, the end mark is stored at the reader index. -/
theorem putStatus_of_room {s : ScanLoop} (hbuf : s.buf.length = SCAN_BUF_SIZE)
    (hdirty : s.statusDirty = true) (hroom : s.bytesInBuf + 5 ≤ SCAN_BUF_SIZE) :
    s.putStatus.buf = (store s.buf s.reader (endMark s.status)).1 ∧
      s.putStatus.statusDirty = false ∧ s.putStatus.bytesInBuf = s.bytesInBuf + 5 ∧
      s.putStatus.writer = s.writer ∧ s.putStatus.written = s.written ∧
      s.putStatus.status = s.status ∧ s.putStatus.left = s.left := by
  have hcond : s.statusDirty ∧ 5 ≤ SCAN_BUF_SIZE - s.bytesInBuf := ⟨hdirty, by omega⟩
  rw [ScanLoop.putStatus, if_pos hcond]
  refine ⟨?_, rfl, rfl, rfl, rfl, rfl, rfl⟩
  rw [endMark, store_append, ← storeReclen_eq hbuf]
  rfl

/-- The end mark goes behind the bytes that are pending. -/
theorem putStatus_pending {s : ScanLoop} (hs : s.Sized) (hdirty : s.statusDirty = true)
    (hroom : s.bytesInBuf + 5 ≤ SCAN_BUF_SIZE)
    (hreader : s.reader = (s.writer + s.bytesInBuf) % SCAN_BUF_SIZE) :
    s.putStatus.pending = s.pending ++ endMark s.status := by
  obtain ⟨hbuf, -, hbytes, hwriter, -⟩ := putStatus_of_room hs.buf hdirty hroom
  have hstore := @ring_store _ s.buf (endMark s.status) s.writer s.bytesInBuf
    (hs.buf.symm ▸ hroom)
  rw [hs.buf, ← hreader, ← hbuf] at hstore
  rw [ScanLoop.pending, hwriter, hbytes]
  exact hstore

/-- After a read that fails, the end mark takes the place reserved for the length, and
    the four bytes behind it count as pending. -/
theorem didRead_fails_pending {s : ScanLoop} (hs : s.Sized) (hreader : s.reader = s.writer)
    (hempty : s.bytesInBuf = 0) {st : SaneStatus} (hst : st ≠ .good) {stored : List SaneByte}
    (hstored : stored.length ≤ s.toRead) :
    ∃ stale : List SaneByte, stale.length = 4 ∧
      (s.didRead st stored 0).putStatus.pending = endMark st ++ stale := by
  have hwriter := hs.writer
  obtain ⟨hlen, -⟩ := ring_stored hs (hreader ▸ hwriter) hstored
  have hfields : s.didRead st stored 0 =
      { s with
        buf := overwrite s.buf s.dataIndex stored
        bytesInBuf := 4
        status := st
        statusDirty := true } := by
    simp only [ScanLoop.didRead, if_pos hst, hempty, Nat.zero_add]
  obtain ⟨hbuf, -, hbytes, hput, -⟩ := putStatus_of_room (s := s.didRead st stored 0)
    (by rw [hfields]; exact hlen) (by rw [hfields]) (by rw [hfields]; exact Nat.le_of_ble_eq_true rfl)
  have hfront := @ring_store_front _ (overwrite s.buf s.dataIndex stored) (endMark st)
    s.reader 4 (by rw [hlen, length_endMark]; decide)
  rw [hlen, Nat.mod_eq_of_lt (by omega), length_endMark] at hfront
  refine ⟨(ring (overwrite s.buf s.dataIndex stored) s.reader 9).drop 5, ?_, ?_⟩
  · rw [List.length_drop, length_ring (by rw [hlen]; decide)]
  · rw [ScanLoop.pending, hbuf, hbytes, hput, hfields, ← hreader]
    exact hfront

/-! ### One pass -/

/-- The three phases of a scan: the records are sent; the backend has closed its file
    descriptor and the end mark waits for room; the end mark has been stored. -/
inductive ScanLoop.Phase (ps : List Pass) (s : ScanLoop) : Prop where
  | scanning (hend : ending ps = none) (hdirty : s.statusDirty = false)
      (hstatus : s.left = true ∨ s.status = .good)
      (hreader : s.reader = (s.writer + s.bytesInBuf) % SCAN_BUF_SIZE)
      (hsent : s.written ++ s.pending = records ps)
  | closing (hend : ending ps = some .eof) (hreads : ps.any Pass.readFails = false)
      (hfd : s.beFd = false) (hdirty : s.statusDirty = true)
      (hstatus : s.status ≠ .good ∧ (s.left = true ∨ s.status = .eof))
      (hreader : s.reader = (s.writer + s.bytesInBuf) % SCAN_BUF_SIZE)
      (hsent : s.written ++ s.pending = records ps)
  | ended {st : SaneStatus} {stale : List SaneByte} (hend : ending ps = some st)
      (hdirty : s.statusDirty = false) (hstatus : s.status ≠ .good)
      (hstale : stale.length = if ps.any Pass.readFails then 4 else 0)
      (hsent : s.written ++ s.pending = records ps ++ endMark st ++ stale)

/-- What holds between two passes. -/
structure ScanLoop.Inv (ps : List Pass) (s : ScanLoop) : Prop where
  sized : s.Sized
  phase : s.Phase ps

theorem records_snoc (ps : List Pass) (p : Pass) : records (ps ++ [p]) = records ps ++ p.record := by
  simp [records]

theorem ending_snoc (ps : List Pass) (p : Pass) :
    ending (ps ++ [p]) = (ending ps).or p.ending := by
  rw [ending, List.findSome?_append, ending]
  simp

theorem readFails_snoc (ps : List Pass) (p : Pass) :
    (ps ++ [p]).any Pass.readFails = (ps.any Pass.readFails || p.readFails) := by
  simp

/-- A read that fails ends the scan. -/
theorem Pass.ending_of_readFails {p : Pass} (h : p.readFails = true) : p.ending ≠ none := by
  unfold Pass.readFails at h
  unfold Pass.ending
  split at h <;> simp_all

theorem readFails_of_ending_none {ps : List Pass} (h : ending ps = none) :
    ps.any Pass.readFails = false := by
  rw [ending, List.findSome?_eq_none_iff] at h
  rw [List.any_eq_false]
  intro p hp hfails
  exact Pass.ending_of_readFails hfails (h p hp)

/-- A pass with no record and no end leaves the phase as it is. -/
theorem ScanLoop.Phase.snoc {ps : List Pass} {s : ScanLoop} {p : Pass} (h : s.Phase ps)
    (hrecord : p.record = []) (hending : p.ending = none) : s.Phase (ps ++ [p]) := by
  have hreads : p.readFails = false :=
    Bool.eq_false_iff.mpr fun hfails => Pass.ending_of_readFails hfails hending
  cases h with
  | scanning hend hdirty hstatus hreader hsent =>
    exact .scanning (by rw [ending_snoc, hend, hending]; rfl) hdirty hstatus hreader
      (by rw [records_snoc, hrecord, List.append_nil, hsent])
  | closing hend hfails hfd hdirty hstatus hreader hsent =>
    exact .closing (by rw [ending_snoc, hend]; rfl) (by rw [readFails_snoc, hfails, hreads]; rfl)
      hfd hdirty hstatus hreader (by rw [records_snoc, hrecord, List.append_nil, hsent])
  | ended hend hdirty hstatus hstale hsent =>
    exact .ended (by rw [ending_snoc, hend]; rfl) hdirty hstatus
      (by rw [readFails_snoc, hreads, Bool.or_false, hstale])
      (by rw [records_snoc, hrecord, List.append_nil, hsent])

/-- Leaving the loop does not touch the buffer. -/
theorem ScanLoop.Phase.broken {ps : List Pass} {s : ScanLoop} {st : SaneStatus}
    (h : s.Phase ps) (hst : st ≠ .good) : (s.broken st).Phase ps := by
  cases h with
  | scanning hend hdirty hstatus hreader hsent => exact .scanning hend hdirty (.inl rfl) hreader hsent
  | closing hend hfails hfd hdirty hstatus hreader hsent =>
    exact .closing hend hfails hfd hdirty ⟨hst, .inl rfl⟩ hreader hsent
  | ended hend hdirty hstatus hstale hsent => exact .ended hend hdirty hst hstale hsent

theorem ScanLoop.Inv.processed {ps : List Pass} {s : ScanLoop} (h : s.Inv ps)
    (request : Option Bool) : (s.processed request).Inv ps := by
  obtain ⟨⟨hbuf, hwriter, hfits⟩, hphase⟩ := h
  rcases request with _ | _ | _
  · exact ⟨⟨hbuf, hwriter, hfits⟩, hphase⟩
  · exact ⟨⟨hbuf, hwriter, hfits⟩, hphase⟩
  · refine ⟨⟨hbuf, hwriter, hfits⟩, ?_⟩
    cases hphase with
    | scanning hend hdirty hstatus hreader hsent =>
      exact .scanning hend hdirty (.inl rfl) hreader hsent
    | closing hend hfails hfd hdirty hstatus hreader hsent =>
      exact .closing hend hfails hfd hdirty ⟨hstatus.1, .inl rfl⟩ hreader hsent
    | ended hend hdirty hstatus hstale hsent => exact .ended hend hdirty hstatus hstale hsent

theorem ScanLoop.Inv.wrote {ps : List Pass} {s : ScanLoop} (h : s.Inv ps) {n : Nat}
    (hn : n ≤ s.toWrite) : (s.wrote n).Inv ps := by
  obtain ⟨hs, hphase⟩ := h
  refine ⟨wrote_sized hs hn, ?_⟩
  have hsent' := wrote_sent hs hn
  have hreader' := wrote_reader hs hn
  cases hphase with
  | scanning hend hdirty hstatus hreader hsent =>
    exact .scanning hend hdirty hstatus (hreader.trans hreader'.symm) (hsent'.trans hsent)
  | closing hend hfails hfd hdirty hstatus hreader hsent =>
    exact .closing hend hfails hfd hdirty hstatus (hreader.trans hreader'.symm)
      (hsent'.trans hsent)
  | ended hend hdirty hstatus hstale hsent =>
    exact .ended hend hdirty hstatus hstale (hsent'.trans hsent)

/-- The end mark is stored as soon as there is room for it. -/
theorem ScanLoop.Inv.putStatus {ps : List Pass} {s : ScanLoop} (h : s.Inv ps)
    (hleft : s.left = false) : s.putStatus.Inv ps := by
  obtain ⟨hs, hphase⟩ := h
  cases hphase with
  | scanning hend hdirty hstatus hreader hsent =>
    rw [putStatus_of_clean hdirty]
    exact ⟨hs, .scanning hend hdirty hstatus hreader hsent⟩
  | ended hend hdirty hstatus hstale hsent =>
    rw [putStatus_of_clean hdirty]
    exact ⟨hs, .ended hend hdirty hstatus hstale hsent⟩
  | closing hend hfails hfd hdirty hstatus hreader hsent =>
    by_cases hroom : s.bytesInBuf + 5 ≤ SCAN_BUF_SIZE
    · obtain ⟨hbuf, hclean, hbytes, hwriter, hwritten, hst, -⟩ :=
        putStatus_of_room hs.buf hdirty hroom
      have hlen : s.putStatus.buf.length = SCAN_BUF_SIZE := by rw [hbuf, length_store, hs.buf]
      have heof : s.status = .eof := hstatus.2.resolve_left (by simp [hleft])
      refine ⟨⟨hlen, hwriter ▸ hs.writer, hbytes ▸ hroom⟩,
        .ended hend hclean (hst ▸ hstatus.1) (by rw [hfails]; exact List.length_nil) ?_⟩
      rw [hwritten, putStatus_pending hs hdirty hroom hreader, ← List.append_assoc, hsent, heof,
        List.append_nil]
    · have hwait : s.putStatus = s := by
        rw [ScanLoop.putStatus, if_neg]
        rintro ⟨-, h⟩
        exact hroom (by omega)
      rw [hwait]
      exact ⟨hs, .closing hend hfails hfd hdirty hstatus hreader hsent⟩

/-- A read takes place only while records are sent and all of them are written. -/
theorem ScanLoop.Inv.empty {ps : List Pass} {s : ScanLoop} (h : s.Inv ps)
    (hstatus : s.status = .good) (hempty : s.bytesInBuf = 0) :
    ending ps = none ∧ s.statusDirty = false ∧ s.reader = s.writer ∧ s.written = records ps := by
  obtain ⟨hs, hphase⟩ := h
  cases hphase with
  | closing _ _ _ _ hne => exact absurd hstatus hne.1
  | ended _ _ hne => exact absurd hstatus hne
  | scanning hend hdirty _ hreader hsent =>
    rw [hempty, Nat.add_zero, Nat.mod_eq_of_lt hs.writer] at hreader
    rw [ScanLoop.pending, hempty, ring_zero, List.append_nil] at hsent
    exact ⟨hend, hdirty, hreader, hsent⟩

theorem ScanLoop.Inv.didRead_good {ps : List Pass} {s : ScanLoop} (h : s.Inv ps)
    (hstatus : s.status = .good) (hempty : s.bytesInBuf = 0) {stored : List SaneByte}
    {length : Nat} (hstored : stored.length ≤ s.toRead) (hlength : length ≤ stored.length)
    {p : Pass} (hrecord : p.record = bytesBE (BitVec.ofNat 32 length) ++ stored.take length)
    (hending : p.ending = none) : (s.didRead .good stored length).Inv (ps ++ [p]) := by
  obtain ⟨hend, hdirty, hreader, hwritten⟩ := h.empty hstatus hempty
  have hwriter := h.sized.writer
  have hread := toRead_le (hreader ▸ hwriter)
  have hlen := (ring_stored h.sized (hreader ▸ hwriter) hstored).1
  have hpending := didRead_good_pending h.sized hreader hempty hstored hlength
  have hindex := dataIndex_eq (hreader ▸ hwriter)
  refine ⟨⟨?_, hwriter, ?_⟩, .scanning (by rw [ending_snoc, hend, hending]; rfl) hdirty (.inr rfl)
    ?_ ?_⟩
  · simp only [ScanLoop.didRead, ne_eq, not_true_eq_false, if_false, storeReclen_eq hlen,
      length_store, hlen]
  · change s.bytesInBuf + (length + 4) ≤ SCAN_BUF_SIZE
    omega
  · -- the reader index behind the data is the one behind the record
    change (if SCAN_BUF_SIZE ≤ s.dataIndex + length then 0 else s.dataIndex + length) =
      (s.writer + (s.bytesInBuf + (length + 4))) % SCAN_BUF_SIZE
    have hsum : s.writer + (s.bytesInBuf + (length + 4)) = s.reader + 4 + length := by omega
    rw [hsum, ← Nat.mod_add_mod, ← hindex]
    split_ifs with hend
    · rw [show s.dataIndex + length = SCAN_BUF_SIZE by omega, Nat.mod_self]
    · rw [Nat.mod_eq_of_lt (by omega)]
  · rw [records_snoc, hrecord, ← hpending, ← hwritten]
    rfl

theorem ScanLoop.Inv.didRead_fails {ps : List Pass} {s : ScanLoop} (h : s.Inv ps)
    (hstatus : s.status = .good) (hempty : s.bytesInBuf = 0) {st : SaneStatus} (hst : st ≠ .good)
    {stored : List SaneByte} (hstored : stored.length ≤ s.toRead) {p : Pass}
    (hrecord : p.record = []) (hending : p.ending = some st) (hfails : p.readFails = true) :
    (s.didRead st stored 0).putStatus.Inv (ps ++ [p]) := by
  obtain ⟨hend, hdirty, hreader, hwritten⟩ := h.empty hstatus hempty
  have hwriter := h.sized.writer
  have hlen := (ring_stored h.sized (hreader ▸ hwriter) hstored).1
  obtain ⟨stale, hstale, hpending⟩ := didRead_fails_pending h.sized hreader hempty hst hstored
  have hfields : s.didRead st stored 0 =
      { s with
        buf := overwrite s.buf s.dataIndex stored
        bytesInBuf := 4
        status := st
        statusDirty := true } := by
    simp only [ScanLoop.didRead, if_pos hst, hempty, Nat.zero_add]
  obtain ⟨hbuf, hclean, hbytes, hw, hsent, hput, -⟩ := putStatus_of_room (s := s.didRead st stored 0)
    (by rw [hfields]; exact hlen) (by rw [hfields]) (by rw [hfields]; exact Nat.le_of_ble_eq_true rfl)
  rw [hfields] at hbuf hbytes hw hsent hput hclean hpending ⊢
  refine ⟨⟨?_, ?_, ?_⟩, .ended (by rw [ending_snoc, hend, hending]; rfl) hclean
    (hput ▸ hst) (by rw [readFails_snoc, hfails, Bool.or_true, hstale]; rfl) ?_⟩
  · rw [hbuf, length_store]
    exact hlen
  · rw [hw]
    exact hwriter
  · rw [hbytes]
    exact Nat.le_of_ble_eq_true rfl
  · rw [hsent, hpending, records_snoc, hrecord, List.append_nil, ← hwritten, List.append_assoc]

/-- The backend has closed its file descriptor. -/
theorem ScanLoop.Inv.badFd {ps : List Pass} {s s' : ScanLoop} (h : s.Inv ps)
    (hleft : s.left = false) (hpass : s.pass .badFd = some s') : s'.Inv (ps ++ [.badFd]) := by
  obtain ⟨hs, hphase⟩ := h
  simp only [ScanLoop.pass, Option.ite_none_right_eq_some, Option.some.injEq] at hpass
  obtain ⟨hfd, rfl⟩ := hpass
  refine ⟨⟨hs.buf, hs.writer, hs.fits⟩, ?_⟩
  have heof : SaneStatus.eof ≠ .good := by decide
  have hrecords : records (ps ++ [Pass.badFd]) = records ps :=
    (records_snoc ..).trans (List.append_nil _)
  have hreads : (ps ++ [Pass.badFd]).any Pass.readFails = ps.any Pass.readFails :=
    (readFails_snoc ..).trans (Bool.or_false _)
  cases hphase with
  | scanning hend hdirty hstatus hreader hsent =>
    have hgood : s.status = .good := hstatus.resolve_left (by simp [hleft])
    exact .closing (by rw [ending_snoc, hend]; rfl)
      (hreads.trans (readFails_of_ending_none hend)) rfl (if_pos hgood)
      ⟨heof, .inr rfl⟩ hreader (hsent.trans hrecords.symm)
  | closing hend hfails hclosed => exact absurd hfd (by simp [hclosed])
  | ended hend hdirty hstatus hstale hsent =>
    exact .ended (by rw [ending_snoc, hend]; rfl) ((if_neg hstatus).trans hdirty) heof
      (hstale.trans (by rw [hreads])) (hsent.trans (by rw [hrecords]))

theorem ScanLoop.Inv.step {ps : List Pass} {s s' : ScanLoop} {p : Pass} (h : s.Inv ps)
    (hstep : Pass.Step s p s') : s'.Inv (ps ++ [p]) := by
  obtain ⟨hleft, -, hhonest, hpass⟩ := hstep
  cases p with
  | badFd => exact h.badFd hleft hpass
  | selectFailed =>
    cases hpass
    exact ⟨⟨h.sized.buf, h.sized.writer, h.sized.fits⟩,
      (h.phase.snoc rfl rfl).broken (by decide)⟩
  | ready t request =>
    rw [ScanLoop.pass, Option.map_eq_some_iff] at hpass
    obtain ⟨u, htransfer, rfl⟩ := hpass
    cases t with
    | idle =>
      rw [ScanLoop.transfer] at htransfer
      split_ifs at htransfer
      cases htransfer
      rw [if_neg (by simp [hleft])]
      exact (ScanLoop.Inv.putStatus ⟨h.sized, h.phase.snoc rfl rfl⟩ hleft).processed request
    | write nwritten =>
      have hsnoc : s.Inv (ps ++ [.ready (.write nwritten) request]) :=
        ⟨h.sized, h.phase.snoc rfl rfl⟩
      cases nwritten with
      | none =>
        simp only [ScanLoop.transfer, Option.ite_none_left_eq_some, Option.some.injEq] at htransfer
        obtain ⟨-, rfl⟩ := htransfer
        rw [if_pos (show (s.broken .cancelled).left = true from rfl)]
        exact ⟨⟨h.sized.buf, h.sized.writer, h.sized.fits⟩, hsnoc.phase.broken (by decide)⟩
      | some n =>
        simp only [ScanLoop.transfer, Option.ite_none_left_eq_some, Option.ite_none_right_eq_some,
          Option.some.injEq] at htransfer
        obtain ⟨-, hn, rfl⟩ := htransfer
        rw [if_neg (by simp [ScanLoop.wrote, hleft])]
        exact ((hsnoc.wrote hn).putStatus hleft).processed request
    | read status stored length =>
      simp only [ScanLoop.transfer, Option.ite_none_right_eq_some, Option.some.injEq] at htransfer
      obtain ⟨⟨hempty, hstatus, -, hstored, hlength⟩, rfl⟩ := htransfer
      by_cases hst : status = .good
      · subst hst
        rw [if_neg (by simp [ScanLoop.didRead, hleft])]
        exact ((h.didRead_good hstatus hempty hstored hlength rfl rfl).putStatus hleft).processed
          request
      · obtain rfl : length = 0 := hhonest hst
        rw [if_neg (by simp [ScanLoop.didRead, hst, hleft])]
        refine (h.didRead_fails hstatus hempty hst hstored ?_ ?_ ?_).processed request
        · cases status <;> first | rfl | exact absurd rfl hst
        · cases status <;> first | rfl | exact absurd rfl hst
        · cases status <;> first | rfl | exact absurd rfl hst

theorem ScanLoop.initial_inv {buf : List SaneByte} (hbuf : buf.length = SCAN_BUF_SIZE)
    (selectFd : Bool) : (ScanLoop.initial buf selectFd).Inv [] where
  sized := ⟨hbuf, Nat.zero_lt_succ _, Nat.zero_le _⟩
  phase := .scanning rfl rfl (.inr rfl) rfl rfl

/-! ### Whole scans -/

/-- What a scan that has come to its end has sent. -/
theorem scan_sent {buf : List SaneByte} {selectFd : Bool} {ps : List Pass} {s : ScanLoop}
    (hbuf : buf.length = SCAN_BUF_SIZE) (hrun : Run Pass.Step (.initial buf selectFd) ps s)
    (hfin : s.Finished) :
    ∃ stale : List SaneByte, s.written = scanStream ps ++ stale ∧
      stale.length = if ps.any Pass.readFails then 4 else 0 := by
  have hinv := hrun.history (I := fun ps s => s.Inv ps) (ScanLoop.initial_inv hbuf selectFd)
    fun _ _ _ _ => ScanLoop.Inv.step
  obtain ⟨hleft, hagain⟩ := hfin
  have hbytes : s.bytesInBuf = 0 := by
    by_contra hne
    exact hagain (.inr (.inl (by omega)))
  cases hinv.phase with
  | scanning _ _ hstatus =>
    exact absurd (.inl (hstatus.resolve_left (by simp [hleft]))) hagain
  | closing _ _ _ hdirty => exact absurd (.inr (.inr hdirty)) hagain
  | ended hend hdirty hstatus hstale hsent =>
    rw [ScanLoop.pending, hbytes, ring_zero, List.append_nil] at hsent
    exact ⟨_, by rw [hsent, scanStream, hend]; rfl, hstale⟩

/-- As long as no read has failed, a beginning of the stream has been sent; and a scan
    that comes to its end has sent the stream and nothing else exactly if it has not been
    ended by a read that fails. -/
theorem scan_stream {buf : List SaneByte} {selectFd : Bool} {ps : List Pass} {s : ScanLoop}
    (hbuf : buf.length = SCAN_BUF_SIZE) (hrun : Run Pass.Step (.initial buf selectFd) ps s) :
    (ps.any Pass.readFails = false → s.written <+: scanStream ps) ∧
      (s.Finished → (s.written = scanStream ps ↔ ps.any Pass.readFails = false)) := by
  refine ⟨fun hreads => ?_, fun hfin => ?_⟩
  · have hinv := hrun.history (I := fun ps s => s.Inv ps) (ScanLoop.initial_inv hbuf selectFd)
      fun _ _ _ _ => ScanLoop.Inv.step
    cases hinv.phase with
    | scanning hend hdirty hstatus hreader hsent =>
      exact ⟨s.pending, by rw [hsent, scanStream, hend]; exact (List.append_nil _).symm⟩
    | closing hend hfails hfd hdirty hstatus hreader hsent =>
      exact ⟨s.pending ++ endMark .eof, by rw [← List.append_assoc, hsent, scanStream, hend]; rfl⟩
    | ended hend hdirty hstatus hstale hsent =>
      rw [hreads] at hstale
      rw [List.eq_nil_of_length_eq_zero hstale, List.append_nil] at hsent
      exact ⟨s.pending, by rw [hsent, scanStream, hend]; rfl⟩
  · obtain ⟨stale, hwritten, hstale⟩ := scan_sent hbuf hrun hfin
    rw [hwritten, List.append_right_eq_self]
    cases hreads : ps.any Pass.readFails with
    | false =>
      rw [hreads] at hstale
      exact ⟨fun _ => rfl, fun _ => List.eq_nil_of_length_eq_zero hstale⟩
    | true =>
      rw [hreads] at hstale
      refine ⟨fun hnil => ?_, fun h => by cases h⟩
      rw [hnil] at hstale
      cases hstale

/-- One pass, when the loop takes it. -/
def ScanLoop.step? (s : ScanLoop) (p : Pass) : Option ScanLoop :=
  if s.left = false ∧ s.Again ∧ p.Honest then s.pass p else none

theorem step_of_step? {s s' : ScanLoop} {p : Pass} (h : s.step? p = some s') : Pass.Step s p s' := by
  simp only [ScanLoop.step?, Option.ite_none_right_eq_some] at h
  exact ⟨h.1.1, h.1.2.1, h.1.2.2, h.2⟩

/-- Two bytes are read and sent in pieces; then the backend closes its file descriptor. -/
def closedScan : List Pass :=
  [.ready (.read .good [7, 8, 9] 2) none, .ready (.write (some 3)) none, .ready .idle (some false),
    .badFd, .ready (.write (some 3)) none, .ready (.write (some 5)) none]

theorem scan_stream_closed :
    ∃ s, runAll ScanLoop.step? closedScan (.initial (List.replicate SCAN_BUF_SIZE 0) true) = some s ∧
      s.Finished ∧ s.written = scanStream closedScan := by
  have hbuf : (List.replicate SCAN_BUF_SIZE (0 : SaneByte)).length = SCAN_BUF_SIZE :=
    List.length_replicate
  have hfin : ((runAll ScanLoop.step? closedScan
      (.initial (List.replicate SCAN_BUF_SIZE 0) true)).any fun s => decide s.Finished) = true := by
    decide +kernel
  obtain ⟨s, hrun, hs⟩ := (Option.any_eq_true ..).mp hfin
  have hfinished : s.Finished := of_decide_eq_true hs
  have hsteps := Run.nil.runAll (fun _ _ _ => step_of_step?) hrun
  exact ⟨s, hrun, hfinished, ((scan_stream hbuf hsteps).2 hfinished).mpr rfl⟩

/-- One byte is read, and then the end of the file. -/
def failedScan : List Pass :=
  [.ready (.read .good [7] 1) none, .ready (.write (some 5)) none, .ready (.read .eof [] 0) none,
    .ready (.write (some 9)) none]

/-- The client gets the record, the end mark, and then four bytes of the stack. -/
theorem scan_stream_stale :
    (runAll ScanLoop.step? failedScan (.initial (List.replicate SCAN_BUF_SIZE 1) true)).any
      (fun s => decide (s.Finished ∧ s.written = scanStream failedScan ++ [1, 1, 1, 1] ∧
        s.written ≠ scanStream failedScan)) = true := by
  decide +kernel

end SaneBackends
