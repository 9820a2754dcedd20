import SaneBackends.BjnpUdp
import SaneBackends.SegmentedStream

/-!
# Bulk transfers of the BJNP protocol

`sanei_bjnp_read_bulk` and `sanei_bjnp_write_bulk` of `backend/pixma_bjnp.c`.  The scanner
answers each command over the TCP connection with a header and a payload, and the answer
arrives in segments of any lengths.
-/

namespace SaneBackends.BjnpBulk

open LabelledRun SegmentedStream

def CMD_TCP_REQ : SaneByte := 0x20
def CMD_TCP_SEND : SaneByte := 0x21

def headerSize : Nat := 16

/-- What the scanner answers to a command, and the segments in which it arrives. -/
structure Answer where
  payload : List SaneByte
  cuts : List Nat
  fits : payload.length < 2 ^ 32 := by decide
  positive : ∀ n ∈ cuts, 0 < n := by decide

/-- `device[dn]` with what has arrived at its socket; `blocks` is what the scanner will
    answer to the next read requests. -/
structure Link where
  serial : BitVec 16
  sessionId : BitVec 16
  lastCmd : SaneByte
  scannerDataLeft : Nat
  blocksize : Nat
  lastBlock : Bool
  incoming : List (List SaneByte)
  blocks : List Answer

def Link.opened (sessionId : BitVec 16) : Link :=
  { serial := 0xffff, sessionId, lastCmd := 0, scannerDataLeft := 0, blocksize := 2048,
    lastBlock := false, incoming := [], blocks := [] }

/-- `set_cmd`: the next command has the next serial number. -/
def Link.setCmd (cmdCode : SaneByte) (s : Link) : Link :=
  { s with serial := s.serial + 1, lastCmd := cmdCode }

/-- The answer to the last command, as it goes over the wire. -/
def Link.wire (s : Link) (a : Answer) : List SaneByte :=
  bjnpHeader s.lastCmd s.serial s.sessionId a.payload.length ++ a.payload

def Link.answer (a : Answer) (s : Link) : Link :=
  { s with incoming := s.incoming ++ cutAt a.cuts (s.wire a) }

def payloadLen (header : List SaneByte) : Nat :=
  (WordBytes.ofBytesBE ((header.drop 12).take 4)).toNat

/-- `bjnp_recv_header`: `select` times out when nothing comes, and the header must come
    with one `recv`. -/
def recvHeader (s : Link) : Option Nat × Link :=
  match recv headerSize s.incoming with
  | none => (none, s)
  | some (header, rest) =>
    let s := { s with incoming := rest }
    if header.length ≠ headerSize then (none, s)
    else if header[5]? ≠ some s.lastCmd then (none, s)
    else if seqNo header ≠ bytesOfShort s.serial then (none, s)
    else (some (payloadLen header), s)

def recvData (len : Nat) (s : Link) : Option (List SaneByte) × Link :=
  match recv len s.incoming with
  | none => (none, s)
  | some (data, rest) => (some data, { s with incoming := rest })

/-! ### `sanei_bjnp_read_bulk` -/

def sendReadRequest (s : Link) : Link :=
  let s := s.setCmd CMD_TCP_REQ
  match s.blocks with
  | [] => s
  | a :: blocks => { s with blocks }.answer a

/-- The next block is announced: `none` when its header cannot be received. -/
def announce (s : Link) : Option Unit × Link :=
  match recvHeader (sendReadRequest s) with
  | (none, s) => (none, { s with scannerDataLeft := 0 })
  | (some left, s) =>
    let blocksize := max s.blocksize left
    (some (), { s with
      scannerDataLeft := left
      blocksize
      -- the scanner does not react to a read request when there is no more data
      lastBlock := s.lastBlock || decide (left < blocksize) })

/-- The loop of `sanei_bjnp_read_bulk`, which is still to receive `wanted` bytes.  It does
    not end when `recv` gives nothing again and again. -/
def readLoop : Nat → Nat → Link → Option (SaneStatus × List SaneByte × Link)
  | fuel, wanted, s =>
    if wanted = 0 ∨ s.lastBlock = true ∧ s.scannerDataLeft = 0 then some (.good, [], s)
    else
      match (if s.scannerDataLeft = 0 then announce s else (some (), s)) with
      | (none, s) => some (.ioError, [], s)
      | (some (), s) =>
        if s.scannerDataLeft = 0 then some (.good, [], s)
        else
          match recvData (min s.scannerDataLeft wanted) s, fuel with
          | (none, s), _ => some (.ioError, [], s)
          | (some _, _), 0 => none
          | (some data, s), fuel + 1 =>
            let s := { s with scannerDataLeft := s.scannerDataLeft - data.length }
            (readLoop fuel (wanted - data.length) s).map fun (ret, rest, s) =>
              (ret, data ++ rest, s)

/-- `sanei_bjnp_read_bulk` for `size` bytes: the status, the bytes that it puts into the
    buffer, and the link. -/
def readBulk (size : Nat) (s : Link) : Option (SaneStatus × List SaneByte × Link) :=
  (readLoop size size s).map fun (ret, data, s) =>
    (if ret = .good ∧ data = [] then .eof else ret, data, s)

/-! ### `sanei_bjnp_write_bulk` -/

/-- A call of `sanei_bjnp_write_bulk`: the bytes of the command, how many bytes `send` takes, the
    confirmation of the scanner, and what the scanner will answer to the read requests that
    follow the command. -/
structure Write where
  size : Nat
  sent : Int
  confirmation : Answer
  blocks : List Answer

def Write.delivered (w : Write) : Prop := w.sent = headerSize + w.size

instance (w : Write) : Decidable w.delivered := inferInstanceAs (Decidable (_ = _))

/-- `bjnp_write` and what the scanner makes of it. -/
def bjnpWrite (w : Write) (s : Link) : Int × Link :=
  let s := s.setCmd CMD_TCP_SEND
  if w.sent < headerSize + w.size then (w.sent, s)
  else if w.delivered then (w.size, { s with blocks := w.blocks }.answer w.confirmation)
  else (-1, s)

def writeBulk (w : Write) (s : Link) : SaneStatus × Link :=
  match bjnpWrite w s with
  | (sent, s) =>
    if sent ≠ w.size then (.ioError, s)
    else
      match recvHeader s with
      | (none, s) => (.ioError, s)
      | (some size, s) =>
        if size ≠ 4 then (.ioError, s)
        else
          match recvData 4 s with
          | (none, s) => (.ioError, s)
          | (some data, s) =>
            if data.length ≠ 4 then (.ioError, s)
            else if (WordBytes.ofBytesBE data).toNat ≠ w.size then (.ioError, s)
            else (.good, { s with lastBlock := false })

/-! ### Headers -/

variable {s : Link} {a : Answer}

theorem length_header (cmdCode : SaneByte) (seq session : BitVec 16) (n : Nat) :
    (bjnpHeader cmdCode seq session n).length = headerSize := rfl

theorem payloadLen_header (cmdCode : SaneByte) (seq session : BitVec 16) {n : Nat}
    (hn : n < 2 ^ 32) : payloadLen (bjnpHeader cmdCode seq session n) = n := by
  have hbytes : ((bjnpHeader cmdCode seq session n).drop 12).take 4 =
      WordBytes.bytesBE (BitVec.ofNat 32 n) := rfl
  rw [payloadLen, hbytes, WordBytes.ofBytesBE_bytesBE, BitVec.toNat_ofNat, Nat.mod_eq_of_lt hn]

/-- The header of an answer that arrives whole is received. -/
theorem recvHeader_answer (hs : s.incoming = []) (ha : Uncut 0 headerSize a.cuts) :
    recvHeader (s.answer a) =
      (some a.payload.length,
        { s with incoming := cutAt (advance headerSize a.cuts) a.payload }) := by
  have hlen := length_header s.lastCmd s.serial s.sessionId a.payload.length
  have hwire : s.wire a ≠ [] := List.cons_ne_nil _ _
  have hfits : headerSize ≤ (s.wire a).length := by
    rw [Link.wire, List.length_append, hlen]
    omega
  have hrecv := recv_uncut ha a.positive hfits hwire
  have hfront : (s.wire a).take headerSize =
      bjnpHeader s.lastCmd s.serial s.sessionId a.payload.length := by
    rw [Link.wire, ← hlen, List.take_left]
  have hback : (s.wire a).drop headerSize = a.payload := by
    rw [Link.wire, ← hlen, List.drop_left]
  rw [hfront, hback] at hrecv
  rw [recvHeader, Link.answer, hs, List.nil_append]
  simp only [hrecv]
  have hcmd : (bjnpHeader s.lastCmd s.serial s.sessionId a.payload.length)[5]? =
      some s.lastCmd := rfl
  have hseq : seqNo (bjnpHeader s.lastCmd s.serial s.sessionId a.payload.length) =
      bytesOfShort s.serial := rfl
  rw [if_neg (not_not.mpr hlen), if_neg (not_not.mpr hcmd), if_neg (not_not.mpr hseq),
    payloadLen_header _ _ _ a.fits]

theorem recvHeader_silent (hs : s.incoming = []) : recvHeader s = (none, s) := by
  rw [recvHeader, hs, recv]

/-! ### What a reader is to get -/

/-- The payload of the blocks, to the end of the first one that is shorter than the largest
    block before it. -/
def phaseBytes : Nat → List Answer → List SaneByte
  | _, [] => []
  | blocksize, a :: blocks =>
    let blocksize' := max blocksize a.payload.length
    a.payload ++ if a.payload.length < blocksize' then [] else phaseBytes blocksize' blocks

def phaseEnds : Nat → List Answer → Bool
  | _, [] => false
  | blocksize, a :: blocks =>
    let blocksize' := max blocksize a.payload.length
    decide (a.payload.length < blocksize') || phaseEnds blocksize' blocks

/-- The bytes that have not been read yet. -/
def Link.remaining (s : Link) : List SaneByte :=
  s.incoming.flatten ++ if s.lastBlock then [] else phaseBytes s.blocksize s.blocks

/-- The scanner answers read requests to the end of its data. -/
def Link.ends (s : Link) : Bool := s.lastBlock || phaseEnds s.blocksize s.blocks

/-- What has arrived is the payload that is announced and not yet received, and no header
    that is still to come is cut. -/
structure Link.InSync (s : Link) : Prop where
  proper : Proper s.incoming
  left : s.scannerDataLeft = s.incoming.flatten.length
  blocksize : 0 < s.blocksize
  whole : ∀ a ∈ s.blocks, Uncut 0 headerSize a.cuts

theorem Link.InSync.incoming_nil (hs : s.InSync) (hleft : s.scannerDataLeft = 0) :
    s.incoming = [] :=
  hs.proper.eq_nil (List.length_eq_zero_iff.mp (hs.left.symm.trans hleft))

/-- Nothing comes when the scanner has no answer. -/
theorem announce_silent (hs : s.InSync) (hleft : s.scannerDataLeft = 0) (hblocks : s.blocks = []) :
    announce s = (none, { s.setCmd CMD_TCP_REQ with scannerDataLeft := 0 }) := by
  have hsent : sendReadRequest s = s.setCmd CMD_TCP_REQ := by
    rw [sendReadRequest, Link.setCmd, hblocks]
  have hnil : (s.setCmd CMD_TCP_REQ).incoming = [] := hs.incoming_nil hleft
  rw [announce, hsent, recvHeader_silent hnil]

/-- The next block is announced, and what a reader is to get stays the same. -/
theorem announce_block (hs : s.InSync) (hleft : s.scannerDataLeft = 0)
    (hlast : s.lastBlock = false) {blocks : List Answer} (hblocks : s.blocks = a :: blocks) :
    ∃ s', announce s = (some (), s') ∧ s'.InSync ∧ s'.remaining = s.remaining ∧
      s'.ends = s.ends ∧ (s'.scannerDataLeft = 0 → s'.lastBlock = true) := by
  have hin := hs.incoming_nil hleft
  have hsent : sendReadRequest s = ({ s.setCmd CMD_TCP_REQ with blocks } : Link).answer a := by
    rw [sendReadRequest, Link.setCmd, hblocks]
  have hrecv := recvHeader_answer (s := { s.setCmd CMD_TCP_REQ with blocks }) (a := a) hin
    (hs.whole a (hblocks ▸ List.mem_cons_self))
  rw [← hsent] at hrecv
  refine ⟨_, by rw [announce, hrecv], ?_, ?_, ?_, ?_⟩
  · refine ⟨proper_cutAt (advance_pos a.positive) _, ?_, ?_, ?_⟩
    · exact (congrArg List.length (flatten_cutAt _ _)).symm
    · exact Nat.lt_of_lt_of_le hs.blocksize (Nat.le_max_left ..)
    · exact fun b hb => hs.whole b (hblocks ▸ List.mem_cons_of_mem a hb)
  · simp [Link.remaining, hin, hlast, hblocks, phaseBytes, flatten_cutAt, Link.setCmd]
  · simp [Link.ends, hlast, hblocks, phaseEnds, Link.setCmd]
  · intro hzero
    have hpos := hs.blocksize
    have hnil : a.payload.length = 0 := hzero
    simp [hnil, Link.setCmd, hpos]

/-! ### Reads -/

/-- What a reader is to get has not changed. -/
structure Link.SamePhase (s s' : Link) : Prop where
  sync : s'.InSync
  remaining : s'.remaining = s.remaining
  ends : s'.ends = s.ends

/-- A turn of the loop has a block to receive from, or the scanner does not answer. -/
theorem announced_cases (hs : s.InSync) (hmore : ¬ (s.lastBlock = true ∧ s.scannerDataLeft = 0)) :
    (∃ s', (if s.scannerDataLeft = 0 then announce s else (some (), s)) = (none, s') ∧
      s.remaining = [] ∧ s.ends = false ∧ s.SamePhase s') ∨
    ∃ s', (if s.scannerDataLeft = 0 then announce s else (some (), s)) = (some (), s') ∧
      s.SamePhase s' ∧ (s'.scannerDataLeft = 0 → s'.lastBlock = true) := by
  by_cases hleft : s.scannerDataLeft = 0
  · have hlast : s.lastBlock = false := Bool.not_eq_true _ ▸ fun h => hmore ⟨h, hleft⟩
    have hin := hs.incoming_nil hleft
    rw [if_pos hleft]
    cases hblocks : s.blocks with
    | nil =>
      have hrem : s.remaining = [] := by simp [Link.remaining, hin, hlast, hblocks, phaseBytes]
      have hends : s.ends = false := by simp [Link.ends, hlast, hblocks, phaseEnds]
      refine .inl ⟨_, announce_silent hs hleft hblocks, hrem, hends, ?_, ?_, rfl⟩
      · exact ⟨hs.proper, hleft ▸ hs.left, hs.blocksize, hs.whole⟩
      · rfl
    | cons a blocks =>
      obtain ⟨s', h, hsync, hrem, hends, hzero⟩ := announce_block hs hleft hlast hblocks
      exact .inr ⟨s', h, ⟨hsync, hrem, hends⟩, hzero⟩
  · rw [if_neg hleft]
    exact .inr ⟨s, rfl, ⟨hs, rfl, rfl⟩, fun h => absurd h hleft⟩

/-- A piece of the announced payload is received. -/
theorem recvData_piece (hs : s.InSync) (hleft : s.scannerDataLeft ≠ 0) {wanted : Nat}
    (hwanted : 0 < wanted) :
    ∃ data s', recvData (min s.scannerDataLeft wanted) s = (some data, s') ∧
      0 < data.length ∧ data.length ≤ wanted ∧
      Link.InSync { s' with scannerDataLeft := s'.scannerDataLeft - data.length } ∧
      data ++ s'.remaining = s.remaining ∧ s'.ends = s.ends := by
  have hne : s.incoming ≠ [] := by
    intro hnil
    have h := hs.left
    rw [hnil] at h
    exact hleft h
  have hsome : 0 < min s.scannerDataLeft wanted :=
    Nat.lt_min.mpr ⟨Nat.pos_of_ne_zero hleft, hwanted⟩
  obtain ⟨data, rest, hrecv, hproper, hflat, hpos, hlen⟩ := hs.proper.recv hne hsome
  refine ⟨data, { s with incoming := rest }, ?_, hpos, hlen.trans (Nat.min_le_right ..), ?_, ?_,
    rfl⟩
  · rw [recvData, hrecv]
  · refine ⟨hproper, ?_, hs.blocksize, hs.whole⟩
    have hall := congrArg List.length hflat
    rw [List.length_append, ← hs.left] at hall
    have hrest : s.scannerDataLeft - data.length = rest.flatten.length := by omega
    exact hrest
  · rw [Link.remaining, Link.remaining, ← List.append_assoc, hflat]

/-- The status of a loop that was to receive `wanted` bytes. -/
def Link.loopStatus (wanted : Nat) (s : Link) : SaneStatus :=
  if wanted ≤ s.remaining.length ∨ s.ends = true then .good else .ioError

/-- What the loop has to give when `wanted` bytes are still to be received. -/
def Gives (wanted : Nat) (s : Link) : Option (SaneStatus × List SaneByte × Link) → Prop
  | none => False
  | some (ret, data, s') =>
    ret = s.loopStatus wanted ∧ data = s.remaining.take wanted ∧
      s'.remaining = s.remaining.drop wanted ∧ s'.InSync ∧ s'.ends = s.ends

theorem Gives.stop {wanted : Nat} {ret : SaneStatus} {s' : Link} (h : s.SamePhase s')
    (hret : ret = s.loopStatus wanted) (hend : wanted = 0 ∨ s.remaining = []) :
    Gives wanted s (some (ret, [], s')) := by
  refine ⟨hret, ?_, h.remaining.trans ?_, h.sync, h.ends⟩
  · rcases hend with rfl | hnil
    · rfl
    · rw [hnil, List.take_nil]
  · rcases hend with rfl | hnil
    · rfl
    · rw [hnil, List.drop_nil]

/-- A piece that has been received comes before the rest. -/
theorem Gives.piece {wanted : Nat} {data : List SaneByte} {s' : Link}
    {r : Option (SaneStatus × List SaneByte × Link)} (hdata : data.length ≤ wanted)
    (hrem : data ++ s'.remaining = s.remaining) (hends : s'.ends = s.ends)
    (h : Gives (wanted - data.length) s' r) :
    Gives wanted s (r.map fun (ret, rest, s) => (ret, data ++ rest, s)) := by
  match r, h with
  | some (ret, rest, t), ⟨hret, hrest, htail, hsync, hends'⟩ =>
    have hlen := congrArg List.length hrem
    rw [List.length_append] at hlen
    refine ⟨hret.trans ?_, ?_, htail.trans ?_, hsync, hends'.trans hends⟩
    · rw [Link.loopStatus, Link.loopStatus, hends]
      have hiff : wanted - data.length ≤ s'.remaining.length ↔ wanted ≤ s.remaining.length := by
        omega
      simp only [hiff]
    · rw [hrest, ← hrem, List.take_append, List.take_of_length_le hdata]
    · rw [← hrem, List.drop_append, List.drop_of_length_le hdata, List.nil_append]

/-- The loop gives the next `wanted` bytes of the phase, whatever segments they come in. -/
theorem readLoop_gives (fuel wanted : Nat) (hfuel : wanted ≤ fuel) (s : Link) (hs : s.InSync) :
    Gives wanted s (readLoop fuel wanted s) := by
  induction fuel generalizing wanted s with
  | zero =>
    obtain rfl := Nat.le_zero.mp hfuel
    rw [readLoop, if_pos (.inl rfl)]
    exact .stop ⟨hs, rfl, rfl⟩ (by simp [Link.loopStatus]) (.inl rfl)
  | succ fuel ih =>
    rw [readLoop]
    split
    · rename_i hstop
      refine .stop ⟨hs, rfl, rfl⟩ ?_ ?_
      · rcases hstop with rfl | ⟨hlast, -⟩
        · simp [Link.loopStatus]
        · simp [Link.loopStatus, Link.ends, hlast]
      · refine hstop.imp id fun ⟨hlast, hleft⟩ => ?_
        simp [Link.remaining, hlast, hs.incoming_nil hleft]
    · rename_i hmore
      rw [not_or] at hmore
      rcases announced_cases hs hmore.2 with ⟨s', h, hrem, hends, hphase⟩ | ⟨s', h, hphase, hzero⟩
      · rw [h]
        refine .stop hphase ?_ (.inr hrem)
        simp [Link.loopStatus, hrem, hends, hmore.1]
      · rw [h]
        dsimp only
        split
        · rename_i hleft
          have hlast := hzero hleft
          have hnil : s'.remaining = [] := by
            simp [Link.remaining, hlast, hphase.sync.incoming_nil hleft]
          have hends : s'.ends = true := by simp [Link.ends, hlast]
          refine .stop hphase ?_ (.inr (hphase.remaining ▸ hnil))
          simp [Link.loopStatus, ← hphase.ends, hends]
        · rename_i hleft
          obtain ⟨data, t, hrecv, hpos, hlen, hsync, hrem, hends⟩ :=
            recvData_piece hphase.sync hleft (Nat.pos_of_ne_zero hmore.1)
          rw [hrecv]
          dsimp only
          refine .piece hlen (hrem.trans hphase.remaining) (hends.trans hphase.ends) ?_
          exact ih _ (by omega) _ hsync

/-- The status of a call that was to read `size` bytes. -/
def Link.readStatus (size : Nat) (s : Link) : SaneStatus :=
  if s.loopStatus size = .good ∧ s.remaining.take size = [] then .eof else s.loopStatus size

/-- A call gives the next `size` bytes of the phase. -/
theorem readBulk_gives (hs : s.InSync) (size : Nat) :
    ∃ s', readBulk size s = some (s.readStatus size, s.remaining.take size, s') ∧
      s'.remaining = s.remaining.drop size ∧ s'.InSync ∧ s'.ends = s.ends := by
  have h := readLoop_gives size size (Nat.le_refl size) s hs
  match hrun : readLoop size size s, h with
  | some (ret, data, s'), ⟨hret, hdata, hrem, hsync, hends⟩ =>
    refine ⟨s', ?_, hrem, hsync, hends⟩
    rw [readBulk, hrun, hret, hdata]
    rfl

/-! ### Writes -/

/-- The scanner confirms with four bytes, and neither its header nor they are cut; nor are
    the headers of the blocks that follow. -/
structure Write.Whole (w : Write) : Prop where
  four : w.confirmation.payload.length = 4
  header : Uncut 0 headerSize w.confirmation.cuts
  payload : Uncut headerSize (headerSize + 4) w.confirmation.cuts
  blocks : ∀ a ∈ w.blocks, Uncut 0 headerSize a.cuts

/-- The scanner has got the whole command, and says so. -/
def Write.Confirmed (w : Write) : Prop :=
  w.delivered ∧ (WordBytes.ofBytesBE w.confirmation.payload).toNat = w.size

instance (w : Write) : Decidable w.Confirmed := inferInstanceAs (Decidable (_ ∧ _))

theorem recvData_confirmation (ha : a.payload.length = 4)
    (hcuts : Uncut 0 4 (advance headerSize a.cuts)) :
    recvData 4 { s with incoming := cutAt (advance headerSize a.cuts) a.payload } =
      (some a.payload, { s with incoming := [] }) := by
  have hne : a.payload ≠ [] := fun hnil => by rw [hnil] at ha; cases ha
  have hrecv := recv_uncut hcuts (advance_pos a.positive) (Nat.le_of_eq ha.symm) hne
  rw [List.take_of_length_le (Nat.le_of_eq ha), List.drop_of_length_le (Nat.le_of_eq ha),
    cutAt_nil] at hrecv
  rw [recvData, hrecv]

/-- A command that has not been sent whole is not answered. -/
theorem writeBulk_unsent (hs : s.incoming = []) {w : Write} (hw : ¬ w.delivered) :
    writeBulk w s = (.ioError, s.setCmd CMD_TCP_SEND) := by
  have hsilent : recvHeader (s.setCmd CMD_TCP_SEND) = (none, s.setCmd CMD_TCP_SEND) :=
    recvHeader_silent hs
  rw [writeBulk, bjnpWrite]
  by_cases hshort : w.sent < headerSize + w.size
  · simp only [if_pos hshort, hsilent, ite_self]
  · have hneg : (-1 : Int) ≠ w.size := by omega
    simp only [if_neg hshort, if_neg hw, if_pos hneg]

theorem writeBulk_delivered (hs : s.incoming = []) {w : Write} (hw : w.Whole)
    (hsent : w.delivered) :
    writeBulk w s =
      if (WordBytes.ofBytesBE w.confirmation.payload).toNat ≠ w.size then
        (.ioError, { s.setCmd CMD_TCP_SEND with blocks := w.blocks })
      else (.good, { s.setCmd CMD_TCP_SEND with blocks := w.blocks, lastBlock := false }) := by
  have hlong : ¬ w.sent < headerSize + w.size := by
    rw [Write.delivered] at hsent
    omega
  have hheader := recvHeader_answer (s := { s.setCmd CMD_TCP_SEND with blocks := w.blocks }) hs
    hw.header
  have hdata := recvData_confirmation (s := { s.setCmd CMD_TCP_SEND with blocks := w.blocks })
    hw.four (hw.payload.advance (n := headerSize) (a := 0) hw.header w.confirmation.positive)
  have hnil : ({ s.setCmd CMD_TCP_SEND with blocks := w.blocks, incoming := [] } : Link) =
      { s.setCmd CMD_TCP_SEND with blocks := w.blocks } := by
    simp [Link.setCmd, hs]
  rw [hnil] at hdata
  rw [writeBulk, bjnpWrite]
  simp only [if_neg hlong, if_pos hsent, ne_eq, not_true_eq_false, if_false, hheader, hw.four,
    hdata]

/-- A write returns GOOD exactly when the scanner has confirmed the full length, and leaves
    nothing unread. -/
theorem writeBulk_spec (hs : s.InSync) (hleft : s.scannerDataLeft = 0) {w : Write}
    (hw : w.Whole) :
    ∃ s', writeBulk w s = (if w.Confirmed then .good else .ioError, s') ∧
      s'.InSync ∧ s'.scannerDataLeft = 0 ∧ s'.blocksize = s.blocksize ∧
      s'.blocks = (if w.delivered then w.blocks else s.blocks) ∧
      s'.lastBlock = (if w.Confirmed then false else s.lastBlock) := by
  have hin := hs.incoming_nil hleft
  by_cases hsent : w.delivered
  · rw [writeBulk_delivered hin hw hsent]
    have hsync : ∀ last, Link.InSync { s.setCmd CMD_TCP_SEND with
        blocks := w.blocks, lastBlock := last } :=
      fun last => ⟨hs.proper, hs.left, hs.blocksize, hw.blocks⟩
    by_cases hconf : (WordBytes.ofBytesBE w.confirmation.payload).toNat = w.size
    · have hc : w.Confirmed := ⟨hsent, hconf⟩
      rw [if_neg (not_not.mpr hconf), if_pos hc, if_pos hsent, if_pos hc]
      exact ⟨_, rfl, hsync false, hleft, rfl, rfl, rfl⟩
    · have hc : ¬ w.Confirmed := fun h => hconf h.2
      rw [if_pos hconf, if_neg hc, if_pos hsent, if_neg hc]
      exact ⟨_, rfl, hsync _, hleft, rfl, rfl, rfl⟩
  · have hc : ¬ w.Confirmed := fun h => hsent h.1
    rw [writeBulk_unsent hin hsent, if_neg hc, if_neg hsent, if_neg hc]
    exact ⟨_, rfl, ⟨hs.proper, hs.left, hs.blocksize, hs.whole⟩, hleft, rfl, rfl, rfl⟩

/-! ### Runs -/

/-- The results of reads of the given sizes, when `rest` is still to be read and `ends` says
    whether the scanner answers to the end of it. -/
def promised (ends : Bool) : List Nat → List SaneByte → List (SaneStatus × List SaneByte)
  | [], _ => []
  | size :: sizes, rest =>
    let ret := if size ≤ rest.length ∨ ends = true then
        (if rest.take size = [] then SaneStatus.eof else .good) else .ioError
    (ret, rest.take size) :: promised ends sizes (rest.drop size)

def readAll : List Nat → Link → Option (List (SaneStatus × List SaneByte) × Link)
  | [], s => some ([], s)
  | size :: sizes, s =>
    match readBulk size s with
    | none => none
    | some (ret, data, s) => (readAll sizes s).map fun (rs, s) => ((ret, data) :: rs, s)

inductive Op
  | read (size : Nat)
  | write (w : Write)

/-- A call with its status, the bytes it gives, and the link; `none` if it does not return. -/
def Link.exec (s : Link) : Op → Option (SaneStatus × List SaneByte × Link)
  | .read size => readBulk size s
  | .write w => some ((writeBulk w s).1, [], (writeBulk w s).2)

/-- A read gives the next bytes of the phase, and a write returns GOOD exactly when the
    scanner has confirmed the full length; what has arrived afterwards is the payload that is
    announced, and after a write there is none. -/
def Meets (s : Link) (op : Op) (ret : SaneStatus) (data : List SaneByte) (s' : Link) : Prop :=
  s'.scannerDataLeft = s'.incoming.flatten.length ∧
    match op with
    | .read size => [(ret, data)] = promised s.ends [size] s.remaining ∧
        s'.remaining = s.remaining.drop size ∧ s'.ends = s.ends
    | .write w => (ret = .good ↔ w.Confirmed) ∧ s'.incoming = [] ∧
        (ret = .good → s'.remaining = phaseBytes s.blocksize w.blocks)

/-- The condition under which a write finds the stream in step and leaves it so. -/
def Fine (s : Link) : Op → Prop
  | .read _ => True
  | .write w => s.scannerDataLeft = 0 ∧ w.Whole

theorem readStatus_eq (size : Nat) (s : Link) :
    [(s.readStatus size, s.remaining.take size)] = promised s.ends [size] s.remaining := by
  rw [Link.readStatus, Link.loopStatus, promised, promised]
  by_cases h : size ≤ s.remaining.length ∨ s.ends = true
  · simp [if_pos h]
  · simp [if_neg h]

/-- The reads give the bytes of the phase in the pieces asked for. -/
theorem readAll_eq (sizes : List Nat) (s : Link) (hs : s.InSync) :
    ∃ s', readAll sizes s = some (promised s.ends sizes s.remaining, s') ∧ s'.InSync := by
  induction sizes generalizing s with
  | nil => exact ⟨s, rfl, hs⟩
  | cons size sizes ih =>
    obtain ⟨t, hread, hrem, hsync, hends⟩ := readBulk_gives hs size
    obtain ⟨s', hall, hs'⟩ := ih t hsync
    refine ⟨s', ?_, hs'⟩
    have hhead := List.singleton_inj.mp (readStatus_eq size s)
    rw [readAll, hread]
    simp only [hall, Option.map_some, promised, hrem, hends, hhead]

theorem exec_meets (hs : s.InSync) {op : Op} (hop : Fine s op) :
    ∃ ret data s', s.exec op = some (ret, data, s') ∧ Meets s op ret data s' ∧ s'.InSync := by
  cases op with
  | read size =>
    obtain ⟨s', hread, hrem, hsync, hends⟩ := readBulk_gives hs size
    exact ⟨_, _, s', hread, ⟨hsync.left, readStatus_eq size s, hrem, hends⟩, hsync⟩
  | write w =>
    obtain ⟨s', hwrite, hsync, hleft, hsize, hblocks, hlast⟩ := writeBulk_spec hs hop.1 hop.2
    have hin := hsync.incoming_nil hleft
    refine ⟨_, _, s', by rw [Link.exec, hwrite], ⟨hsync.left, ?_, hin, ?_⟩, hsync⟩
    · split <;> simp [*]
    · intro hgood
      have hconf : w.Confirmed := by
        by_contra hnot
        rw [if_neg hnot] at hgood
        cases hgood
      rw [if_pos hconf] at hlast
      rw [if_pos hconf.1] at hblocks
      rw [Link.remaining, hin, hlast, hsize, hblocks]
      rfl

theorem opened_sync (sessionId : BitVec 16) : (Link.opened sessionId).InSync where
  proper := fun _ h => nomatch h
  left := rfl
  blocksize := Nat.succ_pos _
  whole := fun _ h => nomatch h

/-- In every run whose writes find the stream in step, and none of whose answers is cut in its
    header or its confirmation, every call returns as it should, and any reads that follow
    give the payload bytes in order, in the pieces asked for. -/
theorem bulk_transfers (sessionId : BitVec 16) (ops : List Op) (s : Link)
    (hrun : Run (fun s op s' => Fine s op ∧ ∃ ret data, s.exec op = some (ret, data, s'))
      (Link.opened sessionId) ops s) :
    (∀ op, Fine s op → ∃ ret data s', s.exec op = some (ret, data, s') ∧
      Meets s op ret data s') ∧
    ∀ sizes, ∃ s', readAll sizes s = some (promised s.ends sizes s.remaining, s') := by
  have hsync : s.InSync := by
    refine hrun.invariant (I := Link.InSync) (opened_sync sessionId) ?_
    intro t op t' ht ⟨hop, ret, data, hexec⟩
    obtain ⟨ret', data', u, hexec', -, hu⟩ := exec_meets ht hop
    rw [hexec] at hexec'
    cases hexec'
    exact hu
  constructor
  · intro op hop
    obtain ⟨ret, data, s', hexec, hmeets, -⟩ := exec_meets hsync hop
    exact ⟨ret, data, s', hexec, hmeets⟩
  · intro sizes
    obtain ⟨s', hall, -⟩ := readAll_eq sizes s hsync
    exact ⟨s', hall⟩

/-! ### A header that is cut -/

/-- A command of one byte that the scanner confirms and then answers with one block. -/
def oneBlock (cuts : List Nat) (hcuts : ∀ n ∈ cuts, 0 < n) : Write where
  size := 1
  sent := 17
  confirmation := { payload := [0, 0, 0, 1], cuts := [16] }
  blocks := [{ payload := [7, 8, 9], cuts, positive := hcuts }]

def afterCommand (cuts : List Nat) (hcuts : ∀ n ∈ cuts, 0 < n) : Link :=
  (writeBulk (oneBlock cuts hcuts) (.opened 0)).2

/-- The block comes in pieces, but its header does not. -/
theorem bulk_transfers_block :
    ∃ s, readAll [2, 2, 2] (afterCommand [17, 1] (by decide)) =
      some ([(.good, [7, 8]), (.good, [9]), (.eof, [])], s) := by
  have hfine : Fine (.opened 0) (.write (oneBlock [17, 1] (by decide))) := by
    refine ⟨rfl, rfl, by decide, by decide, fun a ha => ?_⟩
    rw [List.mem_singleton.mp ha]
    decide
  obtain ⟨s, hs⟩ := (bulk_transfers 0 [.write (oneBlock [17, 1] (by decide))]
    (afterCommand [17, 1] (by decide)) (.snoc .nil ⟨hfine, _, _, rfl⟩)).2 [2, 2, 2]
  have hphase : promised (afterCommand [17, 1] (by decide)).ends [2, 2, 2]
      (afterCommand [17, 1] (by decide)).remaining =
      [(.good, [7, 8]), (.good, [9]), (.eof, [])] := by decide +kernel
  exact ⟨s, hphase ▸ hs⟩

/-- When the header of the block is cut, the first read fails. -/
theorem bulk_transfers_header_cut :
    ¬ ∀ (sessionId : BitVec 16) (ops : List Op) (s : Link),
      Run (fun s op s' => ∃ ret data, s.exec op = some (ret, data, s')) (.opened sessionId) ops s →
      ∀ size, ∃ ret data s', s.exec (.read size) = some (ret, data, s') ∧
        Meets s (.read size) ret data s' := by
  intro h
  obtain ⟨ret, data, s', hexec, -, hdata, -⟩ := h 0 [.write (oneBlock [8] (by decide))]
    (afterCommand [8] (by decide)) (.snoc .nil ⟨_, _, rfl⟩) 2
  have hfailed : (readBulk 2 (afterCommand [8] (by decide))).map
      (fun r => (r.1, r.2.1)) = some (.ioError, []) := by decide +kernel
  have hphase : promised (afterCommand [8] (by decide)).ends [2]
      (afterCommand [8] (by decide)).remaining = [(.good, [7, 8])] := by decide +kernel
  have hexec' : readBulk 2 (afterCommand [8] (by decide)) = some (ret, data, s') := hexec
  rw [hexec'] at hfailed
  rw [hphase] at hdata
  cases hfailed
  cases hdata

end SaneBackends.BjnpBulk
