import SaneBackends.WireState
import SaneBackends.RecordStream
import SaneBackends.BytePairs
import SaneBackends.LabelledRun

/-!
# `sane_read` of the net backend

The client reads records from the data socket: the four bytes of a length, which may
arrive one by one, and then the data.  With a depth of 16 bits and different byte orders
it exchanges the bytes of each sample and keeps an odd byte for the next call, in
`hang_over` while its partner is missing and in `left_over` when only its place in the
result is.
-/

namespace SaneBackends

open RecordStream BytePairs Overwrite LabelledRun WordBytes

/-- `depth`, `server_big_endian` and `client_big_endian`. -/
structure ByteOrder where
  depth : Int
  serverBigEndian : Bool
  clientBigEndian : Bool
deriving DecidableEq, Repr

/-- `(depth == 16) && (server_big_endian != client_big_endian)` -/
def ByteOrder.mustSwap (o : ByteOrder) : Bool :=
  o.depth == 16 && o.serverBigEndian != o.clientBigEndian

/-- The members of `Net_Scanner` that `sane_read` uses, and the variables `hang_over` and
    `left_over`; `data` tells whether the socket is open.  `received` is what the socket
    has delivered and `returned` what the frontend has got. -/
structure NetScanner where
  data : Bool
  reclenBuf : List SaneByte
  reclenBufOffset : Nat
  bytesRemaining : Nat
  hangOver : Option SaneByte
  leftOver : Option SaneByte
  received : List SaneByte
  returned : List SaneByte
deriving DecidableEq, Repr

/-- After `sane_start`. -/
def NetScanner.started (reclenBuf : List SaneByte) : NetScanner :=
  ⟨true, reclenBuf, 0, 0, none, none, [], []⟩

/-- Outcome of a `read` from the data socket; of the bytes that are there it delivers no
    more than were asked for. -/
inductive SocketRead where
  | deliver (there : List SaneByte)
  | again
  | fail
deriving DecidableEq, Repr

/-- One call of `sane_read`: `max_length`, and what the socket does, first if the length
    of a record is read, then when the status or the data behind it is. -/
structure ReadCall where
  maxLength : SaneWord
  lengthRead : SocketRead
  dataRead : SocketRead
deriving DecidableEq, Repr

/-- What the caller sees: the status as a number, the bytes, and the number of bytes that
    were asked from the socket for the caller's buffer. -/
structure ReadReturn where
  status : Int
  bytes : List SaneByte
  requested : Option Nat
deriving DecidableEq, Repr

def SaneStatus.toInt (st : SaneStatus) : Int := st.code

/-- A call that returns without having touched the caller's buffer. -/
def returnStatus (st : SaneStatus) : ReadReturn := ⟨st.toInt, [], none⟩

def NetScanner.doCancel (s : NetScanner) : NetScanner := { s with data := false }

/-- The conversion of a `SANE_Int` to `size_t`. -/
def sizeT (n : SaneWord) : Nat := (n.signExtend 64).toNat

/-- The bytes the caller gets, and what `hang_over` and `left_over` hold afterwards. -/
structure Swapped where
  bytes : List SaneByte
  hangOver : Option SaneByte
  leftOver : Option SaneByte
deriving DecidableEq, Repr

/-- The exchange of the bytes that have been read. -/
def swapSamples (data : List SaneByte) (hangOver leftOver : Option SaneByte) : Swapped :=
  let nread := data.length
  match hangOver with
  | some hang =>
      if nread = 1 then ⟨data, none, some hang⟩
      else if 1 < nread then
        let tempHangOver := data[nread - 1]?
        -- `memmove (data + 1, data, nread - 1); *data = hang_over;`
        let data := (overwrite data 1 (data.take (nread - 1))).set 0 hang
        if nread % 2 = 0 then
          let leftOver := data[nread - 1]?
          let data := data.set (nread - 1) (tempHangOver.getD 0)
          ⟨swapLoop data (nread - 2), none, leftOver⟩
        else ⟨swapLoop data (nread - 1), tempHangOver, none⟩
      else ⟨swapLoop data nread, some hang, leftOver⟩
  | none =>
      if nread = 1 then ⟨[], data[0]?, leftOver⟩
      else if nread % 2 = 0 then ⟨swapLoop data nread, none, leftOver⟩
      else
        let length := nread - 1
        ⟨(swapLoop data length).take length, data[length]?, leftOver⟩

/-- The number of bytes asked for when data is read: `max_length`, unless the record ends
    before; the comparison is one of signed numbers. -/
def NetScanner.dataCount (s : NetScanner) (maxLength : SaneWord) : Nat :=
  if (BitVec.ofNat 32 s.bytesRemaining).toInt < maxLength.toInt then
    sizeT (BitVec.ofNat 32 s.bytesRemaining)
  else sizeT maxLength

/-- Data is exchanged if it has to be. -/
def NetScanner.exchange (o : ByteOrder) (s : NetScanner) (data : List SaneByte) : Swapped :=
  if o.mustSwap then swapSamples data s.hangOver s.leftOver
  else ⟨data, s.hangOver, s.leftOver⟩

/-- Data has arrived, and the caller gets what has become of it. -/
def NetScanner.gotData (s : NetScanner) (data : List SaneByte) (r : Swapped) : NetScanner :=
  { s with
    bytesRemaining := s.bytesRemaining - data.length
    received := s.received ++ data
    hangOver := r.hangOver
    leftOver := r.leftOver
    returned := s.returned ++ r.bytes }

/-- The part of `sane_read` behind the record length. -/
def NetScanner.readData (o : ByteOrder) (s : NetScanner) (maxLength : SaneWord)
    (dataRead : SocketRead) : Except Fault (ReadReturn × NetScanner) :=
  let count := s.dataCount maxLength
  match dataRead with
  | .again => .ok ({ returnStatus .good with requested := some count }, s)
  | .fail => .ok ({ returnStatus .ioError with requested := some count }, s.doCancel)
  | .deliver there =>
      let data := there.take count
      -- the caller's buffer holds `max_length` bytes
      if maxLength.toInt.toNat < data.length then .error .outOfBounds
      else
        let r := s.exchange o data
        .ok (⟨SaneStatus.good.toInt, r.bytes, some count⟩, s.gotData data r)

/-- The server has sent the end mark: its status byte is read, and the scan is over. -/
def NetScanner.readStatus (s : NetScanner) (statusRead : SocketRead) : ReadReturn × NetScanner :=
  match statusRead with
  | .deliver (ch :: _) =>
      (⟨ch.toInt, [], none⟩, { s with received := s.received ++ [ch] }.doCancel)
  | _ => (returnStatus .ioError, s.doCancel)

/-- Bytes of a record length have arrived. -/
def NetScanner.gotLength (s : NetScanner) (got : List SaneByte) : NetScanner :=
  { s with
    reclenBuf := overwrite s.reclenBuf s.reclenBufOffset got
    reclenBufOffset := s.reclenBufOffset + got.length
    received := s.received ++ got }

/-- The record length is complete. -/
def NetScanner.begun (s : NetScanner) : NetScanner :=
  { s with
    reclenBufOffset := 0
    bytesRemaining := (ofBytesBE s.reclenBuf).toNat }

def saneRead (o : ByteOrder) (s : NetScanner) (c : ReadCall) :
    Except Fault (ReadReturn × NetScanner) :=
  match (if o.mustSwap then s.leftOver else none) with
  | some b =>
      if c.maxLength.toInt < 1 then .error .outOfBounds
      else
        .ok (⟨SaneStatus.good.toInt, [b], none⟩,
          { s with leftOver := none, returned := s.returned ++ [b] })
  | none =>
      if ¬ s.data then .ok (returnStatus .cancelled, s)
      else if s.bytesRemaining = 0 then
        match c.lengthRead with
        | .again => .ok (returnStatus .good, s)
        | .fail => .ok (returnStatus .ioError, s.doCancel)
        | .deliver there =>
            let s := s.gotLength (there.take (4 - s.reclenBufOffset))
            if s.reclenBufOffset < 4 then .ok (returnStatus .good, s)
            else
              let s := s.begun
              if s.bytesRemaining = 0xffffffff then .ok (s.readStatus c.dataRead)
              else s.readData o c.maxLength c.dataRead
      else s.readData o c.maxLength c.dataRead

/-! ### The stream of records -/

/-- The scanner in front of the read of data, when a call comes so far. -/
def NetScanner.atData (o : ByteOrder) (s : NetScanner) (c : ReadCall) : Option NetScanner :=
  if (o.mustSwap ∧ s.leftOver.isSome) ∨ s.data = false then none
  else if s.bytesRemaining = 0 then
    match c.lengthRead with
    | .deliver there =>
        let s := s.gotLength (there.take (4 - s.reclenBufOffset))
        if s.reclenBufOffset < 4 then none
        else if s.begun.bytesRemaining = 0xffffffff then none
        else some s.begun
    | _ => none
  else some s

/-- The scanner knows where the stream of records stands. -/
structure NetScanner.Framed (s : NetScanner) : Prop where
  buf : s.reclenBuf.length = 4
  offset : s.reclenBufOffset < 4
  small : s.bytesRemaining < 2 ^ 32
  inRecord : s.bytesRemaining ≠ 0 → s.reclenBufOffset = 0
  frame : s.data = true →
    frame s.received =
      if s.bytesRemaining = 0 then .header (s.reclenBuf.take s.reclenBufOffset)
      else .body s.bytesRemaining

variable {o : ByteOrder} {s s' t : NetScanner} {c : ReadCall} {r : ReadReturn}

theorem NetScanner.started_framed {reclenBuf : List SaneByte} (h : reclenBuf.length = 4) :
    (NetScanner.started reclenBuf).Framed :=
  ⟨h, Nat.zero_lt_succ 3, Nat.two_pow_pos 32, fun _ => rfl, fun _ => by
    simp [NetScanner.started, RecordStream.frame, Frame.run]⟩

/-- In front of a length, the bytes that arrive are bytes of it. -/
theorem gotLength_frame (hs : s.Framed) (hdata : s.data = true) (hzero : s.bytesRemaining = 0)
    {got : List SaneByte} (hgot : got.length ≤ 4 - s.reclenBufOffset) :
    (s.gotLength got).reclenBuf.length = 4 ∧ payload (s.gotLength got).received = payload s.received ∧
      frame (s.gotLength got).received =
        if (s.gotLength got).reclenBufOffset < 4 then
          .header ((s.gotLength got).reclenBuf.take (s.gotLength got).reclenBufOffset)
        else announced (ofBytesBE (s.gotLength got).reclenBuf) := by
  obtain ⟨hbuf, hoffset, -, -, hframe⟩ := hs
  have hhead := hframe hdata
  rw [if_pos hzero] at hhead
  have hlen : (s.gotLength got).reclenBuf.length = 4 := by
    rw [NetScanner.gotLength, length_overwrite (by omega), hbuf]
  have hfront : (s.gotLength got).reclenBuf.take (s.reclenBufOffset + got.length) =
      s.reclenBuf.take s.reclenBufOffset ++ got := take_overwrite (by omega)
  have htake : (s.reclenBuf.take s.reclenBufOffset).length = s.reclenBufOffset := by
    rw [List.length_take]
    omega
  have hreceived : (s.gotLength got).received = s.received ++ got := rfl
  have hat : (s.gotLength got).reclenBufOffset = s.reclenBufOffset + got.length := rfl
  refine ⟨hlen, ?_, ?_⟩
  · rw [hreceived, payload_append, hhead]
    by_cases hshort : s.reclenBufOffset + got.length < 4
    · rw [run_header_short (by omega), List.append_nil]
    · rw [run_header_full (by omega) (by omega), List.append_nil]
  · rw [hreceived, hat, frame_append, hhead]
    split_ifs with hshort
    · rw [run_header_short (by omega), hfront]
    · have hfull : (s.gotLength got).reclenBuf = s.reclenBuf.take s.reclenBufOffset ++ got := by
        rw [← hfront, List.take_of_length_le (by omega)]
      rw [run_header_full (by omega) (by omega), hfull]

theorem begun_framed {u : NetScanner} (hbuf : u.reclenBuf.length = 4)
    (hend : u.begun.bytesRemaining ≠ 0xffffffff)
    (hframe : frame u.received = announced (ofBytesBE u.reclenBuf)) : u.begun.Framed := by
  refine ⟨hbuf, Nat.zero_lt_succ 3, BitVec.isLt _, fun _ => rfl, fun _ => ?_⟩
  have hne : ofBytesBE u.reclenBuf ≠ 0xffffffff := by
    intro h
    exact hend (by rw [NetScanner.begun, h]; rfl)
  have hreceived : u.begun.received = u.received := rfl
  rw [hreceived, hframe, announced, if_neg hne, rest]
  rfl

theorem sizeT_of_nonneg {n : SaneWord} (h : 0 ≤ n.toInt) : (sizeT n : Int) = n.toInt := by
  have hext : (n.signExtend 64).toInt = n.toInt := BitVec.toInt_signExtend_of_le (by decide)
  have hcond := BitVec.toInt_eq_toNat_cond (n.signExtend 64)
  have hlt := (n.signExtend 64).isLt
  rw [sizeT]
  split_ifs at hcond <;> omega

theorem sizeT_of_neg {n : SaneWord} (h : n.toInt < 0) : 2 ^ 31 ≤ sizeT n := by
  have hext : (n.signExtend 64).toInt = n.toInt := BitVec.toInt_signExtend_of_le (by decide)
  have hcond := BitVec.toInt_eq_toNat_cond (n.signExtend 64)
  rw [sizeT]
  split_ifs at hcond <;> omega

theorem remaining_toInt (hsmall : s.bytesRemaining < 2 ^ 32) :
    (BitVec.ofNat 32 s.bytesRemaining).toInt =
      if s.bytesRemaining < 2 ^ 31 then (s.bytesRemaining : Int)
      else s.bytesRemaining - 2 ^ 32 := by
  rw [BitVec.toInt_eq_toNat_cond, BitVec.toNat_ofNat, Nat.mod_eq_of_lt hsmall]
  split_ifs <;> omega

/-- The bytes asked for fit into the caller's buffer exactly when the record is shorter
    than two gigabytes; then they do not go past the end of the record either. -/
theorem dataCount_le_iff (hsmall : s.bytesRemaining < 2 ^ 32) {maxLength : SaneWord}
    (hmax : 0 ≤ maxLength.toInt) :
    ((s.dataCount maxLength : Int) ≤ maxLength.toInt ↔ s.bytesRemaining < 2 ^ 31) ∧
      (s.bytesRemaining < 2 ^ 31 → s.dataCount maxLength ≤ s.bytesRemaining) := by
  have hrem := remaining_toInt hsmall
  have hbound := maxLength.toInt_lt
  have hcount := sizeT_of_nonneg hmax
  unfold NetScanner.dataCount
  by_cases hrecord : s.bytesRemaining < 2 ^ 31
  · rw [if_pos hrecord] at hrem
    have hsize := sizeT_of_nonneg (n := BitVec.ofNat 32 s.bytesRemaining) (by omega)
    split_ifs <;> omega
  · rw [if_neg hrecord] at hrem
    have hsize := sizeT_of_neg (n := BitVec.ofNat 32 s.bytesRemaining) (by omega)
    rw [if_pos (by omega)]
    omega

/-- What fits into the caller's buffer belongs to the record. -/
theorem delivered_le (hsmall : s.bytesRemaining < 2 ^ 32) {maxLength : SaneWord}
    (hmax : 0 ≤ maxLength.toInt) {there : List SaneByte}
    (hfits : (there.take (s.dataCount maxLength)).length ≤ maxLength.toInt.toNat) :
    (there.take (s.dataCount maxLength)).length ≤ s.bytesRemaining := by
  have hcount := (dataCount_le_iff hsmall hmax).2
  have hbound := maxLength.toInt_lt
  have hlen : (there.take (s.dataCount maxLength)).length ≤ s.dataCount maxLength :=
    List.length_take_le ..
  omega

/-- In a record, the bytes that arrive are its data. -/
theorem data_framed (hs : s.Framed) (hdata : s.data = true) {data : List SaneByte}
    (hle : data.length ≤ s.bytesRemaining) (r : Swapped) :
    (s.gotData data r).Framed ∧
      payload (s.gotData data r).received = payload s.received ++ data := by
  have hreceived : (s.gotData data r).received = s.received ++ data := rfl
  rw [hreceived]
  obtain ⟨hbuf, hoffset, hsmall, hin, hframe⟩ := hs
  by_cases hnil : data = []
  · subst hnil
    rw [List.append_nil, List.append_nil]
    exact ⟨⟨hbuf, hoffset, hsmall, hin, by rwa [hreceived, List.append_nil]⟩, rfl⟩
  · have hpos : 0 < data.length := List.length_pos_iff.mpr hnil
    have hhead := hframe hdata
    rw [if_neg (by omega)] at hhead
    have hrest : rest s.bytesRemaining = .body s.bytesRemaining := if_neg (by omega)
    rw [← hrest] at hhead
    have hoff : s.reclenBufOffset = 0 := hin (by omega)
    refine ⟨⟨hbuf, hoffset, (Nat.sub_le ..).trans_lt hsmall, fun _ => hoff, fun _ => ?_⟩, ?_⟩
    · change RecordStream.frame (s.received ++ data) =
        if s.bytesRemaining - data.length = 0 then .header (s.reclenBuf.take s.reclenBufOffset)
        else .body (s.bytesRemaining - data.length)
      rw [frame_append, hhead, run_rest hle, hoff, List.take_zero]
      rfl
    · rw [payload_append, hhead, run_rest hle]

/-! ### One call -/

theorem no_leftOver (h : ¬ (o.mustSwap = true ∧ s.leftOver.isSome = true)) :
    (if o.mustSwap then s.leftOver else none) = none := by
  split_ifs with hswap
  · exact Option.not_isSome_iff_eq_none.mp fun hsome => h ⟨hswap, hsome⟩
  · rfl

theorem saneRead_of_atData (h : s.atData o c = some t) :
    saneRead o s c = t.readData o c.maxLength c.dataRead := by
  simp only [NetScanner.atData] at h
  split_ifs at h with hearly hzero
  · obtain ⟨hleft, hdata⟩ := not_or.mp hearly
    cases hread : c.lengthRead with
    | again => rw [hread] at h; cases h
    | fail => rw [hread] at h; cases h
    | deliver there =>
      rw [hread] at h
      simp only [Option.ite_none_left_eq_some, Option.some.injEq] at h
      obtain ⟨hshort, hend, rfl⟩ := h
      simp only [saneRead, no_leftOver hleft, hdata, hzero, hread, if_true, not_true_eq_false,
        if_false, if_neg hshort, if_neg hend]
  · cases h
    obtain ⟨hleft, hdata⟩ := not_or.mp hearly
    simp only [saneRead, no_leftOver hleft, hdata, hzero, not_true_eq_false, if_false]

/-- Up to the read of data nothing has changed but the length of the record. -/
structure NetScanner.Reaches (s t : NetScanner) : Prop where
  framed : t.Framed
  data : t.data = true
  payload : payload t.received = payload s.received
  returned : t.returned = s.returned
  hangOver : t.hangOver = s.hangOver
  leftOver : t.leftOver = s.leftOver

theorem atData_reaches (hs : s.Framed) (h : s.atData o c = some t) : s.Reaches t := by
  simp only [NetScanner.atData] at h
  split_ifs at h with hearly hzero
  · have hdata : s.data = true := by simpa using (not_or.mp hearly).2
    split at h
    · rename_i there _
      split_ifs at h with hshort hend
      cases h
      obtain ⟨hbuf, hpayload, hframe⟩ :=
        gotLength_frame hs hdata hzero (List.length_take_le (4 - s.reclenBufOffset) there)
      rw [if_neg hshort] at hframe
      exact ⟨begun_framed hbuf hend hframe, hdata, hpayload, rfl, rfl, rfl⟩
    · cases h
  · cases h
    exact ⟨hs, by simpa using (not_or.mp hearly).2, rfl, rfl, rfl, rfl⟩

/-- A byte in `left_over` is returned before anything else is looked at. -/
def NetScanner.Pending (o : ByteOrder) (s : NetScanner) : Prop :=
  o.mustSwap = true ∧ s.leftOver.isSome = true

instance (o : ByteOrder) (s : NetScanner) : Decidable (s.Pending o) :=
  inferInstanceAs (Decidable (_ ∧ _))

/-- The status a caller gets, told from where the stream of records stands behind the call. -/
def reported (o : ByteOrder) (s s' : NetScanner) : Int :=
  if s.Pending o then SaneStatus.good.toInt
  else if s.data = false then SaneStatus.cancelled.toInt
  else
    match frame s'.received with
    | .ended st => st.toInt
    | .endMark => SaneStatus.ioError.toInt
    | _ => if s'.data then SaneStatus.good.toInt else SaneStatus.ioError.toInt

/-- A call that has read no data from the socket. -/
structure ReadReturn.NoData (o : ByteOrder) (s s' : NetScanner) (r : ReadReturn) : Prop where
  framed : s'.Framed
  requested : r.requested = none
  returned : s'.returned = s.returned ++ r.bytes
  payload : RecordStream.payload s'.received = RecordStream.payload s.received
  hangOver : s'.hangOver = s.hangOver
  leftOver : r.bytes ++ s'.leftOver.toList = s.leftOver.toList
  bytes : r.bytes = [] ∨ s.Pending o
  status : r.status = reported o s s'

theorem doCancel_framed (hbuf : s.reclenBuf.length = 4) (hoffset : s.reclenBufOffset < 4)
    (hsmall : s.bytesRemaining < 2 ^ 32) (hin : s.bytesRemaining ≠ 0 → s.reclenBufOffset = 0) :
    s.doCancel.Framed :=
  ⟨hbuf, hoffset, hsmall, hin, fun h => by cases h⟩

/-- The status byte is the one of the server, if there is one. -/
theorem readStatus_noData {u : NetScanner} (hpending : ¬ s.Pending o) (hbuf : u.reclenBuf.length = 4)
    (hframe : frame u.received = .endMark) (hdata : s.data = true)
    (hpayload : payload u.received = payload s.received) (hreturned : u.returned = s.returned)
    (hhang : u.hangOver = s.hangOver) (hleft : u.leftOver = s.leftOver) (statusRead : SocketRead) :
    (u.begun.readStatus statusRead).1.NoData o s (u.begun.readStatus statusRead).2 := by
  have hcancel : ∀ received, NetScanner.Framed { u.begun with received := received }.doCancel :=
    fun received => doCancel_framed hbuf (Nat.zero_lt_succ 3) (BitVec.isLt _) fun _ => rfl
  have hcases : (∃ ch there, statusRead = .deliver (ch :: there)) ∨
      u.begun.readStatus statusRead = (returnStatus .ioError, u.begun.doCancel) := by
    rcases statusRead with (_ | ⟨ch, there⟩) | _ | _
    · exact .inr rfl
    · exact .inl ⟨ch, there, rfl⟩
    · exact .inr rfl
    · exact .inr rfl
  rcases hcases with ⟨ch, there, rfl⟩ | hnone
  · have hend : frame (u.received ++ [ch]) = .ended ch := by rw [frame_append, hframe]; rfl
    refine ⟨hcancel _, rfl, ?_, ?_, hhang, congrArg Option.toList hleft, .inl rfl, ?_⟩
    · exact hreturned.trans (List.append_nil _).symm
    · have hsame : payload (u.received ++ [ch]) = payload u.received := by
        rw [payload_append, hframe]
        exact List.append_nil _
      exact hsame.trans hpayload
    · change ch.toInt = reported o s { u.begun with received := u.received ++ [ch] }.doCancel
      rw [reported, if_neg hpending, if_neg (by simp [hdata])]
      simp only [NetScanner.doCancel, hend]
  · rw [hnone]
    refine ⟨hcancel _, rfl, ?_, hpayload, hhang, congrArg Option.toList hleft, .inl rfl, ?_⟩
    · exact hreturned.trans (List.append_nil _).symm
    · have hend : frame u.begun.doCancel.received = .endMark := hframe
      rw [reported, if_neg hpending, if_neg (by simp [hdata]), hend]
      rfl

/-- A call that does not come to the read of data. -/
theorem saneRead_noData (hs : s.Framed) (h : s.atData o c = none)
    (hmax : s.Pending o → 1 ≤ c.maxLength.toInt) :
    ∃ r s', saneRead o s c = .ok (r, s') ∧ r.NoData o s s' := by
  have hself : ∀ st : SaneStatus, st.toInt = reported o s s →
      (returnStatus st).NoData o s s := fun st hst =>
    ⟨hs, rfl, (List.append_nil _).symm, rfl, rfl, rfl, .inl rfl, hst⟩
  by_cases hswap : s.Pending o
  · obtain ⟨b, hb⟩ := Option.isSome_iff_exists.mp hswap.2
    have hmax' := hmax hswap
    refine ⟨⟨SaneStatus.good.toInt, [b], none⟩,
      { s with leftOver := none, returned := s.returned ++ [b] }, ?_, ?_⟩
    · simp only [saneRead, hswap.1, if_true, hb, if_neg (by omega : ¬ c.maxLength.toInt < 1)]
    · refine ⟨⟨hs.buf, hs.offset, hs.small, hs.inRecord, hs.frame⟩, rfl, rfl, rfl, rfl, ?_,
        .inr hswap, ?_⟩
      · rw [hb]
        rfl
      · rw [reported, if_pos hswap]
  · have hnone := no_leftOver hswap
    cases hdata : s.data with
    | false =>
      refine ⟨returnStatus .cancelled, s, ?_, hself _ ?_⟩
      · simp only [saneRead, hnone, hdata, Bool.false_eq_true, not_false_eq_true, if_true]
      · rw [reported, if_neg hswap, if_pos hdata]
    | true =>
      have hzero : s.bytesRemaining = 0 := by
        by_contra hne
        unfold NetScanner.Pending at hswap
        simp [NetScanner.atData, hswap, hdata, hne] at h
      have hhead := hs.frame hdata
      rw [if_pos hzero] at hhead
      have hopen : ∀ u : NetScanner, ∀ got, frame u.received = .header got →
          reported o s u = if u.data then SaneStatus.good.toInt else SaneStatus.ioError.toInt := by
        intro u got hu
        rw [reported, if_neg hswap, if_neg (by simp [hdata]), hu]
      cases hread : c.lengthRead with
      | again =>
        refine ⟨returnStatus .good, s, ?_, hself _ ?_⟩
        · simp only [saneRead, hnone, hdata, hzero, hread, not_true_eq_false, if_false, if_true]
        · rw [hopen s _ hhead, if_pos hdata]
      | fail =>
        refine ⟨returnStatus .ioError, s.doCancel, ?_, ?_⟩
        · simp only [saneRead, hnone, hdata, hzero, hread, not_true_eq_false, if_false, if_true]
        · refine ⟨doCancel_framed hs.buf hs.offset hs.small hs.inRecord, rfl,
            (List.append_nil _).symm, rfl, rfl, rfl, .inl rfl, ?_⟩
          rw [hopen s.doCancel _ hhead]
          rfl
      | deliver there =>
        have hgot := gotLength_frame hs hdata hzero
          (List.length_take_le (4 - s.reclenBufOffset) there)
        have hrun : saneRead o s c =
            if (s.gotLength (there.take (4 - s.reclenBufOffset))).reclenBufOffset < 4 then
              .ok (returnStatus .good, s.gotLength (there.take (4 - s.reclenBufOffset)))
            else if (s.gotLength (there.take (4 - s.reclenBufOffset))).begun.bytesRemaining =
                0xffffffff then
              .ok ((s.gotLength (there.take (4 - s.reclenBufOffset))).begun.readStatus c.dataRead)
            else (s.gotLength (there.take (4 - s.reclenBufOffset))).begun.readData o c.maxLength
              c.dataRead := by
          simp only [saneRead, hnone, hdata, hzero, hread, not_true_eq_false, if_false, if_true]
        have hnotdata : (s.gotLength (there.take (4 - s.reclenBufOffset))).reclenBufOffset < 4 ∨
            (s.gotLength (there.take (4 - s.reclenBufOffset))).begun.bytesRemaining =
              0xffffffff := by
          by_contra hno
          obtain ⟨h1, h2⟩ := not_or.mp hno
          unfold NetScanner.Pending at hswap
          simp [NetScanner.atData, hswap, hdata, hzero, hread, h1, h2] at h
        have hfields : (s.gotLength (there.take (4 - s.reclenBufOffset))).data = s.data := rfl
        generalize hu : s.gotLength (there.take (4 - s.reclenBufOffset)) = u at *
        obtain ⟨hbuf, hpayload, hframe⟩ := hgot
        have hsame : u.returned = s.returned ∧ u.hangOver = s.hangOver ∧ u.leftOver = s.leftOver ∧
            u.bytesRemaining = s.bytesRemaining := by
          rw [← hu]
          exact ⟨rfl, rfl, rfl, rfl⟩
        obtain ⟨hreturned, hhang, hleft, hremaining⟩ := hsame
        by_cases hshort : u.reclenBufOffset < 4
        · rw [if_pos hshort] at hrun hframe
          refine ⟨_, _, hrun, ⟨hbuf, hshort, hremaining ▸ hs.small,
            fun hne => absurd (hremaining.trans hzero) hne, fun _ => ?_⟩, rfl,
            hreturned.trans (List.append_nil _).symm, hpayload, hhang,
            congrArg Option.toList hleft, .inl rfl, ?_⟩
          · rw [hframe, if_pos (hremaining.trans hzero)]
          · rw [hopen u _ hframe, if_pos (hfields.trans hdata)]
            rfl
        · have hend := hnotdata.resolve_left hshort
          rw [if_neg hshort, if_pos hend] at hrun
          rw [if_neg hshort] at hframe
          have hword : ofBytesBE u.reclenBuf = 0xffffffff :=
            BitVec.eq_of_toNat_eq hend
          rw [hword, announced, if_pos rfl] at hframe
          exact ⟨_, _, hrun, readStatus_noData hswap hbuf hframe hdata hpayload hreturned hhang hleft _⟩

/-- The bytes that come out of a read. -/
def SocketRead.delivered : SocketRead → Nat → List SaneByte
  | .deliver there, count => there.take count
  | _, _ => []

/-- The data a call gets from the socket when it comes to the read of data. -/
def NetScanner.newData (t : NetScanner) (c : ReadCall) : List SaneByte :=
  c.dataRead.delivered (t.dataCount c.maxLength)

theorem swapSamples_nil (hangOver leftOver : Option SaneByte) :
    swapSamples [] hangOver leftOver = ⟨[], hangOver, leftOver⟩ := by
  cases hangOver <;> rfl

/-- No more bytes come out than have been read. -/
theorem length_exchange_le (data : List SaneByte) :
    (s.exchange o data).bytes.length ≤ data.length := by
  unfold NetScanner.exchange
  split
  · cases hhang : s.hangOver with
    | none =>
      simp only [swapSamples]
      split
      · exact Nat.zero_le _
      · split
        · exact (length_swapLoop _ _).le
        · exact (List.length_take_le' _ _).trans (length_swapLoop _ _).le
    | some hang =>
      simp only [swapSamples]
      split
      · exact Nat.le_refl _
      · split
        · have hset : ((overwrite data 1 (data.take (data.length - 1))).set 0 hang).length
              = data.length := by
            rw [List.length_set, length_overwrite]
            rw [List.length_take]
            omega
          split
          · rw [length_swapLoop, List.length_set, hset]
          · rw [length_swapLoop, hset]
        · exact (length_swapLoop _ _).le
  · exact Nat.le_refl _

/-- The read of data: what fits into the caller's buffer is appended, exchanged or not. -/
theorem readData_spec (ht : t.Framed) (hpending : ¬ t.Pending o) (hdata : t.data = true)
    (hmax : 0 ≤ c.maxLength.toInt)
    (hfits : (t.newData c).length ≤ c.maxLength.toInt.toNat) :
    ∃ r s', t.readData o c.maxLength c.dataRead = .ok (r, s') ∧ s'.Framed ∧
      r.status = reported o t s' ∧ s'.returned = t.returned ++ r.bytes ∧
      payload s'.received = payload t.received ++ t.newData c ∧
      (⟨r.bytes, s'.hangOver, s'.leftOver⟩ : Swapped) = t.exchange o (t.newData c) := by
  have hopen : ∀ u : NetScanner, (∃ v : NetScanner, v.Framed ∧ v.data = true ∧
      v.received = u.received) → reported o t u =
        if u.data then SaneStatus.good.toInt else SaneStatus.ioError.toInt := by
    rintro u ⟨v, hv, hvdata, hsame⟩
    have hframe := hv.frame hvdata
    rw [hsame] at hframe
    rw [reported, if_neg hpending, if_neg (by simp [hdata]), hframe]
    split_ifs <;> rfl
  have hkeep : (⟨[], t.hangOver, t.leftOver⟩ : Swapped) = t.exchange o [] := by
    rw [NetScanner.exchange, swapSamples_nil, ite_self]
  unfold NetScanner.newData at hfits ⊢
  cases hread : c.dataRead with
  | again =>
    refine ⟨_, t, rfl, ht, ?_, (List.append_nil _).symm, (List.append_nil _).symm, hkeep⟩
    rw [hopen t ⟨t, ht, hdata, rfl⟩, if_pos hdata]
    rfl
  | fail =>
    refine ⟨_, t.doCancel, rfl, doCancel_framed ht.buf ht.offset ht.small ht.inRecord, ?_,
      (List.append_nil _).symm, (List.append_nil _).symm, hkeep⟩
    rw [hopen t.doCancel ⟨t, ht, hdata, rfl⟩]
    rfl
  | deliver there =>
    rw [hread] at hfits
    obtain ⟨hframed, hpayload⟩ := data_framed ht hdata (delivered_le ht.small hmax hfits)
      (t.exchange o (there.take (t.dataCount c.maxLength)))
    refine ⟨⟨SaneStatus.good.toInt, (t.exchange o (there.take (t.dataCount c.maxLength))).bytes,
      some (t.dataCount c.maxLength)⟩, _, if_neg (not_lt.mpr hfits), hframed, ?_, rfl, hpayload, rfl⟩
    rw [hopen _ ⟨_, hframed, hdata, rfl⟩]
    exact (if_pos hdata).symm

theorem readData_requested {maxLength : SaneWord} {dataRead : SocketRead}
    (h : t.readData o maxLength dataRead = .ok (r, s')) :
    r.requested = some (t.dataCount maxLength) := by
  unfold NetScanner.readData at h
  cases dataRead with
  | again => cases h; rfl
  | fail => cases h; rfl
  | deliver there =>
    simp only [] at h
    split at h
    · cases h
    · cases h
      rfl

/-! ### Records and calls -/

/-- The record that data is read from is shorter than two gigabytes, and a byte that is pending
    has a place in the buffer. -/
structure ReadCall.Fits (o : ByteOrder) (s : NetScanner) (c : ReadCall) : Prop where
  record_lt : ∀ t, s.atData o c = some t → t.bytesRemaining < 2 ^ 31
  pending_le : s.Pending o → 1 ≤ c.maxLength.toInt

/-- A call with a buffer of no negative size that fits. -/
def ReadCall.Step (o : ByteOrder) (s : NetScanner) (c : ReadCall) (s' : NetScanner) : Prop :=
  0 ≤ c.maxLength.toInt ∧ c.Fits o s ∧ ∃ r, saneRead o s c = .ok (r, s')

/-- What a call may do: ask for no more than fits into the buffer and return no more, report the
    status, and return what the stream of records carries, if no bytes are exchanged. -/
structure ReadReturn.Faithful (o : ByteOrder) (s s' : NetScanner) (c : ReadCall) (r : ReadReturn) :
    Prop where
  framed : s'.Framed
  requested : ∀ n, r.requested = some n → (n : Int) ≤ c.maxLength.toInt
  stored : (r.bytes.length : Int) ≤ c.maxLength.toInt
  returned : s'.returned = s.returned ++ r.bytes
  payload : o.mustSwap = false → payload s'.received = payload s.received ++ r.bytes
  status : r.status = reported o s s'

theorem not_pending_of_atData (h : s.atData o c = some t) : ¬ s.Pending o := by
  intro hpending
  rw [NetScanner.atData, if_pos (.inl hpending)] at h
  cases h

theorem saneRead_faithful (hs : s.Framed) (hmax : 0 ≤ c.maxLength.toInt) (hfits : c.Fits o s)
    (hleft : o.mustSwap = false → s.leftOver = none) :
    ∃ r s', saneRead o s c = .ok (r, s') ∧ r.Faithful o s s' c ∧
      (o.mustSwap = false → s'.leftOver = none) := by
  cases h : s.atData o c with
  | none =>
    obtain ⟨r, s', hrun, hno⟩ := saneRead_noData hs h hfits.pending_le
    have hbytes := hno.leftOver
    have hplain : o.mustSwap = false → r.bytes = [] ∧ s'.leftOver = none := by
      intro ho
      rw [hleft ho, Option.toList_none, List.append_eq_nil_iff] at hbytes
      exact ⟨hbytes.1, by simpa using hbytes.2⟩
    refine ⟨r, s', hrun, ⟨hno.framed, fun n hn => ?_, ?_, hno.returned, fun ho => ?_, hno.status⟩,
      fun ho => (hplain ho).2⟩
    · rw [hno.requested] at hn
      cases hn
    · rcases hno.bytes with hnil | hpending
      · rw [hnil]
        exact hmax
      · have hone := hfits.pending_le hpending
        have hlen := congrArg List.length hbytes
        obtain ⟨b, hb⟩ := Option.isSome_iff_exists.mp hpending.2
        rw [hb, List.length_append, Option.toList_some, List.length_singleton] at hlen
        omega
    · rw [hno.payload, (hplain ho).1, List.append_nil]
  | some t =>
    obtain ⟨ht, hdata, hpayload, hreturned, -, hleft'⟩ := atData_reaches hs h
    have hpending := not_pending_of_atData h
    obtain ⟨hcount, -⟩ := dataCount_le_iff ht.small hmax
    have hle := hcount.mpr (hfits.record_lt t h)
    have hnew : (t.newData c).length ≤ t.dataCount c.maxLength := by
      unfold NetScanner.newData
      cases c.dataRead with
      | deliver there => exact List.length_take_le ..
      | again => exact Nat.zero_le _
      | fail => exact Nat.zero_le _
    obtain ⟨r, s', hrun, hframed, hstatus, hret, hpay, hbytes⟩ :=
      readData_spec (o := o) ht (by rwa [NetScanner.Pending, hleft']) hdata hmax (by omega)
    have hstored := @length_exchange_le o t (t.newData c)
    have hsdata : s.data = true := by
      by_contra hclosed
      simp [NetScanner.atData, hclosed] at h
    rw [← hbytes] at hstored
    have hplain : o.mustSwap = false → r.bytes = t.newData c ∧ s'.leftOver = t.leftOver := by
      intro ho
      rw [NetScanner.exchange, if_neg (by simp [ho])] at hbytes
      injection hbytes with hbytes _ hleft''
      exact ⟨hbytes, hleft''⟩
    refine ⟨r, s', (saneRead_of_atData h).trans hrun,
      ⟨hframed, fun n hn => ?_, ?_, ?_, fun ho => ?_, ?_⟩, fun ho => ?_⟩
    · rw [readData_requested hrun, Option.some.injEq] at hn
      exact hn ▸ hle
    · exact le_trans (by exact_mod_cast hstored.trans hnew) hle
    · rw [hret, hreturned]
    · rw [hpay, hpayload, (hplain ho).1]
    · have hsame : t.Pending o ↔ s.Pending o := by
        rw [NetScanner.Pending, NetScanner.Pending, hleft']
      rw [hstatus, reported, reported, if_neg hpending, if_neg (hsame.not.mpr hpending), hdata,
        hsdata]
    · rw [(hplain ho).2, hleft', hleft ho]

/-- In every run of calls that fit, the frontend has got the data of the records if no bytes are
    exchanged.  The next call asks for no more than its buffer holds, returns the data in order
    and reports the server's status, exactly if it fits, too. -/
theorem read_framing {reclenBuf : List SaneByte} {calls : List ReadCall}
    (hbuf : reclenBuf.length = 4)
    (hrun : Run (ReadCall.Step o) (.started reclenBuf) calls s) (hmax : 0 ≤ c.maxLength.toInt) :
    (o.mustSwap = false → s.returned = payload s.received) ∧
      ((∃ r s', saneRead o s c = .ok (r, s') ∧ r.Faithful o s s' c) ↔ c.Fits o s) := by
  have hinv : s.Framed ∧ (o.mustSwap = false → s.leftOver = none) ∧
      (o.mustSwap = false → s.returned = payload s.received) := by
    refine hrun.invariant (I := fun s => s.Framed ∧ (o.mustSwap = false → s.leftOver = none) ∧
      (o.mustSwap = false → s.returned = payload s.received))
      ⟨NetScanner.started_framed hbuf, fun _ => rfl, fun _ => rfl⟩ ?_
    rintro s c s' ⟨hs, hleft, hret⟩ ⟨hmax, hfits, r, hcall⟩
    obtain ⟨r', u, hcall', hfaithful, hleft'⟩ := saneRead_faithful hs hmax hfits hleft
    rw [hcall] at hcall'
    cases hcall'
    refine ⟨hfaithful.framed, hleft', fun ho => ?_⟩
    rw [hfaithful.returned, hfaithful.payload ho, hret ho]
  refine ⟨hinv.2.2, fun ⟨r, s', hcall, hfaithful⟩ => ⟨fun t ht => ?_, fun hpending => ?_⟩,
    fun hfits => ?_⟩
  · rw [saneRead_of_atData ht] at hcall
    have hrequested := hfaithful.requested _ (readData_requested hcall)
    exact (dataCount_le_iff (atData_reaches hinv.1 ht).framed.small hmax).1.mp hrequested
  · obtain ⟨hswap, hsome⟩ := hpending
    obtain ⟨b, hb⟩ := Option.isSome_iff_exists.mp hsome
    by_contra hzero
    simp only [saneRead, hswap, if_true, hb, if_pos (by omega : c.maxLength.toInt < 1)] at hcall
    cases hcall
  · obtain ⟨r, s', hcall, hfaithful, -⟩ := saneRead_faithful hinv.1 hmax hfits hinv.2.1
    exact ⟨r, s', hcall, hfaithful⟩

/-- A call, when it is one of the runs. -/
def ReadCall.fits? (o : ByteOrder) (s : NetScanner) (c : ReadCall) : Option NetScanner :=
  if 0 ≤ c.maxLength.toInt ∧ (s.atData o c).all (fun t => decide (t.bytesRemaining < 2 ^ 31)) ∧
      (s.Pending o → 1 ≤ c.maxLength.toInt) then
    match saneRead o s c with
    | .ok (_, s') => some s'
    | .error _ => none
  else none

theorem step_of_fits? (o : ByteOrder) (s : NetScanner) (c : ReadCall) (s' : NetScanner)
    (h : ReadCall.fits? o s c = some s') : ReadCall.Step o s c s' := by
  simp only [ReadCall.fits?, Option.ite_none_right_eq_some, Option.all_eq_true,
    decide_eq_true_eq] at h
  obtain ⟨⟨hmax, hsmall, hpending⟩, hcall⟩ := h
  refine ⟨hmax, ⟨hsmall, hpending⟩, ?_⟩
  split at hcall
  · rename_i r u hrun
    cases hcall
    exact ⟨r, hrun⟩
  · cases hcall

/-- The length of a record arrives in two pieces, and then some of its data. -/
def splitCalls : List ReadCall :=
  [⟨10, .deliver [0, 0], .again⟩, ⟨10, .deliver [0, 3, 7], .deliver [7]⟩, ⟨2, .again, .again⟩]

/-- Of the record the byte 7 has been returned; two of the three bytes that arrive next fit into
    the buffer and belong to the record. -/
theorem read_framing_split :
    ∃ s s', runAll (ReadCall.fits? ⟨8, false, false⟩) splitCalls (.started [0, 0, 0, 0]) = some s ∧
      s.returned = [7] ∧ payload s.received = [7] ∧
      saneRead ⟨8, false, false⟩ s ⟨2, .again, .deliver [8, 9, 1]⟩
        = .ok (⟨SaneStatus.good.toInt, [8, 9], some 2⟩, s') ∧
      payload s'.received = [7, 8, 9] := by
  let next : ReadCall := ⟨2, .again, .deliver [8, 9, 1]⟩
  have hsome : (runAll (ReadCall.fits? ⟨8, false, false⟩) splitCalls
      (.started [0, 0, 0, 0])).any (fun s => decide (s.returned = [7] ∧
        (s.atData ⟨8, false, false⟩ next).all (fun t => decide (t.bytesRemaining < 2 ^ 31)) ∧
        (saneRead ⟨8, false, false⟩ s next).toOption.map Prod.fst
          = some ⟨SaneStatus.good.toInt, [8, 9], some 2⟩)) = true := by decide
  obtain ⟨s, hrun, hs⟩ := (Option.any_eq_true ..).mp hsome
  simp only [Option.all_eq_true, decide_eq_true_eq] at hs
  obtain ⟨hreturned, hsmall, hresult⟩ := hs
  obtain ⟨hpayload, hiff⟩ := read_framing (o := ⟨8, false, false⟩) rfl
    (Run.nil.runAll (step_of_fits? _) hrun) (c := next) (by decide)
  obtain ⟨r, s', hcall, hfaithful⟩ :=
    hiff.mpr ⟨hsmall, fun hpending => absurd hpending.1 (by decide)⟩
  rw [hcall] at hresult
  obtain rfl : r = ⟨SaneStatus.good.toInt, [8, 9], some 2⟩ := Option.some.inj hresult
  refine ⟨s, s', hrun, hreturned, (hpayload rfl).symm.trans hreturned, hcall, ?_⟩
  rw [hfaithful.payload rfl, ← hpayload rfl, hreturned]
  rfl

/-- A record of two gigabytes: far more is asked for than the ten bytes of the caller's
    buffer, and when eleven arrive they are stored behind its end. -/
theorem read_framing_oversized :
    (saneRead ⟨8, false, false⟩ (.started [0, 0, 0, 0])
        ⟨10, .deliver [0x80, 0, 0, 0], .again⟩).toOption.map (fun r => r.1.requested) =
      some (some (2 ^ 64 - 2 ^ 31)) ∧
    saneRead ⟨8, false, false⟩ (.started [0, 0, 0, 0])
        ⟨10, .deliver [0x80, 0, 0, 0], .deliver (List.replicate 11 1)⟩ = .error .outOfBounds := by
  decide

/-! ### Samples of 16 bits -/

/-- Up to an odd byte, the samples that have arrived have been exchanged. -/
structure Exchanged (taken got : List SaneByte) (hangOver leftOver : Option SaneByte) : Prop where
  pairs : ∃ even : List SaneByte, even.length % 2 = 0 ∧ taken = even ++ hangOver.toList ∧
    got ++ leftOver.toList = swapPairs even
  one : hangOver = none ∨ leftOver = none

/-- One read; no two bytes may arrive while one is hanging over. -/
theorem swapSamples_exchanged {data : List SaneByte} {hangOver : Option SaneByte}
    (h : 2 ≤ data.length → hangOver = none) :
    Exchanged (hangOver.toList ++ data) (swapSamples data hangOver none).bytes
      (swapSamples data hangOver none).hangOver (swapSamples data hangOver none).leftOver := by
  cases hangOver with
  | some hang =>
    match data, h with
    | [], _ => exact ⟨⟨[], rfl, rfl, rfl⟩, .inr rfl⟩
    | [d], _ => exact ⟨⟨[hang, d], by simp, rfl, rfl⟩, .inl rfl⟩
    | _ :: _ :: _, h => exact absurd (h (by simp)) (by simp)
  | none =>
    simp only [swapSamples, Option.toList_none, List.nil_append]
    by_cases h1 : data.length = 1
    · obtain ⟨d, rfl⟩ := List.length_eq_one_iff.mp h1
      exact ⟨⟨[], rfl, rfl, rfl⟩, .inr rfl⟩
    · rw [if_neg h1]
      by_cases heven : data.length % 2 = 0
      · rw [if_pos heven]
        refine ⟨⟨data, heven, (List.append_nil _).symm, ?_⟩, .inl rfl⟩
        rw [swapLoop_eq heven (le_refl _), List.take_length, List.drop_length, List.append_nil]
        exact List.append_nil _
      · rw [if_neg heven]
        have hlast : data.length - 1 < data.length := by omega
        refine ⟨⟨data.take (data.length - 1), ?_, ?_, ?_⟩, .inr rfl⟩
        · rw [List.length_take]
          omega
        · simp only [List.getElem?_eq_getElem hlast, Option.toList_some]
          rw [List.take_append_getElem hlast, Nat.sub_add_cancel (by omega), List.take_length]
        · have hpairs : (swapPairs (data.take (data.length - 1))).length = data.length - 1 := by
            rw [length_swapPairs, List.length_take]
            omega
          rw [swapLoop_eq (by omega) (by omega), List.take_left' hpairs]
          exact List.append_nil _

/-- Reads one after the other. -/
theorem Exchanged.append {taken got data bytes : List SaneByte}
    {hangOver hangOver' leftOver' : Option SaneByte} (h : Exchanged taken got hangOver none)
    (h' : Exchanged (hangOver.toList ++ data) bytes hangOver' leftOver') :
    Exchanged (taken ++ data) (got ++ bytes) hangOver' leftOver' := by
  obtain ⟨⟨even, heven, rfl, hgot⟩, -⟩ := h
  obtain ⟨⟨even', heven', hdata, hbytes⟩, hone⟩ := h'
  rw [Option.toList_none, List.append_nil] at hgot
  refine ⟨⟨even ++ even', ?_, ?_, ?_⟩, hone⟩
  · rw [List.length_append]
    omega
  · rw [List.append_assoc, hdata, List.append_assoc]
  · rw [List.append_assoc, hbytes, hgot, swapPairs_append heven]

/-- A call with a buffer of at least one byte, in which the socket delivers no more data
    than fits, and no two bytes of it while one is hanging over. -/
def ReadCall.Paired (o : ByteOrder) (s : NetScanner) (c : ReadCall) : Prop :=
  1 ≤ c.maxLength.toInt ∧ ∀ t, s.atData o c = some t →
    (t.newData c).length ≤ c.maxLength.toInt.toNat ∧
      (2 ≤ (t.newData c).length → t.hangOver = none)

def ReadCall.PairedStep (o : ByteOrder) (s : NetScanner) (c : ReadCall) (s' : NetScanner) : Prop :=
  ReadCall.Paired o s c ∧ ∃ r, saneRead o s c = .ok (r, s')

theorem saneRead_exchanged (ho : o.mustSwap = true) (hs : s.Framed)
    (hpairs : Exchanged (payload s.received) s.returned s.hangOver s.leftOver)
    (hc : ReadCall.Paired o s c) :
    ∃ r s', saneRead o s c = .ok (r, s') ∧ s'.Framed ∧ s'.returned = s.returned ++ r.bytes ∧
      Exchanged (payload s'.received) s'.returned s'.hangOver s'.leftOver := by
  obtain ⟨hmax, hdata⟩ := hc
  cases h : s.atData o c with
  | none =>
    obtain ⟨r, s', hrun, hno⟩ := saneRead_noData hs h fun _ => hmax
    refine ⟨r, s', hrun, hno.framed, hno.returned, ?_⟩
    obtain ⟨⟨even, heven, htaken, hgot⟩, hone⟩ := hpairs
    refine ⟨⟨even, heven, ?_, ?_⟩, ?_⟩
    · rw [hno.payload, hno.hangOver, htaken]
    · rw [hno.returned, List.append_assoc, hno.leftOver, hgot]
    · rw [hno.hangOver]
      refine hone.imp_right fun hleft => ?_
      have hbytes := hno.leftOver
      rw [hleft, Option.toList_none, List.append_eq_nil_iff] at hbytes
      simpa using hbytes.2
  | some t =>
    obtain ⟨ht, htdata, hpayload, hreturned, hhang, hleft⟩ := atData_reaches hs h
    obtain ⟨hfits, htwo⟩ := hdata t h
    have hnone : s.leftOver = none := by
      by_contra hsome
      simp [NetScanner.atData, ho, Option.isSome_iff_ne_none.mpr hsome] at h
    obtain ⟨r, s', hrun, hframed, -, hret, hpay, hbytes⟩ :=
      readData_spec (o := o) ht (fun hpending => not_pending_of_atData h (by
        rwa [NetScanner.Pending, ← hleft])) htdata (by omega) hfits
    rw [NetScanner.exchange, if_pos ho, hleft, hnone] at hbytes
    have hswap := swapSamples_exchanged htwo
    rw [← hbytes] at hswap
    refine ⟨r, s', (saneRead_of_atData h).trans hrun, hframed, by rw [hret, hreturned], ?_⟩
    rw [hpay, hpayload, hret, hreturned]
    rw [hnone] at hpairs
    exact hpairs.append (hhang ▸ hswap)

/-- In every run in which no two bytes arrive while one is hanging over, the frontend has
    got the samples with their bytes exchanged, up to one byte that is pending. -/
theorem samples_exchanged {reclenBuf : List SaneByte} {calls : List ReadCall}
    (ho : o.mustSwap = true) (hbuf : reclenBuf.length = 4)
    (hrun : Run (ReadCall.PairedStep o) (.started reclenBuf) calls s) :
    s.returned ++ s.leftOver.toList ++ s.hangOver.toList = swapPairs (payload s.received) ∧
      (s.leftOver.toList ++ s.hangOver.toList).length ≤ 1 ∧
      ∀ c, ReadCall.Paired o s c →
        ∃ r s', saneRead o s c = .ok (r, s') ∧ s'.returned = s.returned ++ r.bytes := by
  have hinv : s.Framed ∧ Exchanged (payload s.received) s.returned s.hangOver s.leftOver := by
    refine hrun.invariant (I := fun s => s.Framed ∧
      Exchanged (payload s.received) s.returned s.hangOver s.leftOver)
      ⟨NetScanner.started_framed hbuf, ⟨[], rfl, rfl, rfl⟩, .inl rfl⟩ ?_
    rintro s c s' ⟨hs, hpairs⟩ ⟨hc, r, hcall⟩
    obtain ⟨r', u, hcall', hframed, -, hpairs'⟩ := saneRead_exchanged ho hs hpairs hc
    rw [hcall] at hcall'
    cases hcall'
    exact ⟨hframed, hpairs'⟩
  obtain ⟨hs, hpairs⟩ := hinv
  refine ⟨?_, ?_, fun c hc => ?_⟩
  · obtain ⟨⟨even, heven, htaken, hgot⟩, -⟩ := hpairs
    rw [hgot, htaken, swapPairs_append heven]
    cases s.hangOver <;> rfl
  · rcases hpairs.one with hnone | hnone
    · rw [hnone]
      cases s.leftOver <;> simp
    · rw [hnone]
      cases s.hangOver <;> simp
  · obtain ⟨r, s', hcall, -, hreturned, -⟩ := saneRead_exchanged ho hs hpairs hc
    exact ⟨r, s', hcall, hreturned⟩

/-- The call is one of the runs, for a client with another byte order than the server. -/
def ReadCall.isPaired (s : NetScanner) (c : ReadCall) : Bool :=
  1 ≤ c.maxLength.toInt ∧ (s.atData ⟨16, true, false⟩ c).all fun t =>
    (t.newData c).length ≤ c.maxLength.toInt.toNat ∧
      (2 ≤ (t.newData c).length → t.hangOver = none)

theorem paired_of_isPaired {s : NetScanner} {c : ReadCall} (h : ReadCall.isPaired s c = true) :
    ReadCall.Paired ⟨16, true, false⟩ s c := by
  obtain ⟨hmax, hall⟩ := of_decide_eq_true h
  exact ⟨hmax, fun t ht => of_decide_eq_true ((Option.all_eq_true ..).mp hall t ht)⟩

/-- The state after a call, whether it is one of the runs or not. -/
def ReadCall.swapping (s : NetScanner) (c : ReadCall) : Option NetScanner :=
  (saneRead ⟨16, true, false⟩ s c).toOption.map Prod.snd

def ReadCall.paired? (s : NetScanner) (c : ReadCall) : Option NetScanner :=
  if ReadCall.isPaired s c then ReadCall.swapping s c else none

theorem step_of_paired? (s : NetScanner) (c : ReadCall) (s' : NetScanner)
    (h : ReadCall.paired? s c = some s') : ReadCall.PairedStep ⟨16, true, false⟩ s c s' := by
  simp only [ReadCall.paired?, Option.ite_none_right_eq_some, ReadCall.swapping,
    Option.map_eq_some_iff] at h
  obtain ⟨hpaired, ⟨r, u⟩, hcall, rfl⟩ := h
  refine ⟨paired_of_isPaired hpaired, r, ?_⟩
  cases hrun : saneRead ⟨16, true, false⟩ s c with
  | error e => rw [hrun] at hcall; cases hcall
  | ok a =>
    rw [hrun] at hcall
    cases hcall
    rfl

/-- A record of three bytes and a longer one; of the third byte the partner comes alone. -/
def oddCalls : List ReadCall :=
  [⟨10, .deliver [0, 0, 0, 3], .deliver [1, 2, 3]⟩, ⟨10, .deliver [0, 0, 0, 9], .deliver [4]⟩,
    ⟨10, .again, .again⟩, ⟨2, .again, .deliver [5, 6, 7]⟩]

theorem samples_exchanged_odd :
    ∃ s, runAll ReadCall.paired? oddCalls (.started [0, 0, 0, 0]) = some s ∧
      s.returned ++ s.leftOver.toList ++ s.hangOver.toList = swapPairs (payload s.received) ∧
      ∃ r s', saneRead ⟨16, true, false⟩ s ⟨1, .again, .deliver [7]⟩ = .ok (r, s') ∧
        s'.returned = s.returned ++ r.bytes := by
  have hsome : (runAll ReadCall.paired? oddCalls (.started [0, 0, 0, 0])).any (fun s =>
      ReadCall.isPaired s ⟨1, .again, .deliver [7]⟩) = true := by decide
  obtain ⟨s, hrun, hs⟩ := (Option.any_eq_true ..).mp hsome
  obtain ⟨hpairs, -, hnext⟩ := samples_exchanged (o := ⟨16, true, false⟩) rfl rfl
    (Run.nil.runAll step_of_paired? hrun)
  exact ⟨s, hrun, hpairs, hnext _ (paired_of_isPaired hs)⟩

/-- The first of three bytes hangs over when the two others arrive together. -/
theorem samples_mispaired :
    (runAll ReadCall.swapping [⟨1, .deliver [0, 0, 0, 3], .deliver [1, 2, 3]⟩,
        ⟨2, .again, .deliver [2, 3]⟩] (.started [0, 0, 0, 0])).any (fun s =>
      decide (payload s.received = [1, 2, 3] ∧ s.returned = [1, 3] ∧ s.leftOver = some 2 ∧
        s.hangOver = none ∧
        s.returned ++ s.leftOver.toList ++ s.hangOver.toList ≠ swapPairs [1, 2, 3])) = true := by
  decide

end SaneBackends
