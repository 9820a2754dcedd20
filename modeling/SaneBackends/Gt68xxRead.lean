import SaneBackends.SaneTypes
import SaneBackends.Overwrite
import SaneBackends.LabelledRun
import Mathlib.Tactic.SplitIfs

/-!
# `gt68xx_device_read`

A scan reads its expected number of bytes block by block into `read_buffer` and hands
them out in whatever portions the caller asks for.  In a calibration scan the device is
read by the caller itself; in the final scan a forked reader process reads the device
and passes its blocks on through the shared memory channel, one for each block the
caller takes.
-/

namespace SaneBackends

open Overwrite LabelledRun

/-- What `sanei_usb_read_bulk` does: of the bytes the device has it delivers no more than
    were asked for. -/
inductive BulkResult where
  | fail (status : SaneStatus) (bad : status ≠ .good)
  | deliver (there : List SaneByte)
deriving DecidableEq, Repr

/-- A bulk read that has been made for a block: the bytes the block is counted for, the
    bytes asked for, those the caller has got so far in the same call, and what the
    reader process had left. -/
structure BulkRead where
  blockSize : Nat
  requested : Nat
  copied : Nat
  readerLeft : Option Nat
  result : BulkResult
deriving DecidableEq, Repr

/-- `gt68xx_reader_process`: its own `read_bytes_left`, whether it has ended, and the size
    of the buffers it shares with its parent. -/
structure ReaderProcess where
  readBytesLeft : Nat
  ended : Bool
  bufSize : Nat
deriving DecidableEq, Repr

/-- The members of `GT68xx_Device` that are about reading; `reader` is there when the
    channel has been created, and `bulkReads` are the bulk reads since the scan began. -/
structure GT68xxDevice where
  readActive : Bool
  finalScan : Bool
  readBuffer : List SaneByte
  requestedBufferSize : Nat
  readBufferSize : Nat
  readPos : Nat
  readBytesInBuffer : Nat
  readBytesLeft : Nat
  reader : Option ReaderProcess
  bulkReads : List BulkRead
deriving DecidableEq, Repr

/-- `(n + 63UL) & ~63UL` -/
def roundUp64 (n : Nat) : Nat := (n + 63) % 2 ^ 64 / 64 * 64

/-- A device before its first scan. -/
def GT68xxDevice.new : GT68xxDevice := ⟨false, false, [], 0, 0, 0, 0, 0, none, []⟩

/-- `gt68xx_device_set_read_buffer_size`. -/
def GT68xxDevice.setReadBufferSize (dev : GT68xxDevice) (bufferSize : Nat) :
    SaneStatus × GT68xxDevice :=
  if dev.readActive then (.inval, dev)
  else if roundUp64 bufferSize > 0 then
    (.good, { dev with requestedBufferSize := roundUp64 bufferSize })
  else (.inval, dev)

/-- The `read_buffer_size` of a scan. -/
def GT68xxDevice.bufferSizeFor (dev : GT68xxDevice) (expectedCount : Nat) : Nat :=
  if dev.requestedBufferSize > expectedCount then roundUp64 expectedCount
  else dev.requestedBufferSize

/-- `gt68xx_device_read_prepare`; `memory` is the outcome of `malloc`, the contents of
    the new block. -/
def GT68xxDevice.readPrepare (dev : GT68xxDevice) (expectedCount : Nat) (finalScan : Bool)
    (memory : Option (List SaneByte)) : SaneStatus × GT68xxDevice :=
  if dev.readActive then (.inval, dev)
  else
    let dev := { dev with readBufferSize := dev.bufferSizeFor expectedCount }
    match memory with
    | none => (.noMem, dev)
    | some junk =>
        (.good,
          { dev with
            readBuffer := junk
            readActive := true
            finalScan := finalScan
            readPos := 0
            readBytesInBuffer := 0
            readBytesLeft := expectedCount
            bulkReads := [] })

/-- The size of the shared buffers: the channel takes it as an `int`. -/
def GT68xxDevice.channelBufSize (dev : GT68xxDevice) : Int :=
  (BitVec.ofNat 32 dev.readBufferSize).toInt

/-- `gt68xx_device_read_start`, in the parent; `resources` is the outcome of
    `shm_channel_new` otherwise and of `fork`. -/
def GT68xxDevice.readStart (dev : GT68xxDevice) (resources : Bool) : SaneStatus × GT68xxDevice :=
  if dev.finalScan then
    if dev.reader.isSome ∨ dev.channelBufSize ≤ 0 then (.inval, dev)
    else if resources then
      (.good, { dev with reader := some ⟨dev.readBytesLeft, false, dev.channelBufSize.toNat⟩ })
    else (.noMem, dev)
  else (.good, dev)

/-- A block has been taken: bytes arrive at the front of `read_buffer`. -/
def GT68xxDevice.blockRead (dev : GT68xxDevice) (b : BulkRead) (bytes : List SaneByte) :
    GT68xxDevice :=
  { dev with
    readBuffer := overwrite dev.readBuffer 0 bytes
    bulkReads := dev.bulkReads ++ [b] }

/-- One turn of the loop of `gt68xx_reader_process`, and what the caller gets through the
    channel: the block, or end of file once the process has ended.  There is no result as
    long as the device has not answered, nor if a block does not fit a shared buffer. -/
def GT68xxDevice.channelGet (dev : GT68xxDevice) (p : ReaderProcess) (blockSize copied : Nat)
    (bulk : List BulkResult) : Option (SaneStatus × GT68xxDevice × List BulkResult) :=
  if p.ended ∨ p.readBytesLeft = 0 then
    some (.eof, { dev with reader := some { p with ended := true } }, bulk)
  else
    match bulk with
    | [] => none
    | r :: bulk =>
        let b : BulkRead := ⟨blockSize, dev.readBufferSize, copied, some p.readBytesLeft, r⟩
        match r with
        | .fail _ _ =>
            some (.eof,
              { dev with
                reader := some { p with ended := true }
                bulkReads := dev.bulkReads ++ [b] }, bulk)
        | .deliver there =>
            let bytes := there.take dev.readBufferSize
            if p.bufSize < bytes.length then none
            else
              let left := (p.readBytesLeft + 2 ^ 64 - bytes.length) % 2 ^ 64
              some (.good,
                { dev.blockRead b bytes with reader := some { p with readBytesLeft := left } },
                bulk)

/-- `gt68xx_device_read_raw` into `read_buffer`. -/
def GT68xxDevice.readRaw (dev : GT68xxDevice) (blockSize copied : Nat) (bulk : List BulkResult) :
    Option (SaneStatus × GT68xxDevice × List BulkResult) :=
  match bulk with
  | [] => none
  | r :: bulk =>
      let b : BulkRead := ⟨blockSize, roundUp64 blockSize, copied, none, r⟩
      match r with
      | .fail status _ => some (status, { dev with bulkReads := dev.bulkReads ++ [b] }, bulk)
      | .deliver there => some (.good, dev.blockRead b (there.take (roundUp64 blockSize)), bulk)

/-- A block comes from the channel or from the device. -/
def GT68xxDevice.getBlock (dev : GT68xxDevice) (blockSize copied : Nat) (bulk : List BulkResult) :
    Option (SaneStatus × GT68xxDevice × List BulkResult) :=
  match dev.reader with
  | some p => dev.channelGet p blockSize copied bulk
  | none => dev.readRaw blockSize copied bulk

/-- The `block_size` of the next block. -/
def GT68xxDevice.blockSize (dev : GT68xxDevice) : Nat := min dev.readBufferSize dev.readBytesLeft

/-- The counters after a block has been read. -/
def GT68xxDevice.beginBlock (dev : GT68xxDevice) (blockSize : Nat) : GT68xxDevice :=
  { dev with
    readPos := 0
    readBytesInBuffer := blockSize
    readBytesLeft := dev.readBytesLeft - blockSize }

/-- The bytes that are copied to the caller. -/
def GT68xxDevice.portion (dev : GT68xxDevice) (transferSize : Nat) : List SaneByte :=
  (dev.readBuffer.drop dev.readPos).take transferSize

def GT68xxDevice.transfer (dev : GT68xxDevice) (transferSize : Nat) : GT68xxDevice :=
  { dev with
    readPos := dev.readPos + transferSize
    readBytesInBuffer := dev.readBytesInBuffer - transferSize }

/-- A call that is under way: the status so far, what has been copied to the caller, the
    device, and the bulk results to come. -/
structure ReadProgress where
  status : SaneStatus
  copied : List SaneByte
  dev : GT68xxDevice
  bulk : List BulkResult
deriving DecidableEq, Repr

/-- What the first half of a turn leads to: the loop is left, or there are bytes to copy. -/
inductive ReadTurn where
  | leave (s : ReadProgress)
  | copy (s : ReadProgress)
deriving DecidableEq, Repr

/-- The first half of a turn: the next block, if the last one is used up. -/
def ReadProgress.fill (s : ReadProgress) : Option ReadTurn :=
  if s.dev.readBytesInBuffer = 0 then
    if s.dev.blockSize = 0 then some (.leave s)
    else
      match s.dev.getBlock s.dev.blockSize s.copied.length s.bulk with
      | none => none
      | some (status, dev, bulk) =>
          if status = .good then
            some (.copy { s with dev := dev.beginBlock s.dev.blockSize, bulk := bulk })
          else some (.leave ⟨status, s.copied, dev, bulk⟩)
  else some (.copy s)

/-- The second half: a portion of the block is copied. -/
def ReadProgress.copyOut (s : ReadProgress) (transferSize : Nat) : ReadProgress :=
  { s with
    copied := s.copied ++ s.dev.portion transferSize
    dev := s.dev.transfer transferSize }

/-- The loop of `gt68xx_device_read`; every turn but the last copies a byte at least, so
    `fuel` is enough when it starts as the number of bytes to read. -/
def deviceReadLoop : Nat → Nat → ReadProgress → Option ReadProgress
  | 0, _, s => some s
  | fuel + 1, leftToRead, s =>
      if leftToRead = 0 then some s
      else
        match s.fill with
        | none => none
        | some (.leave s) => some s
        | some (.copy s) =>
            let transferSize := min leftToRead s.dev.readBytesInBuffer
            deviceReadLoop fuel (leftToRead - transferSize) (s.copyOut transferSize)

/-- What a call has come to: its status, and the bytes in the caller's buffer. -/
structure BlockReadCall where
  status : SaneStatus
  bytes : List SaneByte
deriving DecidableEq, Repr

/-- A scan: the device, its answers to come, and the calls that have returned. -/
structure ReadSession where
  dev : GT68xxDevice
  bulk : List BulkResult
  calls : List BlockReadCall
deriving DecidableEq, Repr

/-- `gt68xx_device_read`. -/
def ReadSession.read (s : ReadSession) (size : Nat) : Option ReadSession :=
  if ¬ s.dev.readActive then some { s with calls := s.calls ++ [⟨.inval, []⟩] }
  else
    match deviceReadLoop size size ⟨.good, [], s.dev, s.bulk⟩ with
    | none => none
    | some p =>
        let status := if p.status = .good ∧ p.copied = [] then .eof else p.status
        some ⟨p.dev, p.bulk, s.calls ++ [⟨status, p.copied⟩]⟩

/-! ### The bytes of the blocks -/

def BulkRead.delivered (b : BulkRead) : List SaneByte :=
  match b.result with
  | .fail _ _ => []
  | .deliver there => there.take b.requested

def BulkRead.failed (b : BulkRead) : Bool :=
  match b.result with
  | .fail _ _ => true
  | .deliver _ => false

/-- A read that succeeds delivers the bytes the block is counted for, and not more than
    the reader process had left. -/
def BulkRead.Full (b : BulkRead) : Prop :=
  b.failed = false →
    b.blockSize ≤ b.delivered.length ∧ ∀ left ∈ b.readerLeft, b.delivered.length ≤ left

instance (b : BulkRead) : Decidable b.Full := inferInstanceAs (Decidable (_ → _))

/-- If the read has failed, the call had not copied anything. -/
def BulkRead.Clean (b : BulkRead) : Prop := b.failed = true → b.copied = 0

instance (b : BulkRead) : Decidable b.Clean := inferInstanceAs (Decidable (_ → _))

/-- All the device has delivered since the scan began. -/
def GT68xxDevice.delivered (dev : GT68xxDevice) : List SaneByte :=
  dev.bulkReads.flatMap BulkRead.delivered

/-- The bytes in `read_buffer` that have not been copied. -/
def GT68xxDevice.pending (dev : GT68xxDevice) : List SaneByte := dev.portion dev.readBytesInBuffer

/-- All bytes that have been copied to the callers, and those of the calls that have
    returned them with a good status. -/
def ReadSession.copied (s : ReadSession) : List SaneByte := s.calls.flatMap (·.bytes)

def ReadSession.handedOut (s : ReadSession) : List SaneByte :=
  (s.calls.filter (·.status = .good)).flatMap (·.bytes)

/-- The counters of a scan of which `copied` has been copied to callers. -/
structure GT68xxDevice.Counted (dev : GT68xxDevice) (expected : Nat) (copied : List SaneByte) :
    Prop where
  active : dev.readActive = true
  aligned : dev.readBufferSize % 64 = 0
  length : dev.readBuffer.length = dev.readBufferSize
  inside : dev.readPos + dev.readBytesInBuffer ≤ dev.readBufferSize
  total : copied.length + dev.readBytesInBuffer + dev.readBytesLeft = expected
  ended : ∀ p ∈ dev.reader, p.ended = true → dev.readBytesInBuffer = 0

/-- The stream of a scan: what has been copied and what waits in the buffer is the
    beginning of what the device has delivered. -/
structure GT68xxDevice.Streamed (dev : GT68xxDevice) (expected : Nat) (copied : List SaneByte) :
    Prop where
  data : copied ++ dev.pending = dev.delivered.take expected
  exact : 0 < dev.readBytesLeft → dev.delivered.length + dev.readBytesLeft = expected
  reader : ∀ p ∈ dev.reader, p.readBytesLeft + dev.delivered.length = expected

/-! ### Taking a block -/

/-- How a block can be taken. -/
inductive GT68xxDevice.BlockStep (dev : GT68xxDevice) (blockSize copied : Nat) :
    SaneStatus → GT68xxDevice → Prop
  | ended {p : ReaderProcess} : dev.reader = some p → p.ended = true ∨ p.readBytesLeft = 0 →
      BlockStep dev blockSize copied .eof { dev with reader := some { p with ended := true } }
  | failed {b : BulkRead} {st bad reader} {status : SaneStatus} : status ≠ .good →
      b.result = .fail st bad → b.copied = copied →
      (∀ q ∈ reader, ∃ p ∈ dev.reader, q.readBytesLeft = p.readBytesLeft) →
      BlockStep dev blockSize copied status
        { dev with reader := reader, bulkReads := dev.bulkReads ++ [b] }
  | delivered {b : BulkRead} {there reader} : b.result = .deliver there →
      b.blockSize = blockSize → b.delivered.length ≤ max (roundUp64 blockSize) dev.readBufferSize →
      b.readerLeft = dev.reader.map (·.readBytesLeft) →
      (∀ q ∈ reader, ∃ p ∈ dev.reader, q.ended = false ∧
        q.readBytesLeft = (p.readBytesLeft + 2 ^ 64 - b.delivered.length) % 2 ^ 64) →
      BlockStep dev blockSize copied .good
        { dev.blockRead b b.delivered with reader := reader }

theorem getBlock_step {dev dev' : GT68xxDevice} {blockSize copied : Nat}
    {bulk bulk' : List BulkResult} {status : SaneStatus}
    (h : dev.getBlock blockSize copied bulk = some (status, dev', bulk')) :
    dev.BlockStep blockSize copied status dev' := by
  obtain ⟨active, final, buffer, wanted, size, pos, inBuffer, left, reader, log⟩ := dev
  cases reader with
  | none =>
    cases bulk with
    | nil => cases h
    | cons r bulk =>
      cases r with
      | fail st bad =>
        cases h
        refine .failed (b := ⟨blockSize, roundUp64 blockSize, copied, none, .fail status bad⟩)
          bad rfl rfl ?_
        intro q hq
        cases hq
      | deliver there =>
        cases h
        refine .delivered (b := ⟨blockSize, roundUp64 blockSize, copied, none, .deliver there⟩)
          rfl rfl ((List.length_take_le _ _).trans (Nat.le_max_left _ _)) rfl ?_
        intro q hq
        cases hq
  | some p =>
    simp only [GT68xxDevice.getBlock, GT68xxDevice.channelGet] at h
    split_ifs at h with hended
    · cases h
      exact .ended rfl hended
    · cases bulk with
      | nil => cases h
      | cons r bulk =>
        cases r with
        | fail st bad =>
          cases h
          refine .failed (b := ⟨blockSize, size, copied, some p.readBytesLeft, .fail st bad⟩)
            (by decide) rfl rfl ?_
          intro q hq
          cases hq
          exact ⟨p, rfl, rfl⟩
        | deliver there =>
          simp only at h
          split_ifs at h
          cases h
          refine .delivered (b := ⟨blockSize, size, copied, some p.readBytesLeft, .deliver there⟩)
            rfl rfl ((List.length_take_le _ _).trans (Nat.le_max_right _ _)) rfl ?_
          intro q hq
          cases hq
          refine ⟨p, rfl, ?_, rfl⟩
          simpa using (not_or.mp hended).1

theorem roundUp64_le {n m : Nat} (hnm : n ≤ m) (haligned : m % 64 = 0) : roundUp64 n ≤ m := by
  unfold roundUp64
  omega

/-! ### What a turn of the loop keeps -/

theorem delivered_snoc (dev : GT68xxDevice) (b : BulkRead) :
    (dev.bulkReads ++ [b]).flatMap BulkRead.delivered = dev.delivered ++ b.delivered := by
  rw [List.flatMap_append, List.flatMap_singleton]
  rfl

/-- A block moves bytes from those left to those in the buffer. -/
theorem GT68xxDevice.BlockStep.counted {dev dev' : GT68xxDevice} {expected n : Nat}
    {copied : List SaneByte} (hstep : dev.BlockStep dev.blockSize n .good dev')
    (hempty : dev.readBytesInBuffer = 0)
    (h : dev.Counted expected copied) :
    (dev'.beginBlock dev.blockSize).Counted expected copied := by
  obtain ⟨hactive, haligned, hlength, hinside, htotal, -⟩ := h
  have hsize : dev.blockSize ≤ dev.readBufferSize := Nat.min_le_left _ _
  have hleft : dev.blockSize ≤ dev.readBytesLeft := Nat.min_le_right _ _
  cases hstep with
  | failed hbad => exact absurd rfl hbad
  | delivered _ _ hle _ hreader =>
    refine ⟨hactive, haligned, ?_, ?_, ?_, ?_⟩
    · refine (length_overwrite ?_).trans hlength
      rw [Nat.zero_add, hlength]
      exact hle.trans (max_le (roundUp64_le hsize haligned) le_rfl)
    · show 0 + dev.blockSize ≤ dev.readBufferSize
      omega
    · show copied.length + dev.blockSize + (dev.readBytesLeft - dev.blockSize) = expected
      omega
    · intro q hq hended
      obtain ⟨p, -, halive, -⟩ := hreader q hq
      rw [halive] at hended
      cases hended

theorem GT68xxDevice.BlockStep.failed_counted {dev dev' : GT68xxDevice} {expected n : Nat}
    {copied : List SaneByte} {status : SaneStatus}
    (hstep : dev.BlockStep dev.blockSize n status dev') (hbad : status ≠ .good)
    (hempty : dev.readBytesInBuffer = 0) (h : dev.Counted expected copied) :
    dev'.Counted expected copied := by
  obtain ⟨hactive, haligned, hlength, hinside, htotal, -⟩ := h
  cases hstep with
  | ended => exact ⟨hactive, haligned, hlength, hinside, htotal, fun _ _ _ => hempty⟩
  | failed => exact ⟨hactive, haligned, hlength, hinside, htotal, fun _ _ _ => hempty⟩
  | delivered => exact absurd rfl hbad

/-- The bytes of a block come behind those of the blocks before it. -/
theorem GT68xxDevice.BlockStep.streamed {dev dev' : GT68xxDevice} {expected n : Nat}
    {copied : List SaneByte} (hstep : dev.BlockStep dev.blockSize n .good dev')
    (hempty : dev.readBytesInBuffer = 0)
    (hcounted : dev.Counted expected copied) (h : dev.Streamed expected copied)
    (hpos : dev.blockSize ≠ 0) (hexpected : expected < 2 ^ 64)
    (hfull : ∀ b ∈ dev'.bulkReads, b.Full) :
    (dev'.beginBlock dev.blockSize).Streamed expected copied := by
  obtain ⟨hdata, hexact, hreader⟩ := h
  have hsize : dev.blockSize ≤ dev.readBufferSize := Nat.min_le_left _ _
  have hleft : dev.blockSize ≤ dev.readBytesLeft := Nat.min_le_right _ _
  have hdelivered := hexact (by omega)
  have hcopied : copied = dev.delivered := by
    have hnone : dev.pending = [] := by rw [GT68xxDevice.pending, hempty]; exact List.take_zero
    rw [hnone, List.append_nil, List.take_of_length_le (by omega)] at hdata
    exact hdata
  cases hstep with
  | failed hbad => exact absurd rfl hbad
  | @delivered b there reader hresult hblock hle hbleft hreader' =>
    have hb : b.Full := hfull b (List.mem_append_right _ (List.mem_singleton_self b))
    obtain ⟨hlong, hshort⟩ := hb (by rw [BulkRead.failed, hresult])
    rw [hblock] at hlong
    have hlen : b.delivered.length ≤ dev.readBufferSize :=
      hle.trans (max_le (roundUp64_le hsize hcounted.aligned) le_rfl)
    -- only the last block of the scan may be shorter than the buffer
    have hlast : dev.blockSize = dev.readBytesLeft ∨ b.delivered.length = dev.blockSize := by
      rcases Nat.le_total dev.readBytesLeft dev.readBufferSize with hle | hle
      · exact .inl (Nat.min_eq_right hle)
      · have hmin : dev.blockSize = dev.readBufferSize := Nat.min_eq_left hle
        exact .inr (by omega)
    refine ⟨?_, ?_, ?_⟩
    · have hpending : (GT68xxDevice.beginBlock
          { dev.blockRead b b.delivered with reader := reader } dev.blockSize).pending =
          b.delivered.take dev.blockSize := by
        show ((overwrite dev.readBuffer 0 b.delivered).drop 0).take dev.blockSize = _
        rw [List.drop_zero, overwrite, List.take_zero, List.nil_append,
          List.take_append_of_le_length hlong]
      have htake : b.delivered.take dev.blockSize = b.delivered.take dev.readBytesLeft := by
        rcases hlast with heq | heq
        · rw [heq]
        · rw [List.take_of_length_le heq.le, List.take_of_length_le (by omega)]
      have hall : (dev.delivered ++ b.delivered).take expected =
          dev.delivered ++ b.delivered.take dev.readBytesLeft := by
        rw [← hdelivered, List.take_length_add_append]
      rw [hpending, htake, hcopied, ← hall, ← delivered_snoc]
      rfl
    · intro hmore
      have hmore' : 0 < dev.readBytesLeft - dev.blockSize := hmore
      show ((dev.bulkReads ++ [b]).flatMap BulkRead.delivered).length
        + (dev.readBytesLeft - dev.blockSize) = expected
      rw [delivered_snoc, List.length_append]
      omega
    · intro q hq
      obtain ⟨p, hp, -, hqleft⟩ := hreader' q hq
      have hbound : b.delivered.length ≤ p.readBytesLeft :=
        hshort _ (by rw [hbleft]; exact Option.mem_map_of_mem _ hp)
      have hsum := hreader p hp
      show q.readBytesLeft + ((dev.bulkReads ++ [b]).flatMap BulkRead.delivered).length = expected
      rw [delivered_snoc, List.length_append, hqleft]
      omega

/-- A block that could not be read leaves the stream as it is. -/
theorem GT68xxDevice.BlockStep.failed_streamed {dev dev' : GT68xxDevice} {expected n : Nat}
    {copied : List SaneByte} {status : SaneStatus}
    (hstep : dev.BlockStep dev.blockSize n status dev') (hbad : status ≠ .good)
    (h : dev.Streamed expected copied) :
    dev'.Streamed expected copied := by
  obtain ⟨hdata, hexact, hreader⟩ := h
  cases hstep with
  | @ended p hp =>
    refine ⟨hdata, hexact, ?_⟩
    intro q hq
    cases hq
    exact hreader p hp
  | @failed b st bad reader _ _ hresult _ hreader' =>
    have hnothing : (dev.bulkReads ++ [b]).flatMap BulkRead.delivered = dev.delivered := by
      rw [delivered_snoc, BulkRead.delivered, hresult, List.append_nil]
    refine ⟨?_, ?_, ?_⟩
    · rw [GT68xxDevice.delivered, hnothing]
      exact hdata
    · rw [GT68xxDevice.delivered, hnothing]
      exact hexact
    · intro q hq
      obtain ⟨p, hp, hsame⟩ := hreader' q hq
      rw [GT68xxDevice.delivered, hnothing, hsame]
      exact hreader p hp
  | delivered => exact absurd rfl hbad

theorem length_portion {dev : GT68xxDevice} {expected t : Nat} {copied : List SaneByte}
    (h : dev.Counted expected copied) (ht : t ≤ dev.readBytesInBuffer) :
    (dev.portion t).length = t := by
  have hinside := h.inside
  rw [GT68xxDevice.portion, List.length_take, List.length_drop, h.length]
  omega

theorem transfer_counted {dev : GT68xxDevice} {expected t : Nat} {copied : List SaneByte}
    (h : dev.Counted expected copied) (ht : t ≤ dev.readBytesInBuffer) :
    (dev.transfer t).Counted expected (copied ++ dev.portion t) := by
  obtain ⟨hactive, haligned, hlength, hinside, htotal, hended⟩ := id h
  refine ⟨hactive, haligned, hlength, ?_, ?_, ?_⟩
  · show dev.readPos + t + (dev.readBytesInBuffer - t) ≤ dev.readBufferSize
    omega
  · show (copied ++ dev.portion t).length + (dev.readBytesInBuffer - t) + dev.readBytesLeft = _
    rw [List.length_append, length_portion h ht]
    omega
  · intro p hp hend
    show dev.readBytesInBuffer - t = 0
    rw [hended p hp hend, Nat.zero_sub]

/-- A portion moves from the buffer to the caller. -/
theorem transfer_streamed {dev : GT68xxDevice} {expected t : Nat} {copied : List SaneByte}
    (h : dev.Streamed expected copied) (ht : t ≤ dev.readBytesInBuffer) :
    (dev.transfer t).Streamed expected (copied ++ dev.portion t) := by
  obtain ⟨hdata, hexact, hreader⟩ := h
  have hsplit : dev.portion t ++ (dev.transfer t).pending = dev.pending := by
    have hcount : dev.portion (t + (dev.readBytesInBuffer - t)) =
        dev.portion t ++ (dev.transfer t).pending := by
      rw [GT68xxDevice.portion, List.take_add, List.drop_drop]
      rfl
    rw [← hcount, Nat.add_sub_cancel' ht]
    rfl
  refine ⟨?_, hexact, hreader⟩
  rw [List.append_assoc, hsplit]
  exact hdata

/-! ### Calls -/

/-- What holds during a call that comes after calls that have copied `before`. -/
structure ReadProgress.Inv (s : ReadProgress) (expected : Nat) (before : List SaneByte) : Prop where
  counted : s.dev.Counted expected (before ++ s.copied)
  streamed : (∀ b ∈ s.dev.bulkReads, b.Full) → s.dev.Streamed expected (before ++ s.copied)
  clean : (∀ b ∈ s.dev.bulkReads, b.Full ∧ b.Clean) → s.status ≠ .good → s.copied = []
  alive : s.copied ≠ [] → s.status = .good → ∀ p ∈ s.dev.reader, p.ended = false

/-- The device log only grows. -/
theorem GT68xxDevice.BlockStep.subset {dev dev' : GT68xxDevice} {blockSize n : Nat}
    {status : SaneStatus} (hstep : dev.BlockStep blockSize n status dev') :
    dev.bulkReads ⊆ dev'.bulkReads := by
  cases hstep with
  | ended => exact List.Subset.refl _
  | failed => exact List.subset_append_left _ _
  | delivered => exact List.subset_append_left _ _

/-- A call in which bytes have been copied does not fail unless a bulk read does. -/
theorem GT68xxDevice.BlockStep.copied_nil {dev dev' : GT68xxDevice} {expected : Nat}
    {before copied : List SaneByte} {status : SaneStatus}
    (hstep : dev.BlockStep dev.blockSize copied.length status dev') (hbad : status ≠ .good)
    (hpos : dev.blockSize ≠ 0) (h : dev.Streamed expected before)
    (halive : copied ≠ [] → ∀ p ∈ dev.reader, p.ended = false)
    (hclean : ∀ b ∈ dev'.bulkReads, b.Clean) : copied = [] := by
  cases hstep with
  | @ended p hp hend =>
    by_contra hne
    have hleft : dev.blockSize ≤ dev.readBytesLeft := Nat.min_le_right _ _
    have hexact := h.exact (by omega)
    have hreader := h.reader p hp
    rcases hend with hend | hend
    · rw [halive hne p hp] at hend
      cases hend
    · omega
  | @failed b st bad reader _ _ hresult hcopied _ =>
    have hb := hclean b (List.mem_append_right _ (List.mem_singleton_self b))
      (by rw [BulkRead.failed, hresult])
    exact List.eq_nil_of_length_eq_zero (hcopied ▸ hb)
  | delivered => exact absurd rfl hbad

/-- The ways through the first half of a turn. -/
theorem fill_cases {s : ReadProgress} {t : ReadTurn} (hfill : s.fill = some t) :
    (s.dev.readBytesInBuffer ≠ 0 ∧ t = .copy s) ∨
    s.dev.readBytesInBuffer = 0 ∧ (t = .leave s ∨ s.dev.blockSize ≠ 0 ∧ ∃ status dev bulk,
      s.dev.BlockStep s.dev.blockSize s.copied.length status dev ∧
      (status = .good ∧
          t = .copy { s with dev := dev.beginBlock s.dev.blockSize, bulk := bulk } ∨
        status ≠ .good ∧ t = .leave ⟨status, s.copied, dev, bulk⟩)) := by
  unfold ReadProgress.fill at hfill
  by_cases hempty : s.dev.readBytesInBuffer = 0
  · refine .inr ⟨hempty, ?_⟩
    rw [if_pos hempty] at hfill
    by_cases hnothing : s.dev.blockSize = 0
    · rw [if_pos hnothing] at hfill
      cases hfill
      exact .inl rfl
    · refine .inr ⟨hnothing, ?_⟩
      rw [if_neg hnothing] at hfill
      cases hblock : s.dev.getBlock s.dev.blockSize s.copied.length s.bulk with
      | none =>
        rw [hblock] at hfill
        cases hfill
      | some out =>
        obtain ⟨status, dev, bulk⟩ := out
        refine ⟨status, dev, bulk, getBlock_step hblock, ?_⟩
        rw [hblock] at hfill
        by_cases hstatus : status = .good
        · simp only [if_pos hstatus] at hfill
          cases hfill
          exact .inl ⟨hstatus, rfl⟩
        · simp only [if_neg hstatus] at hfill
          cases hfill
          exact .inr ⟨hstatus, rfl⟩
  · rw [if_neg hempty] at hfill
    cases hfill
    exact .inl ⟨hempty, rfl⟩

/-- Where the first half of a turn has come to. -/
def ReadTurn.progress : ReadTurn → ReadProgress
  | .leave s => s
  | .copy s => s

theorem fill_subset {s : ReadProgress} {t : ReadTurn} (hfill : s.fill = some t) :
    s.dev.bulkReads ⊆ t.progress.dev.bulkReads := by
  rcases fill_cases hfill with ⟨-, rfl⟩ | ⟨-, rfl | ⟨-, status, dev, bulk, hstep, hout⟩⟩
  · exact List.Subset.refl _
  · exact List.Subset.refl _
  · rcases hout with ⟨-, rfl⟩ | ⟨-, rfl⟩
    · exact hstep.subset
    · exact hstep.subset

/-- A turn that copies has something to copy. -/
theorem fill_pos {s s' : ReadProgress} (hfill : s.fill = some (.copy s')) :
    0 < s'.dev.readBytesInBuffer := by
  rcases fill_cases hfill with ⟨hne, heq⟩ | ⟨-, heq | ⟨hne, status, dev, bulk, -, hout⟩⟩
  · cases heq
    exact Nat.pos_of_ne_zero hne
  · cases heq
  · rcases hout with ⟨-, heq⟩ | ⟨-, heq⟩
    · cases heq
      exact Nat.pos_of_ne_zero hne
    · cases heq

theorem fill_inv {s : ReadProgress} {t : ReadTurn} {expected : Nat} {before : List SaneByte}
    (hfill : s.fill = some t) (h : s.Inv expected before) (hgood : s.status = .good)
    (hexpected : expected < 2 ^ 64) : t.progress.Inv expected before := by
  obtain ⟨hcounted, hstreamed, -, halive⟩ := id h
  rcases fill_cases hfill with ⟨-, rfl⟩ | ⟨hempty, rfl | ⟨hpos, status, dev, bulk, hstep, hout⟩⟩
  · exact h
  · exact h
  · have hold : (∀ b ∈ dev.bulkReads, b.Full) → s.dev.Streamed expected (before ++ s.copied) :=
      fun hfull => hstreamed fun b hb => hfull b (hstep.subset hb)
    rcases hout with ⟨rfl, rfl⟩ | ⟨hbad, rfl⟩
    · have hnew := hstep.counted hempty hcounted
      refine ⟨hnew, ?_, ?_, ?_⟩
      · intro hfull
        exact hstep.streamed hempty hcounted (hold hfull) hpos hexpected hfull
      · intro _ hbad
        exact absurd hgood hbad
      · intro _ _ p hp
        by_contra hend
        exact hpos (hnew.ended p hp (by simpa using hend))
    · refine ⟨hstep.failed_counted hbad hempty hcounted, ?_, ?_, ?_⟩
      · intro hfull
        exact hstep.failed_streamed hbad (hold hfull)
      · intro hall _
        exact hstep.copied_nil hbad hpos (hold fun b hb => (hall b hb).1)
          (fun hne => halive hne hgood) fun b hb => (hall b hb).2
      · intro _ hgood'
        exact absurd hgood' hbad

theorem fill_copy_good {s s' : ReadProgress} (hfill : s.fill = some (.copy s'))
    (hgood : s.status = .good) : s'.status = .good := by
  rcases fill_cases hfill with ⟨-, heq⟩ | ⟨-, heq | ⟨-, status, dev, bulk, -, hout⟩⟩
  · cases heq
    exact hgood
  · cases heq
  · rcases hout with ⟨-, heq⟩ | ⟨-, heq⟩
    · cases heq
      exact hgood
    · cases heq

/-- Copying a portion keeps what holds during a call. -/
theorem copyOut_inv {s : ReadProgress} {expected t : Nat} {before : List SaneByte}
    (h : s.Inv expected before) (hgood : s.status = .good) (hpos : 0 < s.dev.readBytesInBuffer)
    (ht : t ≤ s.dev.readBytesInBuffer) : (s.copyOut t).Inv expected before := by
  refine ⟨?_, ?_, ?_, ?_⟩
  · have := transfer_counted h.counted ht
    rwa [List.append_assoc] at this
  · intro hfull
    have := transfer_streamed (h.streamed hfull) ht
    rwa [List.append_assoc] at this
  · intro _ hbad
    exact absurd hgood hbad
  · intro _ _ p hp
    by_contra hend
    exact hpos.ne' (h.counted.ended p hp (by simpa using hend))

theorem deviceReadLoop_inv {expected : Nat} {before : List SaneByte} (hexpected : expected < 2 ^ 64)
    {fuel left : Nat} {s s' : ReadProgress} (hloop : deviceReadLoop fuel left s = some s')
    (h : s.Inv expected before) (hgood : s.status = .good) :
    s'.Inv expected before ∧ s.dev.bulkReads ⊆ s'.dev.bulkReads := by
  induction fuel generalizing left s with
  | zero =>
    cases hloop
    exact ⟨h, List.Subset.refl _⟩
  | succ fuel ih =>
    rw [deviceReadLoop] at hloop
    by_cases hdone : left = 0
    · rw [if_pos hdone] at hloop
      cases hloop
      exact ⟨h, List.Subset.refl _⟩
    · rw [if_neg hdone] at hloop
      cases hfill : s.fill with
      | none =>
        rw [hfill] at hloop
        cases hloop
      | some t =>
        have hturn := fill_inv hfill h hgood hexpected
        have hlog := fill_subset hfill
        rw [hfill] at hloop
        cases t with
        | leave u =>
          cases hloop
          exact ⟨hturn, hlog⟩
        | copy u =>
          have hugood := fill_copy_good hfill hgood
          have hcopy := copyOut_inv hturn hugood (fill_pos hfill) (Nat.min_le_right left _)
          obtain ⟨hinv, hmore⟩ := ih hloop hcopy hugood
          exact ⟨hinv, fun b hb => hmore (hlog hb)⟩

/-! ### Whole scans -/

/-- What holds between calls. -/
structure ReadSession.Inv (s : ReadSession) (expected : Nat) : Prop where
  counted : s.dev.Counted expected s.copied
  streamed : (∀ b ∈ s.dev.bulkReads, b.Full) → s.dev.Streamed expected s.copied
  clean : (∀ b ∈ s.dev.bulkReads, b.Full ∧ b.Clean) → s.handedOut = s.copied

theorem copied_snoc (calls : List BlockReadCall) (c : BlockReadCall) :
    (calls ++ [c]).flatMap (·.bytes) = calls.flatMap (·.bytes) ++ c.bytes := by
  rw [List.flatMap_append, List.flatMap_singleton]

theorem read_inv {s s' : ReadSession} {expected size : Nat} (hexpected : expected < 2 ^ 64)
    (h : s.Inv expected) (hread : s.read size = some s') : s'.Inv expected := by
  obtain ⟨hcounted, hstreamed, hclean⟩ := h
  have hstart : ReadProgress.Inv ⟨.good, [], s.dev, s.bulk⟩ expected s.copied := by
    refine ⟨?_, ?_, fun _ _ => rfl, fun hne => absurd rfl hne⟩
    · rw [List.append_nil]
      exact hcounted
    · rw [List.append_nil]
      exact hstreamed
  rw [ReadSession.read, if_neg (not_not.mpr hcounted.active)] at hread
  cases hloop : deviceReadLoop size size ⟨.good, [], s.dev, s.bulk⟩ with
  | none =>
    rw [hloop] at hread
    cases hread
  | some p =>
    rw [hloop] at hread
    cases hread
    obtain ⟨⟨hcounted', hstreamed', hclean', -⟩, hlog⟩ :=
      deviceReadLoop_inv hexpected hloop hstart rfl
    refine ⟨?_, ?_, ?_⟩
    · rw [ReadSession.copied, copied_snoc]
      exact hcounted'
    · rw [ReadSession.copied, copied_snoc]
      exact hstreamed'
    · intro hall
      have hbefore := hclean fun b hb => hall b (hlog hb)
      rw [ReadSession.handedOut, ReadSession.copied, List.filter_append, List.flatMap_append,
        copied_snoc]
      congr 1
      -- a call without a good status has copied nothing
      by_cases hnone : p.copied = []
      · rw [hnone]
        split_ifs <;> simp
      · have hgood : p.status = .good := by
          by_contra hbad
          exact hnone (hclean' hall hbad)
        simp [hnone, hgood]

/-- A call after the last expected byte returns end of file, and reads nothing. -/
theorem read_at_end {s : ReadSession} {expected : Nat} (h : s.Inv expected)
    (hall : s.copied.length = expected) (size : Nat) :
    s.read size = some { s with calls := s.calls ++ [⟨.eof, []⟩] } := by
  have htotal := h.counted.total
  have hempty : s.dev.readBytesInBuffer = 0 := by omega
  have hnothing : s.dev.blockSize = 0 := by
    have : s.dev.blockSize ≤ s.dev.readBytesLeft := Nat.min_le_right _ _
    omega
  have hloop : deviceReadLoop size size ⟨.good, [], s.dev, s.bulk⟩ =
      some ⟨.good, [], s.dev, s.bulk⟩ := by
    cases size with
    | zero => rfl
    | succ size =>
      have hfill : ReadProgress.fill ⟨.good, [], s.dev, s.bulk⟩ =
          some (.leave ⟨.good, [], s.dev, s.bulk⟩) := by
        rw [ReadProgress.fill, if_pos hempty, if_pos hnothing]
      rw [deviceReadLoop, if_neg (Nat.succ_ne_zero _), hfill]
  rw [ReadSession.read, if_neg (not_not.mpr h.counted.active), hloop]
  rfl

/-- Calls of `gt68xx_device_read`, one after the other. -/
abbrev DeviceReads (s₀ : ReadSession) : List Nat → ReadSession → Prop :=
  Run (fun s size s' => s.read size = some s') s₀

/-- The callers have got the stream: what has been copied is the beginning of what the
    device has delivered and nothing else, no byte count has wrapped, and behind the
    expected bytes there is the end of file. -/
structure ReadSession.Faithful (s : ReadSession) (expected : Nat) : Prop where
  stream : s.copied ++ s.dev.pending = s.dev.delivered.take expected
  handedOut : (∀ b ∈ s.dev.bulkReads, b.Clean) → s.handedOut = s.copied
  counts : s.copied.length + s.dev.readBytesInBuffer + s.dev.readBytesLeft = expected
  reader : ∀ p ∈ s.dev.reader, p.readBytesLeft + s.dev.delivered.length = expected
  atEnd : s.copied.length = expected →
    ∀ size, s.read size = some { s with calls := s.calls ++ [⟨.eof, []⟩] }

/-- A scan that has been prepared and started. -/
structure GT68xxDevice.Starts (dev : GT68xxDevice) (bufferSize expected : Nat) (final : Bool)
    (started : GT68xxDevice) : Prop where
  idle : dev.reader = none
  begins : ∃ sized prepared junk resources,
    dev.setReadBufferSize bufferSize = (.good, sized) ∧
    junk.length = sized.bufferSizeFor expected ∧
    sized.readPrepare expected final (some junk) = (.good, prepared) ∧
    prepared.readStart resources = (.good, started)

theorem bufferSizeFor_aligned {dev : GT68xxDevice} (h : dev.requestedBufferSize % 64 = 0)
    (expected : Nat) : dev.bufferSizeFor expected % 64 = 0 := by
  unfold GT68xxDevice.bufferSizeFor
  split_ifs
  · exact Nat.mul_mod_left _ _
  · exact h

/-- The device after a successful `readPrepare`. -/
theorem readPrepare_good {dev dev' : GT68xxDevice} {expected : Nat} {final : Bool}
    {junk : List SaneByte} (h : dev.readPrepare expected final (some junk) = (.good, dev')) :
    dev' = { dev with
      readBufferSize := dev.bufferSizeFor expected, readBuffer := junk, readActive := true,
      finalScan := final, readPos := 0, readBytesInBuffer := 0, readBytesLeft := expected,
      bulkReads := [] } := by
  unfold GT68xxDevice.readPrepare at h
  split_ifs at h
  · cases h
  · exact (Prod.mk.inj h).2.symm

/-- The device after a successful `readStart`: at most the reader process is new. -/
theorem readStart_good {dev dev' : GT68xxDevice} {resources : Bool}
    (h : dev.readStart resources = (.good, dev')) :
    dev' = dev ∨
      ∃ bufSize, dev' = { dev with reader := some ⟨dev.readBytesLeft, false, bufSize⟩ } := by
  unfold GT68xxDevice.readStart at h
  split_ifs at h
  · cases h
  · exact .inr ⟨_, (Prod.mk.inj h).2.symm⟩
  · cases h
  · exact .inl (Prod.mk.inj h).2.symm

theorem setReadBufferSize_good {dev dev' : GT68xxDevice} {bufferSize : Nat}
    (h : dev.setReadBufferSize bufferSize = (.good, dev')) :
    dev' = { dev with requestedBufferSize := roundUp64 bufferSize } := by
  unfold GT68xxDevice.setReadBufferSize at h
  split_ifs at h
  · cases h
  · exact (Prod.mk.inj h).2.symm
  · cases h

theorem starts_inv {dev started : GT68xxDevice} {bufferSize expected : Nat} {final : Bool}
    (h : dev.Starts bufferSize expected final started) (bulk : List BulkResult) :
    ReadSession.Inv ⟨started, bulk, []⟩ expected := by
  obtain ⟨hidle, sized, prepared, junk, resources, hsized, hjunk, hprepared, hstarted⟩ := h
  have hsize := setReadBufferSize_good hsized
  have haligned : sized.bufferSizeFor expected % 64 = 0 := by
    apply bufferSizeFor_aligned
    rw [hsize]
    exact Nat.mul_mod_left _ _
  have hsame : sized.reader = none := by
    rw [hsize]
    exact hidle
  have hprep := readPrepare_good hprepared
  have hnew : prepared.Counted expected [] ∧ prepared.Streamed expected [] := by
    subst hprep
    refine ⟨⟨rfl, haligned, hjunk, Nat.zero_le _, ?_, fun _ _ _ => rfl⟩, ?_, ?_, ?_⟩
    · exact Nat.zero_add _
    · exact (List.take_nil (i := expected)).symm
    · intro _
      exact Nat.zero_add _
    · intro p hp
      rw [hsame] at hp
      cases hp
  obtain ⟨hcounted, hstreamed⟩ := hnew
  rcases readStart_good hstarted with rfl | ⟨bufSize, rfl⟩
  · exact ⟨hcounted, fun _ => hstreamed, fun _ => rfl⟩
  · refine ⟨?_, fun _ => ?_, fun _ => rfl⟩
    · obtain ⟨hactive, haligned', hlength, hinside, htotal, -⟩ := hcounted
      refine ⟨hactive, haligned', hlength, hinside, htotal, ?_⟩
      intro p hp hend
      cases hp
      cases hend
    · obtain ⟨hdata, hexact, -⟩ := hstreamed
      refine ⟨hdata, hexact, ?_⟩
      intro p hp
      cases hp
      subst hprep
      exact Nat.add_zero _

/-- In every scan whose bulk reads deliver the bytes their blocks are counted for, the
    callers have got the stream after every sequence of calls. -/
theorem read_stream {dev started : GT68xxDevice} {bufferSize expected : Nat} {final : Bool}
    (hexpected : expected < 2 ^ 64) (hstart : dev.Starts bufferSize expected final started)
    {bulk : List BulkResult} {sizes : List Nat} {s : ReadSession}
    (hrun : DeviceReads ⟨started, bulk, []⟩ sizes s) (hfull : ∀ b ∈ s.dev.bulkReads, b.Full) :
    s.Faithful expected := by
  have hinv : s.Inv expected :=
    hrun.invariant (I := fun s => s.Inv expected) (starts_inv hstart bulk)
      fun _ _ _ h hread => read_inv hexpected h hread
  obtain ⟨hdata, -, hreader⟩ := hinv.streamed hfull
  refine ⟨hdata, ?_, hinv.counted.total, hreader, fun hall => read_at_end hinv hall⟩
  intro hclean
  exact hinv.clean fun b hb => ⟨hfull b hb, hclean b hb⟩

/-- A device that has been asked for 100 bytes in blocks of 64. -/
def GT68xxDevice.startedFor (final : Bool) : GT68xxDevice :=
  (((GT68xxDevice.new.setReadBufferSize 64).2.readPrepare 100 final
    (some (List.replicate 64 0))).2.readStart true).2

theorem startedFor_starts (final : Bool) :
    GT68xxDevice.new.Starts 64 100 final (GT68xxDevice.startedFor final) := by
  refine ⟨rfl, _, _, List.replicate 64 0, true, rfl, by decide, rfl, ?_⟩
  cases final <;> rfl

/-- The two blocks of a final scan come whole from the reader process. -/
theorem read_stream_final :
    ∃ s : ReadSession, s.Faithful 100 ∧
      s.calls = [⟨.good, List.replicate 64 1 ++ List.replicate 6 2⟩, ⟨.good, List.replicate 30 2⟩,
        ⟨.eof, []⟩] := by
  have hrun : (runAll ReadSession.read [70, 40, 5] ⟨GT68xxDevice.startedFor true,
      [.deliver (List.replicate 64 1), .deliver (List.replicate 36 2)], []⟩).any (fun s =>
        decide (∀ b ∈ s.dev.bulkReads, b.Full) && decide (s.calls =
          [⟨.good, List.replicate 64 1 ++ List.replicate 6 2⟩, ⟨.good, List.replicate 30 2⟩,
            ⟨.eof, []⟩])) := by
    decide +kernel
  obtain ⟨s, hs, hfacts⟩ := (Option.any_eq_true ..).mp hrun
  simp only [Bool.and_eq_true, decide_eq_true_eq] at hfacts
  obtain ⟨hfull, hcalls⟩ := hfacts
  exact ⟨s, read_stream (by decide) (startedFor_starts true)
    (Run.nil.runAll (fun _ _ _ h => h) hs) hfull, hcalls⟩

/-- The device delivers 10 bytes of a block of 64: the caller gets 54 bytes with them that
    were in the buffer before. -/
theorem read_stream_short :
    ∃ s, DeviceReads ⟨GT68xxDevice.startedFor false, [.deliver (List.replicate 10 1)], []⟩ [64] s ∧
      s.calls = [⟨.good, List.replicate 10 1 ++ List.replicate 54 0⟩] ∧
      s.dev.delivered = List.replicate 10 1 ∧ ¬ s.Faithful 100 := by
  have hrun : (runAll ReadSession.read [64] ⟨GT68xxDevice.startedFor false,
      [.deliver (List.replicate 10 1)], []⟩).any (fun s =>
        decide (s.calls = [⟨.good, List.replicate 10 1 ++ List.replicate 54 0⟩]) &&
          decide (s.dev.delivered = List.replicate 10 1)) := by
    decide +kernel
  obtain ⟨s, hs, hfacts⟩ := (Option.any_eq_true ..).mp hrun
  simp only [Bool.and_eq_true, decide_eq_true_eq] at hfacts
  obtain ⟨hcalls, hdelivered⟩ := hfacts
  refine ⟨s, Run.nil.runAll (fun _ _ _ h => h) hs, hcalls, hdelivered, ?_⟩
  intro hfaithful
  have hlen := congrArg List.length hfaithful.stream
  rw [ReadSession.copied, hcalls, hdelivered] at hlen
  simp only [List.flatMap_singleton, List.length_append, List.length_replicate,
    List.length_take] at hlen
  omega

end SaneBackends
