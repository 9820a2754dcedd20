import SaneBackends.ByteStuffing
import SaneBackends.RingMemory
import SaneBackends.SaneTypes
import Mathlib.Tactic.Common

/-!
# Commands of an HP ScanJet 3500

The commands for the RTS8801 chip are collected in `command_buffer` and go to the device with one
bulk write.  A command that reads is answered by a bulk read; the answers are copied to the memory
that was given for them.
-/

namespace SaneBackends.Hp3500

open ByteStuffing RingMemory

def MAX_COMMANDS_BYTES : Nat := 131072

def MAX_READ_COMMANDS : Nat := 1

def MAX_READ_BYTES : Nat := 0xffc0

def REG_MOVE_CONTROL_TEST : Nat := 0xb3

inductive RtCommand | getreg | readsram | setreg | writesram | bytesavail | readbytes
deriving DecidableEq, Repr

def RtCommand.code : RtCommand → SaneByte
  | .getreg => 0x80
  | .readsram => 0x81
  | .setreg => 0x88
  | .writesram => 0x89
  | .bytesavail => 0x90
  | .readbytes => 0x91

/-- The arguments of `rt_queue_command`; `bytes` is the length of the data. -/
structure Request where
  command : RtCommand
  reg : Nat
  count : Nat
  data : List SaneByte
  readbytes : Nat
  readdata : Nat
deriving DecidableEq, Repr

/-- What is written to `command_buffer`. -/
def Request.encode (r : Request) : List SaneByte :=
  [r.command.code, BitVec.ofNat 8 r.reg, BitVec.ofNat 8 (r.count >>> 8), BitVec.ofNat 8 r.count] ++
    stuff 0xaa 0 r.data

/-- The memory for the answer, with its length. -/
def Request.read? (r : Request) : Option (Nat × Nat) :=
  if r.readbytes = 0 then none else some (r.readdata, r.readbytes)

/-- The state of the driver, what the USB layer is going to answer, and what went over the wire.
    A read that fails or the end of a list is `none` or `false`.  The requests in `waiting` are in
    the command buffer, those in `sent` have been written to the device and those in `executed`
    with success; no function looks at these. -/
structure Rt where
  commandBuffer : List SaneByte
  reads : List (Nat × Nat)
  receiveBytes : Nat
  memory : Nat → SaneByte
  writeAnswers : List Bool
  readAnswers : List (Option (List SaneByte))
  written : List SaneByte
  received : List SaneByte
  waiting : List Request
  sent : List Request
  executed : List Request

/-- Before the first command. -/
def Rt.idle (memory : Nat → SaneByte) (writeAnswers : List Bool)
    (readAnswers : List (Option (List SaneByte))) : Rt :=
  ⟨[], [], 0, memory, writeAnswers, readAnswers, [], [], [], [], []⟩

/-- The calls of `sanei_usb_read_bulk`: the bytes, if all of them come, and the answers that are
    left.  A read without bytes is an error. -/
def readBulk : List (Option (List SaneByte)) → Nat → List SaneByte →
    Option (List SaneByte) × List (Option (List SaneByte))
  | [], _, _ => (none, [])
  | none :: answers, _, _ => (none, answers)
  | some bytes :: answers, total, readbuf =>
    let got := bytes.take (total - readbuf.length)
    if got = [] then (none, answers)
    else if (readbuf ++ got).length < total then readBulk answers total (readbuf ++ got)
    else (some (readbuf ++ got), answers)

/-- The `memcpy` calls for the outstanding reads. -/
def storeReads : List (Nat × Nat) → List SaneByte → (Nat → SaneByte) → Nat → SaneByte
  | [], _, memory => memory
  | (readmem, readbytes) :: reads, readbuf, memory =>
    storeReads reads (readbuf.drop readbytes) (put memory readmem (readbuf.take readbytes))

/-- `none` is a write behind the end of `command_buffer` or `readbuf`, `false` is -1. -/
abbrev RtResult := Option (Bool × Rt)

/-- Goes on when a call has not failed. -/
def RtResult.andThen : RtResult → (Rt → RtResult) → RtResult
  | none, _ => none
  | some (false, rt), _ => some (false, rt)
  | some (true, rt), next => next rt

/-- Goes on in any case. -/
def RtResult.ignoring : RtResult → (Rt → RtResult) → RtResult
  | none, _ => none
  | some (_, rt), next => next rt

/-- The command buffer has been written and is empty again. -/
def Rt.flushed (rt : Rt) : Rt :=
  { rt with
    commandBuffer := []
    reads := []
    receiveBytes := 0
    writeAnswers := rt.writeAnswers.tail
    written := rt.written ++ rt.commandBuffer
    waiting := []
    sent := rt.sent ++ rt.waiting }

/-- `rt_execute_commands` -/
def executeCommands (rt : Rt) : RtResult :=
  if rt.commandBuffer = [] then some (true, rt)
  else if rt.writeAnswers.headD false = false then some (false, rt.flushed)
  else if rt.receiveBytes = 0 then
    some (true, { rt.flushed with executed := rt.executed ++ rt.waiting })
  else if MAX_READ_BYTES < rt.receiveBytes then none
  else
    match readBulk rt.readAnswers rt.receiveBytes [] with
    | (none, readAnswers) => some (false, { rt.flushed with readAnswers })
    | (some readbuf, readAnswers) =>
      some (true, { rt.flushed with
        readAnswers
        memory := storeReads rt.reads readbuf rt.memory
        received := rt.received ++ readbuf
        executed := rt.executed ++ rt.waiting })

/-- There may not be enough room for a request, or too many reads are outstanding. -/
def Rt.full (rt : Rt) (r : Request) : Bool :=
  rt.commandBuffer.length + (4 + r.data.length) + r.data.length > MAX_COMMANDS_BYTES ∨
    (r.readbytes ≠ 0 ∧
      (rt.reads.length ≥ MAX_READ_COMMANDS ∨ rt.receiveBytes ≥ MAX_READ_BYTES))

/-- The request is put behind the others. -/
def Rt.append (rt : Rt) (r : Request) : RtResult :=
  if MAX_COMMANDS_BYTES < (rt.commandBuffer ++ r.encode).length then none
  else some (true, { rt with
    commandBuffer := rt.commandBuffer ++ r.encode
    reads := rt.reads ++ r.read?.toList
    receiveBytes := rt.receiveBytes + r.readbytes
    waiting := rt.waiting ++ [r] })

/-- `rt_queue_command` -/
def queueCommand (rt : Rt) (r : Request) : RtResult :=
  if rt.full r then RtResult.andThen (executeCommands rt) fun rt => rt.append r else rt.append r

/-- `rt_send_command_immediate` -/
def sendCommandImmediate (rt : Rt) (r : Request) : RtResult :=
  RtResult.ignoring (queueCommand rt r) executeCommands

/-- `rt_queue_command` and `rt_execute_commands`, if neither fails. -/
def queueAndExecute (rt : Rt) (r : Request) : RtResult :=
  RtResult.andThen (queueCommand rt r) executeCommands

/-- `rt_queue_read_register` -/
def queueReadRegister (rt : Rt) (reg bytes data : Nat) : RtResult :=
  queueCommand rt ⟨.getreg, reg, bytes, [], bytes, data⟩

/-- `rt_read_register_immediate` -/
def readRegisterImmediate (rt : Rt) (reg bytes data : Nat) : RtResult :=
  RtResult.andThen (queueReadRegister rt reg bytes data) executeCommands

/-- `rt_queue_set_register` -/
def queueSetRegister (rt : Rt) (reg : Nat) (data : List SaneByte) : RtResult :=
  queueCommand rt ⟨.setreg, reg, data.length, data, 0, 0⟩

/-- `rt_set_register_immediate` -/
def setRegisterImmediate (rt : Rt) (reg : Nat) (data : List SaneByte) : RtResult :=
  if reg < REG_MOVE_CONTROL_TEST ∧ reg + data.length > REG_MOVE_CONTROL_TEST then
    let bytesInFirstBlock := REG_MOVE_CONTROL_TEST - reg
    RtResult.andThen (setRegisterImmediate rt reg (data.take bytesInFirstBlock)) fun rt =>
      setRegisterImmediate rt 0xb4 (data.drop (bytesInFirstBlock + 1))
  else RtResult.andThen (queueSetRegister rt reg data) executeCommands
termination_by data.length
decreasing_by
  · rw [List.length_take]
    omega
  · rw [List.length_drop]
    omega

/-- `bufsize` behind a block of at most 32 bytes. -/
def blockSize (bufsize : Nat) (block : List SaneByte) : Nat :=
  block.foldl (fun bufsize x => if x = 0xaa then bufsize + 2 else bufsize + 1) bufsize

/-- The bytes that the next command of `rt_write_sram` takes: whole blocks, as long as fewer than
    0xf000 bytes of the command buffer are used. -/
def sramChunk (bufsize : Nat) (data : List SaneByte) : List SaneByte :=
  if data = [] then []
  else if bufsize < 0xf000 then
    data.take 32 ++ sramChunk (blockSize bufsize (data.take 32)) (data.drop 32)
  else []
termination_by data.length
decreasing_by
  rw [List.length_drop]
  have hpos := List.length_pos_iff.mpr ‹data ≠ []›
  omega

theorem sramChunk_ne_nil {data : List SaneByte} (h : data ≠ []) : sramChunk 0 data ≠ [] := by
  rw [sramChunk, if_neg h, if_pos (by decide)]
  intro hnil
  have htake := (List.append_eq_nil_iff.mp hnil).1
  exact h ((List.take_eq_nil_iff.mp htake).resolve_left (by decide))

def writeSramRequest (data : List SaneByte) : Request := ⟨.writesram, 0, data.length, data, 0, 0⟩

/-- `rt_write_sram` -/
def writeSram (rt : Rt) (data : List SaneByte) : RtResult :=
  if data = [] then some (true, rt)
  else
    RtResult.andThen (sendCommandImmediate rt (writeSramRequest (sramChunk 0 data))) fun rt =>
      writeSram rt (data.drop (sramChunk 0 data).length)
termination_by data.length
decreasing_by
  have hdata := List.length_pos_iff.mpr ‹data ≠ []›
  have hchunk := List.length_pos_iff.mpr (sramChunk_ne_nil ‹data ≠ []›)
  rw [List.length_drop]
  omega

/-- `rt_read_sram`; the command is for all bytes that are left. -/
def readSram (rt : Rt) (bytes data : Nat) : RtResult :=
  if bytes = 0 then some (true, rt)
  else
    let now := if bytes > 0xf000 then 0xf000 else bytes
    RtResult.andThen (sendCommandImmediate rt ⟨.readsram, 0, bytes, [], bytes, data⟩) fun rt =>
      readSram rt (bytes - now) (data + now)
termination_by bytes
decreasing_by
  split <;> omega

/-- `rt_get_available_bytes`, without its sum. -/
def getAvailableBytes (rt : Rt) (data : Nat) : RtResult :=
  queueAndExecute rt ⟨.bytesavail, 0, 3, [], 3, data⟩

/-- `rt_get_data` -/
def getData (rt : Rt) (bytes data : Nat) : RtResult :=
  if bytes = 0 then some (true, rt)
  else
    let bytesnow := if bytes > 0xffc0 then 0xffc0 else bytes
    RtResult.andThen (queueAndExecute rt ⟨.readbytes, 0, bytesnow, [], bytesnow, data⟩) fun rt =>
      getData rt (bytes - bytesnow) (data + bytesnow)
termination_by bytes
decreasing_by
  split <;> omega

end SaneBackends.Hp3500
