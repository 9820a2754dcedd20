import SaneBackends.PixmaRead
import SaneBackends.Cells
import SaneBackends.FaultState

/-!
# Pixma command packets

A command is built in the buffer that also takes its response.  `pixma_newcmd` clears
the packet and writes the command code and the lengths, the caller writes the payload,
`pixma_exec` closes the payload with its checksum, sends the packet, reads the response
over it and judges it.
-/

namespace SaneBackends.Pixma

open Overwrite

def PIXMA_EIO : PixmaError := ⟨-1, by decide⟩
def PIXMA_EBUSY : PixmaError := ⟨-6, by decide⟩
def PIXMA_ETIMEDOUT : PixmaError := ⟨-9, by decide⟩
def PIXMA_EPROTO : PixmaError := ⟨-10, by decide⟩

def PIXMA_STATUS_OK : Nat := 0x0606
def PIXMA_STATUS_FAILED : Nat := 0x1515
def PIXMA_STATUS_BUSY : Nat := 0x1414

/-! ### The buffer -/

/-- The fields of `pixma_cmdbuf_t` that a subdriver sets when it is opened.  The command
    code and the length stand in the header of the command, the status in the header of
    the response. -/
structure CmdLayout where
  cmdHeaderLen : Nat
  resHeaderLen : Nat
  cmdLenFieldOfs : Nat
  size : Nat
  code_before : 2 ≤ cmdLenFieldOfs
  length_inside : cmdLenFieldOfs + 2 ≤ cmdHeaderLen
  status_inside : 2 ≤ resHeaderLen
  cmdHeaderLen_le : cmdHeaderLen ≤ size
  resHeaderLen_le : resHeaderLen ≤ size
  size_lt : size < 2 ^ 15

/-- `pixma_imageclass.c`, `pixma_mp730.c` and `pixma_mp750.c`. -/
def CmdLayout.mp730 : CmdLayout where
  cmdHeaderLen := 10
  resHeaderLen := 2
  cmdLenFieldOfs := 7
  size := 512
  code_before := by decide
  length_inside := by decide
  status_inside := by decide
  cmdHeaderLen_le := by decide
  resHeaderLen_le := by decide
  size_lt := by decide

/-- `pixma_mp150.c` and `pixma_mp810.c`. -/
def CmdLayout.mp150 : CmdLayout where
  cmdHeaderLen := 16
  resHeaderLen := 8
  cmdLenFieldOfs := 14
  size := 4096 + 24
  code_before := by decide
  length_inside := by decide
  status_inside := by decide
  cmdHeaderLen_le := by decide
  resHeaderLen_le := by decide
  size_lt := by decide

/-- The other fields of `pixma_cmdbuf_t`; `buf` is the whole block, which can be longer
    than `size`. -/
structure CmdBuf where
  expectedReslen : Nat
  cmdlen : Nat
  reslen : Int
  buf : List SaneByte
deriving DecidableEq, Repr

def be16 (x : Nat) : List SaneByte := [BitVec.ofNat 8 (x / 256), BitVec.ofNat 8 x]

/-- `pixma_set_be16`: the low 16 bits of `x`. -/
def pixmaSetBe16 (x : Nat) (mem : List SaneByte) (i : Nat) : Except Fault (List SaneByte) :=
  storeCells mem i (be16 (x % 2 ^ 16))

def pixmaGetBe16 (mem : List SaneByte) (i : Nat) : Except Fault Nat := do
  let hi ← cellAt mem i
  let lo ← cellAt mem (i + 1)
  return hi.toNat * 256 + lo.toNat

def pixmaSumBytes (mem : List SaneByte) (i len : Nat) : Except Fault SaneByte := do
  let d ← loadCells mem i len
  return BitVec.ofNat 8 (d.foldl (fun sum x => (sum + x.toNat) % 2 ^ 32) 0)

/-- `pixma_fill_checksum(start, end)`. -/
def pixmaFillChecksum (mem : List SaneByte) (start last : Nat) : Except Fault (List SaneByte) := do
  let sum ← pixmaSumBytes mem start (last - start)
  setCell mem last (-sum)

def pixmaMapStatusErrno (status : Nat) : Int :=
  if status = PIXMA_STATUS_OK then 0
  else if status = PIXMA_STATUS_FAILED then PIXMA_ECANCELED
  else if status = PIXMA_STATUS_BUSY then PIXMA_EBUSY
  else PIXMA_EPROTO

/-! ### The commands -/

/-- The I/O layer of the scanner.  `write` gives the number of bytes sent or an error,
    `read` at most as many bytes as are asked for; its first argument tells the attempts
    of one transaction apart. -/
structure CmdPipe where
  write : List SaneByte → Int
  read : Nat → Nat → Except PixmaError (List SaneByte)
  read_le : ∀ {n size : Nat} {bytes : List SaneByte}, read n size = .ok bytes → bytes.length ≤ size

namespace CmdLayout

variable (layout : CmdLayout)

/-- `pixma_newcmd`: the index of the pointer it returns, or `none` for `NULL`. -/
def pixmaNewcmd (cb : CmdBuf) (cmd dataout datain : Nat) :
    Except Fault (Option (Nat × CmdBuf)) := do
  let cmdlen := (layout.cmdHeaderLen + dataout) % 2 ^ 32
  let reslen := (layout.resHeaderLen + datain) % 2 ^ 32
  if layout.size < cmdlen ∨ layout.size < reslen then return none
  let buf ← storeCells cb.buf 0 (List.replicate cmdlen 0)
  let buf ← pixmaSetBe16 cmd buf 0
  let buf ← pixmaSetBe16 (dataout + datain) buf layout.cmdLenFieldOfs
  let cb' := { cb with cmdlen := cmdlen, expectedReslen := reslen, buf := buf }
  return some (if dataout ≠ 0 then layout.cmdHeaderLen else layout.resHeaderLen, cb')

/-- `pixma_check_result` without its debug output. -/
def pixmaCheckResult (cb : CmdBuf) : Except Fault Int :=
  if cb.reslen < 0 then return cb.reslen
  else
    let len := cb.reslen.toNat
    if layout.resHeaderLen ≤ len then do
      let error := pixmaMapStatusErrno (← pixmaGetBe16 cb.buf 0)
      if cb.expectedReslen ≠ 0 then
        if len = cb.expectedReslen then do
          let sum ← pixmaSumBytes cb.buf layout.resHeaderLen (len - layout.resHeaderLen)
          return if sum ≠ 0 then PIXMA_EPROTO else error
        else
          -- a command that was cut short is answered with a header alone
          return if len ≠ layout.resHeaderLen then PIXMA_EPROTO else error
      else return error
    else return PIXMA_EPROTO

end CmdLayout

namespace CmdPipe

variable (io : CmdPipe)

/-- `pixma_read` into the beginning of `buf`. -/
def pixmaRead (n size : Nat) (buf : List SaneByte) : Except Fault (Int × List SaneByte) :=
  match io.read n size with
  | .error e => return (if e = PIXMA_EIO then PIXMA_ETIMEDOUT else e, buf)
  | .ok bytes => do
    let buf ← storeCells buf 0 bytes
    return (bytes.length, buf)

/-- `do { .. } while (error == PIXMA_ETIMEDOUT && --tmo != 0)`. -/
def awaitResponse (size : Nat) : Nat → List SaneByte → Except Fault (Int × List SaneByte)
  | 0, buf => return (PIXMA_ETIMEDOUT, buf) -- the source starts with tmo = 8
  | tmo + 1, buf => do
    let (error, buf) ← io.pixmaRead (tmo + 1) size buf
    if error = PIXMA_ETIMEDOUT ∧ tmo ≠ 0 then awaitResponse size tmo buf else return (error, buf)

/-- `pixma_cmd_transaction` with the response in the place of the command. -/
def pixmaCmdTransaction (cmdlen expectedLen : Nat) (buf : List SaneByte) :
    Except Fault (Int × List SaneByte) := do
  let cmd ← loadCells buf 0 cmdlen
  let error := io.write cmd
  if error ≠ cmdlen then return (if 0 ≤ error then PIXMA_ETIMEDOUT else error, buf)
  awaitResponse io expectedLen 8 buf

end CmdPipe

/-- The first statement of `pixma_exec`: the packet with its checksum. -/
def CmdLayout.sealPayload (layout : CmdLayout) (cb : CmdBuf) : Except Fault CmdBuf := do
  if layout.cmdHeaderLen < cb.cmdlen then
    let buf ← pixmaFillChecksum cb.buf layout.cmdHeaderLen (cb.cmdlen - 1)
    return { cb with buf := buf }
  return cb

def CmdLayout.pixmaExec (layout : CmdLayout) (io : CmdPipe) (cb : CmdBuf) :
    Except Fault (Int × CmdBuf) := do
  let cb ← layout.sealPayload cb
  let (reslen, buf) ← io.pixmaCmdTransaction cb.cmdlen cb.expectedReslen cb.buf
  let cb := { cb with reslen := reslen, buf := buf }
  return (← layout.pixmaCheckResult cb, cb)

/-! ### Checksums -/

/-- The bytes sum to 0 modulo 256. -/
def SumsToZero (bytes : List SaneByte) : Prop := (bytes.map BitVec.toNat).sum % 256 = 0

instance (bytes : List SaneByte) : Decidable (SumsToZero bytes) :=
  inferInstanceAs (Decidable (_ = 0))

theorem foldl_sum (bytes : List SaneByte) (n : Nat) :
    bytes.foldl (fun sum x => (sum + x.toNat) % 2 ^ 32) n % 256 =
      (n + (bytes.map BitVec.toNat).sum) % 256 := by
  induction bytes generalizing n with
  | nil => rfl
  | cons x bytes ih =>
    rw [List.foldl_cons, ih, List.map_cons, List.sum_cons]
    omega

theorem pixmaSumBytes_eq {mem : List SaneByte} {i len : Nat} (h : i + len ≤ mem.length) :
    pixmaSumBytes mem i len =
      .ok (BitVec.ofNat 8 ((stretch mem i len).map BitVec.toNat).sum) := by
  have hload : loadCells mem i len = .ok (stretch mem i len) := if_pos h
  rw [pixmaSumBytes, hload, FaultState.ok_bind]
  apply congrArg Except.ok
  apply BitVec.eq_of_toNat_eq
  rw [BitVec.toNat_ofNat, BitVec.toNat_ofNat]
  have hsum := foldl_sum (stretch mem i len) 0
  rw [Nat.zero_add] at hsum
  exact hsum

theorem ofNat_sum_eq_zero {bytes : List SaneByte} :
    BitVec.ofNat 8 (bytes.map BitVec.toNat).sum = 0 ↔ SumsToZero bytes := by
  rw [← BitVec.toNat_inj, BitVec.toNat_ofNat]
  rfl

/-- A checksum behind the bytes it is for. -/
theorem sumsToZero_append_neg (bytes : List SaneByte) :
    SumsToZero (bytes ++ [-BitVec.ofNat 8 (bytes.map BitVec.toNat).sum]) := by
  unfold SumsToZero
  rw [List.map_append, List.sum_append, List.map_singleton, List.sum_singleton, BitVec.toNat_neg,
    BitVec.toNat_ofNat]
  omega

/-! ### What a command is -/

/-- `message` is the command `cmd` with `payload` as its body, except that the last byte of
    the body is the checksum. -/
structure Framed (layout : CmdLayout) (cmd dataout datain : Nat)
    (payload message : List SaneByte) : Prop where
  length : message.length = layout.cmdHeaderLen + dataout
  command : message.take 2 = be16 (cmd % 2 ^ 16)
  lengthField : stretch message layout.cmdLenFieldOfs 2 = be16 (dataout + datain)
  reserved : ∀ i, 2 ≤ i → i < layout.cmdHeaderLen →
    i < layout.cmdLenFieldOfs ∨ layout.cmdLenFieldOfs + 2 ≤ i → message[i]? = some 0
  body : (message.drop layout.cmdHeaderLen).dropLast = payload.dropLast
  checksum : SumsToZero (message.drop layout.cmdHeaderLen)

/-- The status word at the beginning of a response. -/
def statusWord (received : List SaneByte) : Nat :=
  (received.getD 0 0).toNat * 256 + (received.getD 1 0).toNat

/-- The payload of a response is intact, or the response is a header alone. -/
def Intact (layout : CmdLayout) (expected : Nat) (received : List SaneByte) : Prop :=
  received.length = layout.resHeaderLen ∨
    received.length = expected ∧ SumsToZero (received.drop layout.resHeaderLen)

instance (layout : CmdLayout) (expected : Nat) (received : List SaneByte) :
    Decidable (Intact layout expected received) :=
  inferInstanceAs (Decidable (_ ∨ _))

/-- `verdict` is the right answer of `pixma_check_result` to a response. -/
structure Judges (layout : CmdLayout) (expected : Nat) (received : List SaneByte)
    (verdict : Int) : Prop where
  accepts : received.length = expected →
    (verdict = 0 ↔ statusWord received = PIXMA_STATUS_OK ∧
      SumsToZero (received.drop layout.resHeaderLen))
  failed : Intact layout expected received → statusWord received = PIXMA_STATUS_FAILED →
    verdict = PIXMA_ECANCELED
  busy : Intact layout expected received → statusWord received = PIXMA_STATUS_BUSY →
    verdict = PIXMA_EBUSY
  other : Intact layout expected received → statusWord received ≠ PIXMA_STATUS_OK →
    statusWord received ≠ PIXMA_STATUS_FAILED → statusWord received ≠ PIXMA_STATUS_BUSY →
    verdict = PIXMA_EPROTO
  garbled : ¬Intact layout expected received → verdict = PIXMA_EPROTO

/-! ### Building a command -/

variable {layout : CmdLayout} {cb : CmdBuf} {cmd dataout datain : Nat}

/-- The header that `pixma_newcmd` writes and the cleared payload. -/
def newPacket (layout : CmdLayout) (cmd dataout datain : Nat) : List SaneByte :=
  overwrite (overwrite (List.replicate (layout.cmdHeaderLen + dataout) 0) 0
    (be16 (cmd % 2 ^ 16))) layout.cmdLenFieldOfs (be16 (dataout + datain))

/-- The command buffer when `pixma_newcmd` is done. -/
def CmdLayout.started (layout : CmdLayout) (cb : CmdBuf) (cmd dataout datain : Nat) : CmdBuf where
  expectedReslen := layout.resHeaderLen + datain
  cmdlen := layout.cmdHeaderLen + dataout
  reslen := cb.reslen
  buf := overwrite cb.buf 0 (newPacket layout cmd dataout datain)

theorem length_newPacket :
    (newPacket layout cmd dataout datain).length = layout.cmdHeaderLen + dataout := by
  have h2 := layout.code_before
  have hin := layout.length_inside
  unfold newPacket
  have hlen : (overwrite (List.replicate (layout.cmdHeaderLen + dataout) (0 : SaneByte)) 0
      (be16 (cmd % 2 ^ 16))).length = layout.cmdHeaderLen + dataout := by
    rw [length_overwrite (by rw [List.length_replicate]; simp [be16]; omega),
      List.length_replicate]
  rw [length_overwrite (by rw [hlen]; simp [be16]; omega), hlen]

/-- Two bytes can be stored in the packet before or after the packet is in its place. -/
theorem overwrite_inside {mem packet bytes : List SaneByte} {i : Nat}
    (hin : i + bytes.length ≤ packet.length) :
    overwrite (overwrite mem 0 packet) i bytes = overwrite mem 0 (overwrite packet i bytes) := by
  have hlen := length_overwrite hin
  unfold overwrite at *
  simp only [List.take_zero, List.nil_append, Nat.zero_add] at *
  rw [List.take_append_of_le_length (by omega), List.drop_append_of_le_length (by omega), hlen]
  simp only [List.append_assoc]

/-- A command that fits is started, and the pointer is to its payload, or to the payload
    of the response where it has none. -/
theorem CmdLayout.pixmaNewcmd_eq (hroom : layout.size ≤ cb.buf.length)
    (hout : layout.cmdHeaderLen + dataout ≤ layout.size)
    (hin : layout.resHeaderLen + datain ≤ layout.size) :
    layout.pixmaNewcmd cb cmd dataout datain =
      .ok (some (if dataout ≠ 0 then layout.cmdHeaderLen else layout.resHeaderLen,
        layout.started cb cmd dataout datain)) := by
  have hsize := layout.size_lt
  have h2 := layout.code_before
  have hfield := layout.length_inside
  have hcmdlen : (layout.cmdHeaderLen + dataout) % 2 ^ 32 = layout.cmdHeaderLen + dataout :=
    Nat.mod_eq_of_lt (by omega)
  have hreslen : (layout.resHeaderLen + datain) % 2 ^ 32 = layout.resHeaderLen + datain :=
    Nat.mod_eq_of_lt (by omega)
  have hsum : (dataout + datain) % 2 ^ 16 = dataout + datain := Nat.mod_eq_of_lt (by omega)
  have hfits : ¬(layout.size < layout.cmdHeaderLen + dataout ∨
      layout.size < layout.resHeaderLen + datain) := by omega
  have hzeros : (List.replicate (layout.cmdHeaderLen + dataout) (0 : SaneByte)).length =
      layout.cmdHeaderLen + dataout := List.length_replicate
  have hcode : (be16 (cmd % 2 ^ 16)).length = 2 := rfl
  have hlength : (be16 (dataout + datain)).length = 2 := rfl
  have hclear : (overwrite cb.buf 0
      (List.replicate (layout.cmdHeaderLen + dataout) 0)).length = cb.buf.length :=
    length_overwrite (by omega)
  have hhead := @length_overwrite _ (List.replicate (layout.cmdHeaderLen + dataout)
    (0 : SaneByte)) 0 (be16 (cmd % 2 ^ 16)) (by omega)
  unfold pixmaNewcmd
  simp only [hcmdlen, hreslen, if_neg hfits]
  rw [show storeCells cb.buf 0 (List.replicate (layout.cmdHeaderLen + dataout) (0 : SaneByte)) =
      .ok _ from if_pos (by omega), FaultState.ok_bind, pixmaSetBe16,
    show storeCells _ 0 (be16 (cmd % 2 ^ 16)) = .ok _ from if_pos (by omega),
    FaultState.ok_bind, overwrite_inside (by omega), pixmaSetBe16, hsum,
    show storeCells _ layout.cmdLenFieldOfs (be16 (dataout + datain)) = .ok _ from
      if_pos (by rw [length_overwrite (by omega)]; omega),
    FaultState.ok_bind, overwrite_inside (by omega)]
  rfl

/-- The caller stores the payload through the pointer that `pixma_newcmd` returned. -/
def CmdLayout.withPayload (layout : CmdLayout) (cb : CmdBuf) (payload : List SaneByte) : CmdBuf :=
  { cb with buf := overwrite cb.buf layout.cmdHeaderLen payload }

/-- The payload after its last byte became the checksum of the others. -/
def sealedPayload (payload : List SaneByte) : List SaneByte :=
  if payload = [] then []
  else payload.dropLast ++ [-BitVec.ofNat 8 (payload.dropLast.map BitVec.toNat).sum]

def header (layout : CmdLayout) (cmd dataout datain : Nat) : List SaneByte :=
  (newPacket layout cmd dataout datain).take layout.cmdHeaderLen

theorem length_header : (header layout cmd dataout datain).length = layout.cmdHeaderLen := by
  rw [header, List.length_take, length_newPacket]
  omega

theorem length_sealedPayload (payload : List SaneByte) :
    (sealedPayload payload).length = payload.length := by
  unfold sealedPayload
  cases payload with
  | nil => rfl
  | cons x payload => simp

theorem overwrite_zero (mem packet : List SaneByte) :
    overwrite mem 0 packet = packet ++ mem.drop packet.length := by
  rw [overwrite, List.take_zero, List.nil_append, Nat.zero_add]

theorem CmdLayout.withPayload_buf {payload : List SaneByte} (hpayload : payload.length = dataout) :
    (layout.withPayload (layout.started cb cmd dataout datain) payload).buf =
      overwrite cb.buf 0 (header layout cmd dataout datain ++ payload) := by
  have hlen : (newPacket layout cmd dataout datain).length = layout.cmdHeaderLen + dataout :=
    length_newPacket
  have hbuf : (layout.withPayload (layout.started cb cmd dataout datain) payload).buf =
      overwrite (overwrite cb.buf 0 (newPacket layout cmd dataout datain))
        layout.cmdHeaderLen payload := rfl
  rw [hbuf, overwrite_inside (by omega)]
  apply congrArg
  rw [overwrite, List.drop_eq_nil_of_le (by omega), List.append_nil]
  rfl

/-- `pixma_exec` closes the payload. -/
theorem CmdLayout.sealPayload_eq {payload : List SaneByte} (hpayload : payload.length = dataout)
    (hroom : layout.size ≤ cb.buf.length)
    (hout : layout.cmdHeaderLen + dataout ≤ layout.size) :
    layout.sealPayload (layout.withPayload (layout.started cb cmd dataout datain) payload) =
      .ok { layout.started cb cmd dataout datain with
        buf := overwrite cb.buf 0
          (header layout cmd dataout datain ++ sealedPayload payload) } := by
  have hhead : (header layout cmd dataout datain).length = layout.cmdHeaderLen := length_header
  have hbuf := @withPayload_buf layout cb cmd dataout datain payload hpayload
  have hcmdlen : (layout.withPayload (layout.started cb cmd dataout datain) payload).cmdlen =
      layout.cmdHeaderLen + dataout := rfl
  unfold sealPayload
  rw [hcmdlen]
  cases List.eq_nil_or_concat payload with
  | inl hnil =>
    cases hnil
    cases hpayload
    rw [if_neg (by simp)]
    change Except.ok _ = _
    rw [sealedPayload, if_pos rfl, ← hbuf]
    rfl
  | inr hlast =>
    obtain ⟨init, last, rfl⟩ := hlast
    rw [List.concat_eq_append] at *
    have hdataout : dataout = init.length + 1 := by
      rw [← hpayload, List.length_append, List.length_singleton]
    have hmem : (overwrite cb.buf 0 (header layout cmd dataout datain ++ (init ++ [last]))).length =
        cb.buf.length := by
      refine length_overwrite ?_
      rw [List.length_append, hhead, hpayload]
      omega
    have hstretch : stretch (overwrite cb.buf 0
        (header layout cmd dataout datain ++ (init ++ [last]))) layout.cmdHeaderLen init.length =
        init := by
      rw [overwrite_zero, stretch, List.append_assoc, ← hhead, List.drop_left, List.append_assoc,
        List.take_left]
    have hsum := @pixmaSumBytes_eq (overwrite cb.buf 0
      (header layout cmd dataout datain ++ (init ++ [last]))) layout.cmdHeaderLen
      init.length (by omega)
    rw [if_pos (by omega), hbuf, pixmaFillChecksum,
      show layout.cmdHeaderLen + dataout - 1 - layout.cmdHeaderLen = init.length by omega,
      hsum, FaultState.ok_bind, setCell_of_lt (by omega), FaultState.ok_bind, hstretch]
    change Except.ok _ = Except.ok _
    apply congrArg
    have hset : ∀ x, (overwrite cb.buf 0 (header layout cmd dataout datain ++ (init ++ [last]))).set
        (layout.cmdHeaderLen + dataout - 1) x =
        overwrite cb.buf 0 (header layout cmd dataout datain ++ (init ++ [x])) := by
      intro x
      have hat : layout.cmdHeaderLen + dataout - 1 =
          (header layout cmd dataout datain ++ init).length := by
        rw [List.length_append, hhead]
        omega
      rw [overwrite_zero, overwrite_zero, hat, ← List.append_assoc, ← List.append_assoc,
        List.append_assoc _ [last], List.append_assoc _ [x], List.set_append_right _ _ (le_refl _),
        Nat.sub_self]
      simp
    rw [hset, sealedPayload, if_neg (by simp), List.dropLast_concat]
    rfl

theorem sumsToZero_sealedPayload (payload : List SaneByte) :
    SumsToZero (sealedPayload payload) := by
  unfold sealedPayload
  split
  · rfl
  · exact sumsToZero_append_neg _

theorem dropLast_sealedPayload (payload : List SaneByte) :
    (sealedPayload payload).dropLast = payload.dropLast := by
  unfold sealedPayload
  split
  case isTrue hnil => rw [hnil]
  case isFalse hnil => exact List.dropLast_concat

/-- The header is the one of the packet that `pixma_newcmd` wrote. -/
theorem stretch_header {body : List SaneByte} {i n : Nat} (h : i + n ≤ layout.cmdHeaderLen) :
    stretch (header layout cmd dataout datain ++ body) i n =
      stretch (newPacket layout cmd dataout datain) i n := by
  have hhead : (header layout cmd dataout datain).length = layout.cmdHeaderLen := length_header
  apply List.ext_getElem?
  intro k
  simp only [stretch, List.getElem?_take, List.getElem?_drop]
  split
  · rw [List.getElem?_append_left (by omega), header, List.getElem?_take_of_lt (by omega)]
  · rfl

/-- The sealed packet is the command. -/
theorem framed_sealedPayload {payload : List SaneByte} (hpayload : payload.length = dataout) :
    Framed layout cmd dataout datain payload
      (header layout cmd dataout datain ++ sealedPayload payload) := by
  have hcode := layout.code_before
  have hfield := layout.length_inside
  have hhead : (header layout cmd dataout datain).length = layout.cmdHeaderLen := length_header
  have hbody := length_sealedPayload payload
  have hbe : ∀ n, (be16 n).length = 2 := fun n => rfl
  have hzeros : (List.replicate (layout.cmdHeaderLen + dataout) (0 : SaneByte)).length =
      layout.cmdHeaderLen + dataout := List.length_replicate
  have hinner := @length_overwrite _ (List.replicate (layout.cmdHeaderLen + dataout)
    (0 : SaneByte)) 0 (be16 (cmd % 2 ^ 16)) (by rw [hbe]; omega)
  constructor
  · rw [List.length_append, hhead, hbody, hpayload]
  · have htake : ∀ l : List SaneByte, l.take 2 = stretch l 0 2 := fun l => rfl
    rw [htake, stretch_header (by omega), newPacket, stretch_overwrite_before (by omega) (by omega)]
    exact stretch_overwrite (Nat.zero_le _)
  · rw [stretch_header hfield, newPacket]
    exact stretch_overwrite (by omega)
  · intro i h2 hi hout
    have hget : (newPacket layout cmd dataout datain)[i]? =
        (overwrite (List.replicate (layout.cmdHeaderLen + dataout) (0 : SaneByte)) 0
          (be16 (cmd % 2 ^ 16)))[i]? := by
      cases hout with
      | inl hbefore => exact getElem?_overwrite_before (by omega) hbefore
      | inr hafter => exact getElem?_overwrite_after (by omega) (by rw [hbe]; omega)
    rw [List.getElem?_append_left (by omega), header, List.getElem?_take_of_lt hi, hget,
      getElem?_overwrite_after (Nat.zero_le _) (by rw [hbe]; omega),
      List.getElem?_replicate_of_lt (by omega)]
  · rw [← hhead, List.drop_left]
    exact dropLast_sealedPayload payload
  · rw [← hhead, List.drop_left]
    exact sumsToZero_sealedPayload payload

/-! ### Judging a response -/

section Verdict

variable {received tail : List SaneByte} {expected cmdlen : Nat}

/-- The buffer when `received` has come in. -/
def answered (expected cmdlen : Nat) (received tail : List SaneByte) : CmdBuf :=
  ⟨expected, cmdlen, received.length, received ++ tail⟩

/-- What `pixma_check_result` computes from the bytes that were received. -/
def verdict (layout : CmdLayout) (expected : Nat) (received : List SaneByte) : Int :=
  if Intact layout expected received then pixmaMapStatusErrno (statusWord received)
  else PIXMA_EPROTO

theorem pixmaGetBe16_eq (h : 2 ≤ received.length) :
    pixmaGetBe16 (received ++ tail) 0 = .ok (statusWord received) := by
  match received, h with
  | _ :: _ :: _, _ => rfl

theorem pixmaSumBytes_received {i : Nat} (h : i ≤ received.length) :
    pixmaSumBytes (received ++ tail) i (received.length - i) =
      .ok (BitVec.ofNat 8 ((received.drop i).map BitVec.toNat).sum) := by
  have hstretch : stretch (received ++ tail) i (received.length - i) = received.drop i := by
    rw [stretch, List.drop_append_of_le_length h]
    exact List.take_left' List.length_drop
  rw [pixmaSumBytes_eq (by rw [List.length_append]; omega), hstretch]

/-- The answer comes from the bytes that were received, whatever lies behind them. -/
theorem CmdLayout.pixmaCheckResult_eq (hexpected : layout.resHeaderLen ≤ expected) :
    layout.pixmaCheckResult (answered expected cmdlen received tail) =
      .ok (verdict layout expected received) := by
  have hstatus := layout.status_inside
  have hlen : (answered expected cmdlen received tail).reslen.toNat = received.length := rfl
  have hexp : (answered expected cmdlen received tail).expectedReslen = expected := rfl
  have hbuf : (answered expected cmdlen received tail).buf = received ++ tail := rfl
  have hpos : ¬(answered expected cmdlen received tail).reslen < 0 := by
    change ¬((received.length : Int) < 0)
    omega
  unfold pixmaCheckResult
  rw [if_neg hpos, hlen, hexp, hbuf]
  by_cases hshort : layout.resHeaderLen ≤ received.length
  case neg =>
    have hnot : ¬Intact layout expected received := by
      rintro (h | ⟨h, _⟩) <;> omega
    rw [if_neg hshort, verdict, if_neg hnot]
    rfl
  rw [if_pos hshort, pixmaGetBe16_eq (by omega), FaultState.ok_bind, if_pos (by omega)]
  by_cases hfull : received.length = expected
  case pos =>
    rw [if_pos hfull, pixmaSumBytes_received hshort, FaultState.ok_bind]
    have hsum := @ofNat_sum_eq_zero (received.drop layout.resHeaderLen)
    apply congrArg Except.ok
    by_cases hzero : SumsToZero (received.drop layout.resHeaderLen)
    · rw [if_neg (not_not.mpr (hsum.mpr hzero)), verdict, if_pos (.inr ⟨hfull, hzero⟩)]
    · have hnot : ¬Intact layout expected received := by
        rintro (h | ⟨_, h⟩)
        · rw [← h, List.drop_length] at hzero
          exact hzero rfl
        · exact hzero h
      rw [if_pos (fun h => hzero (hsum.mp h)), verdict, if_neg hnot]
  case neg =>
    rw [if_neg hfull]
    apply congrArg Except.ok
    by_cases hhead : received.length = layout.resHeaderLen
    · rw [if_neg (not_not.mpr hhead), verdict, if_pos (.inl hhead)]
    · have hnot : ¬Intact layout expected received := by
        rintro (h | ⟨h, _⟩)
        · exact hhead h
        · exact hfull h
      rw [if_pos hhead, verdict, if_neg hnot]

theorem pixmaMapStatusErrno_eq_zero {status : Nat} :
    pixmaMapStatusErrno status = 0 ↔ status = PIXMA_STATUS_OK := by
  unfold pixmaMapStatusErrno
  split
  case isTrue h => simp [h]
  case isFalse h =>
    refine iff_of_false ?_ h
    split_ifs <;> decide

theorem judges_verdict :
    Judges layout expected received (verdict layout expected received) := by
  constructor
  · intro hfull
    by_cases hzero : SumsToZero (received.drop layout.resHeaderLen)
    · rw [verdict, if_pos (.inr ⟨hfull, hzero⟩), pixmaMapStatusErrno_eq_zero, and_iff_left hzero]
    · have hnot : ¬Intact layout expected received := by
        rintro (h | ⟨_, h⟩)
        · rw [← h, List.drop_length] at hzero
          exact hzero rfl
        · exact hzero h
      rw [verdict, if_neg hnot]
      exact iff_of_false (by decide) fun h => hzero h.2
  · intro hintact hword
    rw [verdict, if_pos hintact, hword]
    rfl
  · intro hintact hword
    rw [verdict, if_pos hintact, hword]
    rfl
  · intro hintact hok hfailed hbusy
    rw [verdict, if_pos hintact, pixmaMapStatusErrno, if_neg hok, if_neg hfailed, if_neg hbusy]
  · intro hnot
    rw [verdict, if_neg hnot]

end Verdict

/-! ### Executing a command -/

/-- What `pixma_cmd_transaction` leaves: an error, or the response in front of the old
    bytes. -/
structure Answered (size : Nat) (mem : List SaneByte) (out : Int × List SaneByte) : Prop where
  length : out.2.length = mem.length
  behind : out.2.drop size = mem.drop size
  reslen : out.1 < 0 ∨ out.1 ≤ size

namespace CmdPipe

variable (io : CmdPipe) {size : Nat} {mem : List SaneByte}

theorem pixmaRead_answered (n : Nat) (hsize : size ≤ mem.length) :
    ∃ out, io.pixmaRead n size mem = .ok out ∧ Answered size mem out := by
  unfold pixmaRead
  cases hread : io.read n size with
  | error e =>
    refine ⟨_, rfl, rfl, rfl, .inl ?_⟩
    dsimp only
    split
    · decide
    · exact e.2
  | ok bytes =>
    have hle := io.read_le hread
    have hstore : storeCells mem 0 bytes = .ok (overwrite mem 0 bytes) := if_pos (by omega)
    refine ⟨(bytes.length, overwrite mem 0 bytes), ?_, ?_, ?_, .inr ?_⟩
    · dsimp only
      rw [hstore, FaultState.ok_bind]
      rfl
    · exact length_overwrite (by omega)
    · rw [overwrite_zero, List.drop_append, List.drop_eq_nil_of_le hle, List.nil_append,
        List.drop_drop]
      congr 1
      omega
    · exact Int.ofNat_le.mpr hle

/-- A later attempt answers like the first one. -/
theorem answered_trans {out last : Int × List SaneByte} (h : Answered size mem out)
    (h' : Answered size out.2 last) : Answered size mem last :=
  ⟨h'.length.trans h.length, h'.behind.trans h.behind, h'.reslen⟩

theorem awaitResponse_answered (tmo : Nat) (hsize : size ≤ mem.length) :
    ∃ out, io.awaitResponse size tmo mem = .ok out ∧ Answered size mem out := by
  induction tmo generalizing mem with
  | zero => exact ⟨_, rfl, rfl, rfl, .inl PIXMA_ETIMEDOUT.2⟩
  | succ tmo ih =>
    obtain ⟨out, hread, hout⟩ := pixmaRead_answered io (tmo + 1) hsize
    unfold awaitResponse
    rw [hread, FaultState.ok_bind]
    dsimp only
    split
    · have hroom : size ≤ out.2.length := by rw [hout.length]; exact hsize
      obtain ⟨last, hlast, hdone⟩ := ih hroom
      exact ⟨last, hlast, answered_trans hout hdone⟩
    · exact ⟨out, rfl, hout⟩

theorem pixmaCmdTransaction_answered {cmdlen : Nat} (hcmd : cmdlen ≤ mem.length)
    (hsize : size ≤ mem.length) :
    ∃ out, io.pixmaCmdTransaction cmdlen size mem = .ok out ∧ Answered size mem out := by
  have hload : loadCells mem 0 cmdlen = .ok (stretch mem 0 cmdlen) := if_pos (by omega)
  unfold pixmaCmdTransaction
  rw [hload, FaultState.ok_bind]
  dsimp only
  split
  · refine ⟨_, rfl, rfl, rfl, .inl ?_⟩
    dsimp only
    split
    · decide
    · omega
  · exact awaitResponse_answered io 8 hsize

end CmdPipe

/-- The outcome of a command: an error of the transaction, or the verdict on the bytes
    that came in. -/
def Concluded (layout : CmdLayout) (expected : Nat) (cb : CmdBuf) (v : Int) : Prop :=
  (cb.reslen < 0 ∧ v = cb.reslen) ∨
    ∃ n : Nat, cb.reslen = n ∧ n ≤ expected ∧ Judges layout expected (cb.buf.take n) v

theorem CmdLayout.pixmaExec_concluded {closed : CmdBuf} (io : CmdPipe)
    (hseal : layout.sealPayload cb = .ok closed) (hroom : layout.size ≤ closed.buf.length)
    (hcmdlen : closed.cmdlen ≤ layout.size)
    (hexpected : layout.resHeaderLen ≤ closed.expectedReslen)
    (hreslen : closed.expectedReslen ≤ layout.size) :
    ∃ v cb', layout.pixmaExec io cb = .ok (v, cb') ∧
      cb'.buf.drop layout.size = closed.buf.drop layout.size ∧
      Concluded layout closed.expectedReslen cb' v := by
  obtain ⟨⟨reslen, buf⟩, hout, hans⟩ := io.pixmaCmdTransaction_answered (hcmdlen.trans hroom)
    (hreslen.trans hroom)
  have hlen : buf.length = closed.buf.length := hans.length
  have hbehind : buf.drop layout.size = closed.buf.drop layout.size := by
    have hsplit : layout.size = closed.expectedReslen + (layout.size - closed.expectedReslen) := by
      omega
    rw [hsplit, ← List.drop_drop, ← List.drop_drop, hans.behind]
  have hexec : ∀ v, layout.pixmaCheckResult { closed with reslen := reslen, buf := buf } = .ok v →
      layout.pixmaExec io cb = .ok (v, { closed with reslen := reslen, buf := buf }) := by
    intro v hv
    unfold pixmaExec
    rw [hseal, FaultState.ok_bind, hout, FaultState.ok_bind]
    dsimp only
    rw [hv]
    rfl
  by_cases hneg : reslen < 0
  · have hcheck : layout.pixmaCheckResult { closed with reslen := reslen, buf := buf } =
        .ok reslen := if_pos hneg
    exact ⟨reslen, _, hexec _ hcheck, hbehind, .inl ⟨hneg, rfl⟩⟩
  · obtain ⟨n, hn⟩ := Int.eq_ofNat_of_zero_le (not_lt.mp hneg)
    have hle : n ≤ closed.expectedReslen := by
      have h : reslen < 0 ∨ reslen ≤ closed.expectedReslen := hans.reslen
      omega
    have htake : (buf.take n).length = n := by
      rw [List.length_take]
      omega
    have hanswered : ({ closed with reslen := reslen, buf := buf } : CmdBuf) =
        answered closed.expectedReslen closed.cmdlen (buf.take n) (buf.drop n) := by
      rw [answered, htake, List.take_append_drop, hn]
    refine ⟨verdict layout closed.expectedReslen (buf.take n),
      { closed with reslen := reslen, buf := buf }, hexec _ ?_, hbehind, .inr ?_⟩
    · rw [hanswered]
      exact pixmaCheckResult_eq hexpected
    · exact ⟨n, hn, hle, judges_verdict⟩

/-- Every command that fits is framed and executed without touching a byte beyond `size`, and
    every response is judged by the bytes that were received. -/
theorem CmdLayout.command_framed (layout : CmdLayout) (cb : CmdBuf) (cmd dataout datain : Nat)
    (payload : List SaneByte) (io : CmdPipe) (hroom : layout.size ≤ cb.buf.length)
    (hout : layout.cmdHeaderLen + dataout ≤ layout.size)
    (hin : layout.resHeaderLen + datain ≤ layout.size) (hpayload : payload.length = dataout) :
    (∃ started closed : CmdBuf,
      layout.pixmaNewcmd cb cmd dataout datain =
        .ok (some (if dataout ≠ 0 then layout.cmdHeaderLen else layout.resHeaderLen, started)) ∧
      started.buf.drop layout.size = cb.buf.drop layout.size ∧
      layout.sealPayload (layout.withPayload started payload) = .ok closed ∧
      closed.buf.drop layout.size = cb.buf.drop layout.size ∧
      Framed layout cmd dataout datain payload (closed.buf.take closed.cmdlen) ∧
      ∃ v cb', layout.pixmaExec io (layout.withPayload started payload) = .ok (v, cb') ∧
        cb'.buf.drop layout.size = cb.buf.drop layout.size ∧
        Concluded layout (layout.resHeaderLen + datain) cb' v) ∧
    ∀ (cmdlen : Nat) (received : List SaneByte), ∃ v,
      Judges layout (layout.resHeaderLen + datain) received v ∧
      ∀ tail, layout.pixmaCheckResult
        (answered (layout.resHeaderLen + datain) cmdlen received tail) = .ok v := by
  have hbehind : ∀ packet : List SaneByte, packet.length = layout.cmdHeaderLen + dataout →
      (overwrite cb.buf 0 packet).drop layout.size = cb.buf.drop layout.size := by
    intro packet hlen
    rw [overwrite_zero, List.drop_append, List.drop_eq_nil_of_le (by omega), List.nil_append,
      List.drop_drop]
    congr 1
    omega
  have hhead : (header layout cmd dataout datain).length = layout.cmdHeaderLen := length_header
  have hmessage : (header layout cmd dataout datain ++ sealedPayload payload).length =
      layout.cmdHeaderLen + dataout := by
    rw [List.length_append, hhead, length_sealedPayload, hpayload]
  have hseal := @sealPayload_eq layout cb cmd dataout datain payload hpayload hroom hout
  have hclosed : (overwrite cb.buf 0
      (header layout cmd dataout datain ++ sealedPayload payload)).length = cb.buf.length :=
    length_overwrite (by omega)
  constructor
  · refine ⟨layout.started cb cmd dataout datain, _, pixmaNewcmd_eq hroom hout hin,
      hbehind _ length_newPacket, hseal, hbehind _ hmessage, ?_, ?_⟩
    · have htake : (overwrite cb.buf 0 (header layout cmd dataout datain ++
          sealedPayload payload)).take (layout.cmdHeaderLen + dataout) =
          header layout cmd dataout datain ++ sealedPayload payload := by
        rw [overwrite_zero, List.take_left' hmessage]
      change Framed _ _ _ _ _ ((overwrite cb.buf 0 _).take (layout.cmdHeaderLen + dataout))
      rw [htake]
      exact framed_sealedPayload hpayload
    · obtain ⟨v, cb', hexec, hdrop, hdone⟩ := layout.pixmaExec_concluded io hseal
        (by rw [hclosed]; exact hroom) hout (Nat.le_add_right _ _) hin
      exact ⟨v, cb', hexec, hdrop.trans (hbehind _ hmessage), hdone⟩
  · intro cmdlen received
    exact ⟨verdict layout (layout.resHeaderLen + datain) received, judges_verdict,
      fun tail => pixmaCheckResult_eq (Nat.le_add_right _ _)⟩

/-- A scanner that takes every packet and answers nothing. -/
def silentPipe : CmdPipe where
  write := fun cmd => cmd.length
  read := fun _ _ => .ok []
  read_le := by
    intro n size bytes h
    cases h
    exact Nat.zero_le _

/-- Four bytes for the scanner: three of data and the checksum. -/
theorem CmdLayout.command_framed_mp730 :
    let cb : CmdBuf := ⟨0, 0, 0, List.replicate 512 0⟩
    ∃ started closed : CmdBuf,
      CmdLayout.mp730.pixmaNewcmd cb 0xef20 4 12 = .ok (some (10, started)) ∧
      CmdLayout.mp730.sealPayload (CmdLayout.mp730.withPayload started [1, 2, 3, 0]) =
        .ok closed ∧
      closed.buf.take closed.cmdlen =
        [0xef, 0x20, 0, 0, 0, 0, 0, 0, 16, 0, 1, 2, 3, 0xfa] ∧
      Framed .mp730 0xef20 4 12 [1, 2, 3, 0] (closed.buf.take closed.cmdlen) ∧
      ∃ v cb', CmdLayout.mp730.pixmaExec silentPipe
          (CmdLayout.mp730.withPayload started [1, 2, 3, 0]) = .ok (v, cb') ∧
        Concluded .mp730 (CmdLayout.mp730.resHeaderLen + 12) cb' v := by
  obtain ⟨cb, hcb, hroom⟩ : ∃ cb : CmdBuf, cb = ⟨0, 0, 0, List.replicate 512 0⟩ ∧
      CmdLayout.mp730.size ≤ cb.buf.length := ⟨_, rfl, by rw [List.length_replicate]; rfl⟩
  dsimp only
  rw [← hcb]
  obtain ⟨⟨started, closed, hnew, -, hseal, -, hframed, v, cb', hexec, -, hdone⟩, -⟩ :=
    CmdLayout.command_framed .mp730 cb 0xef20 4 12 [1, 2, 3, 0] silentPipe hroom (by decide)
      (by decide) rfl
  refine ⟨started, closed, hnew, hseal, ?_, hframed, v, cb', hexec, hdone⟩
  -- the message is what stands in front of the untouched bytes of the buffer
  have hnew' := hnew.symm.trans (CmdLayout.pixmaNewcmd_eq hroom (by decide) (by decide))
  obtain rfl : started = CmdLayout.mp730.started cb 0xef20 4 12 := by
    injection hnew' with hsome
    injection hsome with hpair
    injection hpair
  have hseal' := hseal.symm.trans (CmdLayout.sealPayload_eq rfl hroom (by decide))
  injection hseal' with hclosed
  rw [hclosed]
  show (overwrite cb.buf 0 _).take 14 = _
  rw [overwrite_zero, List.take_left' (by decide)]
  decide

/-- A response of the expected length that reports a failure with a wrong checksum. -/
theorem CmdLayout.failure_garbled :
    ¬∀ received : List SaneByte, received.length = 3 →
      statusWord received = PIXMA_STATUS_FAILED →
      CmdLayout.mp730.pixmaCheckResult (answered 3 10 received []) = .ok PIXMA_ECANCELED.val := by
  intro h
  exact absurd (h [0x15, 0x15, 1] rfl rfl) (by decide)

end SaneBackends.Pixma
