import SaneBackends.XeroxRead

/-!
# Commands to a Xerox or Samsung scanner

`dev_command` of `backend/xerox_mfp.c`, the functions that wait and cancel, and `sane_start` and
`sane_read` with everything a command may come to: an error of the transport, a response that is
malformed, a scanner that is busy or wants its state to be looked at.  Success and failure go by
three conventions: 0 and 1, a status, and the field `state`.
-/

namespace SaneBackends.XeroxMfp.Commands

/-! ### One command -/

inductive Command where
  | abort | reserveUnit | releaseUnit | setWindow | read | readImage | objectPosition
deriving DecidableEq, Repr

/-- A call of `dev_request`: its status and the bytes it has put into the buffer.  `cancel` tells
    whether the frontend has called `sane_cancel` since the exchange before. -/
structure Exchange where
  cancel : Bool
  status : SaneStatus
  response : List SaneByte
deriving DecidableEq, Repr

def Exchange.byte (x : Exchange) (i : Nat) : Nat := (x.response.getD i 0).toNat

def RES_CODE : Nat := 0xa8
def STATUS_CHECK : Nat := 0x02
def STATUS_CANCEL : Nat := 0x04
def STATUS_BUSY : Nat := 0x08
def MSG_END_BLOCK : Nat := 0x81

/-- `resolv_state`; the statuses for warming up and for a lock are not defined. -/
def resolvState (state : Nat) : SaneStatus :=
  if state &&& 0x020 ≠ 0 then .jammed
  else if state &&& 0x010 ≠ 0 then .noDocs
  else if state &&& 0x040 ≠ 0 then .coverOpen
  else if state &&& 0x200 ≠ 0 then .inval
  else if state &&& 0x080 ≠ 0 then .deviceBusy
  else if state &&& 0x100 ≠ 0 then .jammed
  else if state &&& 0xfffe ≠ 0 then .deviceBusy
  else .good

/-- The state a well-formed response leaves. -/
def Exchange.state (x : Exchange) (cmd : Command) : SaneStatus :=
  match cmd with
  | .setWindow | .objectPosition | .read | .reserveUnit =>
      if x.byte 1 = STATUS_BUSY then .deviceBusy
      else if x.byte 1 = STATUS_CANCEL then .cancelled
      else if x.byte 1 = STATUS_CHECK then
        resolvState
          (if cmd = .read then x.byte 12 <<< 8 ||| x.byte 13 else x.byte 4 <<< 8 ||| x.byte 5)
      else .good
  | .abort | .releaseUnit | .readImage => .good

/-- What `dev_command` makes of the exchange: the new state, or nothing when it fails.  All
    commands here require a response of 32 bytes. -/
def Exchange.answer (x : Exchange) (cmd : Command) : Option SaneStatus :=
  if x.status ≠ .good then none
  else if cmd = .readImage then some .good
  else if x.response.length < 32 then none
  else if x.byte 0 ≠ RES_CODE then none
  else if x.response.length ≠ x.byte 2 + 3 then none
  else some (x.state cmd)

/-- `struct device`; `replies` are the exchanges to come. -/
structure Device extends XeroxMfp.Device where
  nonBlocking : Bool
  cancel : Bool
  reserved : Bool
  allocated : Bool
  state : SaneStatus
  res : List SaneByte
  replies : List Exchange

/-- `dev_command` and `dev_cmd`; nothing when the exchange has not ended. -/
def devCommand (cmd : Command) (dev : Device) : Option (Bool × Device) :=
  match dev.replies with
  | [] => none
  | x :: xs =>
      let dev := { dev with
        replies := xs, cancel := dev.cancel || x.cancel
        res := if cmd = Command.readImage then dev.res else x.response }
      match x.answer cmd with
      | none => some (false, { dev with state := .ioError })
      | some state => some (true, { dev with state := state })

def devStop (dev : Device) : Option (SaneStatus × Device) :=
  if !dev.reserved then some (dev.state, { dev with scanning := false })
  else
    match devCommand .releaseUnit { dev with scanning := false, reserved := false } with
    | none => none
    | some (_, stopped) => some (dev.state, { stopped with state := dev.state })

/-- `ret_cancel`, which returns what it has been given. -/
def retCancel (dev : Device) : Option Device :=
  match devCommand .abort dev with
  | none => none
  | some (_, dev) =>
      if dev.scanning then
        match devStop dev with
        | none => none
        | some (_, dev) => some { dev with state := .cancelled }
      else some dev

def cancelled (dev : Device) : Option (Bool × Device) :=
  match dev.replies with
  | [] => none
  | x :: _ =>
      if dev.cancel || x.cancel then
        match retCancel dev with
        | none => none
        | some dev => some (true, dev)
      else some (false, dev)

/-- The loop of `dev_cmd_wait`. -/
def devCmdWaitLoop (cmd : Command) : Nat → Device → Option (Bool × Device)
  | 0, _ => none
  | fuel + 1, dev =>
      match cancelled dev with
      | none => none
      | some (true, dev) => some (false, dev)
      | some (false, dev) =>
          match devCommand cmd dev with
          | none => none
          | some (false, dev) => some (false, { dev with state := .ioError })
          | some (true, dev) =>
              if dev.state = .good then some (true, dev)
              else if dev.state ≠ .deviceBusy then some (false, dev)
              else if dev.nonBlocking then some (false, { dev with state := .good })
              else devCmdWaitLoop cmd fuel dev

/-- `dev_cmd_wait`; each turn takes an exchange. -/
def devCmdWait (cmd : Command) (dev : Device) : Option (Bool × Device) :=
  devCmdWaitLoop cmd (dev.replies.length + 1) dev

/-! ### A block -/

variable (setup : ScanSetup)

/-- The block that the response to `READ` announces. -/
def Device.announce (dev : Device) : Device :=
  let byte := fun i => (dev.res.getD i 0).toNat
  let horizontal := byte 10 <<< 8 ||| byte 11
  { dev with
    state := .good
    vertical := byte 8 <<< 8 ||| byte 9
    horizontal := horizontal
    blocklen := byte 4 <<< 24 ||| byte 5 <<< 16 ||| byte 6 <<< 8 ||| byte 7
    finalBlock := byte 3 == MSG_END_BLOCK
    bytesPerLine := setup.bytesPerLine horizontal }

/-- `dev_acquire`; the callers test its result for zero. -/
def devAcquire (dev : Device) : Option (Nat × Device) :=
  match devCmdWait .read dev with
  | none => none
  | some (false, dev) => some (dev.state.code, dev)
  | some (true, dev) =>
      let dev := dev.announce setup
      if DATASIZE < dev.bytesPerLine then
        match retCancel dev with
        | none => none
        | some dev => some (SaneStatus.noMem.code, dev)
      else some (1, { dev with reading := false, dataindex := 0, datalen := 0, dataoff := 0 })

/-- How a call ends, if it does; it crashes when it divides by zero. -/
inductive Result where
  | returned (status : SaneStatus) (dev : Device)
  | crashed
  | unfinished

def Result.status : Result → Option SaneStatus
  | .returned status _ => some status
  | .crashed | .unfinished => none

/-- The inner loop of `sane_read`.  A block of `2 ^ 31` bytes and more has a negative length. -/
def fill : List Exchange → Device → Except Result Device
  | xs, dev =>
      let room := usbBlocks (dataroom dev.toDevice)
      if room = 0 ∨ dev.blocklen = 0 then .ok { dev with replies := xs }
      else
        match xs with
        | [] => .error .unfinished
        | x :: xs =>
            if x.status ≠ .good then .error (.returned x.status { dev with replies := xs })
            else
              let bytes := x.response.take room
              let received := { dev with
                toDevice := receive { dev.toDevice with source := bytes } bytes.length
                cancel := dev.cancel || x.cancel }
              if 2 ^ 31 ≤ dev.blocklen ∨ dev.blocklen < bytes.length then
                match retCancel { received with replies := xs } with
                | none => .error .unfinished
                | some dev => .error (.returned .ioError dev)
              else fill xs received

/-- The outer loop of `sane_read`, at most `fuel` times. -/
def readLoop : Nat → Device → Nat → Result
  | 0, _, _ => .unfinished
  | fuel + 1, dev, maxlen =>
      match fill dev.replies dev with
      | .error result => result
      | .ok dev =>
          if dev.bytesPerLine = 0 then .crashed
          else
            let r := copyTrim setup dev.toDevice maxlen
            let dev := { dev with toDevice := dev.toDevice.clear setup r }
            if r.clrlen = 0 ∨ maxlen ≤ r.out.length ∨ dev.blocklen = 0 then .returned .good dev
            else readLoop fuel dev (maxlen - r.out.length)

/-- `sane_read` behind `dev_acquire`. -/
def Device.readBlock (fuel : Nat) (dev : Device) (maxlen : Nat) : Result :=
  if dev.reading then readLoop setup fuel dev maxlen
  else
    match cancelled dev with
    | none => .unfinished
    | some (true, dev) => .returned dev.state dev
    | some (false, dev) =>
        match devCommand .readImage dev with
        | none => .unfinished
        | some (false, dev) => .returned .ioError dev
        | some (true, dev) =>
            readLoop setup fuel { dev with toDevice := readImage dev.toDevice } maxlen

/-- `sane_read`, with a buffer to copy to. -/
def saneRead (fuel : Nat) (dev : Device) (maxlen : Nat) : Result :=
  if !dev.scanning then .returned .eof dev
  else if dev.blocklen = 0 ∧ dev.datalen ≤ PADDING_SIZE then
    if dev.finalBlock then
      if dev.totalOutSize < setup.totalImgSize then
        let n := min (setup.totalImgSize - dev.totalOutSize) maxlen
        .returned .good { dev with totalOutSize := dev.totalOutSize + n }
      else
        match devStop dev with
        | none => .unfinished
        | some (_, dev) => .returned .eof dev
    else
      match devAcquire setup dev with
      | none => .unfinished
      | some (0, dev) => .returned dev.state dev
      | some (_ + 1, dev) => dev.readBlock setup fuel maxlen
  else dev.readBlock setup fuel maxlen

/-! ### The start of a scan -/

/-- The unit is reserved, unless it is already. -/
def reserve (dev : Device) : Option (Bool × Device) :=
  if dev.reserved then some (true, dev)
  else
    match devCmdWait .reserveUnit dev with
    | none => none
    | some (false, dev) => some (false, dev)
    | some (true, dev) => some (true, { dev with reserved := true })

/-- `dev_set_window`; `window` tells whether `fix_window` finds one that is not empty. -/
def devSetWindow (window : Bool) (dev : Device) : Option (Bool × Device) :=
  if window then devCommand .setWindow dev
  else some (false, { dev with state := .inval })

/-- A command has been carried out, or may be tried again. -/
def Device.proceeds (ok : Bool) (dev : Device) : Bool :=
  ok && (dev.state == .good || dev.state == .deviceBusy)

/-- `sane_start` from the first `READ` on; `malloc` tells whether there is memory for the buffer. -/
def startReading (malloc : Bool) (dev : Device) : Option (SaneStatus × Device) :=
  match devCommand .read dev with
  | none => none
  | some (ok, dev) =>
      if !dev.proceeds ok then devStop dev
      else
        let dev := { dev with
          scanning := true, finalBlock := false, blocklen := 0, bytesPerLine := 0, ulines := 0 }
        if !dev.allocated && !malloc then
          match retCancel dev with
          | none => none
          | some dev => some (.noMem, dev)
        else
          match devAcquire setup { dev with allocated := true } with
          | none => none
          | some (0, dev) => some (dev.state, dev)
          | some (_ + 1, dev) => some (.good, dev)

/-- `sane_start` with the unit reserved. -/
def startReserved (window malloc : Bool) (dev : Device) : Option (SaneStatus × Device) :=
  match devSetWindow window dev with
  | none => none
  | some (ok, dev) =>
      if !dev.proceeds ok then devStop dev
      else
        match devCmdWait .objectPosition dev with
        | none => none
        | some (false, dev) => devStop dev
        | some (true, dev) => startReading setup malloc dev

/-- `sane_start`.  The parameters that it computes are those of `setup`. -/
def saneStart (window malloc : Bool) (dev : Device) : Option (SaneStatus × Device) :=
  match reserve { dev with cancel := false, scanning := false, totalOutSize := 0 } with
  | none => none
  | some (false, dev) => some (dev.state, dev)
  | some (true, dev) => startReserved setup window malloc dev

end SaneBackends.XeroxMfp.Commands
