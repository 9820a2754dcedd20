import SaneBackends.XeroxCommands

/-!
# How failures of commands to a Xerox or Samsung scanner are reported

What a wait for the scanner and the start of a scan come to, as a value of its own, beside what
`dev_cmd_wait`, `dev_acquire` and `sane_start` make of it.  `dev_acquire` answers a failure with
the state, which is not zero, and its callers take that for success.
-/

namespace SaneBackends.XeroxMfp.Commands

variable {setup : ScanSetup} {dev dev' : Device} {cmd : Command} {x : Exchange}
  {xs : List Exchange} {window malloc ok : Bool} {status : SaneStatus}

/-! ### What a wait comes to -/

/-- The command has been carried out, it has failed, the scanner is busy and must not be waited
    for, or the scan has been cancelled before the command was sent. -/
inductive Waited where
  | ready (x : Exchange)
  | failed (x : Exchange) (state : SaneStatus)
  | busy (x : Exchange)
  | cancelled
deriving DecidableEq, Repr

/-- The state of the device after a wait. -/
def Waited.apply (dev : Device) (xs : List Exchange) : Waited → Option (Bool × Device)
  | .ready x => some (true,
      { dev with replies := xs, cancel := false, res := x.response, state := .good })
  | .failed x state => some (false,
      { dev with replies := xs, cancel := false, res := x.response, state := state })
  | .busy x => some (false,
      { dev with replies := xs, cancel := false, res := x.response, state := .good })
  | .cancelled => (retCancel { dev with replies := xs }).map fun dev => (false, dev)

/-- What is known of the ends of a wait. -/
def Waited.Sound (cmd : Command) (nonBlocking : Bool) : Waited → Prop
  | .ready x => x.answer cmd = some .good
  | .failed x state => state ≠ .good ∧ x.answer cmd ≠ some .good
  | .busy x => nonBlocking = true ∧ x.answer cmd = some .deviceBusy
  | .cancelled => True

/-- What the start of a scan comes to.  Before the scan a command may be refused, the scanner may
    be busy, or the start may be cancelled, with an answer to `ABORT`. -/
inductive StartEnd where
  | acquired
  | notAcquired
  | noMemory
  | refused
  | busy
  | cancelled (abort : Exchange)
deriving DecidableEq, Repr

/-- The bytes of a line of the block that `x` announces. -/
def lineBytes (setup : ScanSetup) (x : Exchange) : Nat :=
  setup.bytesPerLine (x.byte 10 <<< 8 ||| x.byte 11)

def Exchange.proceeds (x : Exchange) (cmd : Command) : Bool :=
  x.answer cmd == some .good || x.answer cmd == some .deviceBusy

/-- A wait before the scan. -/
def Waited.early (ys : List Exchange) (next : Option StartEnd) : Waited → Option StartEnd
  | .ready _ => next
  | .failed _ _ => some .refused
  | .busy _ => some .busy
  | .cancelled => ys.head?.map .cancelled

/-- No unit is reserved and nothing is scanned. -/
def Device.Cleared (dev : Device) : Prop := dev.scanning = false ∧ dev.reserved = false

/-- The status that `sane_start` returns, and the state it leaves when it fails. -/
def StartEnd.Gives (status : SaneStatus) (dev : Device) : StartEnd → Prop
  | .acquired | .notAcquired | .busy => status = .good
  | .noMemory | .refused => status ≠ .good ∧ dev.Cleared
  | .cancelled x => (status = .good ↔ x.answer .abort ≠ none) ∧ dev.Cleared

/-- The call ends with a status that tells of a failure. -/
def Result.Reports : Result → Prop
  | .returned status _ => status ≠ .good
  | _ => False

/-- The bytes of a transfer into the room that there is. -/
def Exchange.bytes (x : Exchange) (dev : XeroxMfp.Device) : List SaneByte :=
  x.response.take (usbBlocks (dataroom dev))

/-- A response of 32 bytes that begins with these. -/
def response (bytes : List SaneByte) : Exchange :=
  ⟨false, .good, bytes ++ List.replicate (32 - bytes.length) 0⟩

def done : Exchange := response [0xa8, 0, 29]

/-- A device that has not been used, and one that has been left scanning. -/
def idle (replies : List Exchange) : Device where
  scanning := false
  reading := false
  data := fun _ => 0
  datalen := 0
  dataoff := 0
  dataindex := 0
  blocklen := 0
  vertical := 0
  horizontal := 0
  bytesPerLine := 100
  finalBlock := false
  ulines := 0
  yOff := 0
  totalOutSize := 0
  source := []
  blocks := []
  nonBlocking := false
  cancel := false
  reserved := false
  allocated := false
  state := .good
  res := []
  replies := replies

def gray : ScanSetup := ⟨.gray8, false, 100, 100⟩

end SaneBackends.XeroxMfp.Commands
