import SaneBackends.SaneTypes
import SaneBackends.FaultState
import SaneBackends.Overwrite

/-!
# The wire: state, buffer and `sanei_w_space`

`sanei/sanei_wire.c` moves values between memory and a byte stream through one
buffer.  This module holds the `Wire` structure and the function every transfer
starts with, `sanei_w_space`, which makes room for (or fetches) a number of bytes.

The functions `io.read`, `io.write` and `malloc` belong to the environment.
Their outcomes are scripts in the state: each call takes the next outcome from
its script, and a call after the script has run out does all it was asked to do.
What `io.write` has accepted is `io.sent`; what the peer has sent and `io.read`
has not delivered yet is `io.inbound`.
-/

namespace SaneBackends

open FaultState WordBytes Overwrite

/-- Behaviour the C language leaves undefined. -/
inductive Fault where
  | nullPointer
  | wildPointer
  | outOfBounds
deriving DecidableEq, Repr

inductive WireDirection where
  | encode
  | decode
  | free
deriving DecidableEq, Repr

/-- An error number; never zero, so it can be told from a good wire status. -/
abbrev Errno := { e : Nat // e ≠ 0 }

def EINVAL : Errno := ⟨22, by decide⟩
def ENOMEM : Errno := ⟨12, by decide⟩

def MAX_MEM : Nat := 1024 * 1024

/-- Outcome of one `io.write` call: at most `n` bytes are accepted, or it fails. -/
inductive WriteResult where
  | accept (n : Nat)
  | fail (e : Errno)
deriving DecidableEq, Repr

/-- Outcome of one `io.read` call: at most `n` bytes are delivered, or it fails. -/
inductive ReadResult where
  | deliver (n : Nat)
  | fail (e : Errno)
deriving DecidableEq, Repr

structure WireIo where
  sent : List SaneByte
  inbound : List SaneByte
  writes : List WriteResult
  reads : List ReadResult
deriving DecidableEq, Repr

/-- `w->buffer`: the memory from `start` on, and the two pointers into it as
    offsets from `start`. -/
structure WireBuffer where
  size : Nat
  mem : List SaneByte
  curr : Nat
  endp : Nat
deriving DecidableEq, Repr

/-- The heap as far as the wire code uses it.  `live` is the number of bytes
    allocated and not freed; `ptrOverrun` records that `sanei_w_ptr` has allocated
    past `MAX_MEM`.  No code reads these two, they only speak about it. -/
structure WireHeap where
  mallocs : List Bool
  live : Int
  ptrOverrun : Bool
deriving DecidableEq, Repr

/-- `struct Wire`.  `junk` is what an uninitialised `SANE_Word` on the stack holds. -/
structure Wire where
  version : Int
  direction : WireDirection
  status : Nat
  allocatedMemory : Int
  buffer : WireBuffer
  io : WireIo
  heap : WireHeap
  junk : SaneWord
deriving DecidableEq, Repr

abbrev WireM := FaultM Wire Fault

/-- `WireCodecFunc`: takes the value its argument points to and returns the value
    found there afterwards. -/
abbrev WireCodecFunc (α : Type) := α → WireM α

/-- A C `int` holds its value modulo 2^32. -/
def wrap32 (x : Int) : Int := (x + 2 ^ 31) % 2 ^ 32 - 2 ^ 31

/-! ### The two loops of `sanei_w_space` -/

structure WriteRun where
  script : List WriteResult
  accepted : List SaneByte
  error : Option Errno
deriving DecidableEq, Repr

/-- `while (nbytes > 0)`: hand the bytes to `io.write` until all are accepted. -/
def writeLoop : List WriteResult → List SaneByte → WriteRun
  | ws, [] => ⟨ws, [], none⟩
  | [], bs => ⟨[], bs, none⟩
  | .fail e :: ws, _ => ⟨ws, [], some e⟩
  | .accept n :: ws, bs =>
      let r := writeLoop ws (bs.drop n)
      ⟨r.script, bs.take n ++ r.accepted, r.error⟩

structure ReadRun where
  script : List ReadResult
  inbound : List SaneByte
  held : List SaneByte
  error : Option Errno
deriving DecidableEq, Repr

/-- `do … while (left_over < howmuch)`: append what `io.read` delivers to the bytes
    held in the buffer.  Nothing delivered means end of file and counts as `EINVAL`. -/
def readLoop (size howmuch : Nat) :
    List ReadResult → List SaneByte → List SaneByte → ReadRun
  | [], inbound, held =>
      let k := min (size - held.length) inbound.length
      -- the script is exhausted: one read delivers all that fits, the next one nothing
      if k = 0 then ⟨[], inbound, held, some EINVAL⟩
      else if held.length + k < howmuch then
        ⟨[], inbound.drop k, held ++ inbound.take k, some EINVAL⟩
      else ⟨[], inbound.drop k, held ++ inbound.take k, none⟩
  | .fail e :: rs, inbound, held => ⟨rs, inbound, held, some e⟩
  | .deliver n :: rs, inbound, held =>
      let k := min n (min (size - held.length) inbound.length)
      if k = 0 then ⟨rs, inbound, held, some EINVAL⟩
      else if held.length + k < howmuch then
        readLoop size howmuch rs (inbound.drop k) (held ++ inbound.take k)
      else ⟨rs, inbound.drop k, held ++ inbound.take k, none⟩

/-- The `WIRE_ENCODE` case: drain the buffer.  On an error `curr` stays where the
    last accepted write left it. -/
def Wire.drain (w : Wire) : Wire :=
  let r := writeLoop w.io.writes (w.buffer.mem.take w.buffer.curr)
  let io := { w.io with sent := w.io.sent ++ r.accepted, writes := r.script }
  match r.error with
  | some e =>
      { w with
        io := io
        status := e
        buffer := { w.buffer with curr := r.accepted.length } }
  | none =>
      { w with
        io := io
        buffer := { w.buffer with curr := 0, endp := w.buffer.size } }

/-- The `WIRE_DECODE` case: move what is left to the front and read on behind it. -/
def Wire.refill (w : Wire) (howmuch : Nat) : Wire :=
  if w.buffer.endp < w.buffer.curr then w  -- "buffer underflow"
  else
    let leftOver := (w.buffer.mem.drop w.buffer.curr).take (w.buffer.endp - w.buffer.curr)
    let r := readLoop w.buffer.size howmuch w.io.reads w.io.inbound leftOver
    { w with
      io := { w.io with inbound := r.inbound, reads := r.script }
      status := match r.error with
        | some e => e
        | none => w.status
      buffer :=
        { w.buffer with
          mem := overwrite w.buffer.mem 0 r.held
          curr := 0
          endp := r.held.length } }

/-- `sanei_w_space`. -/
def Wire.space (w : Wire) (howmuch : Nat) : Wire :=
  if w.status ≠ 0 then w
  else if w.buffer.curr + howmuch ≤ w.buffer.endp then w
  else
    match w.direction with
    | .encode => w.drain
    | .decode => w.refill howmuch
    | .free => w

/-! ### Reading and changing the wire -/

def wireStatus : WireM Nat := do return (← get).status

def wireDirection : WireM WireDirection := do return (← get).direction

/-- The version of the protocol in use. -/
def wireVersion : WireM Int := do return (← get).version

/-- The value of an uninitialised local variable. -/
def uninitWord : WireM SaneWord := do return (← get).junk

def setStatus (e : Errno) : WireM Unit := modify fun w => { w with status := e }

def saneiWSpace (howmuch : Nat) : WireM Unit := modify fun w => w.space howmuch

/-- Store bytes at `curr` and move `curr` past them. -/
def putBytes (bs : List SaneByte) : WireM Unit := do
  let w ← get
  if w.buffer.curr + bs.length > w.buffer.size then throw .outOfBounds
  set { w with
    buffer :=
      { w.buffer with
        mem := overwrite w.buffer.mem w.buffer.curr bs
        curr := w.buffer.curr + bs.length } }

/-- Read `n` bytes at `curr` and move `curr` past them. -/
def getBytes (n : Nat) : WireM (List SaneByte) := do
  let w ← get
  if w.buffer.curr + n > w.buffer.size then throw .outOfBounds
  set { w with buffer := { w.buffer with curr := w.buffer.curr + n } }
  return (w.buffer.mem.drop w.buffer.curr).take n

/-- `malloc (n)`; the result tells whether a block was returned. -/
def malloc (n : Nat) : WireM Bool := do
  let w ← get
  match w.heap.mallocs with
  | [] =>
      set { w with heap := { w.heap with live := w.heap.live + n } }
      return true
  | ok :: rest =>
      let live := if ok then w.heap.live + n else w.heap.live
      set { w with heap := { w.heap with mallocs := rest, live := live } }
      return ok

/-- `w->allocated_memory += n`. -/
def charge (n : Nat) : WireM Unit := modify fun w =>
  { w with allocatedMemory := wrap32 (w.allocatedMemory + n) }

/-- The same in `sanei_w_ptr`, where no bound on the total is enforced; past the
    bound the allocation is recorded. -/
def chargePtr (n : Nat) : WireM Unit := modify fun w =>
  { w with
    allocatedMemory := wrap32 (w.allocatedMemory + n)
    heap :=
      { w.heap with
        ptrOverrun := w.heap.ptrOverrun || decide (w.allocatedMemory + n > MAX_MEM) } }

/-- `free` of a block of `held` bytes, and `w->allocated_memory -= charged`. -/
def release (held : Nat) (charged : Int) : WireM Unit := modify fun w =>
  { w with
    allocatedMemory := wrap32 (w.allocatedMemory - charged)
    heap := { w.heap with live := w.heap.live - held } }

/-- A C library function on memory, run as part of a wire operation. -/
def ofExcept {α : Type} : Except Fault α → WireM α
  | .ok a => pure a
  | .error e => throw e

/-- Follow a pointer. -/
def deref {α : Type} : Ptr α → WireM α
  | .null => throw .nullPointer
  | .wild => throw .wildPointer
  | .block a => pure a

end SaneBackends
