import SaneBackends.WireState
import SaneBackends.CStrings

/-!
# The binary codec and the composite wire functions

`sanei/sanei_codec_bin.c` and the rest of `sanei/sanei_wire.c`.  One function
serves all three directions: it encodes the value it is given, decodes into it,
or frees what it points to, as `w->direction` says.  Once the wire status is set
the transfers do nothing and leave their value as it was.

The codec functions reach their primitives through the table `w->codec`; the
table is a parameter here, so that the composite functions are those of the
source for any codec.
-/

namespace SaneBackends

open FaultState WordBytes

/-- `w->codec` without its string entry. -/
structure CodecPrims where
  wByte : WireCodecFunc SaneByte
  wChar : WireCodecFunc SaneByte
  wWord : WireCodecFunc SaneWord

/-- `w->codec`. -/
structure Codec extends CodecPrims where
  wString : WireCodecFunc SaneString

def saneiWVoid : WireCodecFunc Unit := fun v => return v

def saneiWByte (codec : CodecPrims) : WireCodecFunc SaneByte := codec.wByte
def saneiWChar (codec : CodecPrims) : WireCodecFunc SaneByte := codec.wChar
def saneiWWord (codec : CodecPrims) : WireCodecFunc SaneWord := codec.wWord
def saneiWString (codec : Codec) : WireCodecFunc SaneString := codec.wString

/-! ### Arrays and pointers -/

/-- The loop that transfers `n` elements from the address of a block on. -/
def arrayLoop {α : Type} (wElement : WireCodecFunc α) : Nat → List α → WireM (List α)
  | 0, xs => return xs
  | _ + 1, [] => throw .outOfBounds
  | n + 1, x :: xs => do
      let x ← wElement x
      if (← wireStatus) ≠ 0 then return x :: xs
      let xs ← arrayLoop wElement n xs
      return x :: xs

/-- The loop that frees `n` elements from the address of a block on.  Past the end
    of the block it goes wrong only for element types whose freeing reads them. -/
def freeLoop {α : Type} [CType α] (wElement : WireCodecFunc α) : Nat → List α → WireM Unit
  | 0, _ => return ()
  | n + 1, [] =>
      if CType.freeReads α then throw .outOfBounds else freeLoop wElement n []
  | n + 1, x :: xs => do
      let _ ← wElement x
      freeLoop wElement n xs

/-- The bound `sanei_w_array` puts on an allocation of `len` elements. -/
def arrayOverLimit (allocated : Int) (len : SaneWord) (elementSize : Nat) : Bool :=
  decide (len.toNat > MAX_MEM) || decide (len.toNat * elementSize > MAX_MEM)
    || decide ((allocated + len.toInt * elementSize) % 2 ^ 64 > MAX_MEM)

/-- How the allocation for a decoded value ends. -/
inductive AllocResult where
  | overLimit
  | noMemory
  | done
deriving DecidableEq, Repr

/-- The allocation in `sanei_w_array`. -/
def arrayAlloc (len : SaneWord) (elementSize : Nat) : WireM AllocResult := do
  if arrayOverLimit (← get).allocatedMemory len elementSize then
    setStatus ENOMEM
    return .overLimit
  if !(← malloc (len.toNat * elementSize)) then
    setStatus ENOMEM
    return .noMemory
  charge (len.toNat * elementSize)
  return .done

/-- `sanei_w_array`; `element_size` is the size of the element type at every call. -/
def saneiWArray {α : Type} [CType α] (codec : CodecPrims) (wElement : WireCodecFunc α)
    (a : SaneArray α) : WireM (SaneArray α) := do
  match ← wireDirection with
  | .free =>
      if a.len = 0 then return a
      match a.v with
      | .null => return a
      | p => do
          let xs ← deref p
          freeLoop wElement a.len.toInt.toNat xs
          release (xs.length * CType.sizeof α) (a.len.toInt * CType.sizeof α)
          return ⟨a.len, .wild⟩
  | .encode =>
      let len ← saneiWWord codec a.len
      if (← wireStatus) ≠ 0 then return a
      if len.toInt ≤ 0 then return a
      let xs ← deref a.v
      let xs ← arrayLoop wElement len.toInt.toNat xs
      return ⟨a.len, .block xs⟩
  | .decode =>
      let len ← saneiWWord codec (← uninitWord)
      if (← wireStatus) ≠ 0 then return a
      if len = 0 then return ⟨len, .null⟩
      match ← arrayAlloc len (CType.sizeof α) with
      | .overLimit => return ⟨len, a.v⟩
      | .noMemory => return ⟨len, .null⟩
      | .done =>
          -- the new block is all zero; a length past the limit, negative ones included,
          -- does not get here
          let xs ← arrayLoop wElement len.toInt.toNat (List.replicate len.toNat CType.zero)
          return ⟨len, .block xs⟩

/-- The allocation in `sanei_w_ptr`: the size of the value is tested, the total is not. -/
def ptrAlloc (valueSize : Nat) : WireM AllocResult := do
  if valueSize > MAX_MEM then
    setStatus ENOMEM
    return .overLimit
  if !(← malloc valueSize) then
    setStatus ENOMEM
    return .noMemory
  chargePtr valueSize
  return .done

/-- `sanei_w_ptr`; `value_size` is the size of the value type at every call. -/
def saneiWPtr {α : Type} [CType α] (codec : CodecPrims) (wValue : WireCodecFunc α)
    (v : Ptr α) : WireM (Ptr α) := do
  match ← wireDirection with
  | .free =>
      match v with
      | .null => return v
      | p => do
          let a ← deref p
          let _ ← wValue a
          release (CType.sizeof α) (CType.sizeof α)
          return .wild
  | .encode =>
      let isNull ← saneiWWord codec (match v with | .null => 1 | _ => 0)
      if (← wireStatus) ≠ 0 then return v
      if isNull ≠ 0 then return v
      let a ← deref v
      let a ← wValue a
      return .block a
  | .decode =>
      let isNull ← saneiWWord codec (← uninitWord)
      if (← wireStatus) ≠ 0 then return v
      if isNull ≠ 0 then return .null
      match ← ptrAlloc (CType.sizeof α) with
      | .overLimit => return v
      | .noMemory => return .null
      | .done =>
          let a ← wValue CType.zero
          return .block a

/-! ### The binary codec -/

/-- What `bin_w_byte` and `bin_w_word` have in common: `n` bytes of room, and then
    store to or load from the buffer. -/
def binTransfer {α : Type} (n : Nat) (store : α → List SaneByte) (load : List SaneByte → α) :
    WireCodecFunc α := fun v => do
  saneiWSpace n
  if (← wireStatus) ≠ 0 then return v
  match ← wireDirection with
  | .encode =>
      putBytes (store v)
      return v
  | .decode =>
      let bs ← getBytes n
      return load bs
  | .free => return v

def binWByte : WireCodecFunc SaneByte := binTransfer 1 (fun b => [b]) (fun bs => bs.headD 0)

def binWWord : WireCodecFunc SaneWord := binTransfer 4 bytesBE ofBytesBE

def binPrims : CodecPrims := ⟨binWByte, binWByte, binWWord⟩

/-- The length `bin_w_string` hands to `sanei_w_array`. -/
def stringLen (s : SaneString) : WireM SaneWord := do
  match ← wireDirection, s with
  | .decode, _ => uninitWord
  | _, .null => return 0
  | _, p => do
      let bs ← deref p
      let n ← ofExcept (strlen bs)
      return BitVec.ofNat 32 (n + 1)

def binWString : WireCodecFunc SaneString := fun s => do
  let len ← stringLen s
  let a ← saneiWArray binPrims binWByte ⟨len, s⟩
  if (← wireDirection) = .decode then
    if a.len = 0 then return .null
    if (← wireStatus) ≠ 0 then return a.v
    let bs ← deref a.v
    return .block (bs.set (a.len.toNat - 1) 0)
  else return a.v

/-- `sanei_codec_bin_init`. -/
def saneiCodecBin : Codec := ⟨binPrims, binWString⟩

/-! ### The structures of `sane.h` -/

section Structures

variable (codec : Codec)

/-- The functions for enumerations and booleans are all the same: they go through a
    word of their own, which is stored back only when decoding. -/
def saneiWEnum : WireCodecFunc SaneWord := fun v => do
  let word ← saneiWWord codec.toCodecPrims v
  if (← wireDirection) = .decode then return word else return v

def saneiWStatus : WireCodecFunc SaneWord := saneiWEnum codec
def saneiWBool : WireCodecFunc SaneWord := saneiWEnum codec
def saneiWConstraintType : WireCodecFunc SaneWord := saneiWEnum codec
def saneiWValueType : WireCodecFunc SaneWord := saneiWEnum codec
def saneiWUnit : WireCodecFunc SaneWord := saneiWEnum codec
def saneiWFrame : WireCodecFunc SaneWord := saneiWEnum codec

def saneiWRange : WireCodecFunc SaneRange := fun v => do
  let min ← saneiWWord codec.toCodecPrims v.min
  let max ← saneiWWord codec.toCodecPrims v.max
  let quant ← saneiWWord codec.toCodecPrims v.quant
  return ⟨min, max, quant⟩

def saneiWDevice : WireCodecFunc SaneDevice := fun v => do
  let name ← saneiWString codec v.name
  let vendor ← saneiWString codec v.vendor
  let model ← saneiWString codec v.model
  let type ← saneiWString codec v.type
  return ⟨name, vendor, model, type⟩

def saneiWDevicePtr : WireCodecFunc (Ptr SaneDevice) :=
  saneiWPtr codec.toCodecPrims (saneiWDevice codec)

/-- Number of pointers before the first NULL of a block of pointers. -/
def ptrListLen {α : Type} : List (Ptr α) → Except Fault Nat
  | [] => .error .outOfBounds
  | .null :: _ => .ok 0
  | _ :: ps => (ptrListLen ps).map (· + 1)

/-- The length `sanei_w_option_descriptor` hands to `sanei_w_array` for a word list. -/
def wordListLen (p : Ptr (List SaneWord)) : WireM SaneWord := do
  match ← wireDirection with
  | .decode => uninitWord
  | _ => do
      let ws ← deref p
      match ws with
      | [] => throw .outOfBounds
      | n :: _ => return n + 1

/-- The length for a string list; the NULL at its end is sent, too. -/
def stringListLen (p : Ptr (List SaneString)) : WireM SaneWord := do
  match ← wireDirection with
  | .decode => uninitWord
  | _ => do
      let ss ← deref p
      let n ← ofExcept (ptrListLen ss)
      return BitVec.ofNat 32 (n + 1)

/-- The `switch` on the constraint type in `sanei_w_option_descriptor`; a type that
    is none of the four is passed over. -/
def wConstraint (constraintType : SaneWord) : WireCodecFunc SaneConstraint := fun c => do
  if constraintType = SANE_CONSTRAINT_RANGE then
    let p ← saneiWPtr codec.toCodecPrims (saneiWRange codec) c.asRange
    return .ofRange p
  else if constraintType = SANE_CONSTRAINT_WORD_LIST then
    let len ← wordListLen c.asWordList
    let a ← saneiWArray codec.toCodecPrims codec.wWord ⟨len, c.asWordList⟩
    return .ofWordList a.v
  else if constraintType = SANE_CONSTRAINT_STRING_LIST then
    let len ← stringListLen c.asStringList
    let a ← saneiWArray codec.toCodecPrims codec.wString ⟨len, c.asStringList⟩
    return .ofStringList a.v
  else return c

def saneiWOptionDescriptor : WireCodecFunc SaneOptionDescriptor := fun v => do
  let name ← saneiWString codec v.name
  let title ← saneiWString codec v.title
  let desc ← saneiWString codec v.desc
  let type ← saneiWValueType codec v.type
  let unit ← saneiWUnit codec v.unit
  let size ← saneiWWord codec.toCodecPrims v.size
  let cap ← saneiWWord codec.toCodecPrims v.cap
  let constraintType ← saneiWConstraintType codec v.constraintType
  let constraint ← wConstraint codec constraintType v.constraint
  return ⟨name, title, desc, type, unit, size, cap, constraintType, constraint⟩

def saneiWOptionDescriptorPtr : WireCodecFunc (Ptr SaneOptionDescriptor) :=
  saneiWPtr codec.toCodecPrims (saneiWOptionDescriptor codec)

def saneiWParameters : WireCodecFunc SaneParameters := fun v => do
  let format ← saneiWFrame codec v.format
  let lastFrame ← saneiWBool codec v.lastFrame
  let bytesPerLine ← saneiWWord codec.toCodecPrims v.bytesPerLine
  let pixelsPerLine ← saneiWWord codec.toCodecPrims v.pixelsPerLine
  let lines ← saneiWWord codec.toCodecPrims v.lines
  let depth ← saneiWWord codec.toCodecPrims v.depth
  return ⟨format, lastFrame, bytesPerLine, pixelsPerLine, lines, depth⟩

end Structures

/-! ### Flushing, directions and whole operations -/

def flush : WireM Unit := do
  match ← wireDirection with
  | .encode => saneiWSpace ((← get).buffer.size + 1)
  | .decode => modify fun w => { w with buffer := { w.buffer with curr := 0, endp := 0 } }
  | .free => return ()

def saneiWSetDir (dir : WireDirection) : WireM Unit := do
  flush
  modify fun w => { w with direction := dir }
  flush

def clearStatus : WireM Unit := modify fun w => { w with status := 0 }

def saneiWCall {α β : Type} (codec : Codec) (procnum : SaneWord)
    (wArg : WireCodecFunc α) (arg : α) (wReply : WireCodecFunc β) (reply : β) : WireM β := do
  clearStatus
  saneiWSetDir .encode
  let _ ← saneiWWord codec.toCodecPrims procnum
  let _ ← wArg arg
  if (← wireStatus) ≠ 0 then return reply
  saneiWSetDir .decode
  wReply reply

def saneiWReply {α : Type} (wReply : WireCodecFunc α) (reply : α) : WireM α := do
  clearStatus
  saneiWSetDir .encode
  let reply ← wReply reply
  flush
  return reply

def saneiWFree {α : Type} (wReply : WireCodecFunc α) (reply : α) : WireM α := do
  let savedDir ← wireDirection
  modify fun w => { w with direction := .free }
  let reply ← wReply reply
  modify fun w => { w with direction := savedDir }
  return reply

/-- `sanei_w_init`: the wire a connection starts with. -/
def saneiWInit (io : WireIo) (mallocs : List Bool) (junk : SaneWord) : Wire where
  version := 0
  direction := .encode
  status := 0
  allocatedMemory := 0
  buffer := ⟨8192, List.replicate 8192 0, 0, 8192⟩
  io := io
  heap := ⟨mallocs, 0, false⟩
  junk := junk

end SaneBackends
