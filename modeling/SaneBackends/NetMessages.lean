import SaneBackends.WireCodec

/-!
# The messages of the network protocol

`sanei/sanei_net.c`: the requests and replies that `saned` and the net backend
exchange, as compositions of the wire functions.  An option value has no type of
its own; `value_type` and `value_size`, which are sent before it, tell how it is
transferred.
-/

namespace SaneBackends

open FaultState

/-- What the `void *value` of an option points to. -/
inductive OptionValue where
  | null
  | wild
  | words (ws : List SaneWord)
  | chars (cs : List SaneByte)
  | voids (us : List Unit)
deriving DecidableEq, Repr

def OptionValue.asWords : OptionValue → Ptr (List SaneWord)
  | .null => .null
  | .words ws => .block ws
  | _ => .wild

def OptionValue.asChars : OptionValue → Ptr (List SaneByte)
  | .null => .null
  | .chars cs => .block cs
  | _ => .wild

def OptionValue.asVoids : OptionValue → Ptr (List Unit)
  | .null => .null
  | .voids us => .block us
  | _ => .wild

def OptionValue.ofWords : Ptr (List SaneWord) → OptionValue
  | .null => .null
  | .wild => .wild
  | .block ws => .words ws

def OptionValue.ofChars : Ptr (List SaneByte) → OptionValue
  | .null => .null
  | .wild => .wild
  | .block cs => .chars cs

def OptionValue.ofVoids : Ptr (List Unit) → OptionValue
  | .null => .null
  | .wild => .wild
  | .block us => .voids us

/-- The pointer is stored back; one that has not changed points to what it did. -/
def OptionValue.putWords (value : OptionValue) (p : Ptr (List SaneWord)) : OptionValue :=
  if p = value.asWords then value else .ofWords p

def OptionValue.putChars (value : OptionValue) (p : Ptr (List SaneByte)) : OptionValue :=
  if p = value.asChars then value else .ofChars p

def OptionValue.putVoids (value : OptionValue) (p : Ptr (List Unit)) : OptionValue :=
  if p = value.asVoids then value else .ofVoids p

structure SaneInitReq where
  versionCode : SaneWord
  username : SaneString
deriving DecidableEq, Repr

structure SaneInitReply where
  status : SaneWord
  versionCode : SaneWord
deriving DecidableEq, Repr

structure SaneGetDevicesReply where
  status : SaneWord
  deviceList : Ptr (List (Ptr SaneDevice))
deriving DecidableEq, Repr

structure SaneOpenReply where
  status : SaneWord
  handle : SaneWord
  resourceToAuthorize : SaneString
deriving DecidableEq, Repr

/-- `num_options` and `desc` are the length and the pointer of a counted array. -/
abbrev SaneOptionDescriptorArray := SaneArray (Ptr SaneOptionDescriptor)

structure SaneControlOptionReq where
  handle : SaneWord
  option : SaneWord
  action : SaneWord
  valueType : SaneWord
  valueSize : SaneWord
  value : OptionValue
deriving DecidableEq, Repr

structure SaneControlOptionReply where
  status : SaneWord
  info : SaneWord
  valueType : SaneWord
  valueSize : SaneWord
  value : OptionValue
  resourceToAuthorize : SaneString
deriving DecidableEq, Repr

structure SaneGetParametersReply where
  status : SaneWord
  params : SaneParameters
deriving DecidableEq, Repr

structure SaneStartReply where
  status : SaneWord
  port : SaneWord
  byteOrder : SaneWord
  resourceToAuthorize : SaneString
deriving DecidableEq, Repr

structure SaneAuthorizationReq where
  resource : SaneString
  username : SaneString
  password : SaneString
deriving DecidableEq, Repr

section Messages

variable (codec : Codec)

def saneiWInitReq : WireCodecFunc SaneInitReq := fun req => do
  let versionCode ← saneiWWord codec.toCodecPrims req.versionCode
  let username ← saneiWString codec req.username
  return ⟨versionCode, username⟩

def saneiWInitReply : WireCodecFunc SaneInitReply := fun reply => do
  let status ← saneiWStatus codec reply.status
  let versionCode ← saneiWWord codec.toCodecPrims reply.versionCode
  return ⟨status, versionCode⟩

/-- The length `sanei_w_get_devices_reply` hands to `sanei_w_array`. -/
def deviceListLen (p : Ptr (List (Ptr SaneDevice))) : WireM SaneWord := do
  match ← wireDirection, p with
  | .decode, _ => uninitWord
  | _, .null => return 0
  | _, p => do
      let ds ← deref p
      let n ← ofExcept (ptrListLen ds)
      return BitVec.ofNat 32 (n + 1)

def saneiWGetDevicesReply : WireCodecFunc SaneGetDevicesReply := fun reply => do
  let len ← deviceListLen reply.deviceList
  let status ← saneiWStatus codec reply.status
  let a ← saneiWArray codec.toCodecPrims (saneiWDevicePtr codec) ⟨len, reply.deviceList⟩
  return ⟨status, a.v⟩

def saneiWOpenReply : WireCodecFunc SaneOpenReply := fun reply => do
  let status ← saneiWStatus codec reply.status
  let handle ← saneiWWord codec.toCodecPrims reply.handle
  let resource ← saneiWString codec reply.resourceToAuthorize
  return ⟨status, handle, resource⟩

/-- `SANE_TYPE_BOOL`, `SANE_TYPE_INT` and `SANE_TYPE_FIXED` values are words. -/
abbrev IsWordType (type : SaneWord) : Prop :=
  type = SANE_TYPE_BOOL ∨ type = SANE_TYPE_INT ∨ type = SANE_TYPE_FIXED

/-- `SANE_TYPE_BUTTON` and `SANE_TYPE_GROUP` options have no value. -/
abbrev IsVoidType (type : SaneWord) : Prop :=
  type = SANE_TYPE_BUTTON ∨ type = SANE_TYPE_GROUP

def wOptionValue (type size : SaneWord) : WireCodecFunc OptionValue := fun value => do
  if IsWordType type then
    let a ← saneiWArray codec.toCodecPrims (saneiWWord codec.toCodecPrims)
      ⟨size.sdiv 4, value.asWords⟩
    return value.putWords a.v
  else if type = SANE_TYPE_STRING then
    let a ← saneiWArray codec.toCodecPrims (saneiWChar codec.toCodecPrims)
      ⟨size, value.asChars⟩
    return value.putChars a.v
  else if IsVoidType type then
    let a ← saneiWArray codec.toCodecPrims saneiWVoid ⟨0, value.asVoids⟩
    return value.putVoids a.v
  else
    setStatus EINVAL
    return value

def saneiWOptionDescriptorArray : WireCodecFunc SaneOptionDescriptorArray :=
  saneiWArray codec.toCodecPrims (saneiWOptionDescriptorPtr codec)

/-- `sanei_w_control_option_req`.  From version 3 of the protocol on, nothing of the
    value is transferred for `SANE_ACTION_SET_AUTO`. -/
def saneiWControlOptionReq : WireCodecFunc SaneControlOptionReq := fun req => do
  let handle ← saneiWWord codec.toCodecPrims req.handle
  let option ← saneiWWord codec.toCodecPrims req.option
  let action ← saneiWWord codec.toCodecPrims req.action
  if (← wireVersion) < 3 ∨ action ≠ SANE_ACTION_SET_AUTO then
    let valueType ← saneiWWord codec.toCodecPrims req.valueType
    let valueSize ← saneiWWord codec.toCodecPrims req.valueSize
    let value ← wOptionValue codec valueType valueSize req.value
    return ⟨handle, option, action, valueType, valueSize, value⟩
  else
    return ⟨handle, option, action, req.valueType, req.valueSize, req.value⟩

def saneiWControlOptionReply : WireCodecFunc SaneControlOptionReply := fun reply => do
  let status ← saneiWStatus codec reply.status
  let info ← saneiWWord codec.toCodecPrims reply.info
  let valueType ← saneiWWord codec.toCodecPrims reply.valueType
  let valueSize ← saneiWWord codec.toCodecPrims reply.valueSize
  let value ← wOptionValue codec valueType valueSize reply.value
  let resource ← saneiWString codec reply.resourceToAuthorize
  return ⟨status, info, valueType, valueSize, value, resource⟩

def saneiWGetParametersReply : WireCodecFunc SaneGetParametersReply := fun reply => do
  let status ← saneiWStatus codec reply.status
  let params ← saneiWParameters codec reply.params
  return ⟨status, params⟩

def saneiWStartReply : WireCodecFunc SaneStartReply := fun reply => do
  let status ← saneiWStatus codec reply.status
  let port ← saneiWWord codec.toCodecPrims reply.port
  let byteOrder ← saneiWWord codec.toCodecPrims reply.byteOrder
  let resource ← saneiWString codec reply.resourceToAuthorize
  return ⟨status, port, byteOrder, resource⟩

def saneiWAuthorizationReq : WireCodecFunc SaneAuthorizationReq := fun req => do
  let resource ← saneiWString codec req.resource
  let username ← saneiWString codec req.username
  let password ← saneiWString codec req.password
  return ⟨resource, username, password⟩

end Messages

end SaneBackends
