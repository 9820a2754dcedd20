import SaneBackends.NetFormats
import SaneBackends.WireRoundTrip

/-!
# The message types of the network protocol

Everything that `saned` and the net backend pass to `sanei_w_call`, `sanei_w_reply`
or a decoder: the messages of `sanei_net.c`, the void message, and the values of
the wire types.  One statement about `MessageType.wMessage` is a statement about
each of these functions.
-/

namespace SaneBackends

open FaultState WordBytes

inductive MessageType where
  | void
  | initReq
  | initReply
  | getDevicesReply
  | openReply
  | controlOptionReq
  | controlOptionReply
  | getParametersReply
  | startReply
  | authorizationReq
  | wire (t : WireType)
deriving DecidableEq, Repr

namespace MessageType

/-- A message in memory. -/
@[reducible] def Val : MessageType → Type
  | .void => Unit
  | .initReq => SaneInitReq
  | .initReply => SaneInitReply
  | .getDevicesReply => SaneGetDevicesReply
  | .openReply => SaneOpenReply
  | .controlOptionReq => SaneControlOptionReq
  | .controlOptionReply => SaneControlOptionReply
  | .getParametersReply => SaneGetParametersReply
  | .startReply => SaneStartReply
  | .authorizationReq => SaneAuthorizationReq
  | .wire t => t.Val

/-- A message on the wire. -/
@[reducible] def Msg : MessageType → Type
  | .void => Unit
  | .initReq => SaneWord × List SaneByte
  | .initReply => SaneInitReply
  | .getDevicesReply => SaneWord × List (PtrMsg DeviceMsg)
  | .openReply => SaneWord × SaneWord × List SaneByte
  | .controlOptionReq => ControlOptionReqMsg
  | .controlOptionReply => ControlOptionReplyMsg
  | .getParametersReply => SaneGetParametersReply
  | .startReply => SaneWord × SaneWord × SaneWord × List SaneByte
  | .authorizationReq => List SaneByte × List SaneByte × List SaneByte
  | .wire t => t.Msg

def wMessage (codec : Codec) : (m : MessageType) → WireCodecFunc m.Val
  | .void => saneiWVoid
  | .initReq => saneiWInitReq codec
  | .initReply => saneiWInitReply codec
  | .getDevicesReply => saneiWGetDevicesReply codec
  | .openReply => saneiWOpenReply codec
  | .controlOptionReq => saneiWControlOptionReq codec
  | .controlOptionReply => saneiWControlOptionReply codec
  | .getParametersReply => saneiWGetParametersReply codec
  | .startReply => saneiWStartReply codec
  | .authorizationReq => saneiWAuthorizationReq codec
  | .wire t => t.wValue codec

def format (ver : Int) : (m : MessageType) → WireFormat m.Val m.Msg
  | .void => voidFormat
  | .initReq => initReqFormat
  | .initReply => initReplyFormat
  | .getDevicesReply => getDevicesReplyFormat
  | .openReply => openReplyFormat
  | .controlOptionReq => controlOptionReqFormat ver
  | .controlOptionReply => controlOptionReplyFormat
  | .getParametersReply => getParametersReplyFormat
  | .startReply => startReplyFormat
  | .authorizationReq => authorizationReqFormat
  | .wire t => t.format

theorem format_lawful (ver : Int) (m : MessageType) : (m.format ver).Lawful := by
  cases m with
  | void => exact WireFormat.fixed_lawful _
  | initReq => exact initReqFormat_lawful
  | initReply => exact initReplyFormat_lawful
  | getDevicesReply => exact getDevicesReplyFormat_lawful
  | openReply => exact openReplyFormat_lawful
  | controlOptionReq => exact controlOptionReqFormat_lawful ver
  | controlOptionReply => exact controlOptionReplyFormat_lawful
  | getParametersReply => exact getParametersReplyFormat_lawful
  | startReply => exact startReplyFormat_lawful
  | authorizationReq => exact authorizationReqFormat_lawful
  | wire t => exact t.format_lawful

theorem wMessage_implements (ver : Int) (m : MessageType) :
    Implements ver (m.wMessage saneiCodecBin) (m.format ver) := by
  cases m with
  | void => exact saneiWVoid_implements
  | initReq => exact saneiWInitReq_implements
  | initReply => exact saneiWInitReply_implements
  | getDevicesReply => exact saneiWGetDevicesReply_implements
  | openReply => exact saneiWOpenReply_implements
  | controlOptionReq => exact saneiWControlOptionReq_implements
  | controlOptionReply => exact saneiWControlOptionReply_implements
  | getParametersReply => exact saneiWGetParametersReply_implements
  | startReply => exact saneiWStartReply_implements
  | authorizationReq => exact saneiWAuthorizationReq_implements
  | wire t => exact t.wValue_implements ver

end MessageType

end SaneBackends
