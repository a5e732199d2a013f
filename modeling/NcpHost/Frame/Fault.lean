import NcpHost.Frame.Header
import NcpHost.Packet

/-!
Why bytes are refused as a frame or packet, one cause each, and the wording of every cause.
-/

namespace NcpHost

inductive FrameFault where
  | headerTruncated (available : Nat)
  | wrongSignature (got : UInt16)
  | headerChecksum (header : FrameHeader)
  | sizeTooSmall (size : UInt16)
  | bodyTruncated (need available : Nat)
  | packetTooShort (available : Nat)
  | bodyChecksum (carried computed : UInt16)
  | commandHeaderTruncated (available : Nat)
  | unknownKind (value : UInt8)
  | noFragments
  | fragmentWithoutPacket
  deriving DecidableEq, Repr

namespace FrameFault

def message : FrameFault → String
  | headerTruncated n => s!"truncated low-level header: {n} bytes"
  | wrongSignature got =>
    "expected frame to start with signature " ++ Hex.word FrameHeader.signatureValue ++ ", got "
      ++ Hex.word got
  | headerChecksum h =>
    "invalid frame checksum for " ++ h.render ++ ": expected " ++ Hex.byte h.crc8 ++ ", got "
      ++ Hex.byte h.expectedCrc8
  | sizeTooSmall size => s!"size field {size} is below the header minimum"
  | bodyTruncated need n => s!"frame body truncated: need {need} bytes, have {n}"
  | packetTooShort n => s!"high-level packet too short: {n} bytes"
  | bodyChecksum carried computed =>
    "CRC16 mismatch: expected " ++ Hex.word carried ++ ", got " ++ Hex.word computed
  | commandHeaderTruncated n => s!"truncated high-level header: {n} bytes"
  | unknownKind value => "unknown control type " ++ Hex.byte value
  | noFragments => "no fragments to reassemble"
  | fragmentWithoutPacket => "fragment without packet"

end FrameFault

end NcpHost
