import NcpHost.Checksum
import NcpHost.Frame.Flags
import NcpHost.LittleEndian

/-!
The header in front of every frame: seven bytes, numbers least significant byte first.

    signature (2)  size (2)  frame type (1)  flags (1)  checksum of the four bytes before it (1)

The size counts everything behind the signature, so it is the body's length plus five.
-/

namespace NcpHost

structure FrameHeader where
  signature : UInt16
  size : UInt16
  frameType : UInt8
  flags : Flags
  crc8 : UInt8
  deriving DecidableEq, Repr, Inhabited

namespace FrameHeader

/-- Every frame starts with the bytes `DE AD`. -/
def signatureValue : UInt16 := 0xADDE

def packetType : UInt8 := 0x06

def length : Nat := 7

/-- What the size field counts besides the body. -/
def overhead : Nat := 5

/-- A header for a body of `bodyLength` bytes whose checksum is still to be filled in. -/
def forBody (bodyLength : Nat) (flags : Flags) : FrameHeader where
  signature := signatureValue
  size := (bodyLength + overhead).toUInt16
  frameType := packetType
  flags := flags
  crc8 := 0

/-- The body's length, zero for a size below the overhead. -/
def bodyLength (h : FrameHeader) : Nat := h.size.toNat - overhead

def checked (h : FrameHeader) : List UInt8 :=
  LittleEndian.bytes 2 h.size.toNat ++ [h.frameType, h.flags.bits]

def expectedCrc8 (h : FrameHeader) : UInt8 := Checksum.crc8 h.checked

def sealed (h : FrameHeader) : FrameHeader := { h with crc8 := h.expectedCrc8 }

def encode (h : FrameHeader) : List UInt8 :=
  LittleEndian.bytes 2 h.signature.toNat ++ h.checked ++ [h.crc8]

def render (h : FrameHeader) : String :=
  "LlHeader(signature=" ++ Hex.word h.signature ++ ", size=" ++ Hex.word h.size
    ++ ", frame_type=" ++ Hex.byte h.frameType ++ ", flags=" ++ h.flags.render
    ++ ", crc8=" ++ Hex.byte h.crc8 ++ ")"

@[simp] theorem length_encode (h : FrameHeader) : h.encode.length = length := by
  simp [encode, checked, length]

end FrameHeader

end NcpHost
