import NcpHost.Frame.Fault

/-!
Physical frames: a header and, unless the frame is an acknowledgement, one packet. `encode` and
`decode` are the two directions of the wire format; `decode` says how many bytes the frame took and
leaves the rest alone.
-/

namespace NcpHost

/-- Reads a frame header: signature first, then the checksum, then the size. The frame type is left
to the reader of the stream. -/
def FrameHeader.decode : List UInt8 → Except FrameFault FrameHeader
  | s₀ :: s₁ :: n₀ :: n₁ :: type :: flags :: check :: _ =>
    let header : FrameHeader :=
      { signature := (LittleEndian.value [s₀, s₁]).toUInt16
        size := (LittleEndian.value [n₀, n₁]).toUInt16
        frameType := type
        flags := ⟨flags⟩
        crc8 := check }
    if header.signature ≠ signatureValue then .error (.wrongSignature header.signature)
    else if header.expectedCrc8 ≠ header.crc8 then .error (.headerChecksum header)
    else if header.size.toNat < overhead then .error (.sizeTooSmall header.size)
    else .ok header
  | bs => .error (.headerTruncated bs.length)

def CommandHeader.decode : List UInt8 → Except FrameFault CommandHeader
  | version :: kind :: i₀ :: i₁ :: _ =>
    match Kind.ofByte? kind with
    | some k => .ok ⟨version, k, (LittleEndian.value [i₀, i₁]).toUInt16⟩
    | none => .error (.unknownKind kind)
  | bs => .error (.commandHeaderTruncated bs.length)

def Packet.dropChecksum : List UInt8 → Except FrameFault (List UInt8)
  | c₀ :: c₁ :: body =>
    let carried := (LittleEndian.value [c₀, c₁]).toUInt16
    let computed := Checksum.crc16 body
    if carried = computed then .ok body else .error (.bodyChecksum carried computed)
  | bs => .error (.packetTooShort bs.length)

def Packet.decode (bs : List UInt8) : Except FrameFault Packet :=
  match Packet.dropChecksum bs with
  | .error fault => .error fault
  | .ok body =>
    match CommandHeader.decode body with
    | .error fault => .error fault
    | .ok header => .ok (.ofHeader header (body.drop CommandHeader.length))

def Packet.decodeContinuation (bs : List UInt8) : Except FrameFault Packet :=
  match Packet.dropChecksum bs with
  | .error fault => .error fault
  | .ok body => .ok (.continuation body)

/-- A frame header and the packet it carries; acknowledgements carry none. -/
structure Frame where
  header : FrameHeader
  packet : Option Packet
  deriving DecidableEq, Repr, Inhabited

namespace Frame

/-- A frame around a packet. Sequence numbers and the header checksum are set on sending. -/
def ofPacket (packet : Packet) (flags : Flags) : Frame :=
  ⟨.forBody packet.encodedLength flags, some packet⟩

def single (packet : Packet) : Frame := ofPacket packet .single

def ack (seq : UInt8) (retransmit : Bool) : Frame :=
  let flags := (Flags.mk Flags.ackMask).withAckSeq seq
  let flags := if retransmit then flags.withMask Flags.retransmitMask else flags
  ⟨(FrameHeader.forBody 0 flags).sealed, none⟩

def isAck (f : Frame) : Bool := f.header.flags.isAck

def stamp (f : Frame) (seq : UInt8) : Frame :=
  { f with header := { f.header with flags := f.header.flags.withPacketSeq seq }.sealed }

def encode (f : Frame) : List UInt8 :=
  match f.packet with
  | some p => f.header.encode ++ p.encode
  | none => f.header.encode

/-- Whether the packet behind this header opens with a command header. It does in the first fragment
of a packet, except where the fragment has no room for one. -/
def opensCommand (h : FrameHeader) : Bool :=
  h.flags.isFirst
    && (h.flags.isLast || Packet.checksumLength + CommandHeader.length ≤ h.bodyLength)

def decode (bs : List UInt8) : Except FrameFault (Frame × Nat) :=
  match FrameHeader.decode bs with
  | .error fault => .error fault
  | .ok header =>
    if header.flags.isAck then .ok (⟨header, none⟩, FrameHeader.length)
    else
      let stop := FrameHeader.length + header.bodyLength
      let body := (bs.drop FrameHeader.length).take header.bodyLength
      if body.length < header.bodyLength then .error (.bodyTruncated stop bs.length)
      else
        let packet := if opensCommand header then Packet.decode body
          else Packet.decodeContinuation body
        match packet with
        | .error fault => .error fault
        | .ok packet => .ok (⟨header, some packet⟩, stop)

def render (f : Frame) : String :=
  match f.packet with
  | some p => "Frame(" ++ f.header.render ++ ", " ++ p.render ++ ")"
  | none => "Frame(" ++ f.header.render ++ ")"

end Frame

end NcpHost
