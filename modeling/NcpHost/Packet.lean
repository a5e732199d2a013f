import NcpHost.Checksum
import NcpHost.LittleEndian
import NcpHost.Text.Hex

/-!
Packets: the unit that carries one command, above single frames. A packet is a checksum of two bytes
and a body; the body is a command header of four bytes and the payload, or, in a fragment that
continues a packet, payload alone.

    checksum of the body (2)  version (1)  kind (1)  command id (2)  payload
-/

namespace NcpHost

inductive Kind where
  | request
  | response
  | indication
  deriving DecidableEq, Repr, Inhabited

namespace Kind

def toByte : Kind → UInt8
  | .request => 0
  | .response => 1
  | .indication => 2

def ofByte? (b : UInt8) : Option Kind :=
  if b = 0 then some .request
  else if b = 1 then some .response
  else if b = 2 then some .indication
  else none

def render : Kind → String
  | .request => "REQ"
  | .response => "RSP"
  | .indication => "IND"

def name : Kind → String
  | .request => "Req"
  | .response => "Rsp"
  | .indication => "Ind"

theorem ofByte?_toByte (k : Kind) : ofByte? k.toByte = some k := by
  cases k <;> rfl

theorem toByte_of_ofByte? {b : UInt8} {k : Kind} (h : ofByte? b = some k) : k.toByte = b := by
  unfold ofByte? at h
  split at h
  · next hb => simp_all [← Option.some.inj h, toByte]
  · split at h
    · next hb => simp_all [← Option.some.inj h, toByte]
    · split at h
      · next hb => simp_all [← Option.some.inj h, toByte]
      · simp at h

end Kind

structure CommandHeader where
  version : UInt8
  kind : Kind
  id : UInt16
  deriving DecidableEq, Repr, Inhabited

namespace CommandHeader

def of (kind : Kind) (id : UInt16) : CommandHeader := ⟨0, kind, id⟩

def length : Nat := 4

def encode (h : CommandHeader) : List UInt8 :=
  h.version :: h.kind.toByte :: LittleEndian.bytes 2 h.id.toNat

/-- Two headers name the same command when kind and id agree; the version plays no part. -/
def names (a b : CommandHeader) : Bool := a.kind == b.kind && a.id == b.id

def render (h : CommandHeader) : String :=
  "HlCommonHeader(version=" ++ Hex.byte h.version ++ ", type=" ++ h.kind.render
    ++ ", command_id=" ++ Hex.word h.id ++ ")"

def listing (h : CommandHeader) : String :=
  "HlCommonHeader \x7b version: " ++ toString h.version.toNat ++ ", control_type: " ++ h.kind.name
    ++ ", command_id: " ++ toString h.id.toNat ++ " \x7d"

@[simp] theorem names_self (h : CommandHeader) : h.names h = true := by
  simp [names]

@[simp] theorem length_encode (h : CommandHeader) : h.encode.length = length := by
  simp [encode, length]

end CommandHeader

/-- A packet; one without a header carries the raw bytes of a continued packet. -/
structure Packet where
  header : Option CommandHeader
  payload : List UInt8
  deriving DecidableEq, Repr, Inhabited

namespace Packet

def checksumLength : Nat := 2

def ofHeader (header : CommandHeader) (payload : List UInt8) : Packet := ⟨some header, payload⟩

def continuation (payload : List UInt8) : Packet := ⟨none, payload⟩

def body (p : Packet) : List UInt8 :=
  match p.header with
  | some h => h.encode ++ p.payload
  | none => p.payload

def withChecksum (body : List UInt8) : List UInt8 :=
  LittleEndian.bytes checksumLength (Checksum.crc16 body).toNat ++ body

def encode (p : Packet) : List UInt8 := withChecksum p.body

def encodedLength (p : Packet) : Nat := checksumLength + p.body.length

def render (p : Packet) : String :=
  match p.header with
  | some h => "HlPacket(" ++ h.render ++ ", data=" ++ Hex.ofBytes p.payload ++ ")"
  | none => "HlPacket(data=" ++ Hex.ofBytes p.payload ++ ")"

@[simp] theorem length_withChecksum (body : List UInt8) :
    (withChecksum body).length = checksumLength + body.length := by
  simp [withChecksum]

theorem length_encode (p : Packet) : p.encode.length = p.encodedLength := by
  simp [encode, encodedLength]

end Packet

end NcpHost
