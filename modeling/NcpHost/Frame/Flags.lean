import NcpHost.Text.Hex

/-!
The flags byte of a frame header: four marks and two two-bit sequence numbers.

    bit  7     6      5 4        3 2         1           0
         last  first  ack number own number  retransmit  acknowledgement
-/

namespace NcpHost

structure Flags where
  bits : UInt8
  deriving DecidableEq, Repr, Inhabited

namespace Flags

def ackMask : UInt8 := 0x01
def retransmitMask : UInt8 := 0x02
def packetSeqMask : UInt8 := 0x0C
def ackSeqMask : UInt8 := 0x30
def firstMask : UInt8 := 0x40
def lastMask : UInt8 := 0x80

/-- No mark set and both numbers zero: a fragment from the middle of a packet. -/
def none : Flags := ⟨0⟩

/-- A packet that travels in one frame is its own first and last fragment. -/
def single : Flags := ⟨firstMask ||| lastMask⟩

def isAck (f : Flags) : Bool := f.bits &&& ackMask != 0

def isRetransmit (f : Flags) : Bool := f.bits &&& retransmitMask != 0

def isFirst (f : Flags) : Bool := f.bits &&& firstMask != 0

def isLast (f : Flags) : Bool := f.bits &&& lastMask != 0

def packetSeq (f : Flags) : UInt8 := (f.bits &&& packetSeqMask) >>> 2

def ackSeq (f : Flags) : UInt8 := (f.bits &&& ackSeqMask) >>> 4

def withPacketSeq (f : Flags) (seq : UInt8) : Flags :=
  ⟨(f.bits &&& ~~~packetSeqMask) ||| ((seq <<< 2) &&& packetSeqMask)⟩

def withAckSeq (f : Flags) (seq : UInt8) : Flags :=
  ⟨(f.bits &&& ~~~ackSeqMask) ||| ((seq <<< 4) &&& ackSeqMask)⟩

def withMask (f : Flags) (mask : UInt8) : Flags := ⟨f.bits ||| mask⟩

def render (f : Flags) : String := Hex.byte f.bits

theorem packetSeq_withPacketSeq (f : Flags) (seq : UInt8) :
    (f.withPacketSeq seq).packetSeq = seq &&& 3 := by
  apply UInt8.eq_of_toBitVec_eq
  ext i hi
  have : i = 0 ∨ i = 1 ∨ i = 2 ∨ i = 3 ∨ i = 4 ∨ i = 5 ∨ i = 6 ∨ i = 7 := by omega
  rcases this with rfl | rfl | rfl | rfl | rfl | rfl | rfl | rfl <;>
    simp [withPacketSeq, packetSeq, packetSeqMask]

theorem ackSeq_withAckSeq (f : Flags) (seq : UInt8) :
    (f.withAckSeq seq).ackSeq = seq &&& 3 := by
  apply UInt8.eq_of_toBitVec_eq
  ext i hi
  have : i = 0 ∨ i = 1 ∨ i = 2 ∨ i = 3 ∨ i = 4 ∨ i = 5 ∨ i = 6 ∨ i = 7 := by omega
  rcases this with rfl | rfl | rfl | rfl | rfl | rfl | rfl | rfl <;>
    simp [withAckSeq, ackSeq, ackSeqMask]

theorem and_replaced (bits new mask other : UInt8) (h : other &&& mask = 0) :
    ((bits &&& ~~~mask) ||| (new &&& mask)) &&& other = bits &&& other := by
  have h' : other.toBitVec &&& mask.toBitVec = 0 := by
    simpa using congrArg UInt8.toBitVec h
  apply UInt8.eq_of_toBitVec_eq
  ext i hi
  have hb : (other.toBitVec &&& mask.toBitVec)[i] = false := by simp [h']
  simp only [BitVec.getElem_and, Bool.and_eq_false_iff] at hb
  rcases hb with hm | hp
  · simp [hm]
  · simp [hp]

theorem and_withPacketSeq (f : Flags) (seq mask : UInt8) (h : mask &&& packetSeqMask = 0) :
    (f.withPacketSeq seq).bits &&& mask = f.bits &&& mask :=
  and_replaced f.bits (seq <<< 2) packetSeqMask mask h

theorem and_withAckSeq (f : Flags) (seq mask : UInt8) (h : mask &&& ackSeqMask = 0) :
    (f.withAckSeq seq).bits &&& mask = f.bits &&& mask :=
  and_replaced f.bits (seq <<< 4) ackSeqMask mask h

theorem isAck_withPacketSeq (f : Flags) (seq : UInt8) :
    (f.withPacketSeq seq).isAck = f.isAck := by
  simp only [isAck, and_withPacketSeq f seq ackMask rfl]

theorem isFirst_withPacketSeq (f : Flags) (seq : UInt8) :
    (f.withPacketSeq seq).isFirst = f.isFirst := by
  simp only [isFirst, and_withPacketSeq f seq firstMask rfl]

theorem isLast_withPacketSeq (f : Flags) (seq : UInt8) :
    (f.withPacketSeq seq).isLast = f.isLast := by
  simp only [isLast, and_withPacketSeq f seq lastMask rfl]

end Flags

end NcpHost
