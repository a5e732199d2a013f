import NcpHost.Frame.Basic

/-!
Packets too large for one frame travel in fragments. The first fragment takes what is left over, so
that every later one is full; a first fragment with no room for the command header is sent as raw
bytes. Merging is concatenation of the bodies.
-/

namespace NcpHost

def Frame.bodyLimit : Nat := 247

namespace Fragment

/-- Cuts bytes into pieces of `size`, the last of which may be shorter. -/
def pieces (size : Nat) (bs : List UInt8) : List (List UInt8) :=
  if _h : bs = [] ∨ size = 0 then []
  else bs.take size :: pieces size (bs.drop size)
termination_by bs.length
decreasing_by
  have : bs.length ≠ 0 := by simpa using fun e => _h (Or.inl e)
  simp only [List.length_drop]
  omega

theorem flatten_pieces (size : Nat) (bs : List UInt8) (h : 0 < size) :
    (pieces size bs).flatten = bs := by
  fun_induction pieces size bs with
  | case1 bs hb =>
    rcases hb with rfl | h0
    · rfl
    · omega
  | case2 bs hb ih => simp [ih, List.take_append_drop]

/-- The length of the first fragment of `total` bytes: the remainder, or a full one if none is
left over. -/
def leadLength (total limit : Nat) : Nat :=
  if total % limit = 0 then limit else total % limit

def lead (header : Option CommandHeader) (chunk : List UInt8) : Frame :=
  let packet : Packet :=
    if header.isSome ∧ CommandHeader.length ≤ chunk.length then
      ⟨header, chunk.drop CommandHeader.length⟩
    else .continuation chunk
  .ofPacket packet ⟨Flags.firstMask⟩

/-- The fragments behind the first one; the last of them carries the mark. -/
def followers : List (List UInt8) → List Frame
  | [] => []
  | [chunk] => [.ofPacket (.continuation chunk) ⟨Flags.lastMask⟩]
  | chunk :: rest => .ofPacket (.continuation chunk) .none :: followers rest

/-- Splits a packet into frames with bodies of at most `maxBody` bytes, at least one and at most
`Frame.bodyLimit`. -/
def split (packet : Packet) (maxBody : Nat) : List Frame :=
  let limit := min (max maxBody 1) Frame.bodyLimit
  let body := packet.body
  if body.length ≤ limit then [.single packet]
  else
    let n := leadLength body.length limit
    lead packet.header (body.take n) :: followers (pieces limit (body.drop n))

def joined? : List Frame → Option (List UInt8)
  | [] => some []
  | f :: rest =>
    match f.packet, joined? rest with
    | some p, some bytes => some (p.body ++ bytes)
    | _, _ => none

def merge (fragments : List Frame) : Except FrameFault Packet :=
  if fragments.isEmpty then .error .noFragments
  else
    match joined? fragments with
    | none => .error .fragmentWithoutPacket
    | some body => Packet.decode (Packet.withChecksum body)

end Fragment

end NcpHost
