import NcpHost.Frame.Basic

/-!
Frames out of a stream of bytes. What does not look like a frame (wrong signature, checksum, type or
size) is skipped up to the next place where a signature may start, so noise costs no more than the
frame it hit. `next` takes the first frame out of a buffer, `drain` all of them, one after the
other.
-/

namespace NcpHost.Stream

inductive Head where
  | frame (frame : Frame) (used : Nat)
  | incomplete
  | garbage
  deriving DecidableEq, Repr

def holds (n : Nat) (buffer : List UInt8) : Bool := (buffer.take n).length == n

/-- Looks at the start of a buffer. The header's own checksum is tested first, so that a corrupted
size never stalls the stream. -/
def look (buffer : List UInt8) : Head :=
  if !holds FrameHeader.length buffer then .incomplete
  else
    match FrameHeader.decode buffer with
    | .error _ => .garbage
    | .ok header =>
      if header.frameType ≠ FrameHeader.packetType then .garbage
      else if !header.flags.isAck && !holds (header.size.toNat + 2) buffer then .incomplete
      else
        match Frame.decode buffer with
        | .error _ => .garbage
        | .ok (frame, used) => .frame frame used

/-- What is left from the first place where a signature may start: the pair `DE AD`, or a final `DE`
whose partner may still arrive. -/
def seek : List UInt8 → List UInt8
  | [] => []
  | b :: rest =>
    if b = 0xDE ∧ (rest = [] ∨ rest.head? = some 0xAD) then b :: rest else seek rest

theorem seek_suffix (bs : List UInt8) : seek bs <:+ bs := by
  induction bs with
  | nil => exact List.suffix_refl _
  | cons b rest ih =>
    unfold seek
    split
    · exact List.suffix_refl _
    · exact ih.trans (List.suffix_cons b rest)

theorem length_seek_le (bs : List UInt8) : (seek bs).length ≤ bs.length :=
  (seek_suffix bs).length_le

theorem length_le_of_holds {n : Nat} {buffer : List UInt8} (h : holds n buffer = true) :
    n ≤ buffer.length := by
  simp only [holds, List.length_take, beq_iff_eq] at h
  omega

theorem holds_of_look_ne {buffer : List UInt8} (h : look buffer ≠ .incomplete) :
    holds FrameHeader.length buffer = true := by
  by_cases hb : holds FrameHeader.length buffer = true
  · exact hb
  · simp [look, hb] at h

theorem length_resync_lt {buffer : List UInt8} (h : look buffer = .garbage) :
    (seek buffer.tail).length < buffer.length := by
  have hb := length_le_of_holds (holds_of_look_ne (show look buffer ≠ .incomplete by simp [h]))
  have hs := length_seek_le buffer.tail
  simp only [List.length_tail, FrameHeader.length] at *
  omega

theorem used_pos_of_decode {bs : List UInt8} {frame : Frame} {used : Nat}
    (h : Frame.decode bs = .ok (frame, used)) : 0 < used := by
  unfold Frame.decode at h
  split at h
  · simp at h
  · split at h
    · simp only [Except.ok.injEq, Prod.mk.injEq] at h
      simp [← h.2, FrameHeader.length]
    · dsimp only at h
      split at h
      · simp at h
      · split at h <;> simp only [Except.ok.injEq, Prod.mk.injEq, reduceCtorEq] at h
        rw [← h.2, FrameHeader.length]
        omega

theorem used_pos_of_look {buffer : List UInt8} {frame : Frame} {used : Nat}
    (h : look buffer = .frame frame used) : 0 < used := by
  unfold look at h
  split at h
  · simp at h
  · split at h
    · simp at h
    · split at h
      · simp at h
      · split at h
        · simp at h
        · split at h
          · simp at h
          · next hd =>
            simp only [Head.frame.injEq] at h
            exact h.2 ▸ used_pos_of_decode hd

theorem length_rest_lt {buffer : List UInt8} {frame : Frame} {used : Nat}
    (h : look buffer = .frame frame used) : (buffer.drop used).length < buffer.length := by
  have hb := length_le_of_holds (holds_of_look_ne (show look buffer ≠ .incomplete by simp [h]))
  have hu := used_pos_of_look h
  simp only [List.length_drop, FrameHeader.length] at *
  omega

def next (buffer : List UInt8) : Option Frame × List UInt8 :=
  match _h : look buffer with
  | .frame frame used => (some frame, buffer.drop used)
  | .incomplete => (none, buffer)
  | .garbage => next (seek buffer.tail)
termination_by buffer.length
decreasing_by exact length_resync_lt _h

def drain (buffer : List UInt8) : List Frame × List UInt8 :=
  match _h : look buffer with
  | .frame frame used =>
    let (frames, left) := drain (buffer.drop used)
    (frame :: frames, left)
  | .incomplete => ([], buffer)
  | .garbage => drain (seek buffer.tail)
termination_by buffer.length
decreasing_by
  · exact length_rest_lt _h
  · exact length_resync_lt _h

theorem drain_eq (buffer : List UInt8) :
    drain buffer = match next buffer with
      | (some frame, rest) => (frame :: (drain rest).1, (drain rest).2)
      | (none, rest) => ([], rest) := by
  fun_induction next buffer with
  | case1 buffer frame used h => rw [drain]; split <;> simp_all
  | case2 buffer h => rw [drain]; split <;> simp_all
  | case3 buffer h ih => rw [drain, ← ih]; split <;> simp_all

end NcpHost.Stream
