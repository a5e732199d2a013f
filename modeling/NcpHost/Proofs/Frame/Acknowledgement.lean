import NcpHost.Proofs.Frame.Stream

/-! The acknowledgement of a frame, as its far end reads it: a frame of its own that echoes the number
of the one that it acknowledges. A stream may carry such frames between all others; the far end tells
them apart. -/

namespace NcpHost

namespace Flags

theorem packetSeq_and_three (f : Flags) : f.packetSeq &&& 3 = f.packetSeq := by
  apply UInt8.eq_of_toBitVec_eq
  ext i hi
  have : i = 0 ∨ i = 1 ∨ i = 2 ∨ i = 3 ∨ i = 4 ∨ i = 5 ∨ i = 6 ∨ i = 7 := by omega
  rcases this with rfl | rfl | rfl | rfl | rfl | rfl | rfl | rfl <;>
    simp [packetSeq, packetSeqMask]

end Flags

namespace Frame

theorem ack_isAck (seq : UInt8) : (ack seq false).isAck = true := by
  have h := Flags.and_withAckSeq ⟨Flags.ackMask⟩ seq Flags.ackMask rfl
  have h' : Flags.ackMask &&& Flags.ackMask ≠ 0 := by decide
  simpa [isAck, ack, FrameHeader.sealed, FrameHeader.forBody, Flags.isAck, h] using h'

theorem ack_wellFormed (seq : UInt8) : (ack seq false).WellFormed := by
  refine ⟨FrameHeader.sealed_valid rfl ?_, ?_⟩
  · simp [FrameHeader.forBody, FrameHeader.overhead]
  · rw [if_pos (ack_isAck seq)]
    rfl

def echo (f : Frame) : Frame := ack f.header.flags.packetSeq false

theorem ackSeq_echo (f : Frame) : f.echo.header.flags.ackSeq = f.header.flags.packetSeq := by
  simp only [echo, ack, FrameHeader.sealed, FrameHeader.forBody, Bool.false_eq_true, if_false]
  rw [Flags.ackSeq_withAckSeq, Flags.packetSeq_and_three]

def EchoedBy (f : Frame) (bytes : List UInt8) : Prop :=
  ∃ a, decode bytes = .ok (a, bytes.length) ∧ a.isAck = true
    ∧ a.header.flags.isRetransmit = false ∧ a.header.flags.ackSeq = f.header.flags.packetSeq

theorem echoedBy_echo (f : Frame) : f.EchoedBy f.echo.encode := by
  have hd := decode_complete (ack_wellFormed f.header.flags.packetSeq) []
  rw [List.append_nil] at hd
  refine ⟨_, hd, ack_isAck _, ?_, ackSeq_echo f⟩
  have h := Flags.and_withAckSeq ⟨Flags.ackMask⟩ f.header.flags.packetSeq Flags.retransmitMask rfl
  have h' : Flags.ackMask &&& Flags.retransmitMask = 0 := by decide
  simpa [ack, FrameHeader.sealed, FrameHeader.forBody, Flags.isRetransmit, h] using h'

/-- The stream is what was written, in order, with acknowledgements between. -/
inductive Carries : List (List UInt8) → List UInt8 → Prop where
  | nil : Carries [] []
  | data {written : List (List UInt8)} {stream : List UInt8} (bytes : List UInt8) :
    Carries written stream → Carries (written ++ [bytes]) (stream ++ bytes)
  | ack {written : List (List UInt8)} {stream : List UInt8} (seq : UInt8) :
    Carries written stream → Carries written (stream ++ (ack seq false).encode)

theorem Carries.append {written : List (List UInt8)} {stream : List UInt8}
    (h : Carries written stream) (more : List (List UInt8)) :
    Carries (written ++ more) (stream ++ more.flatten) := by
  induction more generalizing written stream with
  | nil => simpa using h
  | cons bytes more ih => simpa using ih (h.data bytes)

theorem Carries.frames {written : List (List UInt8)} {stream : List UInt8}
    (h : Carries written stream) {data : List Frame} (hdata : written = data.map encode)
    (hformed : ∀ f ∈ data,
      f.WellFormed ∧ f.isAck = false ∧ f.header.frameType = FrameHeader.packetType) :
    ∃ frames : List Frame, stream = frames.flatMap encode ∧ frames.filter (!·.isAck) = data
      ∧ ∀ f ∈ frames, f.WellFormed ∧ f.header.frameType = FrameHeader.packetType := by
  induction h generalizing data with
  | nil =>
    obtain rfl := List.map_eq_nil_iff.mp hdata.symm
    exact ⟨[], rfl, rfl, fun f hf => absurd hf List.not_mem_nil⟩
  | data bytes _ ih =>
    -- the bytes that were written last are those of the last frame
    obtain ⟨earlier, last, rfl, hearlier, hlast⟩ := List.map_eq_append_iff.mp hdata.symm
    obtain ⟨g, rfl, hg⟩ := List.map_eq_singleton_iff.mp hlast
    obtain ⟨hwell, hack, htype⟩ := hformed g (by simp)
    obtain ⟨frames, rfl, hfilter, hall⟩ :=
      ih hearlier.symm fun f hf => hformed f (List.mem_append_left _ hf)
    refine ⟨frames ++ [g], ?_, ?_, ?_⟩
    · rw [List.flatMap_append, List.flatMap_singleton, hg]
    · simp [hfilter, hack]
    · intro f hf
      rcases List.mem_append.mp hf with hm | hm
      · exact hall f hm
      · rw [List.mem_singleton.mp hm]
        exact ⟨hwell, htype⟩
  | ack seq _ ih =>
    obtain ⟨frames, rfl, hfilter, hall⟩ := ih hdata hformed
    refine ⟨frames ++ [Frame.ack seq false], ?_, ?_, ?_⟩
    · rw [List.flatMap_append, List.flatMap_singleton]
    · simp [hfilter, ack_isAck]
    · intro f hf
      rcases List.mem_append.mp hf with hm | hm
      · exact hall f hm
      · rw [List.mem_singleton.mp hm]
        exact ⟨ack_wellFormed seq, rfl⟩

theorem Carries.feed {stream : List UInt8} {data : List Frame}
    (h : Carries (data.map encode) stream)
    (hformed : ∀ f ∈ data,
      f.WellFormed ∧ f.isAck = false ∧ f.header.frameType = FrameHeader.packetType)
    {chunks : List (List UInt8)} (hc : chunks.flatten = stream) :
    (Stream.feed [] chunks).1.filter (!·.isAck) = data := by
  obtain ⟨frames, hstream, hfilter, hall⟩ := h.frames rfl hformed
  rw [Stream.feed_encode hall (hc.trans hstream), hfilter]

end Frame

end NcpHost
