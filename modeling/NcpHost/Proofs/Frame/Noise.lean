import NcpHost.Proofs.Frame.Damage
import NcpHost.Proofs.Frame.Stream

/-! Noise costs no more than the frame it hits. Between the intact frames of a stream there may be
bytes without a signature, or a frame with one byte off; taking out frames passes over either kind
of gap and lands on the next intact frame. -/

namespace NcpHost

/-- Reading the frame's own bytes gives it back, and it is of the type that carries packets. -/
structure Frame.Intact (f : Frame) : Prop where
  decode : Frame.decode f.encode = .ok (f, f.encode.length)
  type : f.header.frameType = FrameHeader.packetType

theorem Frame.Intact.wellFormed {f : Frame} (h : f.Intact) : f.WellFormed :=
  (Frame.decode_sound h.decode).1

namespace Stream

/-- What may stand between two frames. A damaged frame may still start with the signature. -/
inductive Gap : List UInt8 → Prop where
  | noise {bytes : List UInt8} : ¬signature <:+: bytes → Gap bytes
  | damaged {f : Frame} {bytes : List UInt8} :
    f.Intact → OneByteOff f.encode bytes → ¬signature <:+: bytes.tail → Gap bytes

/-- A stream of intact frames with a gap in front of each and behind the last. -/
inductive Noisy : List UInt8 → List Frame → Prop where
  | gap {bytes : List UInt8} : Gap bytes → Noisy bytes []
  | frame {bytes rest : List UInt8} {f : Frame} {frames : List Frame} :
    Gap bytes → f.Intact → Noisy rest frames → Noisy (bytes ++ (f.encode ++ rest)) (f :: frames)

theorem signature_of_wellFormed {f : Frame} (hf : f.WellFormed) (rest : List UInt8) :
    signature <+: f.encode ++ rest := by
  have hh : signature <+: f.header.encode := by
    rw [hf.header.encode_eq, signature_bytes]
    exact List.prefix_append _ _
  unfold Frame.encode
  split
  · rw [List.append_assoc]
    exact hh.trans (List.prefix_append _ _)
  · exact hh.trans (List.prefix_append _ _)

theorem seek_noise {bytes : List UInt8} (h : ¬signature <:+: bytes) {rest : List UInt8}
    (hr : signature <+: rest) : seek (bytes ++ rest) = rest := by
  induction bytes with
  | nil => exact seek_of_signature hr
  | cons b bytes ih =>
    have htail : ¬signature <:+: bytes := fun hi => h (hi.trans (List.suffix_cons b bytes).isInfix)
    rcases seek_cons_cases b (bytes ++ rest) with ⟨-, he | hsig⟩ | ⟨hs, -⟩
    · have hnil := (List.append_eq_nil_iff.mp he).2
      rw [hnil] at hr
      exact absurd (List.prefix_nil.mp hr) (by decide)
    · obtain ⟨tail, ht⟩ := hsig
      cases bytes with
      | nil =>
        -- the gap ends in half a signature, and the frame behind it starts with a whole one
        obtain ⟨other, rfl⟩ := hr
        exact absurd (List.cons.inj (List.cons.inj ht).2).1 (by decide)
      | cons c bytes =>
        obtain ⟨rfl, hr'⟩ := List.cons.inj ht
        obtain ⟨rfl, -⟩ := List.cons.inj hr'
        exact absurd (List.prefix_append [0xDE, 0xAD] bytes).isInfix h
    · rw [List.cons_append, hs]
      exact ih htail

theorem length_seek_noise {bytes : List UInt8} (h : ¬signature <:+: bytes) :
    (seek bytes).length ≤ 1 := by
  induction bytes with
  | nil => exact Nat.zero_le 1
  | cons b bytes ih =>
    have htail : ¬signature <:+: bytes := fun hi => h (hi.trans (List.suffix_cons b bytes).isInfix)
    rcases seek_cons_cases b bytes with ⟨hs, rfl | hsig⟩ | ⟨hs, -⟩
    · rw [hs]
      exact Nat.le_refl 1
    · exact absurd hsig.isInfix h
    · rw [hs]
      exact ih htail

theorem drain_noise {bytes : List UInt8} (h : ¬signature <:+: bytes) : (drain bytes).1 = [] := by
  have hl := length_seek_noise h
  rw [(drain_agree_seek bytes).1, drain_of_incomplete (look_of_short (by
    rw [FrameHeader.length]
    omega))]

theorem look_damaged {f : Frame} (hf : f.Intact) {bytes : List UInt8}
    (hd : OneByteOff f.encode bytes) (rest : List UInt8) : look (bytes ++ rest) = .garbage := by
  obtain ⟨fault, hfault⟩ := Frame.decode_damaged hf.wellFormed hd rest
  rcases Frame.header_of_damaged hf.wellFormed hd rest with ⟨cause, hcause⟩ | ⟨p, body, hp, hb, rfl⟩
  · refine look_of_fault ?_ hcause
    have hl : FrameHeader.length ≤ f.encode.length := by
      unfold Frame.encode
      split <;> simp
    rw [List.length_append, hd.length_eq]
    omega
  · have hheader := FrameHeader.decode_complete hf.wellFormed.header (body ++ rest)
    rw [← List.append_assoc] at hheader
    have ha := hf.wellFormed.isAck_of_packet hp
    have hlen := hd.length_eq
    rw [hf.wellFormed.length_encode ha] at hlen
    have hshort : holds FrameHeader.length (f.header.encode ++ body ++ rest) = true := by
      rw [holds_iff, List.length_append, hlen]
      omega
    have hwhole : holds (f.header.size.toNat + 2) (f.header.encode ++ body ++ rest) = true := by
      rw [holds_size_iff hf.wellFormed.header, List.length_append, hlen]
      omega
    simp only [look, hshort, hheader, hf.type, hwhole, hfault, Bool.not_true, Bool.and_false,
      Bool.false_eq_true, ne_eq, not_true_eq_false, if_false]

theorem drain_gap {bytes : List UInt8} (hg : Gap bytes) {rest : List UInt8}
    (hr : signature <+: rest) : (drain (bytes ++ rest)).1 = (drain rest).1 := by
  cases hg with
  | noise h => rw [(drain_agree_seek (bytes ++ rest)).1, seek_noise h hr]
  | damaged hf hd h =>
    have hne : bytes ≠ [] := by
      rintro rfl
      have := hd.length_eq
      have hsig := signature_of_wellFormed hf.wellFormed []
      rw [List.append_nil, List.eq_nil_of_length_eq_zero this.symm] at hsig
      exact absurd (List.prefix_nil.mp hsig) (by decide)
    rw [drain_of_garbage (look_damaged hf hd rest), List.tail_append_of_ne_nil hne,
      seek_noise h hr]

theorem drain_last_gap {bytes : List UInt8} (hg : Gap bytes) : (drain bytes).1 = [] := by
  cases hg with
  | noise h => exact drain_noise h
  | damaged hf hd h =>
    have hl := look_damaged hf hd []
    rw [List.append_nil] at hl
    rw [drain_of_garbage hl, ← (drain_agree_seek bytes.tail).1]
    exact drain_noise h

/-- The intact frames of a noisy stream come out, in order, and nothing else does, whether the
stream is there as a whole or arrives in chunks. -/
theorem drain_noisy {bytes : List UInt8} {frames : List Frame} (h : Noisy bytes frames) :
    (drain bytes).1 = frames
      ∧ ∀ chunks : List (List UInt8), chunks.flatten = bytes → (feed [] chunks).1 = frames := by
  have hdrain : (drain bytes).1 = frames := by
    induction h with
    | gap hg => exact drain_last_gap hg
    | frame hg hf _ ih =>
      rw [drain_gap hg (signature_of_wellFormed hf.wellFormed _), drain_encode hf.wellFormed hf.type, ih]
  refine ⟨hdrain, fun chunks hc => ?_⟩
  have hfeed := (feed_agree (look_of_short (by decide) : look [] = .incomplete) chunks).1
  rw [hfeed, List.nil_append, hc, hdrain]

/-- Noise that ends in half a signature, and a frame whose body has a byte off. -/
theorem drain_noisy_two_gaps :
    let a := (Frame.single (.ofHeader (.of .response 4) [10, 1, 0, 1])).stamp 1
    let b := (Frame.single (.ofHeader (.of .indication 0x2B) [0xDE])).stamp 2
    let stream := [0x58, 0xDE] ++ (a.encode ++ (a.encode.set 15 0xFF ++ (b.encode ++ [])))
    Noisy stream [a, b] ∧ (drain stream).1 = [a, b] := by
  intro a b stream
  have ha : ((Frame.single (.ofHeader (.of .response 4) [10, 1, 0, 1])).stamp 1).Intact :=
    ⟨by decide +kernel, rfl⟩
  have hb : ((Frame.single (.ofHeader (.of .indication 0x2B) [0xDE])).stamp 2).Intact :=
    ⟨by decide +kernel, rfl⟩
  have hbad : Gap (a.encode.set 15 0xFF) :=
    .damaged ha (.of_set (by decide +kernel) (by decide +kernel)) (by decide +kernel)
  have h : Noisy stream [a, b] :=
    .frame (.noise (by decide)) ha (.frame hbad hb (.gap (.noise (by decide))))
  exact ⟨h, (drain_noisy h).1⟩

end Stream

end NcpHost
