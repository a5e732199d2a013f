import Mathlib.Logic.Basic
import NcpHost.Frame.Basic

/-! Both directions of the wire format. Every reader accepts exactly what its writer produces: a
header with its signature and checksum, a body behind its checksum, and a whole frame, whose reading
also says how many bytes it took. `Frame.WellFormed` is what a frame has to be for that. -/

namespace NcpHost

namespace LittleEndian

theorem bytes_word (a b : UInt8) : bytes 2 (value [a, b]).toUInt16.toNat = [a, b] := by
  have hlt : value [a, b] < UInt16.size := value_lt [a, b]
  have hn : (value [a, b]).toUInt16.toNat = value [a, b] := UInt16.toNat_ofNat_of_lt' hlt
  rw [hn]
  exact bytes_value [a, b]

theorem value_word (n : UInt16) : (value (bytes 2 n.toNat)).toUInt16 = n := by
  have hlt : n.toNat < capacity 2 := n.toNat_lt
  rw [value_bytes, Nat.mod_eq_of_lt hlt]
  exact UInt16.ofNat_toNat

theorem bytes_two (n : Nat) : bytes 2 n = [n.toUInt8, (n / 256).toUInt8] := rfl

end LittleEndian

namespace FrameHeader

structure Valid (h : FrameHeader) : Prop where
  signature : h.signature = signatureValue
  crc8 : h.crc8 = h.expectedCrc8
  size : overhead ≤ h.size.toNat

theorem sealed_valid {h : FrameHeader} (hs : h.signature = signatureValue)
    (hz : overhead ≤ h.size.toNat) : h.sealed.Valid :=
  ⟨hs, rfl, hz⟩

theorem decode_sound {bs : List UInt8} {h : FrameHeader} (hd : decode bs = .ok h) :
    h.Valid ∧ ∃ rest, bs = h.encode ++ rest := by
  unfold decode at hd
  split at hd
  · next s₀ s₁ n₀ n₁ type flags check rest =>
    dsimp only at hd
    split at hd
    · simp at hd
    · next hs =>
      split at hd
      · simp at hd
      · next hc =>
        split at hd
        · simp at hd
        · next hz =>
          rw [Except.ok.injEq] at hd
          subst hd
          refine ⟨⟨not_not.mp hs, (not_not.mp hc).symm, Nat.not_lt.mp hz⟩, rest, ?_⟩
          simp only [encode, checked, LittleEndian.bytes_word, List.cons_append, List.nil_append]
  · simp at hd

theorem decode_complete {h : FrameHeader} (hv : h.Valid) (rest : List UInt8) :
    decode (h.encode ++ rest) = .ok h := by
  have hs := LittleEndian.value_word h.signature
  have hn := LittleEndian.value_word h.size
  rw [LittleEndian.bytes_two] at hs hn
  simp only [encode, checked, LittleEndian.bytes_two, List.cons_append, List.nil_append, decode,
    hs, hn]
  rw [if_neg (not_not.mpr hv.signature), if_neg (not_not.mpr hv.crc8.symm),
    if_neg (Nat.not_lt.mpr hv.size)]

end FrameHeader

namespace CommandHeader

theorem decode_sound {bs : List UInt8} {h : CommandHeader} (hd : decode bs = .ok h) :
    ∃ rest, bs = h.encode ++ rest := by
  unfold decode at hd
  split at hd
  · next version kind i₀ i₁ rest =>
    split at hd
    · next k hk =>
      rw [Except.ok.injEq] at hd
      subst hd
      refine ⟨rest, ?_⟩
      simp only [encode, Kind.toByte_of_ofByte? hk, LittleEndian.bytes_word, List.cons_append,
        List.nil_append]
    · simp at hd
  · simp at hd

theorem decode_complete (h : CommandHeader) (rest : List UInt8) :
    decode (h.encode ++ rest) = .ok h := by
  have hid := LittleEndian.value_word h.id
  rw [LittleEndian.bytes_two] at hid
  simp only [encode, LittleEndian.bytes_two, List.cons_append, List.nil_append, decode,
    Kind.ofByte?_toByte, hid]

end CommandHeader

namespace Packet

theorem dropChecksum_sound {bs body : List UInt8} (hd : dropChecksum bs = .ok body) :
    bs = withChecksum body := by
  unfold dropChecksum at hd
  split at hd
  · next c₀ c₁ rest =>
    dsimp only at hd
    split at hd
    · next hc =>
      rw [Except.ok.injEq] at hd
      subst hd
      rw [withChecksum, checksumLength, ← hc, LittleEndian.bytes_word]
      rfl
    · simp at hd
  · simp at hd

theorem dropChecksum_complete (body : List UInt8) :
    dropChecksum (withChecksum body) = .ok body := by
  have hc := LittleEndian.value_word (Checksum.crc16 body)
  rw [LittleEndian.bytes_two] at hc
  simp only [withChecksum, checksumLength, LittleEndian.bytes_two, List.cons_append,
    List.nil_append, dropChecksum, hc, if_true]

theorem decode_sound {bs : List UInt8} {p : Packet} (hd : decode bs = .ok p) :
    p.header.isSome ∧ bs = p.encode := by
  unfold decode at hd
  split at hd
  · simp at hd
  · next body hb =>
    split at hd
    · simp at hd
    · next header hh =>
      obtain ⟨rest, hr⟩ := CommandHeader.decode_sound hh
      rw [Except.ok.injEq] at hd
      subst hd
      refine ⟨rfl, ?_⟩
      have hbody : (ofHeader header (body.drop CommandHeader.length)).body = body := by
        simp only [Packet.body, ofHeader, hr]
        rw [List.drop_left' (CommandHeader.length_encode header)]
      rw [encode, hbody]
      exact dropChecksum_sound hb

theorem decode_complete (header : CommandHeader) (payload : List UInt8) :
    decode (ofHeader header payload).encode = .ok (ofHeader header payload) := by
  have hdrop : (header.encode ++ payload).drop CommandHeader.length = payload :=
    List.drop_left' (CommandHeader.length_encode header)
  simp only [decode, encode, dropChecksum_complete, body, ofHeader,
    CommandHeader.decode_complete, hdrop]

theorem decodeContinuation_sound {bs : List UInt8} {p : Packet}
    (hd : decodeContinuation bs = .ok p) : p.header = none ∧ bs = p.encode := by
  unfold decodeContinuation at hd
  split at hd
  · simp at hd
  · next body hb =>
    rw [Except.ok.injEq] at hd
    subst hd
    exact ⟨rfl, dropChecksum_sound hb⟩

theorem decodeContinuation_complete (payload : List UInt8) :
    decodeContinuation (continuation payload).encode = .ok (continuation payload) := by
  simp only [decodeContinuation, encode, dropChecksum_complete, body, continuation]

end Packet

namespace Frame

/-- The frame is one that reading gives back: an acknowledgement without a packet, or a packet whose
length is the announced one and that opens with a command header where the flags say so. -/
structure WellFormed (f : Frame) : Prop where
  header : f.header.Valid
  packet : if f.isAck then f.packet = none else ∃ p, f.packet = some p
    ∧ p.encodedLength = f.header.bodyLength ∧ p.header.isSome = opensCommand f.header

theorem decode_sound {bs : List UInt8} {f : Frame} {used : Nat}
    (hd : decode bs = .ok (f, used)) :
    f.WellFormed ∧ used = f.encode.length ∧ ∃ rest, bs = f.encode ++ rest := by
  unfold decode at hd
  split at hd
  · simp at hd
  · next header hh =>
    obtain ⟨hv, rest, rfl⟩ := FrameHeader.decode_sound hh
    rw [List.drop_left' (FrameHeader.length_encode header)] at hd
    split at hd
    · next ha =>
      simp only [Except.ok.injEq, Prod.mk.injEq] at hd
      obtain ⟨rfl, rfl⟩ := hd
      exact ⟨⟨hv, by simp [isAck, ha]⟩, by simp [encode], rest, rfl⟩
    · next ha =>
      dsimp only at hd
      split at hd
      · simp at hd
      · next hl =>
        have htake : (rest.take header.bodyLength).length = header.bodyLength := by
          have := List.length_take_le header.bodyLength rest
          omega
        split at hd
        · simp at hd
        · next p hp =>
          simp only [Except.ok.injEq, Prod.mk.injEq] at hd
          obtain ⟨rfl, rfl⟩ := hd
          have hbytes : p.header.isSome = opensCommand header
              ∧ rest.take header.bodyLength = p.encode := by
            split at hp
            · next ho => exact ⟨(Packet.decode_sound hp).1.trans ho.symm, (Packet.decode_sound hp).2⟩
            · next ho =>
              obtain ⟨hn, hb⟩ := Packet.decodeContinuation_sound hp
              exact ⟨by simp [hn, ho], hb⟩
          have hlen : p.encodedLength = header.bodyLength := by
            rw [← Packet.length_encode, ← hbytes.2, htake]
          refine ⟨⟨hv, ?_⟩, ?_, rest.drop header.bodyLength, ?_⟩
          · rw [if_neg (by simpa [isAck] using ha)]
            exact ⟨p, rfl, hlen, hbytes.1⟩
          · simp [encode, Packet.length_encode, hlen]
          · simp [encode, ← hbytes.2]

theorem WellFormed.isAck_of_packet {f : Frame} (hf : f.WellFormed) {p : Packet}
    (hp : f.packet = some p) : f.isAck = false := by
  have hpacket := hf.packet
  cases ha : f.isAck with
  | false => rfl
  | true => simp [ha, hp] at hpacket

theorem WellFormed.length_encode {f : Frame} (hf : f.WellFormed) (ha : f.isAck = false) :
    f.encode.length = FrameHeader.length + f.header.bodyLength := by
  obtain ⟨p, hp, hlen, -⟩ := by simpa [ha] using hf.packet
  simp [encode, hp, Packet.length_encode, hlen]

theorem decode_complete {f : Frame} (hf : f.WellFormed) (rest : List UInt8) :
    decode (f.encode ++ rest) = .ok (f, f.encode.length) := by
  have hpacket := hf.packet
  obtain ⟨header, packet⟩ := f
  by_cases ha : header.flags.isAck = true
  · obtain rfl : packet = none := by simpa [isAck, ha] using hpacket
    simp only [encode, decode, FrameHeader.decode_complete hf.header, ha, if_true,
      FrameHeader.length_encode]
  · obtain ⟨p, rfl, hlen, hopens⟩ := by simpa [isAck, ha] using hpacket
    have hbody : ((header.encode ++ p.encode ++ rest).drop FrameHeader.length).take
        header.bodyLength = p.encode := by
      rw [List.append_assoc, List.drop_left' (FrameHeader.length_encode header)]
      exact List.take_left' (by rw [Packet.length_encode, hlen])
    have hread : (if opensCommand header then Packet.decode p.encode
        else Packet.decodeContinuation p.encode) = .ok p := by
      obtain ⟨ph, payload⟩ := p
      cases ph with
      | some ch =>
        rw [if_pos (by simpa using hopens.symm)]
        exact Packet.decode_complete ch payload
      | none =>
        rw [if_neg (by simp [← hopens])]
        exact Packet.decodeContinuation_complete payload
    have hheader := FrameHeader.decode_complete hf.header (p.encode ++ rest)
    rw [← List.append_assoc] at hheader
    simp only [encode, decode, hheader, ha, hbody, hread, Packet.length_encode, hlen,
      List.length_append, FrameHeader.length_encode, Nat.lt_irrefl, if_false,
      Bool.false_eq_true]

theorem decode_eq_ok_iff {bs : List UInt8} {f : Frame} {used : Nat} :
    decode bs = .ok (f, used) ↔ f.WellFormed ∧ used = f.encode.length ∧ f.encode <+: bs := by
  constructor
  · intro hd
    obtain ⟨hf, hu, rest, hb⟩ := decode_sound hd
    exact ⟨hf, hu, rest, hb.symm⟩
  · rintro ⟨hf, rfl, rest, rfl⟩
    exact decode_complete hf rest

theorem opensCommand_iff (h : FrameHeader) :
    opensCommand h = true ↔
      h.flags.isFirst = true ∧ (h.flags.isLast = true ∨ 6 ≤ h.size.toNat - 5) := by
  rw [opensCommand, Bool.and_eq_true, Bool.or_eq_true, decide_eq_true_eq]
  rfl

theorem wellFormed_iff (f : Frame) :
    f.WellFormed ↔
      f.header.signature = FrameHeader.signatureValue
        ∧ f.header.crc8 = f.header.expectedCrc8
        ∧ 5 ≤ f.header.size.toNat
        ∧ (f.header.flags.isAck = true ∧ f.packet = none
          ∨ f.header.flags.isAck = false ∧ ∃ p, f.packet = some p
            ∧ p.encode.length = f.header.size.toNat - 5
            ∧ (p.header.isSome = true ↔ f.header.flags.isFirst = true
              ∧ (f.header.flags.isLast = true ∨ 6 ≤ f.header.size.toNat - 5))) := by
  constructor
  · intro hf
    refine ⟨hf.header.signature, hf.header.crc8, hf.header.size, ?_⟩
    have hpacket := hf.packet
    by_cases ha : f.isAck = true
    · rw [if_pos ha] at hpacket
      exact Or.inl ⟨ha, hpacket⟩
    · rw [if_neg ha] at hpacket
      obtain ⟨p, hp, hlen, ho⟩ := hpacket
      exact Or.inr ⟨Bool.eq_false_iff.mpr ha, p, hp, (Packet.length_encode p).trans hlen,
        by rw [ho, opensCommand_iff]⟩
  · rintro ⟨hs, hc, hz, ⟨ha, hp⟩ | ⟨ha, p, hp, hlen, ho⟩⟩
    · exact ⟨⟨hs, hc, hz⟩, by rwa [isAck, if_pos ha]⟩
    · refine ⟨⟨hs, hc, hz⟩, ?_⟩
      rw [isAck, if_neg (Bool.eq_false_iff.mp ha)]
      exact ⟨p, hp, (Packet.length_encode p).symm.trans hlen,
        Bool.eq_iff_iff.mpr (ho.trans (opensCommand_iff f.header).symm)⟩

/-- The wire format is exact in both directions. A frame that was read is what its bytes say; and
reading gives a frame back, whatever stands behind it, if and only if the frame is well-formed. -/
theorem decode_exact :
    (∀ {bs : List UInt8} {f : Frame} {used : Nat}, decode bs = .ok (f, used) →
      used ≤ bs.length ∧ f.encode = bs.take used)
    ∧ ∀ f : Frame, (∀ rest, decode (f.encode ++ rest) = .ok (f, f.encode.length)) ↔
      f.header.signature = FrameHeader.signatureValue
        ∧ f.header.crc8 = f.header.expectedCrc8
        ∧ 5 ≤ f.header.size.toNat
        ∧ (f.header.flags.isAck = true ∧ f.packet = none
          ∨ f.header.flags.isAck = false ∧ ∃ p, f.packet = some p
            ∧ p.encode.length = f.header.size.toNat - 5
            ∧ (p.header.isSome = true ↔ f.header.flags.isFirst = true
              ∧ (f.header.flags.isLast = true ∨ 6 ≤ f.header.size.toNat - 5))) := by
  constructor
  · intro bs f used hd
    obtain ⟨-, rfl, hstart⟩ := decode_eq_ok_iff.mp hd
    exact ⟨hstart.length_le, List.prefix_iff_eq_take.mp hstart⟩
  · intro f
    rw [← wellFormed_iff]
    constructor
    · intro hd
      exact (decode_eq_ok_iff.mp (hd [])).1
    · intro hf rest
      exact decode_complete hf rest

/-- A leading fragment of three bytes has no room for a command header and is read as raw bytes. -/
theorem decode_exact_short_lead :
    let f := (ofPacket (.continuation [1, 2, 3]) ⟨Flags.firstMask⟩).stamp 2
    decode (f.encode ++ [0xDE]) = .ok (f, 12)
      ∧ 12 ≤ (f.encode ++ [0xDE]).length ∧ f.encode = (f.encode ++ [0xDE]).take 12 := by
  intro f
  have hl : f.encode.length = 12 := by decide
  have hd := (decode_exact.2 f).mpr
    ⟨rfl, by decide +kernel, by decide, Or.inr ⟨by decide, _, rfl, by decide, by decide⟩⟩ [0xDE]
  rw [hl] at hd
  exact ⟨hd, decode_exact.1 hd⟩

end Frame

end NcpHost
