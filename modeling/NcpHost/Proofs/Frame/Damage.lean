import NcpHost.Proofs.Checksum.Bursts
import NcpHost.Proofs.Frame.Codec

/-! A damaged frame is refused: one with a byte off, one with two adjacent bytes of its body off, and
one that is cut short. In the header either the signature is wrong or the header checksum speaks up,
so a changed size or flags byte is never acted upon; behind it the body checksum does. -/

namespace NcpHost

theorem FrameHeader.Valid.encode_eq {h : FrameHeader} (hv : h.Valid) :
    h.encode = LittleEndian.bytes 2 signatureValue.toNat
      ++ (h.checked ++ [Checksum.crc8 h.checked]) := by
  have hc : h.crc8 = Checksum.crc8 h.checked := hv.crc8
  rw [encode, hv.signature, hc, List.append_assoc]

theorem FrameHeader.length_checked (h : FrameHeader) : h.checked.length = 4 := by
  simp [checked]

theorem FrameHeader.decode_damaged {h : FrameHeader} (hv : h.Valid) {ds : List UInt8}
    (hd : OneByteOff h.encode ds) (rest : List UInt8) :
    ∃ fault, decode (ds ++ rest) = .error fault := by
  cases hdec : decode (ds ++ rest) with
  | error fault => exact ⟨fault, rfl⟩
  | ok g =>
    obtain ⟨hg, tail, he⟩ := decode_sound hdec
    have hlen : ds.length = g.encode.length := by rw [hd.length_eq, length_encode, length_encode]
    obtain ⟨rfl, -⟩ := List.append_inj he hlen
    rw [hv.encode_eq, hg.encode_eq] at hd
    rcases hd.append_cases rfl with ⟨hs, -⟩ | ⟨-, hd⟩
    · exact absurd rfl hs.ne
    · have hl : h.checked.length = g.checked.length := by rw [length_checked, length_checked]
      rcases hd.append_cases hl with ⟨hc, hsum⟩ | ⟨hc, hsum⟩
      · exact absurd (List.cons.inj hsum).1 (Checksum.crc8_ne hc)
      · rw [hc] at hsum
        exact absurd rfl hsum.ne

theorem Packet.dropChecksum_damaged {body ds : List UInt8}
    (hd : OneByteOff (withChecksum body) ds) : ∃ fault, dropChecksum ds = .error fault := by
  cases hdec : dropChecksum ds with
  | error fault => exact ⟨fault, rfl⟩
  | ok other =>
    obtain rfl := dropChecksum_sound hdec
    have hl : (LittleEndian.bytes checksumLength (Checksum.crc16 body).toNat).length
        = (LittleEndian.bytes checksumLength (Checksum.crc16 other).toNat).length := by simp
    rcases hd.append_cases hl with ⟨hc, hb⟩ | ⟨hc, hb⟩
    · rw [hb] at hc
      exact absurd rfl hc.ne
    · have hsum : Checksum.crc16 body = Checksum.crc16 other := by
        rw [← LittleEndian.value_word (Checksum.crc16 body), ← checksumLength, hc, checksumLength,
          LittleEndian.value_word]
      exact absurd hsum (Checksum.crc16_ne hb)

theorem Packet.dropChecksum_of_ne {body other : List UInt8}
    (h : Checksum.crc16 body ≠ Checksum.crc16 other) :
    ∃ fault, dropChecksum (LittleEndian.bytes checksumLength (Checksum.crc16 body).toNat ++ other)
      = .error fault := by
  have hsum := LittleEndian.value_word (Checksum.crc16 body)
  rw [LittleEndian.bytes_two] at hsum
  refine ⟨.bodyChecksum (Checksum.crc16 body) (Checksum.crc16 other), ?_⟩
  simp only [checksumLength, LittleEndian.bytes_two, List.cons_append, List.nil_append,
    dropChecksum, hsum]
  rw [if_neg h]

namespace Frame

theorem header_of_damaged {f : Frame} (hf : f.WellFormed) {ds : List UInt8}
    (hd : OneByteOff f.encode ds) (rest : List UInt8) :
    (∃ fault, FrameHeader.decode (ds ++ rest) = .error fault)
      ∨ ∃ p body, f.packet = some p ∧ OneByteOff p.encode body ∧ ds = f.header.encode ++ body := by
  unfold encode at hd
  split at hd
  · next p hp =>
    rcases hd.split with ⟨c, hc, rfl⟩ | ⟨c, hc, rfl⟩
    · obtain ⟨fault, hfault⟩ := FrameHeader.decode_damaged hf.header hc (p.encode ++ rest)
      exact Or.inl ⟨fault, by rw [List.append_assoc, hfault]⟩
    · exact Or.inr ⟨p, c, hp, hc, rfl⟩
  · exact Or.inl (FrameHeader.decode_damaged hf.header hd rest)

theorem decode_refused {f : Frame} (hf : f.WellFormed) {p : Packet} (hp : f.packet = some p)
    {ds : List UInt8} (hl : ds.length = p.encode.length)
    (hbad : ∃ fault, Packet.dropChecksum ds = .error fault) (rest : List UInt8) :
    ∃ fault, decode (f.header.encode ++ ds ++ rest) = .error fault := by
  obtain ⟨fault, hfault⟩ := hbad
  have ha : f.header.flags.isAck = false := hf.isAck_of_packet hp
  obtain ⟨q, hq, hlen, -⟩ := by simpa [isAck, ha] using hf.packet
  obtain rfl : p = q := Option.some.inj (hp.symm.trans hq)
  have hdl : ds.length = f.header.bodyLength := by rw [hl, Packet.length_encode, hlen]
  have hheader := FrameHeader.decode_complete hf.header (ds ++ rest)
  rw [← List.append_assoc] at hheader
  have htake : ((f.header.encode ++ ds ++ rest).drop FrameHeader.length).take
      f.header.bodyLength = ds := by
    rw [List.append_assoc, List.drop_left' (FrameHeader.length_encode f.header)]
    exact List.take_left' hdl
  refine ⟨fault, ?_⟩
  simp only [decode, hheader, ha, htake, hdl, Nat.lt_irrefl, if_false, Bool.false_eq_true,
    Packet.decode, Packet.decodeContinuation, hfault, ite_self]

theorem decode_damaged {f : Frame} (hf : f.WellFormed) {ds : List UInt8}
    (hd : OneByteOff f.encode ds) (rest : List UInt8) :
    ∃ fault, decode (ds ++ rest) = .error fault := by
  rcases header_of_damaged hf hd rest with ⟨fault, hfault⟩ | ⟨p, body, hp, hbody, rfl⟩
  · exact ⟨fault, by simp [decode, hfault]⟩
  · exact decode_refused hf hp hbody.length_eq (Packet.dropChecksum_damaged hbody) rest

theorem decode_adjacent_damaged {f : Frame} (hf : f.WellFormed) {p : Packet}
    (hp : f.packet = some p) {body : List UInt8} (hd : AdjacentOff p.body body)
    (rest : List UInt8) :
    ∃ fault, decode (f.header.encode
      ++ (LittleEndian.bytes Packet.checksumLength (Checksum.crc16 p.body).toNat ++ body) ++ rest)
      = .error fault := by
  refine decode_refused hf hp ?_ (Packet.dropChecksum_of_ne (Checksum.crc16_ne_of_adjacent hd)) rest
  rw [Packet.length_encode, Packet.encodedLength, List.length_append, LittleEndian.length_bytes,
    hd.length_eq]

theorem WellFormed.eq_of_prefix {f g : Frame} (hf : f.WellFormed) (hg : g.WellFormed)
    (h : f.encode <+: g.encode) : f = g := by
  have hread : decode g.encode = .ok (f, f.encode.length) := decode_eq_ok_iff.mpr ⟨hf, rfl, h⟩
  have hwhole : decode g.encode = .ok (g, g.encode.length) :=
    decode_eq_ok_iff.mpr ⟨hg, rfl, List.prefix_refl _⟩
  exact (Prod.mk.inj (Except.ok.inj (hread.symm.trans hwhole))).1

theorem decode_cut {f : Frame} (hf : f.WellFormed) {bs : List UInt8} (hb : bs <+: f.encode)
    (hne : bs ≠ f.encode) : ∃ fault, decode bs = .error fault := by
  cases hdec : decode bs with
  | error fault => exact ⟨fault, rfl⟩
  | ok read =>
    obtain ⟨hg, -, hstart⟩ := decode_eq_ok_iff.mp hdec
    have hsame := hg.eq_of_prefix hf (hstart.trans hb)
    rw [hsame] at hstart
    exact absurd (hb.eq_of_length_le hstart.length_le) hne

theorem set_adjacent_append (as bs : List UInt8) (j : Nat) (x y : UInt8) :
    ((as ++ bs).set (as.length + j) x).set (as.length + j + 1) y
      = as ++ (bs.set j x).set (j + 1) y := by
  rw [List.set_append_right _ _ (Nat.le_add_right _ _), Nat.add_sub_cancel_left, Nat.add_assoc,
    List.set_append_right _ _ (Nat.le_add_right _ _), Nat.add_sub_cancel_left]

/-- Damage is always noticed: any one byte of a frame changed, any two adjacent bytes changed that
the body checksum covers, whatever stands behind the frame, and a frame cut short anywhere. -/
theorem decode_corrupted {f : Frame} (hf : f.WellFormed) :
    (∀ (i : Nat) (x : UInt8) (rest : List UInt8) (hi : i < f.encode.length), f.encode[i] ≠ x →
      ∃ fault, decode (f.encode.set i x ++ rest) = .error fault)
    ∧ (∀ (i : Nat) (x y : UInt8) (rest : List UInt8),
      FrameHeader.length + Packet.checksumLength ≤ i → i + 1 < f.encode.length →
      (f.encode.set i x).set (i + 1) y ≠ f.encode →
      ∃ fault, decode ((f.encode.set i x).set (i + 1) y ++ rest) = .error fault)
    ∧ ∀ bs : List UInt8, bs <+: f.encode → bs ≠ f.encode → ∃ fault, decode bs = .error fault := by
  refine ⟨fun i x rest hi hx => decode_damaged hf (.of_set hi hx) rest, ?_,
    fun bs hb hne => decode_cut hf hb hne⟩
  intro i x y rest hbody hi hne
  obtain ⟨p, hp⟩ : ∃ p, f.packet = some p := by
    -- an acknowledgement has no bytes there
    cases hp : f.packet with
    | some p => exact ⟨p, rfl⟩
    | none =>
      rw [encode, hp, FrameHeader.length_encode] at hi
      omega
  have hbytes : f.encode = f.header.encode
      ++ LittleEndian.bytes Packet.checksumLength (Checksum.crc16 p.body).toNat ++ p.body := by
    rw [encode, hp, List.append_assoc]
    rfl
  obtain ⟨j, rfl⟩ := Nat.exists_eq_add_of_le hbody
  have hlead : (f.header.encode
      ++ LittleEndian.bytes Packet.checksumLength (Checksum.crc16 p.body).toNat).length
      = FrameHeader.length + Packet.checksumLength := by
    rw [List.length_append, FrameHeader.length_encode, LittleEndian.length_bytes]
  rw [hbytes, ← hlead, set_adjacent_append] at hne ⊢
  rw [hbytes, List.length_append, hlead] at hi
  have hoff : AdjacentOff p.body ((p.body.set j x).set (j + 1) y) :=
    .of_set (by omega) fun he => hne (by rw [he])
  have hbad := decode_adjacent_damaged hf hp hoff rest
  rwa [← List.append_assoc] at hbad

/-- A size field that announces more than is there, two bytes of the payload, and a frame that is cut
short in its payload. -/
theorem decode_corrupted_size_and_payload :
    let f := (single (.ofHeader (.of .response 4) [10, 1, 0, 1])).stamp 1
    f.WellFormed
      ∧ (∃ fault, decode (f.encode.set 2 0xFF ++ [0xDE, 0xAD]) = .error fault)
      ∧ (∃ fault, decode ((f.encode.set 13 0).set 14 0 ++ []) = .error fault)
      ∧ ∃ fault, decode (f.encode.take 16) = .error fault := by
  intro f
  have hf : f.WellFormed := (decode_eq_ok_iff.mp
    (show decode f.encode = .ok (f, f.encode.length) by decide +kernel)).1
  obtain ⟨hone, htwo, hcut⟩ := decode_corrupted hf
  exact ⟨hf, hone 2 0xFF [0xDE, 0xAD] (by decide) (by decide +kernel),
    htwo 13 0 0 [] (by decide) (by decide) (by decide +kernel),
    hcut _ (List.take_prefix 16 f.encode) (by decide +kernel)⟩

end Frame

end NcpHost
