import NcpHost.Frame.Stream
import NcpHost.Proofs.Frame.Codec

/-! A stream gives the same frames however it is cut. The buffers that two cuts leave may differ,
but only in front of the first place where a signature may start; what `seek` makes of them is the
same, and that is all that further bytes depend on. -/

namespace NcpHost

theorem FrameHeader.decode_append {bs : List UInt8} (h : FrameHeader.length ≤ bs.length)
    (rest : List UInt8) : decode (bs ++ rest) = decode bs := by
  match bs, h with
  | _ :: _ :: _ :: _ :: _ :: _ :: _ :: _, _ => rfl

theorem Frame.decode_append {bs : List UInt8} {header : FrameHeader}
    (hh : FrameHeader.decode bs = .ok header)
    (hl : header.flags.isAck = false → FrameHeader.length + header.bodyLength ≤ bs.length)
    (rest : List UInt8) : decode (bs ++ rest) = decode bs := by
  have hhr : FrameHeader.decode (bs ++ rest) = .ok header := by
    obtain ⟨hv, tail, rfl⟩ := FrameHeader.decode_sound hh
    rw [List.append_assoc]
    exact FrameHeader.decode_complete hv _
  unfold decode
  simp only [hh, hhr]
  by_cases ha : header.flags.isAck = true
  · simp only [ha, if_true]
  · have hbody := hl (by simpa using ha)
    have htake : ((bs ++ rest).drop FrameHeader.length).take header.bodyLength
        = (bs.drop FrameHeader.length).take header.bodyLength := by
      rw [List.drop_append_of_le_length (by omega),
        List.take_append_of_le_length (by rw [List.length_drop]; omega)]
    have hfull : ((bs.drop FrameHeader.length).take header.bodyLength).length
        = header.bodyLength := by
      rw [List.length_take, List.length_drop]
      omega
    simp only [ha, htake, hfull, Nat.lt_irrefl, if_false, Bool.false_eq_true]

namespace Stream

def signature : List UInt8 := [0xDE, 0xAD]

theorem signature_bytes : LittleEndian.bytes 2 FrameHeader.signatureValue.toNat = signature := by
  decide

theorem holds_iff {n : Nat} {buffer : List UInt8} :
    holds n buffer = true ↔ n ≤ buffer.length := by
  simp only [holds, List.length_take, beq_iff_eq]
  omega

theorem holds_size_iff {h : FrameHeader} (hv : h.Valid) (buffer : List UInt8) :
    holds (h.size.toNat + 2) buffer = true
      ↔ FrameHeader.length + h.bodyLength ≤ buffer.length := by
  have hs := hv.size
  rw [holds_iff, FrameHeader.bodyLength]
  simp only [FrameHeader.length, FrameHeader.overhead] at *
  omega

theorem look_of_short {buffer : List UInt8} (h : buffer.length < FrameHeader.length) :
    look buffer = .incomplete := by
  have hb : holds FrameHeader.length buffer = false := by
    rw [Bool.eq_false_iff, ne_eq, holds_iff]
    omega
  simp [look, hb]

theorem look_of_fault {buffer : List UInt8} (h : FrameHeader.length ≤ buffer.length)
    {fault : FrameFault} (hd : FrameHeader.decode buffer = .error fault) :
    look buffer = .garbage := by
  simp [look, holds_iff.mpr h, hd]

theorem look_append {buffer : List UInt8} (h : look buffer ≠ .incomplete) (rest : List UInt8) :
    look (buffer ++ rest) = look buffer := by
  have hb := holds_of_look_ne h
  have hlen := holds_iff.mp hb
  have hbr : holds FrameHeader.length (buffer ++ rest) = true := by
    rw [holds_iff, List.length_append]
    omega
  cases hd : FrameHeader.decode buffer with
  | error fault =>
    rw [look_of_fault hlen hd]
    exact look_of_fault (holds_iff.mp hbr) ((FrameHeader.decode_append hlen rest).trans hd)
  | ok header =>
    have hv := (FrameHeader.decode_sound hd).1
    have hdr := (FrameHeader.decode_append hlen rest).trans hd
    by_cases ht : header.frameType = FrameHeader.packetType
    · by_cases hw : (!header.flags.isAck && !holds (header.size.toNat + 2) buffer) = true
      · simp [look, hb, hd, ht, hw] at h
      · -- with a verdict, all bytes that the header announces are there
        have hfull : header.flags.isAck = false →
            FrameHeader.length + header.bodyLength ≤ buffer.length := by
          intro ha
          rw [← holds_size_iff hv]
          simpa [ha] using hw
        have hwr : ¬(!header.flags.isAck && !holds (header.size.toNat + 2) (buffer ++ rest))
            = true := by
          cases ha : header.flags.isAck with
          | true => simp
          | false =>
            have hl := hfull ha
            have := (holds_size_iff hv (buffer ++ rest)).mpr (by
              rw [List.length_append]
              omega)
            simp [this]
        simp only [look, hb, hbr, hd, hdr, ht, hw, hwr, Frame.decode_append hd hfull rest,
          Bool.not_true, Bool.false_eq_true, ne_eq, not_true_eq_false, if_false]
    · simp [look, hb, hbr, hd, hdr, ht]

theorem look_sound {buffer : List UInt8} {frame : Frame} {used : Nat}
    (h : look buffer = .frame frame used) :
    frame.WellFormed ∧ used = frame.encode.length ∧ ∃ rest, buffer = frame.encode ++ rest := by
  unfold look at h
  split at h
  · simp at h
  · split at h
    · simp at h
    · split at h
      · simp at h
      · split at h
        · simp at h
        · split at h
          · simp at h
          · next hd =>
            simp only [Head.frame.injEq] at h
            obtain ⟨rfl, rfl⟩ := h
            exact Frame.decode_sound hd

theorem look_complete {frame : Frame} (hf : frame.WellFormed)
    (ht : frame.header.frameType = FrameHeader.packetType) (rest : List UInt8) :
    look (frame.encode ++ rest) = .frame frame frame.encode.length := by
  obtain ⟨tail, hh⟩ : ∃ tail, frame.encode ++ rest = frame.header.encode ++ tail := by
    unfold Frame.encode
    split
    · exact ⟨_, List.append_assoc _ _ _⟩
    · exact ⟨rest, rfl⟩
  have hd : FrameHeader.decode (frame.encode ++ rest) = .ok frame.header := by
    rw [hh]
    exact FrameHeader.decode_complete hf.header tail
  have hb : holds FrameHeader.length (frame.encode ++ rest) = true := by
    rw [holds_iff, hh, List.length_append, FrameHeader.length_encode]
    omega
  have hw : ¬(!frame.header.flags.isAck
      && !holds (frame.header.size.toNat + 2) (frame.encode ++ rest)) = true := by
    cases ha : frame.header.flags.isAck with
    | true => simp
    | false =>
      have := (holds_size_iff hf.header (frame.encode ++ rest)).mpr (by
        rw [List.length_append, hf.length_encode ha]
        omega)
      simp [this]
  simp only [look, hb, hd, ht, hw, Frame.decode_complete hf rest, Bool.not_true,
    Bool.false_eq_true, ne_eq, not_true_eq_false, if_false]

theorem look_of_not_signature {buffer : List UInt8} (hl : FrameHeader.length ≤ buffer.length)
    (h : ¬signature <+: buffer) : look buffer = .garbage := by
  cases hd : FrameHeader.decode buffer with
  | error fault => exact look_of_fault hl hd
  | ok header =>
    obtain ⟨hv, rest, rfl⟩ := FrameHeader.decode_sound hd
    refine absurd ⟨header.checked ++ [header.crc8] ++ rest, ?_⟩ h
    rw [FrameHeader.encode, hv.signature, signature_bytes]
    simp only [List.append_assoc]

theorem seek_of_signature {bs : List UInt8} (h : signature <+: bs) : seek bs = bs := by
  obtain ⟨rest, rfl⟩ := h
  simp [signature, seek]

theorem seek_cons_cases (b : UInt8) (rest : List UInt8) :
    (seek (b :: rest) = b :: rest ∧ (rest = [] ∨ signature <+: b :: rest))
      ∨ (seek (b :: rest) = seek rest ∧ ¬signature <+: b :: rest ∧ (b = 0xDE → rest ≠ [])) := by
  by_cases h : b = 0xDE ∧ (rest = [] ∨ rest.head? = some 0xAD)
  · obtain ⟨rfl, hr⟩ := h
    refine Or.inl ⟨by rw [seek, if_pos ⟨rfl, hr⟩], hr.imp id fun hr => ?_⟩
    cases rest with
    | nil => simp at hr
    | cons c rest =>
      obtain rfl : c = 0xAD := by simpa using hr
      exact ⟨rest, rfl⟩
  · refine Or.inr ⟨by rw [seek, if_neg h], ?_, ?_⟩
    · rintro ⟨tail, ht⟩
      obtain ⟨hb, hr⟩ := List.cons.inj ht
      exact h ⟨hb.symm, Or.inr (by rw [← hr]; rfl)⟩
    · intro hb hr
      exact h ⟨hb, Or.inl hr⟩

theorem seek_append (bs more : List UInt8) : seek (bs ++ more) = seek (seek bs ++ more) := by
  induction bs with
  | nil => rfl
  | cons b rest ih =>
    rcases seek_cons_cases b rest with ⟨hs, -⟩ | ⟨hs, hn, hb⟩
    · rw [hs]
    · rw [hs, ← ih]
      rcases seek_cons_cases b (rest ++ more) with ⟨-, he | hsig⟩ | ⟨hs', -⟩
      · obtain ⟨rfl, rfl⟩ := List.append_eq_nil_iff.mp he
        have hb' : b ≠ 0xDE := fun h => hb h rfl
        simp [seek, hb']
      · obtain ⟨tail, ht⟩ := hsig
        obtain ⟨rfl, hr⟩ := List.cons.inj ht
        cases rest with
        | nil => exact absurd rfl (hb rfl)
        | cons c rest =>
          obtain ⟨rfl, -⟩ := List.cons.inj hr
          exact absurd ⟨rest, rfl⟩ hn
      · exact hs'

theorem seek_seek (bs : List UInt8) : seek (seek bs) = seek bs := by
  simpa using (seek_append bs []).symm

theorem drain_of_frame {buffer : List UInt8} {frame : Frame} {used : Nat}
    (h : look buffer = .frame frame used) :
    drain buffer = (frame :: (drain (buffer.drop used)).1, (drain (buffer.drop used)).2) := by
  rw [drain]
  split <;> simp_all

theorem drain_of_incomplete {buffer : List UInt8} (h : look buffer = .incomplete) :
    drain buffer = ([], buffer) := by
  rw [drain]
  split <;> simp_all

theorem drain_of_garbage {buffer : List UInt8} (h : look buffer = .garbage) :
    drain buffer = drain (seek buffer.tail) := by
  rw [drain]
  split <;> simp_all

theorem drain_encode {f : Frame} (hf : f.WellFormed)
    (ht : f.header.frameType = FrameHeader.packetType) (rest : List UInt8) :
    drain (f.encode ++ rest) = (f :: (drain rest).1, (drain rest).2) := by
  rw [drain_of_frame (look_complete hf ht rest), List.drop_left]

theorem look_drain (buffer : List UInt8) : look (drain buffer).2 = .incomplete := by
  fun_induction drain buffer with
  | case1 buffer frame used h frames left hd ih => simpa [hd] using ih
  | case2 buffer h => exact h
  | case3 buffer h ih => exact ih

/-- The same frames, and buffers that are the same from the first signature on. -/
def Agree (a b : List Frame × List UInt8) : Prop := a.1 = b.1 ∧ seek a.2 = seek b.2

theorem drain_agree_seek (buffer : List UInt8) : Agree (drain buffer) (drain (seek buffer)) := by
  cases buffer with
  | nil => exact ⟨rfl, rfl⟩
  | cons b rest =>
    rcases seek_cons_cases b rest with ⟨hs, -⟩ | ⟨hs, hn, -⟩
    · rw [hs]
      exact ⟨rfl, rfl⟩
    · by_cases hl : (b :: rest).length < FrameHeader.length
      · have hl' : (seek (b :: rest)).length < FrameHeader.length :=
          Nat.lt_of_le_of_lt (length_seek_le _) hl
        rw [drain_of_incomplete (look_of_short hl), drain_of_incomplete (look_of_short hl')]
        exact ⟨rfl, (seek_seek _).symm⟩
      · rw [drain_of_garbage (look_of_not_signature (Nat.not_lt.mp hl) hn), hs]
        exact ⟨rfl, rfl⟩

/-- Taking out frames early changes nothing about those that follow. -/
theorem drain_append (buffer more : List UInt8) :
    Agree (drain (buffer ++ more))
      ((drain buffer).1 ++ (drain ((drain buffer).2 ++ more)).1,
        (drain ((drain buffer).2 ++ more)).2) := by
  fun_induction drain buffer with
  | case1 buffer frame used h frames left hd ih =>
    have hl := look_append (by rw [h]; simp : look buffer ≠ .incomplete) more
    obtain ⟨-, hu, rest, hb⟩ := look_sound h
    have hdrop : (buffer ++ more).drop used = buffer.drop used ++ more :=
      List.drop_append_of_le_length (by rw [hu, hb, List.length_append]; omega)
    rw [drain_of_frame (hl.trans h), hdrop]
    simp only [hd] at ih
    exact ⟨by simp [ih.1], ih.2⟩
  | case2 buffer h => exact ⟨rfl, rfl⟩
  | case3 buffer h ih =>
    have hl := look_append (by rw [h]; simp : look buffer ≠ .incomplete) more
    have hne : buffer ≠ [] := by
      rintro rfl
      exact absurd h (by rw [look_of_short (by decide)]; simp)
    have htail : (buffer ++ more).tail = buffer.tail ++ more := List.tail_append_of_ne_nil hne
    rw [drain_of_garbage (hl.trans h), htail, seek_append]
    have hs := drain_agree_seek (seek buffer.tail ++ more)
    exact ⟨hs.1.symm.trans ih.1, hs.2.symm.trans ih.2⟩

def feed (buffer : List UInt8) : List (List UInt8) → List Frame × List UInt8
  | [] => ([], buffer)
  | chunk :: rest =>
    let (frames, left) := drain (buffer ++ chunk)
    let (others, last) := feed left rest
    (frames ++ others, last)

theorem wellFormed_of_mem_drain {buffer : List UInt8} {f : Frame} (h : f ∈ (drain buffer).1) :
    f.WellFormed := by
  fun_induction drain buffer with
  | case1 buffer frame used hl frames left hd ih =>
    rcases List.mem_cons.mp h with rfl | hm
    · exact (look_sound hl).1
    · exact ih (by rw [hd]; exact hm)
  | case2 buffer hl => exact absurd h List.not_mem_nil
  | case3 buffer hl ih => exact ih h

theorem wellFormed_of_mem_feed {buffer : List UInt8} {chunks : List (List UInt8)} {f : Frame}
    (h : f ∈ (feed buffer chunks).1) : f.WellFormed := by
  induction chunks generalizing buffer with
  | nil => exact absurd h List.not_mem_nil
  | cons chunk rest ih =>
    rcases List.mem_append.mp h with hd | hf
    · exact wellFormed_of_mem_drain hd
    · exact ih hf

theorem feed_agree {buffer : List UInt8} (hb : look buffer = .incomplete)
    (chunks : List (List UInt8)) :
    Agree (feed buffer chunks) (drain (buffer ++ chunks.flatten)) := by
  induction chunks generalizing buffer with
  | nil =>
    rw [List.flatten_nil, List.append_nil, drain_of_incomplete hb]
    exact ⟨rfl, rfl⟩
  | cons chunk rest ih =>
    have hrest := ih (look_drain (buffer ++ chunk))
    have hwhole := drain_append (buffer ++ chunk) rest.flatten
    rw [List.flatten_cons, ← List.append_assoc]
    refine ⟨?_, hrest.2.trans hwhole.2.symm⟩
    rw [hwhole.1]
    exact congrArg ((drain (buffer ++ chunk)).1 ++ ·) hrest.1

theorem feed_cut {chunks chunks' : List (List UInt8)} (h : chunks.flatten = chunks'.flatten) :
    (feed [] chunks).1 = (feed [] chunks').1 := by
  have hb : look [] = .incomplete := look_of_short (by decide)
  rw [(feed_agree hb chunks).1, (feed_agree hb chunks').1, h]

theorem look_of_cut {f : Frame} (hf : f.WellFormed)
    (ht : f.header.frameType = FrameHeader.packetType) {bytes more : List UInt8}
    (h : bytes ++ more = f.encode) (hm : more ≠ []) : look bytes = .incomplete := by
  refine Decidable.byContradiction fun hne => ?_
  have hwhole := look_complete hf ht []
  rw [List.append_nil, ← h, look_append hne more] at hwhole
  obtain ⟨-, -, rest, hbytes⟩ := look_sound hwhole
  have hlen := congrArg List.length h
  rw [hbytes] at hlen
  simp only [List.length_append] at hlen
  exact hm (List.length_eq_zero_iff.mp (by omega))

theorem drain_start {frames : List Frame}
    (h : ∀ f ∈ frames, f.WellFormed ∧ f.header.frameType = FrameHeader.packetType)
    {bytes more : List UInt8} (hb : bytes ++ more = frames.flatMap Frame.encode) :
    ∃ later, frames = (drain bytes).1 ++ later
      ∧ (drain bytes).2 ++ more = later.flatMap Frame.encode := by
  induction frames generalizing bytes with
  | nil =>
    obtain ⟨rfl, rfl⟩ := List.append_eq_nil_iff.mp hb
    rw [drain_of_incomplete (look_of_short (by decide))]
    exact ⟨[], rfl, rfl⟩
  | cons f rest ih =>
    obtain ⟨hf, ht⟩ := h f List.mem_cons_self
    rw [List.flatMap_cons] at hb
    -- the first frame is cut, and nothing comes out; or it is there, and the others follow
    by_cases hlen : bytes.length < f.encode.length
    · obtain ⟨missing, hcut⟩ := List.prefix_of_prefix_length_le ⟨more, hb⟩
        (List.prefix_append f.encode _) (Nat.le_of_lt hlen)
      have hmissing : missing ≠ [] := by
        rintro rfl
        rw [List.append_nil] at hcut
        exact Nat.ne_of_lt hlen (congrArg List.length hcut)
      rw [drain_of_incomplete (look_of_cut hf ht hcut hmissing)]
      exact ⟨f :: rest, rfl, hb⟩
    · obtain ⟨behind, rfl⟩ := List.prefix_of_prefix_length_le
        (List.prefix_append f.encode _) ⟨more, hb⟩ (Nat.not_lt.mp hlen)
      rw [List.append_assoc] at hb
      obtain ⟨later, hlater, hleft⟩ :=
        ih (fun g hg => h g (List.mem_cons_of_mem _ hg)) (List.append_cancel_left hb)
      rw [drain_encode hf ht]
      exact ⟨later, by rw [List.cons_append, ← hlater], hleft⟩

theorem feed_whole {frames : List Frame}
    (h : ∀ f ∈ frames, f.WellFormed ∧ f.header.frameType = FrameHeader.packetType)
    {buffer : List UInt8} (hb : look buffer = .incomplete) {chunks : List (List UInt8)}
    (hc : buffer ++ chunks.flatten = frames.flatMap Frame.encode) :
    feed buffer chunks = (frames, []) := by
  induction chunks generalizing buffer frames with
  | nil =>
    rw [List.flatten_nil, List.append_nil] at hc
    cases frames with
    | nil => rw [feed, hc, List.flatMap_nil]
    | cons f rest =>
      obtain ⟨hf, ht⟩ := h f List.mem_cons_self
      rw [hc, List.flatMap_cons, look_complete hf ht] at hb
      exact absurd hb nofun
  | cons chunk rest ih =>
    rw [List.flatten_cons, ← List.append_assoc] at hc
    obtain ⟨later, rfl, hleft⟩ := drain_start h hc
    have hlater := ih (fun f hf => h f (List.mem_append_right _ hf)) (look_drain _) hleft
    simp only [feed, hlater]

theorem feed_encode {frames : List Frame}
    (h : ∀ f ∈ frames, f.WellFormed ∧ f.header.frameType = FrameHeader.packetType)
    {chunks : List (List UInt8)} (hc : chunks.flatten = frames.flatMap Frame.encode) :
    (feed [] chunks).1 = frames :=
  congrArg Prod.fst (feed_whole h (look_of_short (by decide)) hc)

end Stream

end NcpHost
