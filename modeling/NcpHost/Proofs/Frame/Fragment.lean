import Mathlib.Data.List.Forall2
import NcpHost.Frame.Fragment
import NcpHost.Proofs.Frame.Codec

/-! The fragments of a packet. A packet that fits travels alone; a larger one as a leading fragment
and followers, the last of which carries the mark. Each of them is well-formed under any sequence
number, and merging them in order gives the packet back. -/

namespace NcpHost

theorem exists_of_mem_right {α β : Type} {R : α → β → Prop} {as : List α} {bs : List β}
    (h : List.Forall₂ R as bs) {b : β} (hb : b ∈ bs) : ∃ a ∈ as, R a b := by
  induction h with
  | nil => exact absurd hb List.not_mem_nil
  | cons hr _ ih =>
    rcases List.mem_cons.mp hb with rfl | hm
    · exact ⟨_, List.mem_cons_self, hr⟩
    · obtain ⟨a, ha, hab⟩ := ih hm
      exact ⟨a, List.mem_cons_of_mem _ ha, hab⟩

namespace Frame

def StampOf (f g : Frame) : Prop := ∃ seq, g = f.stamp seq

theorem stampOf_zipWith {frames : List Frame} {seqs : List UInt8}
    (h : seqs.length = frames.length) :
    List.Forall₂ StampOf frames (List.zipWith stamp frames seqs) := by
  induction frames generalizing seqs with
  | nil => simp
  | cons f frames ih =>
    cases seqs with
    | nil => simp at h
    | cons seq seqs =>
      exact List.Forall₂.cons ⟨seq, rfl⟩ (ih (by simpa using h))

theorem StampOf.packet {f g : Frame} (h : f.StampOf g) : g.packet = f.packet := by
  obtain ⟨seq, rfl⟩ := h
  rfl

theorem StampOf.isAck {f g : Frame} (h : f.StampOf g) : g.isAck = f.isAck := by
  obtain ⟨seq, rfl⟩ := h
  exact Flags.isAck_withPacketSeq f.header.flags seq

theorem StampOf.isFirst {f g : Frame} (h : f.StampOf g) :
    g.header.flags.isFirst = f.header.flags.isFirst := by
  obtain ⟨seq, rfl⟩ := h
  exact Flags.isFirst_withPacketSeq f.header.flags seq

theorem StampOf.isLast {f g : Frame} (h : f.StampOf g) :
    g.header.flags.isLast = f.header.flags.isLast := by
  obtain ⟨seq, rfl⟩ := h
  exact Flags.isLast_withPacketSeq f.header.flags seq

theorem StampOf.flags {p : Packet} {flags : Flags} {g : Frame}
    (h : (ofPacket p flags).StampOf g) :
    g.header.flags.isFirst = flags.isFirst ∧ g.header.flags.isLast = flags.isLast :=
  ⟨h.isFirst, h.isLast⟩

/-- Whether a frame starts a packet, and whether it completes one. -/
def marks (f : Frame) : Bool × Bool := (f.header.flags.isFirst, f.header.flags.isLast)

theorem marks_ofPacket (p : Packet) (flags : Flags) :
    (ofPacket p flags).marks = (flags.isFirst, flags.isLast) := rfl

theorem StampOf.marks {f g : Frame} (h : f.StampOf g) : g.marks = f.marks :=
  Prod.ext h.isFirst h.isLast

theorem size_forBody {n : Nat} (h : n + FrameHeader.overhead < 65536) (flags : Flags) :
    (FrameHeader.forBody n flags).size.toNat = n + FrameHeader.overhead :=
  UInt16.toNat_ofNat_of_lt' h

theorem bodyLength_forBody {n : Nat} (h : n + FrameHeader.overhead < 65536) (flags : Flags) :
    (FrameHeader.forBody n flags).bodyLength = n
      ∧ FrameHeader.overhead ≤ (FrameHeader.forBody n flags).size.toNat := by
  have hs := size_forBody h flags
  rw [FrameHeader.bodyLength, hs]
  omega

theorem wellFormed_stamp_ofPacket {p : Packet} {flags : Flags}
    (hl : p.encodedLength + FrameHeader.overhead < 65536) (ha : flags.isAck = false)
    (ho : p.header.isSome = (flags.isFirst && (flags.isLast
      || decide (Packet.checksumLength + CommandHeader.length ≤ p.encodedLength)))) (seq : UInt8) :
    ((ofPacket p flags).stamp seq).WellFormed := by
  have hs : (ofPacket p flags).StampOf ((ofPacket p flags).stamp seq) := ⟨seq, rfl⟩
  obtain ⟨hb, hz⟩ := bodyLength_forBody hl flags
  have hack : ((ofPacket p flags).stamp seq).isAck = false := hs.isAck.trans ha
  refine ⟨FrameHeader.sealed_valid rfl hz, ?_⟩
  rw [if_neg (by simp [hack])]
  refine ⟨p, rfl, hb.symm, ?_⟩
  have hlen : ((ofPacket p flags).stamp seq).header.bodyLength = p.encodedLength := hb
  have hfirst : ((ofPacket p flags).stamp seq).header.flags.isFirst = flags.isFirst := hs.isFirst
  have hlast : ((ofPacket p flags).stamp seq).header.flags.isLast = flags.isLast := hs.isLast
  rw [ho, opensCommand, hlen, hfirst, hlast]

end Frame

namespace Fragment

theorem length_of_mem_pieces {size : Nat} {bs chunk : List UInt8} (h : chunk ∈ pieces size bs) :
    chunk.length ≤ size := by
  fun_induction pieces size bs with
  | case1 => exact absurd h List.not_mem_nil
  | case2 bs hb ih =>
    rcases List.mem_cons.mp h with rfl | hm
    · exact List.length_take_le size bs
    · exact ih hm

theorem pieces_ne_nil {size : Nat} {bs : List UInt8} (hs : 0 < size) (hb : bs ≠ []) :
    pieces size bs ≠ [] := by
  rw [pieces, dif_neg (by simp [hb]; omega)]
  exact List.cons_ne_nil _ _

theorem split_cases (p : Packet) (maxBody : Nat) :
    (split p maxBody = [.single p] ∧ p.body.length ≤ Frame.bodyLimit)
      ∨ ∃ first chunks, split p maxBody = lead p.header first :: followers chunks
        ∧ chunks ≠ [] ∧ first ++ chunks.flatten = p.body
        ∧ first.length ≤ Frame.bodyLimit ∧ ∀ chunk ∈ chunks, chunk.length ≤ Frame.bodyLimit := by
  have hpos : 0 < min (max maxBody 1) Frame.bodyLimit := by
    rw [Frame.bodyLimit]
    omega
  have hle : min (max maxBody 1) Frame.bodyLimit ≤ Frame.bodyLimit := Nat.min_le_right _ _
  rw [split]
  generalize min (max maxBody 1) Frame.bodyLimit = limit at hpos hle ⊢
  dsimp only
  by_cases hfit : p.body.length ≤ limit
  · rw [if_pos hfit]
    exact Or.inl ⟨rfl, Nat.le_trans hfit hle⟩
  · rw [if_neg hfit]
    have hn : leadLength p.body.length limit ≤ limit := by
      have := Nat.mod_lt p.body.length hpos
      unfold leadLength
      split <;> omega
    have hrest : p.body.drop (leadLength p.body.length limit) ≠ [] := by
      rw [ne_eq, List.drop_eq_nil_iff]
      omega
    refine Or.inr ⟨_, _, rfl, pieces_ne_nil hpos hrest, ?_, ?_, ?_⟩
    · rw [flatten_pieces _ _ hpos, List.take_append_drop]
    · have := List.length_take_le (leadLength p.body.length limit) p.body
      omega
    · intro chunk hm
      exact Nat.le_trans (length_of_mem_pieces hm) hle

theorem mem_followers {chunks : List (List UInt8)} {f : Frame} (h : f ∈ followers chunks) :
    ∃ chunk ∈ chunks, f = .ofPacket (.continuation chunk) .none
      ∨ f = .ofPacket (.continuation chunk) ⟨Flags.lastMask⟩ := by
  fun_induction followers chunks with
  | case1 => exact absurd h List.not_mem_nil
  | case2 chunk => exact ⟨chunk, by simp, Or.inr (List.mem_singleton.mp h)⟩
  | case3 chunk rest hne ih =>
    rcases List.mem_cons.mp h with rfl | hm
    · exact ⟨chunk, by simp, Or.inl rfl⟩
    · obtain ⟨c, hc, hf⟩ := ih hm
      exact ⟨c, List.mem_cons_of_mem _ hc, hf⟩

/-- The packet of the leading fragment; it opens with the command header where there is room. -/
def leadPacket (header : Option CommandHeader) (first : List UInt8) : Packet :=
  if header.isSome ∧ CommandHeader.length ≤ first.length then
    ⟨header, first.drop CommandHeader.length⟩
  else .continuation first

theorem lead_eq (header : Option CommandHeader) (first : List UInt8) :
    lead header first = .ofPacket (leadPacket header first) ⟨Flags.firstMask⟩ := rfl

theorem body_leadPacket {p : Packet} {first rest : List UInt8} (h : first ++ rest = p.body) :
    (leadPacket p.header first).body = first := by
  unfold leadPacket
  split
  · next hroom =>
    obtain ⟨header, hh⟩ := Option.isSome_iff_exists.mp hroom.1
    have hbody : first ++ rest = header.encode ++ p.payload := by rw [h, Packet.body, hh]
    have htake : first.take CommandHeader.length = header.encode := by
      have := congrArg (List.take CommandHeader.length) hbody
      rwa [List.take_append_of_le_length hroom.2,
        List.take_left' (CommandHeader.length_encode header)] at this
    rw [hh]
    simp only [Packet.body]
    rw [← htake, List.take_append_drop]
  · rfl

theorem mem_split {p : Packet} (hp : p.header.isSome = true) {maxBody : Nat} {f : Frame}
    (hf : f ∈ split p maxBody) :
    ∃ (q : Packet) (flags : Flags), f = .ofPacket q flags
      ∧ q.encodedLength + FrameHeader.overhead < 65536 ∧ flags.isAck = false
      ∧ q.header.isSome = (flags.isFirst && (flags.isLast
        || decide (Packet.checksumLength + CommandHeader.length ≤ q.encodedLength))) := by
  have hshort : ∀ {q : Packet}, q.body.length ≤ Frame.bodyLimit →
      q.encodedLength + FrameHeader.overhead < 65536 := by
    intro q hl
    rw [Packet.encodedLength]
    simp only [Packet.checksumLength, FrameHeader.overhead, Frame.bodyLimit] at *
    omega
  rcases split_cases p maxBody with ⟨h, hl⟩ | ⟨first, chunks, h, -, hbody, hl, hls⟩
  · rw [h, List.mem_singleton] at hf
    exact ⟨p, .single, hf, hshort hl, rfl, hp⟩
  · rw [h] at hf
    rcases List.mem_cons.mp hf with rfl | hm
    · have hb := body_leadPacket hbody
      refine ⟨leadPacket p.header first, _, lead_eq _ _, hshort (by rw [hb]; exact hl), rfl, ?_⟩
      have hlen : (leadPacket p.header first).encodedLength
          = Packet.checksumLength + first.length := by rw [Packet.encodedLength, hb]
      have hfirst : (Flags.mk Flags.firstMask).isFirst = true := rfl
      have hlast : (Flags.mk Flags.firstMask).isLast = false := rfl
      rw [hlen, hfirst, hlast, leadPacket]
      by_cases hroom : CommandHeader.length ≤ first.length
      · simp [hp, hroom]
      · simp [hroom, Packet.continuation]
    · obtain ⟨chunk, hc, rfl | rfl⟩ := mem_followers hm
      · exact ⟨_, _, rfl, hshort (hls chunk hc), rfl, rfl⟩
      · exact ⟨_, _, rfl, hshort (hls chunk hc), rfl, rfl⟩

theorem wellFormed_of_mem_split {p : Packet} (hp : p.header.isSome = true) {maxBody : Nat}
    {f g : Frame} (hf : f ∈ split p maxBody) (hs : f.StampOf g) :
    g.WellFormed ∧ g.isAck = false ∧ g.header.frameType = FrameHeader.packetType := by
  obtain ⟨q, flags, rfl, hl, ha, ho⟩ := mem_split hp hf
  obtain ⟨seq, rfl⟩ := id hs
  exact ⟨Frame.wellFormed_stamp_ofPacket hl ha ho seq, hs.isAck.trans ha, rfl⟩

end Fragment

/-- A frame as it is made of a packet that opens with a command header: in one frame, if the size field
has room for it, or as one of the fragments. -/
inductive Frame.Made : Frame → Prop where
  | whole {packet : Packet} : packet.header.isSome = true →
    packet.encodedLength + FrameHeader.overhead < 65536 → Made (.single packet)
  | fragment {packet : Packet} {maxBody : Nat} {frame : Frame} : packet.header.isSome = true →
    frame ∈ Fragment.split packet maxBody → Made frame

theorem Frame.Made.stamp {f : Frame} (h : f.Made) (seq : UInt8) :
    (f.stamp seq).WellFormed ∧ (f.stamp seq).isAck = false
      ∧ (f.stamp seq).header.frameType = FrameHeader.packetType := by
  cases h with
  | @whole packet hp hl =>
    have hs : (Frame.single packet).StampOf ((Frame.single packet).stamp seq) := ⟨seq, rfl⟩
    have hopens : packet.header.isSome = (Flags.single.isFirst && (Flags.single.isLast
        || decide (Packet.checksumLength + CommandHeader.length ≤ packet.encodedLength))) := hp
    have hack : Flags.single.isAck = false := by decide
    exact ⟨wellFormed_stamp_ofPacket hl hack hopens seq, hs.isAck.trans hack, rfl⟩
  | fragment hp hf => exact Fragment.wellFormed_of_mem_split hp hf ⟨seq, rfl⟩

namespace Fragment

def Whole (marks : List (Bool × Bool)) : Prop :=
  ∃ n, marks.map (·.1) = true :: List.replicate n false
    ∧ marks.map (·.2) = List.replicate n false ++ [true]

theorem marks_followers {chunks : List (List UInt8)} (h : chunks ≠ []) :
    (followers chunks).map Frame.marks
      = List.replicate (chunks.length - 1) (false, false) ++ [(false, true)] := by
  fun_induction followers chunks with
  | case1 => exact absurd rfl h
  | case2 chunk =>
    rw [List.map_singleton, Frame.marks_ofPacket]
    rfl
  | case3 chunk rest hne ih =>
    have hlength : (chunk :: rest).length - 1 = (rest.length - 1) + 1 := by
      have := List.length_pos_of_ne_nil hne
      rw [List.length_cons]
      omega
    rw [List.map_cons, ih hne, hlength, List.replicate_succ, List.cons_append,
      Frame.marks_ofPacket]
    rfl

theorem whole_split (p : Packet) (maxBody : Nat) : Whole ((split p maxBody).map Frame.marks) := by
  rcases split_cases p maxBody with ⟨h, -⟩ | ⟨first, chunks, h, hne, -⟩
  · have hsingle : (Frame.single p).marks = (true, true) := by
      rw [Frame.single, Frame.marks_ofPacket]
      rfl
    rw [h, List.map_singleton, hsingle]
    exact ⟨0, rfl, rfl⟩
  · have hlead : (lead p.header first).marks = (true, false) := by
      rw [lead_eq, Frame.marks_ofPacket]
      rfl
    rw [h, List.map_cons, marks_followers hne, hlead]
    refine ⟨chunks.length - 1 + 1, ?_, ?_⟩
    · simp [List.replicate_succ']
    · simp [List.replicate_succ]

theorem Whole.prefix_eq {ms more : List (Bool × Bool)} (h : Whole ms) (h' : Whole (ms ++ more)) :
    more = [] := by
  obtain ⟨n, -, hn⟩ := h
  obtain ⟨m, -, hm⟩ := h'
  rw [List.map_append, hn] at hm
  rcases List.eq_nil_or_concat more with hnil | ⟨init, last, rfl⟩
  · exact hnil
  · rw [List.map_concat, List.concat_eq_append, ← List.append_assoc] at hm
    have hinit := (List.append_inj' hm rfl).1
    have hmem : true ∈ List.replicate m false := by
      rw [← hinit]
      simp
    exact absurd (List.eq_of_mem_replicate hmem) Bool.noConfusion

theorem joined?_stampOf {frames stamped : List Frame}
    (h : List.Forall₂ Frame.StampOf frames stamped) : joined? stamped = joined? frames := by
  induction h with
  | nil => rfl
  | cons hs _ ih => simp only [joined?, hs.packet, ih]

theorem joined?_followers (chunks : List (List UInt8)) :
    joined? (followers chunks) = some chunks.flatten := by
  fun_induction followers chunks with
  | case1 => rfl
  | case2 chunk => simp [joined?, Frame.ofPacket, Packet.continuation, Packet.body]
  | case3 chunk rest hne ih =>
    simp [joined?, ih, Frame.ofPacket, Packet.continuation, Packet.body]

theorem joined?_split (p : Packet) (maxBody : Nat) : joined? (split p maxBody) = some p.body := by
  rcases split_cases p maxBody with ⟨h, -⟩ | ⟨first, chunks, h, -, hbody, -⟩
  · simp [h, joined?, Frame.single, Frame.ofPacket]
  · have hb := body_leadPacket hbody
    simp [h, lead_eq, joined?, joined?_followers, Frame.ofPacket, hb, hbody]

theorem joined?_of_merge {frames : List Frame} {q : Packet} (h : merge frames = .ok q) :
    joined? frames = some q.body := by
  unfold merge at h
  split at h
  · simp at h
  · split at h
    · simp at h
    · next body hj =>
      have hq : Packet.withChecksum body = Packet.withChecksum q.body := (Packet.decode_sound h).2
      rw [hj, (List.append_inj' hq (by simpa using congrArg List.length hq)).2]

theorem split_ne_nil (p : Packet) (maxBody : Nat) : split p maxBody ≠ [] := by
  rcases split_cases p maxBody with ⟨h, -⟩ | ⟨first, chunks, h, -⟩
  · rw [h]
    exact List.cons_ne_nil _ _
  · rw [h]
    exact List.cons_ne_nil _ _

theorem merge_split {p : Packet} (hp : p.header.isSome = true) {maxBody : Nat}
    {stamped : List Frame} (h : List.Forall₂ Frame.StampOf (split p maxBody) stamped) :
    merge stamped = .ok p := by
  have hne : stamped.isEmpty = false := by
    cases h' : split p maxBody with
    | nil => exact absurd h' (split_ne_nil p maxBody)
    | cons f rest =>
      rw [h'] at h
      cases h
      rfl
  obtain ⟨header, payload⟩ := p
  obtain ⟨header, rfl⟩ := Option.isSome_iff_exists.mp hp
  have hd : Packet.decode (Packet.withChecksum (Packet.ofHeader header payload).body)
      = .ok (.ofHeader header payload) := Packet.decode_complete header payload
  rw [merge, hne, joined?_stampOf h, joined?_split]
  exact hd

end Fragment

end NcpHost
