import NcpHost.Proofs.Frame.Fragment

/-! How a packet is laid out in fragments: how many there are, how long each is, which marks and sizes
they carry. The remainder goes first, so the bytes behind it divide evenly and every follower is
full. Over the wire and back, the fragments make the packet that they were cut from. -/

namespace NcpHost.Fragment

theorem length_drop_dvd {size : Nat} {bs : List UInt8} (hd : size ∣ bs.length) :
    size ∣ (bs.drop size).length := by
  rw [List.length_drop]
  exact Nat.dvd_sub hd (Nat.dvd_refl size)

theorem length_eq_of_mem_pieces {size : Nat} {bs chunk : List UInt8} (hd : size ∣ bs.length)
    (h : chunk ∈ pieces size bs) : chunk.length = size := by
  fun_induction pieces size bs with
  | case1 => exact absurd h List.not_mem_nil
  | case2 bs hb ih =>
    rcases List.mem_cons.mp h with rfl | hm
    · have hpos : 0 < bs.length := List.length_pos_of_ne_nil fun he => hb (Or.inl he)
      exact List.length_take_of_le (Nat.le_of_dvd hpos hd)
    · exact ih (length_drop_dvd hd) hm

theorem length_pieces {size : Nat} {bs : List UInt8} (hs : 0 < size) (hd : size ∣ bs.length) :
    size * (pieces size bs).length = bs.length := by
  fun_induction pieces size bs with
  | case1 bs hb =>
    have hnil : bs = [] := hb.resolve_right (Nat.ne_of_gt hs)
    rw [hnil]
    rfl
  | case2 bs hb ih =>
    have hpos : 0 < bs.length := List.length_pos_of_ne_nil fun he => hb (Or.inl he)
    have hle : size ≤ bs.length := Nat.le_of_dvd hpos hd
    rw [List.length_cons, Nat.mul_succ, ih (length_drop_dvd hd), List.length_drop,
      Nat.sub_add_cancel hle]

theorem leadLength_bounds {limit : Nat} (hpos : 0 < limit) (total : Nat) :
    0 < leadLength total limit ∧ leadLength total limit ≤ limit
      ∧ limit ∣ total - leadLength total limit := by
  have hmod := Nat.mod_lt total hpos
  unfold leadLength
  split
  · next hr =>
    exact ⟨hpos, Nat.le_refl limit, Nat.dvd_sub (Nat.dvd_of_mod_eq_zero hr) (Nat.dvd_refl limit)⟩
  · next hr => exact ⟨Nat.pos_of_ne_zero hr, Nat.le_of_lt hmod, Nat.dvd_sub_mod total⟩

theorem count_eq {first limit : Nat} (hpos : 0 < first) (hle : first ≤ limit) (full : Nat) :
    (first + limit * full + limit - 1) / limit = full + 1 := by
  have hsum : first + limit * full + limit - 1 = first - 1 + limit * (full + 1) := by
    rw [Nat.mul_succ]
    omega
  rw [hsum, Nat.add_mul_div_left _ _ (by omega), Nat.div_eq_of_lt (by omega), Nat.zero_add]

def limit (maxBody : Nat) : Nat := min (max maxBody 1) Frame.bodyLimit

theorem limit_pos (maxBody : Nat) : 0 < limit maxBody := by
  rw [limit, Frame.bodyLimit]
  omega

theorem split_of_le {p : Packet} {maxBody : Nat} (h : p.body.length ≤ limit maxBody) :
    split p maxBody = [.single p] := if_pos h

theorem split_of_lt {p : Packet} {maxBody : Nat} (h : limit maxBody < p.body.length) :
    ∃ first chunks, split p maxBody = lead p.header first :: followers chunks
      ∧ (∀ chunk ∈ chunks, chunk.length = limit maxBody)
      ∧ 0 < first.length ∧ first.length ≤ limit maxBody
      ∧ p.body.length = first.length + limit maxBody * chunks.length := by
  have hbounds := leadLength_bounds (limit_pos maxBody) p.body.length
  obtain ⟨n, hn⟩ : ∃ n, leadLength p.body.length (limit maxBody) = n := ⟨_, rfl⟩
  rw [hn] at hbounds
  obtain ⟨hpos, hle, hdvd⟩ := hbounds
  have hfirst : (p.body.take n).length = n := List.length_take_of_le (by omega)
  rw [← List.length_drop] at hdvd
  refine ⟨p.body.take n, pieces (limit maxBody) (p.body.drop n), ?_,
    fun chunk hm => length_eq_of_mem_pieces hdvd hm, ?_⟩
  · rw [← hn]
    exact if_neg (Nat.not_le.mpr h)
  · rw [length_pieces (limit_pos maxBody) hdvd, hfirst, List.length_drop]
    omega

theorem length_followers (chunks : List (List UInt8)) :
    (followers chunks).length = chunks.length := by
  fun_induction followers chunks with
  | case1 => rfl
  | case2 chunk => rfl
  | case3 chunk rest _ ih => rw [List.length_cons, List.length_cons, ih]

theorem length_split {p : Packet} (hp : p.header.isSome = true) (maxBody : Nat) :
    (split p maxBody).length = (p.body.length + limit maxBody - 1) / limit maxBody := by
  rcases Nat.lt_or_ge (limit maxBody) p.body.length with h | h
  · obtain ⟨first, chunks, hs, -, hpos, hle, htotal⟩ := split_of_lt h
    rw [hs, htotal, count_eq hpos hle, List.length_cons, length_followers]
  · obtain ⟨header, hheader⟩ := Option.isSome_iff_exists.mp hp
    have hpos : 0 < p.body.length := by
      simp only [Packet.body, hheader, List.length_append, CommandHeader.length_encode]
      exact Nat.add_pos_left (by decide) _
    have hone := count_eq hpos h 0
    rw [Nat.mul_zero, Nat.add_zero] at hone
    rw [split_of_le h, hone]
    rfl

theorem full_of_mem_tail {p : Packet} {maxBody : Nat} {f : Frame}
    (hf : f ∈ (split p maxBody).tail) :
    ∃ q, f.packet = some q ∧ q.body.length = limit maxBody := by
  rcases Nat.lt_or_ge (limit maxBody) p.body.length with h | h
  · obtain ⟨first, chunks, hs, hfull, -⟩ := split_of_lt h
    rw [hs, List.tail_cons] at hf
    obtain ⟨chunk, hc, rfl | rfl⟩ := mem_followers hf
    · exact ⟨.continuation chunk, rfl, hfull chunk hc⟩
    · exact ⟨.continuation chunk, rfl, hfull chunk hc⟩
  · rw [split_of_le h] at hf
    exact absurd hf List.not_mem_nil

theorem size_of_mem_split {p : Packet} (hp : p.header.isSome = true) {maxBody : Nat} {f : Frame}
    (hf : f ∈ split p maxBody) :
    ∃ q, f.packet = some q ∧ f.header.size.toNat = q.encode.length + 5 := by
  obtain ⟨q, flags, rfl, hl, -⟩ := mem_split hp hf
  exact ⟨q, rfl, by rw [Packet.length_encode]; exact Frame.size_forBody hl flags⟩

theorem marks_split (p : Packet) (maxBody : Nat) :
    (split p maxBody).map (·.header.flags.isFirst)
        = true :: List.replicate ((split p maxBody).length - 1) false
      ∧ (split p maxBody).map (·.header.flags.isLast)
        = List.replicate ((split p maxBody).length - 1) false ++ [true] := by
  obtain ⟨n, hfirst, hlast⟩ := whole_split p maxBody
  rw [List.map_map] at hfirst hlast
  have hn : (split p maxBody).length - 1 = n := by
    have := congrArg List.length hfirst
    simp only [List.length_map, List.length_cons, List.length_replicate] at this
    omega
  rw [hn]
  exact ⟨hfirst, hlast⟩

theorem decode_stamp {p : Packet} (hp : p.header.isSome = true) {maxBody : Nat} {f : Frame}
    (hf : f ∈ split p maxBody) (seq : UInt8) :
    Frame.decode (f.stamp seq).encode = .ok (f.stamp seq, (f.stamp seq).encode.length) := by
  have hwell := (wellFormed_of_mem_split hp hf ⟨seq, rfl⟩).1
  exact Frame.decode_eq_ok_iff.mpr ⟨hwell, rfl, List.prefix_refl _⟩

def mergeRead (wire : List (List UInt8)) : Except FrameFault Packet := do
  merge (← wire.mapM fun bs => Prod.fst <$> Frame.decode bs)

theorem mergeRead_encode {frames : List Frame}
    (h : ∀ f ∈ frames, Frame.decode f.encode = .ok (f, f.encode.length)) :
    mergeRead (frames.map Frame.encode) = merge frames := by
  have hread : (frames.map Frame.encode).mapM (fun bs => Prod.fst <$> Frame.decode bs)
      = .ok frames := by
    induction frames with
    | nil => rfl
    | cons f rest ih =>
      rw [List.map_cons, List.mapM_cons, h f List.mem_cons_self,
        ih fun g hg => h g (List.mem_cons_of_mem _ hg)]
      rfl
  rw [mergeRead, hread]
  rfl

/-- The layout of a packet's fragments, and their way over the wire. There are as many as it takes;
all but the first are full; the first alone starts the packet and the last alone completes it; no
size field wraps; each of them is read back as it was written, and together they make the packet. -/
theorem split_layout {p : Packet} (hp : p.header.isSome = true) (maxBody : Nat) :
    let m := min (max maxBody 1) Frame.bodyLimit
    let t := p.body.length
    let frames := split p maxBody
    frames.length = max 1 ((t + m - 1) / m)
      ∧ (∀ f ∈ frames.tail, ∃ q, f.packet = some q ∧ q.body.length = m)
      ∧ frames.map (·.header.flags.isFirst) = true :: List.replicate (frames.length - 1) false
      ∧ frames.map (·.header.flags.isLast) = List.replicate (frames.length - 1) false ++ [true]
      ∧ (∀ f ∈ frames, ∃ q, f.packet = some q ∧ f.header.size.toNat = q.encode.length + 5)
      ∧ (∀ f ∈ frames, ∀ seq, Frame.decode (f.stamp seq).encode
        = .ok (f.stamp seq, (f.stamp seq).encode.length))
      ∧ ∀ seqs : List UInt8, seqs.length = frames.length →
        mergeRead ((List.zipWith Frame.stamp frames seqs).map Frame.encode) = .ok p := by
  intro m t frames
  obtain ⟨hfirst, hlast⟩ := marks_split p maxBody
  refine ⟨?_, fun f hf => full_of_mem_tail hf, hfirst, hlast, fun f hf => size_of_mem_split hp hf,
    fun f hf seq => decode_stamp hp hf seq, fun seqs hseqs => ?_⟩
  · have hpos : 1 ≤ frames.length := List.length_pos_of_ne_nil (split_ne_nil p maxBody)
    have hcount : frames.length = (t + m - 1) / m := length_split hp maxBody
    rw [← hcount]
    omega
  · have hstamped := Frame.stampOf_zipWith hseqs
    rw [mergeRead_encode fun g hg => ?_, merge_split hp hstamped]
    obtain ⟨f, hf, seq, rfl⟩ := exists_of_mem_right hstamped hg
    exact decode_stamp hp hf seq

/-- Nine bytes by three: the total divides evenly, and the leading fragment has no room for the
command header. -/
theorem split_layout_nine_by_three :
    let p := Packet.ofHeader (.of .response 1) [1, 2, 3, 4, 5]
    p.header.isSome = true
      ∧ (split p 3).length = 3
      ∧ mergeRead ((List.zipWith Frame.stamp (split p 3) [1, 2, 3]).map Frame.encode) = .ok p := by
  intro p
  have hp : p.header.isSome = true := rfl
  obtain ⟨hcount, -, -, -, -, -, hmerge⟩ := split_layout hp 3
  have hlength : (split p 3).length = 3 := hcount.trans (by decide)
  exact ⟨hp, hlength, hmerge [1, 2, 3] hlength.symm⟩

end NcpHost.Fragment
