import NcpHost.Proofs.Frame.Stream

/-! Taking frames out of any bytes whatever: it comes to an end, since each resynchronisation drops
bytes; it invents nothing, since every frame was there byte for byte, behind the one before; and it
never stalls on garbage, since what it waits for is announced by a header whose checksum is right. A
size has two bytes, so what is kept between two chunks is bounded. -/

namespace NcpHost.Stream

theorem next_of_frame {buffer : List UInt8} {frame : Frame} {used : Nat}
    (h : look buffer = .frame frame used) : next buffer = (some frame, buffer.drop used) := by
  rw [next]
  split <;> simp_all

theorem next_of_incomplete {buffer : List UInt8} (h : look buffer = .incomplete) :
    next buffer = (none, buffer) := by
  rw [next]
  split <;> simp_all

theorem next_of_garbage {buffer : List UInt8} (h : look buffer = .garbage) :
    next buffer = next (seek buffer.tail) := by
  rw [next]
  split <;> simp_all

def resynced (buffer : List UInt8) : (count : Nat) → List UInt8
  | 0 => buffer
  | count + 1 => resynced (seek buffer.tail) count

/-- From one buffer to the next bytes are dropped from the front, at least one of them. -/
def Drops (before after : List UInt8) : Prop := after <:+ before ∧ after.length < before.length

theorem drops_resync {buffer : List UInt8} (h : look buffer = .garbage) :
    Drops buffer (seek buffer.tail) :=
  ⟨(seek_suffix _).trans (List.tail_suffix _), length_resync_lt h⟩

/-- After `count` resynchronisations, each of which drops bytes of a buffer that starts with garbage,
the first frame or the lack of one decides. -/
structure Decided (buffer : List UInt8) (count : Nat) : Prop where
  garbage : ∀ i < count, look (resynced buffer i) = .garbage
    ∧ Drops (resynced buffer i) (resynced buffer (i + 1))
  verdict : match look (resynced buffer count) with
    | .frame frame used => next buffer = (some frame, (resynced buffer count).drop used)
    | .incomplete => next buffer = (none, resynced buffer count)
    | .garbage => False

theorem exists_decided (buffer : List UInt8) : ∃ count ≤ buffer.length, Decided buffer count := by
  fun_induction next buffer with
  | case1 buffer frame used h =>
    refine ⟨0, Nat.zero_le _, fun i hi => absurd hi (Nat.not_lt_zero i), ?_⟩
    rw [resynced, h]
    exact next_of_frame h
  | case2 buffer h =>
    refine ⟨0, Nat.zero_le _, fun i hi => absurd hi (Nat.not_lt_zero i), ?_⟩
    rw [resynced, h]
    exact next_of_incomplete h
  | case3 buffer h ih =>
    obtain ⟨count, hle, hgarbage, hverdict⟩ := ih
    have hlt := length_resync_lt h
    refine ⟨count + 1, by omega, fun i hi => ?_, ?_⟩
    · cases i with
      | zero => exact ⟨h, drops_resync h⟩
      | succ i => exact hgarbage i (Nat.lt_of_succ_lt_succ hi)
    · rw [next_of_garbage h]
      exact hverdict

/-- Bytes that may become a frame once more are there: less than a header, or a header that is right
and announces more than is there. -/
def Waiting (left : List UInt8) : Prop :=
  left.length < FrameHeader.length
    ∨ ∃ header rest, left = FrameHeader.encode header ++ rest ∧ header.Valid
      ∧ header.frameType = FrameHeader.packetType ∧ header.flags.isAck = false
      ∧ left.length < header.size.toNat + 2

theorem look_incomplete_iff {left : List UInt8} : look left = .incomplete ↔ Waiting left := by
  constructor
  · intro h
    by_cases hshort : left.length < FrameHeader.length
    · exact .inl hshort
    · have hb : holds FrameHeader.length left = true := holds_iff.mpr (Nat.le_of_not_lt hshort)
      cases hd : FrameHeader.decode left with
      | error fault => simp [look, hb, hd] at h
      | ok header =>
        obtain ⟨hv, rest, hleft⟩ := FrameHeader.decode_sound hd
        have ht : header.frameType = FrameHeader.packetType := by
          refine Decidable.byContradiction fun ht => ?_
          simp [look, hb, hd, ht] at h
        cases hw : !header.flags.isAck && !holds (header.size.toNat + 2) left with
        | true =>
          obtain ⟨ha, hless⟩ := Bool.and_eq_true_iff.mp hw
          have hn : ¬header.size.toNat + 2 ≤ left.length := by
            rw [← holds_iff]
            simpa using hless
          exact .inr ⟨header, rest, hleft, hv, ht, by simpa using ha, Nat.lt_of_not_le hn⟩
        | false =>
          simp only [look, hb, hd, ht, hw, Bool.not_true, Bool.false_eq_true, ne_eq,
            not_true_eq_false, if_false] at h
          split at h <;> cases h
  · rintro (hshort | ⟨header, rest, rfl, hv, ht, ha, hless⟩)
    · exact look_of_short hshort
    · have hb : holds FrameHeader.length (header.encode ++ rest) = true := by
        rw [holds_iff, List.length_append, FrameHeader.length_encode]
        omega
      have hn : holds (header.size.toNat + 2) (header.encode ++ rest) = false := by
        rw [Bool.eq_false_iff, ne_eq, holds_iff]
        omega
      simp [look, hb, FrameHeader.decode_complete hv rest, ht, ha, hn]

theorem look_next {buffer : List UInt8} (h : (next buffer).1 = none) :
    look (next buffer).2 = .incomplete := by
  fun_induction next buffer with
  | case1 => cases h
  | case2 buffer hl => exact hl
  | case3 buffer hl ih => exact ih h

theorem length_of_waiting {left : List UInt8} (h : Waiting left) : left.length ≤ 65536 := by
  rcases h with hshort | ⟨header, rest, -, -, -, -, hless⟩
  · rw [FrameHeader.length] at hshort
    omega
  · have := header.size.toNat_lt
    omega

/-- The frames stand in the bytes as they are written, one behind the other with gaps between them, and
what is left is the end of the bytes behind them. -/
inductive Found : List Frame → List UInt8 → List UInt8 → Prop where
  | done (gap left : List UInt8) : Found [] (gap ++ left) left
  | frame {frames : List Frame} {rest left : List UInt8} (gap : List UInt8) (f : Frame) :
    Found frames rest left → Found (f :: frames) (gap ++ (f.encode ++ rest)) left

theorem Found.behind {frames : List Frame} {bytes left : List UInt8} (h : Found frames bytes left)
    (gap : List UInt8) : Found frames (gap ++ bytes) left := by
  cases h with
  | done more left => exact List.append_assoc gap more left ▸ .done (gap ++ more) left
  | frame more f h => exact List.append_assoc gap more _ ▸ .frame (gap ++ more) f h

theorem Found.trans {frames later : List Frame} {bytes left last : List UInt8} {more : List UInt8}
    (h : Found frames bytes left) (hl : Found later (left ++ more) last) :
    Found (frames ++ later) (bytes ++ more) last := by
  induction h with
  | done gap left => exact List.append_assoc gap left more ▸ hl.behind gap
  | frame gap f h ih =>
    rw [List.append_assoc, List.append_assoc]
    exact .frame gap f (ih hl)

theorem found_of_suffix {bytes left : List UInt8} (h : left <:+ bytes) : Found [] bytes left := by
  obtain ⟨gap, rfl⟩ := h
  exact .done gap left

theorem found_next (buffer : List UInt8) :
    Found (next buffer).1.toList buffer (next buffer).2 := by
  fun_induction next buffer with
  | case1 buffer frame used h =>
    obtain ⟨-, rfl, rest, rfl⟩ := look_sound h
    rw [List.drop_left]
    exact .frame [] frame (found_of_suffix (List.suffix_refl rest))
  | case2 buffer h => exact found_of_suffix (List.suffix_refl buffer)
  | case3 buffer h ih =>
    obtain ⟨gap, hgap⟩ := (drops_resync h).1
    have hbehind := ih.behind gap
    rwa [hgap] at hbehind

def calls : (count : Nat) → (buffer : List UInt8) → List Frame × List UInt8
  | 0, buffer => ([], buffer)
  | count + 1, buffer =>
    let (frame?, rest) := next buffer
    let (frames, left) := calls count rest
    (frame?.toList ++ frames, left)

theorem found_calls (count : Nat) (buffer : List UInt8) :
    Found (calls count buffer).1 buffer (calls count buffer).2 := by
  induction count generalizing buffer with
  | zero => exact found_of_suffix (List.suffix_refl buffer)
  | succ count ih =>
    have hlater := ih (next buffer).2
    rw [← List.append_nil (next buffer).2] at hlater
    have hall := (found_next buffer).trans hlater
    rwa [List.append_nil, List.append_nil] at hall

theorem calls_drain (buffer : List UInt8) :
    calls ((drain buffer).1.length + 1) buffer = drain buffer
      ∧ (next (drain buffer).2).1 = none := by
  refine ⟨?_, congrArg Prod.fst (next_of_incomplete (look_drain buffer))⟩
  fun_induction drain buffer with
  | case1 buffer frame used h frames left hd ih =>
    rw [hd] at ih
    rw [List.length_cons, calls, next_of_frame h]
    simp only [ih, Option.toList_some, List.singleton_append]
  | case2 buffer h =>
    rw [List.length_nil, calls, next_of_incomplete h]
    rfl
  | case3 buffer h ih =>
    rw [calls] at ih ⊢
    rwa [next_of_garbage h]

theorem found_drain (buffer : List UInt8) : Found (drain buffer).1 buffer (drain buffer).2 := by
  have h := found_calls ((drain buffer).1.length + 1) buffer
  rwa [(calls_drain buffer).1] at h

theorem found_feed (buffer : List UInt8) (chunks : List (List UInt8)) :
    Found (feed buffer chunks).1 (buffer ++ chunks.flatten) (feed buffer chunks).2 := by
  induction chunks generalizing buffer with
  | nil =>
    rw [List.flatten_nil, List.append_nil]
    exact found_of_suffix (List.suffix_refl buffer)
  | cons chunk rest ih =>
    rw [List.flatten_cons, ← List.append_assoc]
    exact (found_drain (buffer ++ chunk)).trans (ih (drain (buffer ++ chunk)).2)

theorem waiting_feed {buffer : List UInt8} (h : Waiting buffer) (chunks : List (List UInt8)) :
    Waiting (feed buffer chunks).2 := by
  induction chunks generalizing buffer with
  | nil => exact h
  | cons chunk rest ih => exact ih (look_incomplete_iff.mp (look_drain (buffer ++ chunk)))

/-- Whatever a buffer holds: a call comes to an end after at most as many resynchronisations as there
are bytes, each of which drops bytes from the front; any number of calls give frames that stand in the
buffer one behind the other, and leave the end of the buffer behind them; a call gives no frame only
where what is left may still become one; and taking out all frames is calling until none comes. Whatever
arrives in whatever chunks, this holds of all bytes so far, and no more than 65536 are ever kept. -/
theorem extraction (buffer : List UInt8) (chunks : List (List UInt8)) :
    (∃ count ≤ buffer.length, Decided buffer count)
      ∧ (∀ count, Found (calls count buffer).1 buffer (calls count buffer).2)
      ∧ ((next buffer).1 = none → Waiting (next buffer).2)
      ∧ calls ((drain buffer).1.length + 1) buffer = drain buffer
      ∧ (next (drain buffer).2).1 = none
      ∧ Found (feed [] chunks).1 chunks.flatten (feed [] chunks).2
      ∧ Waiting (feed [] chunks).2
      ∧ (feed [] chunks).2.length ≤ 65536 := by
  have hempty : Waiting [] := .inl (by decide)
  have hkept := waiting_feed hempty chunks
  exact ⟨exists_decided buffer, fun count => found_calls count buffer,
    fun h => look_incomplete_iff.mp (look_next h), (calls_drain buffer).1, (calls_drain buffer).2,
    found_feed [] chunks, hkept, length_of_waiting hkept⟩

end NcpHost.Stream
