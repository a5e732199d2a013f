import NcpHost.Link.Pair
import NcpHost.Proofs.Link.Patience

/-! Two links back to back. Each direction is a stream of frames, data of the one side and
acknowledgements of the data of the other: what was taken at the far end, then what is still on its
way. So what is handed over is the beginning of what was written, and the acknowledgements that come
back are those of its frames, in order and none twice. -/

namespace NcpHost

/-- The stream from one link to another. Some of the frames sent are taken; the rest is in the bytes
that wait at the far end, those on their way, and those that have not left. -/
structure Flow (sent taken rest : List Frame) (buffer wire pending : List UInt8) : Prop where
  intact : ∀ f ∈ sent, f.WellFormed ∧ f.header.frameType = FrameHeader.packetType
  split : sent = taken ++ rest
  bytes : buffer ++ wire ++ pending = rest.flatMap Frame.encode

namespace Flow

variable {sent taken rest : List Frame} {buffer wire pending : List UInt8}

theorem nil : Flow [] [] [] [] [] [] :=
  ⟨fun _ hf => absurd hf List.not_mem_nil, rfl, rfl⟩

theorem put (h : Flow sent taken rest buffer wire pending) {more : List Frame}
    (hmore : ∀ f ∈ more, f.WellFormed ∧ f.header.frameType = FrameHeader.packetType) :
    Flow (sent ++ more) taken (rest ++ more) buffer wire (pending ++ more.flatMap Frame.encode) := by
  refine ⟨fun f hf => ?_, ?_, ?_⟩
  · rcases List.mem_append.mp hf with hf | hf
    · exact h.intact f hf
    · exact hmore f hf
  · rw [h.split, List.append_assoc]
  · rw [List.flatMap_append, ← h.bytes, List.append_assoc _ pending]

theorem ship (h : Flow sent taken rest buffer wire pending) :
    Flow sent taken rest buffer (wire ++ pending) [] := by
  refine ⟨h.intact, h.split, ?_⟩
  rw [List.append_nil, ← List.append_assoc]
  exact h.bytes

theorem arrive (h : Flow sent taken rest buffer wire pending) (count : Nat) :
    ∃ later, Flow sent (taken ++ (Stream.drain (buffer ++ wire.take count)).1) later
      (Stream.drain (buffer ++ wire.take count)).2 (wire.drop count) pending := by
  have hrest : ∀ f ∈ rest, f.WellFormed ∧ f.header.frameType = FrameHeader.packetType :=
    fun f hf => h.intact f (h.split ▸ List.mem_append_right _ hf)
  have hbytes : (buffer ++ wire.take count) ++ (wire.drop count ++ pending)
      = rest.flatMap Frame.encode := by
    rw [← h.bytes]
    simp [← List.append_assoc (wire.take count)]
  obtain ⟨later, hlater, hleft⟩ := Stream.drain_start hrest hbytes
  refine ⟨later, h.intact, ?_, ?_⟩
  · rw [h.split, hlater, List.append_assoc]
  · rw [List.append_assoc]
    exact hleft

end Flow

namespace Pair

theorem place_isMild (p : Pair) (act : Act) : (p.place act).2.isMild = true := by
  cases act <;> rfl

theorem isMild_of_place {p : Pair} {act : Act} {k : End} {a : Senders.Act}
    (h : p.place act = (k, a)) : a.isMild = true := by
  have hm := p.place_isMild act
  rwa [h] at hm

theorem ends_perform (p : Pair) (act : Act) (e : End) :
    (p.perform act).ends e
      = if e = (p.place act).1 then (p.ends e).perform (p.place act).2 else p.ends e := rfl

theorem wire_source (p : Pair) (act : Act) :
    ((p.place act).2 = .look ∧ (p.perform act).wire (p.place act).1.other
        = p.wire (p.place act).1.other ++ (p.ends (p.place act).1).link.outgoing.flatten)
      ∨ (p.place act).2 ≠ .look
        ∧ (p.perform act).wire (p.place act).1.other = p.wire (p.place act).1.other := by
  cases act with
  | ship e => exact Or.inl ⟨rfl, if_pos rfl⟩
  | carry e count => exact Or.inr ⟨nofun, if_neg e.other_ne⟩
  | _ => exact Or.inr ⟨nofun, rfl⟩

theorem wire_sink (p : Pair) (act : Act) :
    (∃ count, (p.place act).2 = .arrive ((p.wire (p.place act).1).take count)
        ∧ (p.perform act).wire (p.place act).1 = (p.wire (p.place act).1).drop count)
      ∨ (∀ bytes, (p.place act).2 ≠ .arrive bytes)
        ∧ (p.perform act).wire (p.place act).1 = p.wire (p.place act).1 := by
  cases act with
  | ship e => exact Or.inr ⟨fun _ => nofun, if_neg e.other_ne.symm⟩
  | carry e count => exact Or.inl ⟨count, rfl, if_pos rfl⟩
  | _ => exact Or.inr ⟨fun _ => nofun, rfl⟩

section

variable (ackTimeout : End → Nat) (acts : List Act) (e : End)

def after : Pair := (new ackTimeout).run acts

def given : List Frame := Senders.given ((new ackTimeout).history e acts)

def seen : List Senders.Incident :=
  (Senders.new (ackTimeout e)).trace ((new ackTimeout).history e acts)

def taken : List Frame :=
  (Senders.new (ackTimeout e)).collect Senders.takenBy ((new ackTimeout).history e acts)

def handed : List Frame :=
  (Senders.new (ackTimeout e)).collect Senders.handedBy ((new ackTimeout).history e acts)

def written : List (TaskId × Frame) :=
  Senders.writes (given ackTimeout acts e) (seen ackTimeout acts e)

end

section

variable {ackTimeout : End → Nat} {acts : List Act}

theorem ends_after (ackTimeout : End → Nat) (acts : List Act) (e : End) :
    (after ackTimeout acts).ends e
      = (Senders.new (ackTimeout e)).run ((new ackTimeout).history e acts) :=
  ends_run (new ackTimeout) e acts

theorem after_concat (act : Act) :
    after ackTimeout (acts ++ [act]) = (after ackTimeout acts).perform act :=
  run_append (new ackTimeout) acts [act]

theorem stamped_seen (ackTimeout : End → Nat) (acts : List Act) (e : End) :
    Senders.Stamped (given ackTimeout acts e) (seen ackTimeout acts e) :=
  Senders.stamped_trace (ackTimeout e) _

section

variable {act : Act} {k : End} {a : Senders.Act}

theorem history_concat (hplace : (after ackTimeout acts).place act = (k, a)) (e : End) :
    (new ackTimeout).history e (acts ++ [act])
      = (new ackTimeout).history e acts ++ if e = k then [a] else [] := by
  rw [after] at hplace
  rw [history_append, history, history, List.append_nil, hplace]

theorem collect_concat (hplace : (after ackTimeout acts).place act = (k, a)) {α : Type}
    (shows : Senders → Senders.Act → List α) (e : End) :
    (Senders.new (ackTimeout e)).collect shows ((new ackTimeout).history e (acts ++ [act]))
      = (Senders.new (ackTimeout e)).collect shows ((new ackTimeout).history e acts)
        ++ if e = k then shows ((after ackTimeout acts).ends e) a else [] := by
  rw [history_concat hplace, Senders.collect_append, ← ends_after]
  split <;> simp [Senders.collect]

theorem taken_concat (hplace : (after ackTimeout acts).place act = (k, a)) (e : End) :
    taken ackTimeout (acts ++ [act]) e = taken ackTimeout acts e
      ++ if e = k then ((after ackTimeout acts).ends e).takenBy a else [] :=
  collect_concat hplace Senders.takenBy e

theorem handed_concat (hplace : (after ackTimeout acts).place act = (k, a)) (e : End) :
    handed ackTimeout (acts ++ [act]) e = handed ackTimeout acts e
      ++ if e = k then ((after ackTimeout acts).ends e).handedBy a else [] :=
  collect_concat hplace Senders.handedBy e

theorem seen_concat (hplace : (after ackTimeout acts).place act = (k, a)) (e : End) :
    seen ackTimeout (acts ++ [act]) e = seen ackTimeout acts e
      ++ if e = k then ((after ackTimeout acts).ends e).incidents a else [] := by
  rw [seen, history_concat hplace, Senders.trace_append, ← ends_after]
  split <;> simp [Senders.trace, seen]

theorem written_concat (hplace : (after ackTimeout acts).place act = (k, a)) (e : End) :
    written ackTimeout (acts ++ [act]) e = written ackTimeout acts e
      ++ if e = k then Senders.writes (given ackTimeout (acts ++ [act]) e)
          (((after ackTimeout acts).ends e).incidents a) else [] := by
  have hgiven : given ackTimeout (acts ++ [act]) e
      = given ackTimeout acts e ++ Senders.given (if e = k then [a] else []) := by
    rw [given, history_concat hplace, Senders.given_append]
    rfl
  have hold : Senders.writes (given ackTimeout (acts ++ [act]) e) (seen ackTimeout acts e)
      = written ackTimeout acts e := by
    rw [hgiven]
    exact (stamped_seen ackTimeout acts e).writes_append _
  rw [written, seen_concat hplace, ← hold, Senders.writes, List.filterMap_append]
  congr 1
  split <;> rfl

end

theorem send_mem_of_mem_given {p : Pair} {e : End} {f : Frame}
    (h : f ∈ Senders.given (p.history e acts)) : .send e f ∈ acts := by
  induction acts generalizing p with
  | nil => exact absurd h List.not_mem_nil
  | cons act rest ih =>
    rw [history, Senders.given_append] at h
    rcases List.mem_append.mp h with h | h
    · split at h
      · next he =>
        cases act with
        | send k frame =>
          obtain rfl : f = frame := List.mem_singleton.mp h
          exact he ▸ List.mem_cons_self
        | _ => exact absurd h List.not_mem_nil
      · exact absurd h List.not_mem_nil
    · exact List.mem_cons_of_mem _ (ih h)

end

structure Stands (ackTimeout : End → Nat) (acts : List Act) (sent rest : End → List Frame) :
    Prop where
  up : ∀ e, ((after ackTimeout acts).ends e).link.Up
  flow : ∀ e, Flow (sent e) (taken ackTimeout acts e.other) (rest e)
    ((after ackTimeout acts).ends e.other).link.buffer ((after ackTimeout acts).wire e.other)
    ((after ackTimeout acts).ends e).link.outgoing.flatten
  data : ∀ e, (sent e).filter (!·.isAck) = (written ackTimeout acts e).map (·.2)
  echoes : ∀ e, Frame.ackSeqs (sent e)
    = ((taken ackTimeout acts e).filter (!·.isAck)).map (·.header.flags.packetSeq)
  handed : ∀ e, handed ackTimeout acts e = (taken ackTimeout acts e).filter (!·.isAck)

section

variable {ackTimeout : End → Nat} {acts : List Act} {sent rest : End → List Frame}

theorem stands_new (ackTimeout : End → Nat) : Stands ackTimeout [] (fun _ => []) fun _ => [] :=
  ⟨fun e => Link.up_new (ackTimeout e), fun _ => .nil, fun _ => rfl, fun _ => rfl, fun _ => rfl⟩

section

variable {act : Act} {k : End} {a : Senders.Act}

def put (ackTimeout : End → Nat) (acts : List Act) (act : Act) (k : End) (a : Senders.Act) :
    List Frame :=
  Senders.putBy (given ackTimeout (acts ++ [act]) k) ((after ackTimeout acts).ends k) a

theorem ends_concat (hplace : (after ackTimeout acts).place act = (k, a)) (e : End) :
    (after ackTimeout (acts ++ [act])).ends e
      = if e = k then ((after ackTimeout acts).ends e).perform a
        else (after ackTimeout acts).ends e := by
  rw [after_concat, ends_perform, hplace]

theorem Stands.source (h : Stands ackTimeout acts sent rest)
    (hplace : (after ackTimeout acts).place act = (k, a))
    (hmade : ∀ f ∈ given ackTimeout (acts ++ [act]) k, f.Made) :
    ∃ later, Flow (sent k ++ put ackTimeout acts act k a) (taken ackTimeout (acts ++ [act]) k.other)
      later ((after ackTimeout (acts ++ [act])).ends k.other).link.buffer
      ((after ackTimeout (acts ++ [act])).wire k.other)
      ((after ackTimeout (acts ++ [act])).ends k).link.outgoing.flatten := by
  have htaken : taken ackTimeout (acts ++ [act]) k.other = taken ackTimeout acts k.other := by
    rw [taken_concat hplace, if_neg k.other_ne, List.append_nil]
  have hstamped : Senders.Stamped (given ackTimeout (acts ++ [act]) k)
      (((after ackTimeout acts).ends k).incidents a) := by
    refine (stamped_seen ackTimeout (acts ++ [act]) k).mono ?_
    rw [seen_concat hplace, if_pos rfl]
    exact List.subset_append_right _ _
  have hmild := isMild_of_place hplace
  have hwire := (after ackTimeout acts).wire_source act
  rw [hplace, ← after_concat] at hwire
  rw [htaken, ends_concat hplace, ends_concat hplace, if_neg k.other_ne, if_pos rfl]
  rcases hwire with ⟨rfl, hwire⟩ | ⟨hlook, hwire⟩
  · have hput : put ackTimeout acts act k .look = [] := rfl
    rw [hput, List.append_nil, hwire]
    exact ⟨rest k, (h.flow k).ship⟩
  · refine ⟨rest k ++ put ackTimeout acts act k a, ?_⟩
    have hout := Senders.perform_outgoing (h.up k) hmild hlook hstamped
    rw [hwire, hout, List.flatten_append, ← List.flatMap_def]
    exact (h.flow k).put fun f hf => Senders.putBy_intact hmade hf

theorem Stands.sink (h : Stands ackTimeout acts sent rest)
    (hplace : (after ackTimeout acts).place act = (k, a)) :
    ∃ later, Flow (sent k.other) (taken ackTimeout (acts ++ [act]) k) later
      ((after ackTimeout (acts ++ [act])).ends k).link.buffer
      ((after ackTimeout (acts ++ [act])).wire k)
      ((after ackTimeout (acts ++ [act])).ends k.other).link.outgoing.flatten := by
  have hflow := h.flow k.other
  rw [End.other_other] at hflow
  have htaken : taken ackTimeout (acts ++ [act]) k
      = taken ackTimeout acts k ++ ((after ackTimeout acts).ends k).takenBy a := by
    rw [taken_concat hplace, if_pos rfl]
  have hmild := isMild_of_place hplace
  have hwire := (after ackTimeout acts).wire_sink act
  rw [hplace, ← after_concat] at hwire
  dsimp only at hwire
  rw [htaken, ends_concat hplace, ends_concat hplace, if_neg k.other_ne, if_pos rfl]
  rcases hwire with ⟨count, rfl, hwire⟩ | ⟨harrive, hwire⟩
  · rw [hwire, Senders.buffer_arrive]
    exact hflow.arrive count
  · have hnone : ((after ackTimeout acts).ends k).takenBy a = [] := by
      cases a with
      | arrive bytes => exact absurd rfl (harrive bytes)
      | _ => rfl
    rw [hnone, List.append_nil, hwire, Senders.buffer_of_ne_arrive hmild harrive]
    exact ⟨rest k.other, hflow⟩

theorem Stands.perform (h : Stands ackTimeout acts sent rest) (act : Act)
    (hmade : ∀ e, ∀ f ∈ given ackTimeout (acts ++ [act]) e, f.Made) :
    ∃ sent' rest', Stands ackTimeout (acts ++ [act]) sent' rest' := by
  obtain ⟨⟨k, a⟩, hplace⟩ : ∃ at_, (after ackTimeout acts).place act = at_ := ⟨_, rfl⟩
  obtain ⟨later, hsource⟩ := h.source hplace (hmade k)
  obtain ⟨later', hsink⟩ := h.sink hplace
  have hmild := isMild_of_place hplace
  -- what is done at an end puts frames on its own stream and takes them from the other one
  refine ⟨fun e => sent e ++ if e = k then put ackTimeout acts act k a else [],
    fun e => if e = k then later else later', ?_, fun e => ?_, fun e => ?_, fun e => ?_, fun e => ?_⟩
  · intro e
    rw [ends_concat hplace]
    split
    · exact Senders.up_perform (h.up e) hmild
    · exact h.up e
  · by_cases he : e = k
    · subst he
      simpa using hsource
    · have he' : e = k.other := by
        cases e <;> cases k <;> simp_all [End.other]
      subst he'
      simpa [he] using hsink
  · rw [List.filter_append, h.data, written_concat hplace, List.map_append]
    congr 1
    split
    · next he =>
      subst he
      exact Senders.putBy_data (hmade e)
    · rfl
  · rw [Frame.ackSeqs_append, h.echoes, taken_concat hplace, List.filter_append, List.map_append]
    congr 1
    split
    · next he =>
      subst he
      exact Senders.ackSeqs_putBy (hmade e)
    · rfl
  · rw [handed_concat hplace, taken_concat hplace, List.filter_append, h.handed]
    congr 1
    split
    · exact Senders.handedBy_eq (h.up e)
    · rfl

theorem stands_after (ackTimeout : End → Nat) (acts : List Act)
    (hmade : ∀ e f, .send e f ∈ acts → f.Made) : ∃ sent rest, Stands ackTimeout acts sent rest := by
  induction acts using List.reverseRecOn with
  | nil => exact ⟨_, _, stands_new ackTimeout⟩
  | append_singleton acts act ih =>
    obtain ⟨sent, rest, h⟩ := ih fun e f hm => hmade e f (List.mem_append_left _ hm)
    exact h.perform act fun e f hf => hmade e f (send_mem_of_mem_given hf)

end

end

/-- What is written at one end arrives at the other: each send writes at most its own frame, stamped,
and what is handed over at the far end is the beginning of what was written, in order. -/
structure Delivers (ackTimeout : End → Nat) (acts : List Act) (e : End) : Prop where
  stamped : ∀ id f, (id, f) ∈ written ackTimeout acts e →
    ∃ frame seq, (given ackTimeout acts e)[id]? = some frame ∧ f = frame.stamp seq
  bytes : (written ackTimeout acts e).map (·.2.encode)
    = Senders.writtenBytes (seen ackTimeout acts e)
  once : ((written ackTimeout acts e).map (·.1)).Nodup
  inOrder : handed ackTimeout acts e.other <+: (written ackTimeout acts e).map (·.2)

structure Waits (ackTimeout : End → Nat) (acts : List Act) (e : End) : Prop where
  answered : (Senders.new (ackTimeout e)).collect Senders.unansweredBy
    ((new ackTimeout).history e acts) = []
  kept : ∀ id, .abandoned id ∉ seen ackTimeout acts e

/-- The two ends keep step: whoever is done had its frame handed over at the far end, and the frames are
numbered through. -/
structure InStep (ackTimeout : End → Nat) (acts : List Act) (e : End) : Prop where
  ended : ∀ id result, .ended id result ∈ seen ackTimeout acts e →
    ∃ (i : Nat) (f : Frame), (written ackTimeout acts e)[i]? = some (id, f)
      ∧ (handed ackTimeout acts e.other)[i]? = some f
  numbered : (written ackTimeout acts e).map (·.2.header.flags.packetSeq)
    = (List.range (written ackTimeout acts e).length).map Senders.number

section

variable {ackTimeout : End → Nat} {acts : List Act} {sent rest : End → List Frame}

theorem Stands.handed_prefix (h : Stands ackTimeout acts sent rest) (e : End) :
    Pair.handed ackTimeout acts e.other <+: (written ackTimeout acts e).map (·.2) := by
  rw [h.handed, ← h.data, (h.flow e).split, List.filter_append]
  exact List.prefix_append _ _

theorem Stands.acknowledged_prefix (h : Stands ackTimeout acts sent rest) (e : End) :
    Frame.ackSeqs (taken ackTimeout acts e)
      <+: (Pair.handed ackTimeout acts e.other).map (·.header.flags.packetSeq) := by
  have hsplit := (h.flow e.other).split
  rw [End.other_other] at hsplit
  rw [h.handed, ← h.echoes, hsplit, Frame.ackSeqs_append]
  exact List.prefix_append _ _

theorem Stands.delivers (h : Stands ackTimeout acts sent rest) (e : End) :
    Delivers ackTimeout acts e := by
  refine ⟨fun id f hm => ?_, (stamped_seen ackTimeout acts e).encode_writes,
    Senders.nodup_writes (ackTimeout e) _, h.handed_prefix e⟩
  obtain ⟨incident, -, hw⟩ := List.mem_filterMap.mp hm
  cases incident with
  | wrote k time bytes =>
    obtain ⟨frame, hgiven, hf⟩ := Option.map_eq_some_iff.mp hw
    obtain ⟨rfl, rfl⟩ := Prod.mk.inj hf
    exact ⟨frame, _, hgiven, rfl⟩
  | _ => exact absurd hw nofun

theorem history_isMild {p : Pair} {e : End} {a : Senders.Act} (h : a ∈ p.history e acts) :
    a.isMild = true := by
  induction acts generalizing p with
  | nil => exact absurd h List.not_mem_nil
  | cons act rest ih =>
    rcases List.mem_append.mp h with h | h
    · split at h
      · exact List.mem_singleton.mp h ▸ p.place_isMild act
      · exact absurd h List.not_mem_nil
    · exact ih h

theorem seqs_written (ackTimeout : End → Nat) (acts : List Act) (e : End) :
    (written ackTimeout acts e).map (·.2.header.flags.packetSeq)
      = Senders.writtenSeqs (seen ackTimeout acts e) :=
  (stamped_seen ackTimeout acts e).seqs_writes

theorem Stands.countedSeqs_sublist (h : Stands ackTimeout acts sent rest) (e : End) :
    (Senders.countedSeqs (seen ackTimeout acts e)).Sublist
      ((Pair.handed ackTimeout acts e.other).map (·.header.flags.packetSeq)) := by
  have hopen := (h.up e).opened
  rw [ends_after] at hopen
  exact (Senders.countedSeqs_sublist hopen).trans (h.acknowledged_prefix e).sublist

theorem Stands.mem_tallies (h : Stands ackTimeout acts sent rest) (e : End) :
    ∀ i < (seen ackTimeout acts e).countP Senders.Incident.isMatch,
      i ∈ Senders.tallies 0 (seen ackTimeout acts e) := by
  have hnumbered : Senders.Numbered (seen ackTimeout acts e) := Senders.numbered_trace _ _
  refine hnumbered.sublist_iff.mp ((h.countedSeqs_sublist e).trans ?_)
  have hseqs := (h.handed_prefix e).sublist.map (·.header.flags.packetSeq)
  rw [List.map_map] at hseqs
  exact seqs_written ackTimeout acts e ▸ hseqs

theorem Stands.inStep (h : Stands ackTimeout acts sent rest) {e : End}
    (hwaits : Waits ackTimeout acts e) : InStep ackTimeout acts e := by
  have hpatient : Senders.Patient (seen ackTimeout acts e) _ :=
    Senders.patient_run (fun a ha => history_isMild ha) hwaits.answered hwaits.kept
  have hstamped := stamped_seen ackTimeout acts e
  have hall := h.mem_tallies e
  constructor
  · intro id result hended
    obtain ⟨i, f, hf, hi⟩ :=
      hpatient.written_of_ended (Senders.kept_run _ _) hstamped hall hended
    have hle : (seen ackTimeout acts e).countP Senders.Incident.isMatch
        ≤ (Pair.handed ackTimeout acts e.other).length := by
      simpa [Senders.countedSeqs] using (h.countedSeqs_sublist e).length_le
    have hplace : ((written ackTimeout acts e).map (·.2))[i]? = some f := by
      rw [List.getElem?_map, show (written ackTimeout acts e)[i]? = some (id, f) from hf]
      rfl
    obtain ⟨more, hmore⟩ := h.handed_prefix e
    rw [← hmore, List.getElem?_append_left (hi.trans_le hle)] at hplace
    exact ⟨i, f, hf, hplace⟩
  · have hlength : (Senders.tallies 0 (seen ackTimeout acts e)).length
        = (written ackTimeout acts e).length := by
      rw [Senders.length_tallies, ← seqs_written, List.length_map]
    have hnumbered : Senders.Numbered (seen ackTimeout acts e) := Senders.numbered_trace _ _
    rw [seqs_written, hnumbered.writtenSeqs_eq, hpatient.tallies_eq hall, hlength]

/-- Two links back to back, whatever is done to them short of closing one: each hands over what the
other has written, once and in order. An end where all wait for their acknowledgements keeps step with
the other one. -/
theorem delivers_in_order (ackTimeout : End → Nat) (acts : List Act)
    (hmade : ∀ e f, .send e f ∈ acts → f.Made) (e : End) :
    Delivers ackTimeout acts e ∧ (Waits ackTimeout acts e → InStep ackTimeout acts e) := by
  obtain ⟨sent, rest, h⟩ := stands_after ackTimeout acts hmade
  exact ⟨h.delivers e, h.inStep⟩

/-- The left end sends a packet in two fragments, byte by byte at first, and waits for both; the right
end sends across it and does not wait. -/
theorem delivers_in_order_crossing :
    let p : Packet := .ofHeader (.of .request 0x77) [1, 2, 3, 4]
    let q : Packet := .ofHeader (.of .indication 0x2B) [9]
    let first : Frame := .ofPacket (.ofHeader (.of .request 0x77) []) ⟨Flags.firstMask⟩
    let last : Frame := .ofPacket (.continuation [1, 2, 3, 4]) ⟨Flags.lastMask⟩
    let acts : List Act := [.send .left first, .send .left last, .send .right (.single q),
      .turn .left 0, .turn .right 0, .ship .left, .carry .right 1, .carry .right 1, .ship .right,
      .carry .left 20, .carry .right 20, .ship .right, .elapse .right 1000, .turn .right 0,
      .carry .left 20, .turn .left 0, .turn .left 1, .ship .left, .carry .right 30]
    let timeout := fun _ : End => 1000
    Fragment.split p 4 = [first, last]
      ∧ handed timeout acts .right = [first.stamp 0, last.stamp 1]
      ∧ handed timeout acts .left = [(Frame.single q).stamp 0]
      ∧ Delivers timeout acts .right ∧ InStep timeout acts .left := by
  intro p q first last acts timeout
  have hsplit : Fragment.split p 4 = [first, last] := by decide +kernel
  have hheader : p.header.isSome = true := rfl
  have hmade : ∀ e f, .send e f ∈ acts → f.Made := by
    intro e f hm
    have hf : (e = .left ∧ f = first) ∨ (e = .left ∧ f = last) ∨ e = .right ∧ f = .single q := by
      simpa [acts] using hm
    rcases hf with ⟨-, rfl⟩ | ⟨-, rfl⟩ | ⟨-, rfl⟩
    · exact .fragment hheader (hsplit ▸ List.mem_cons_self)
    · exact .fragment hheader (hsplit ▸ List.mem_cons_of_mem _ List.mem_cons_self)
    · exact .whole rfl (by decide)
  have hwaits : Waits timeout acts .left := by
    refine ⟨by decide +kernel, fun id hm => ?_⟩
    have hnone : (seen timeout acts .left).all
        (fun e => match e with | .abandoned _ => false | _ => true) = true := by
      decide +kernel
    exact absurd (List.all_eq_true.mp hnone _ hm) Bool.false_ne_true
  refine ⟨hsplit, by decide +kernel, by decide +kernel, ?_, ?_⟩
  · exact (delivers_in_order timeout acts hmade .right).1
  · exact (delivers_in_order timeout acts hmade .left).2 hwaits

end

end Pair

end NcpHost
