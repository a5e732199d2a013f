import NcpHost.Proofs.Frame.Fragment
import NcpHost.Proofs.Link.Outstanding
import NcpHost.Proofs.Link.Reception

/-! What goes out of a link and what comes in, while nobody closes it. Out go the frames of its sends,
stamped, and an acknowledgement of each frame that came in; its user is handed what came in, less the
acknowledgements. So the frames that go out can be told apart again: the data are the frames of sends,
and the acknowledgements are of the data that came in, both in order. -/

namespace NcpHost

namespace Link

structure Up (l : Link) : Prop where
  inUse : l.inUse = true
  outlet : l.outlet = true
  opened : l.closed = false

theorem up_new (ackTimeout : Nat) : (new ackTimeout).Up := ⟨rfl, rfl, rfl⟩

variable {l : Link}

theorem Up.accept (h : l.Up) (frame : Frame) : (l.accept frame).1.Up := by
  have hopen := (l.accept_keeps frame).2.1.trans h.opened
  cases ha : frame.isAck with
  | true =>
    obtain ⟨-, hlet, huse, -⟩ := accept_ack (l := l) ha
    exact ⟨huse.trans h.inUse, hlet.trans h.outlet, hopen⟩
  | false =>
    obtain ⟨-, hlet, huse, -⟩ := accept_data h.outlet ha
    exact ⟨huse.trans h.inUse, hlet.trans h.outlet, hopen⟩

theorem Up.acceptAll (h : l.Up) (frames : List Frame) : (l.acceptAll frames).1.Up := by
  induction frames generalizing l with
  | nil => exact h
  | cons frame rest ih => exact ih (h.accept frame)

theorem acceptAll_buffer (l : Link) (frames : List Frame) :
    (l.acceptAll frames).1.buffer = l.buffer :=
  congrArg (·.1.buffer) (acceptAll_withBuffer l l.buffer frames)

theorem Proceeds.stream {l' : Link} {id : TaskId} {now : Nat}
    {result : Option (Except Fault Unit)} (h : l.Proceeds id now l' result) :
    l'.buffer = l.buffer ∧ l'.inUse = l.inUse ∧ l.outgoing <+: l'.outgoing := by
  cases h with
  | writes | passes => exact ⟨rfl, rfl, List.prefix_append _ _⟩
  | _ => exact ⟨rfl, rfl, List.prefix_rfl⟩

theorem Up.proceeds (h : l.Up) {l' : Link} {id : TaskId} {now : Nat}
    {result : Option (Except Fault Unit)} (hp : l.Proceeds id now l' result) : l'.Up :=
  ⟨hp.stream.2.1.trans h.inUse, hp.outlet.trans h.outlet, hp.keeps.1.trans h.opened⟩

end Link

namespace Senders

def Act.isMild : Act → Bool
  | .lose _ | .close | .dropOutlet => false
  | _ => true

variable {s : Senders} {act : Act}

theorem up_perform (h : s.link.Up) (hm : act.isMild = true) : (s.perform act).link.Up := by
  cases act with
  | turn id =>
    obtain ⟨result, hp, -⟩ := s.turn_cases id
    exact h.proceeds hp
  | arrive bytes =>
    have hextracted : (s.link.extract bytes).1.Up := ⟨h.inUse, h.outlet, h.opened⟩
    exact hextracted.acceptAll _
  | lose | close | dropOutlet => exact absurd hm Bool.false_ne_true
  | send | abort | elapse | wake | look => exact ⟨h.inUse, h.outlet, h.opened⟩

def writtenBytes (seen : List Incident) : List (List UInt8) := seen.filterMap fun
  | .wrote _ _ bytes => some bytes
  | _ => none

theorem writtenBytes_turn (s : Senders) (id : TaskId) :
    writtenBytes (s.incidents (.turn id))
      = (s.perform (.turn id)).link.outgoing.drop s.link.outgoing.length := by
  obtain ⟨result, -, hseen⟩ := s.turn_cases id
  rw [hseen, writtenBytes, List.filterMap_append, List.filterMap_map, List.filterMap_map]
  simp

theorem buffer_arrive (s : Senders) (bytes : List UInt8) :
    (s.perform (.arrive bytes)).link.buffer = (Stream.drain (s.link.buffer ++ bytes)).2 :=
  Link.acceptAll_buffer (s.link.extract bytes).1 _

theorem buffer_of_ne_arrive (hm : act.isMild = true) (ha : ∀ bytes, act ≠ .arrive bytes) :
    (s.perform act).link.buffer = s.link.buffer := by
  cases act with
  | turn id =>
    obtain ⟨result, hp, -⟩ := s.turn_cases id
    exact hp.stream.1
  | arrive bytes => exact absurd rfl (ha bytes)
  | lose | close | dropOutlet => exact absurd hm Bool.false_ne_true
  | send | abort | elapse | wake | look => rfl

theorem handedBy_eq (h : s.link.Up) : s.handedBy act = (s.takenBy act).filter (!·.isAck) := by
  cases act with
  | arrive bytes =>
    exact Link.acceptAll_delivered (l := (s.link.extract bytes).1) h.inUse h.outlet
      fun f hf => Stream.wellFormed_of_mem_drain hf
  | _ => rfl

def writes (given : List Frame) (seen : List Incident) : List (TaskId × Frame) :=
  seen.filterMap fun
    | .wrote id _ bytes => given[id]?.map fun frame => (id, frame.stamp (carried bytes))
    | _ => none

def Stamped (given : List Frame) (seen : List Incident) : Prop :=
  ∀ id time bytes, .wrote id time bytes ∈ seen →
    ∃ frame, given[id]? = some frame ∧ bytes = (frame.stamp (carried bytes)).encode

theorem stamped_trace (ackTimeout : Nat) (acts : List Act) :
    Stamped (given acts) ((new ackTimeout).trace acts) := by
  intro id time bytes hm
  obtain ⟨before, after, hseen⟩ := List.append_of_mem hm
  obtain ⟨frame, written, hgiven, hstamp, hbytes, -, hseq⟩ :=
    (rightful_run ackTimeout acts hseen).numbered
  refine ⟨frame, hgiven, ?_⟩
  rw [hbytes, carried_encode, hseq, hstamp]

section

variable {given : List Frame} {seen : List Incident}

theorem Stamped.mono (h : Stamped given seen) {part : List Incident} (hp : part ⊆ seen) :
    Stamped given part :=
  fun id time bytes hm => h id time bytes (hp hm)

theorem Stamped.map_writes (h : Stamped given seen) {α : Type} {view : TaskId × Frame → α}
    (read : TaskId → List UInt8 → α)
    (hread : ∀ id bytes (frame : Frame), bytes = (frame.stamp (carried bytes)).encode →
      read id bytes = view (id, frame.stamp (carried bytes))) :
    (writes given seen).map view = seen.filterMap fun
      | .wrote id _ bytes => some (read id bytes)
      | _ => none := by
  rw [writes, List.map_filterMap]
  refine List.filterMap_congr fun e he => ?_
  cases e with
  | wrote id time bytes =>
    obtain ⟨frame, hgiven, hbytes⟩ := h id time bytes he
    dsimp only
    rw [hgiven, hread id bytes frame hbytes]
    rfl
  | _ => rfl

theorem Stamped.encode_writes (h : Stamped given seen) :
    (writes given seen).map (·.2.encode) = writtenBytes seen :=
  h.map_writes (fun _ bytes => bytes) fun _ _ _ hbytes => hbytes

theorem Stamped.seqs_writes (h : Stamped given seen) :
    (writes given seen).map (·.2.header.flags.packetSeq) = writtenSeqs seen :=
  h.map_writes (fun _ bytes => carried bytes) fun _ _ _ hbytes =>
    (congrArg carried hbytes).trans (carried_encode _)

theorem Stamped.ids_writes (h : Stamped given seen) :
    (writes given seen).map (·.1) = seen.filterMap fun
      | .wrote id _ _ => some id
      | _ => none :=
  h.map_writes (fun id _ => id) fun _ _ _ _ => rfl

theorem Stamped.writes_append (h : Stamped given seen) (more : List Frame) :
    writes (given ++ more) seen = writes given seen := by
  refine List.filterMap_congr fun e he => ?_
  cases e with
  | wrote id time bytes =>
    obtain ⟨frame, hgiven, -⟩ := h id time bytes he
    have hlt := (List.getElem?_eq_some_iff.mp hgiven).1
    dsimp only
    rw [List.getElem?_append_left hlt]
  | _ => rfl

def putBy (given : List Frame) (s : Senders) (act : Act) : List Frame :=
  (writes given (s.incidents act)).map (·.2)
    ++ ((s.takenBy act).filter (!·.isAck)).map (·.echo)

theorem perform_outgoing (h : s.link.Up) (hm : act.isMild = true) (hl : act ≠ .look)
    (hs : Stamped given (s.incidents act)) :
    (s.perform act).link.outgoing = s.link.outgoing ++ (putBy given s act).map (·.encode) := by
  have hput : (putBy given s act).map (·.encode) = writtenBytes (s.incidents act)
      ++ ((s.takenBy act).filter (!·.isAck)).map (·.echo.encode) := by
    rw [putBy, List.map_append, List.map_map, List.map_map, ← hs.encode_writes]
    rfl
  rw [hput]
  cases act with
  | turn id =>
    obtain ⟨result, hp, -⟩ := s.turn_cases id
    have htaken : s.takenBy (.turn id) = [] := rfl
    rw [writtenBytes_turn, htaken, List.filter_nil, List.map_nil, List.append_nil]
    exact List.prefix_iff_eq_append.mp hp.stream.2.2 |>.symm
  | arrive bytes =>
    have hwrote : writtenBytes (s.incidents (.arrive bytes)) = [] := by
      rw [incidents, writtenBytes, List.filterMap_replicate_of_none rfl]
    rw [hwrote, List.nil_append]
    exact Link.acceptAll_echoes (l := (s.link.extract bytes).1) h.outlet _
  | abort id =>
    have hwrote : writtenBytes (s.incidents (.abort id)) = [] := by
      rw [incidents]
      split <;> rfl
    rw [hwrote]
    exact (List.append_nil _).symm
  | look => exact absurd rfl hl
  | lose | close | dropOutlet => exact absurd hm Bool.false_ne_true
  | send | elapse | wake => exact (List.append_nil _).symm

theorem writes_made (hmade : ∀ f ∈ given, f.Made) {w : TaskId × Frame} (hw : w ∈ writes given seen) :
    w.2.WellFormed ∧ w.2.isAck = false ∧ w.2.header.frameType = FrameHeader.packetType := by
  obtain ⟨e, -, he⟩ := List.mem_filterMap.mp hw
  cases e with
  | wrote id time bytes =>
    obtain ⟨frame, hgiven, rfl⟩ := Option.map_eq_some_iff.mp he
    exact (hmade frame (List.mem_of_getElem? hgiven)).stamp _
  | _ => exact absurd he nofun

theorem putBy_intact (hmade : ∀ f ∈ given, f.Made) {f : Frame} (hf : f ∈ putBy given s act) :
    f.WellFormed ∧ f.header.frameType = FrameHeader.packetType := by
  rcases List.mem_append.mp hf with hf | hf
  · obtain ⟨w, hw, rfl⟩ := List.mem_map.mp hf
    obtain ⟨hwell, -, htype⟩ := writes_made hmade hw
    exact ⟨hwell, htype⟩
  · obtain ⟨g, -, rfl⟩ := List.mem_map.mp hf
    exact ⟨Frame.ack_wellFormed _, rfl⟩

theorem isAck_of_mem_writes (hmade : ∀ f ∈ given, f.Made) {f : Frame}
    (hf : f ∈ (writes given seen).map (·.2)) : f.isAck = false := by
  obtain ⟨w, hw, rfl⟩ := List.mem_map.mp hf
  exact (writes_made hmade hw).2.1

theorem isAck_of_mem_echoes {frames : List Frame} {f : Frame} (hf : f ∈ frames.map (·.echo)) :
    f.isAck = true := by
  obtain ⟨g, -, rfl⟩ := List.mem_map.mp hf
  exact Frame.ack_isAck _

theorem putBy_data (hmade : ∀ f ∈ given, f.Made) :
    (putBy given s act).filter (!·.isAck) = (writes given (s.incidents act)).map (·.2) := by
  have hdata : ((writes given (s.incidents act)).map (·.2)).filter (!·.isAck)
      = (writes given (s.incidents act)).map (·.2) :=
    List.filter_eq_self.mpr fun f hf => by simp [isAck_of_mem_writes hmade hf]
  have hechoes : (((s.takenBy act).filter (!·.isAck)).map (·.echo)).filter (!·.isAck) = [] :=
    List.filter_eq_nil_iff.mpr fun f hf => by simp [isAck_of_mem_echoes hf]
  rw [putBy, List.filter_append, hdata, hechoes, List.append_nil]

theorem ackSeqs_putBy (hmade : ∀ f ∈ given, f.Made) :
    Frame.ackSeqs (putBy given s act)
      = ((s.takenBy act).filter (!·.isAck)).map (·.header.flags.packetSeq) := by
  have hdata : ((writes given (s.incidents act)).map (·.2)).filter (·.isAck) = [] :=
    List.filter_eq_nil_iff.mpr fun f hf => by simp [isAck_of_mem_writes hmade hf]
  have hechoes : (((s.takenBy act).filter (!·.isAck)).map (·.echo)).filter (·.isAck)
      = ((s.takenBy act).filter (!·.isAck)).map (·.echo) :=
    List.filter_eq_self.mpr fun f hf => isAck_of_mem_echoes hf
  rw [putBy, Frame.ackSeqs, List.filter_append, hdata, hechoes, List.nil_append, List.map_map]
  exact List.map_congr_left fun f _ => f.ackSeq_echo

end

theorem nodup_writes (ackTimeout : Nat) (acts : List Act) :
    ((writes (given acts) ((new ackTimeout).trace acts)).map (·.1)).Nodup := by
  rw [(stamped_trace ackTimeout acts).ids_writes]
  have honce : ∀ before id time bytes after,
      (new ackTimeout).trace acts = before ++ .wrote id time bytes :: after →
      ∀ time' other, .wrote id time' other ∉ before :=
    fun _ _ _ _ _ hseen => (rightful_run ackTimeout acts hseen).once
  generalize (new ackTimeout).trace acts = seen at honce
  induction seen using List.reverseRecOn with
  | nil => exact List.nodup_nil
  | append_singleton past e ih =>
    have hpast := ih fun before id time bytes after hseen =>
      honce before id time bytes (after ++ [e]) (by simp [hseen])
    rw [List.filterMap_append]
    cases e with
    | wrote id time bytes =>
      refine Session.Wire.nodup_concat hpast fun hm => ?_
      obtain ⟨e, he, hid⟩ := List.mem_filterMap.mp hm
      cases e with
      | wrote k time' other =>
        obtain rfl := Option.some.inj hid
        exact honce past k time bytes [] rfl time' other he
      | _ => exact absurd hid nofun
    | _ => simpa using hpast

end Senders

end NcpHost
