import Mathlib.Data.List.Forall2
import NcpHost.Link.Basic
import NcpHost.Proofs.Frame.Acknowledgement
import NcpHost.Proofs.Frame.Stream

/-! What a link makes of the bytes that arrive does not depend on how they are cut. It accepts the
same frames in the same order, so it writes the same acknowledgements, one for each frame that is
none itself, and its user sees the same frames. The user is any state with any reaction to a frame,
failures included: the link does not ask how it went. -/

namespace NcpHost.Link

variable {σ : Type}

def serve (handle : σ → Frame → σ × Except Fault Bool) : Link → σ → List Frame → Link × σ
  | l, user, [] => (l, user)
  | l, user, frame :: rest =>
    match l.accept frame with
    | (l, some f) => serve handle l (handle user f).1 rest
    | (l, none) => serve handle l user rest

def receiveChunks (handle : σ → Frame → σ × Except Fault Bool) :
    Link → σ → List (List UInt8) → Link × σ
  | l, user, [] => (l, user)
  | l, user, chunk :: rest =>
    let (l, frames) := l.extract chunk
    let (l, user) := l.serve handle user frames
    receiveChunks handle l user rest

theorem serve_eq (handle : σ → Frame → σ × Except Fault Bool) (l : Link) (user : σ)
    (frames : List Frame) :
    l.serve handle user frames =
      ((l.acceptAll frames).1, (l.acceptAll frames).2.foldl (fun u f => (handle u f).1) user) := by
  induction frames generalizing l user with
  | nil => rfl
  | cons frame rest ih =>
    rw [serve, acceptAll]
    cases h : l.accept frame with
    | mk l' handed => cases handed <;> simp [ih]

theorem acceptAll_cons (l : Link) (frame : Frame) (rest : List Frame) :
    l.acceptAll (frame :: rest) =
      (((l.accept frame).1.acceptAll rest).1,
        (l.accept frame).2.toList ++ ((l.accept frame).1.acceptAll rest).2) := rfl

theorem acceptAll_append (l : Link) (before after : List Frame) :
    l.acceptAll (before ++ after) =
      (((l.acceptAll before).1.acceptAll after).1,
        (l.acceptAll before).2 ++ ((l.acceptAll before).1.acceptAll after).2) := by
  induction before generalizing l with
  | nil => rfl
  | cons frame rest ih => simp [acceptAll_cons, ih]

def withBuffer (l : Link) (buffer : List UInt8) : Link := { l with buffer := buffer }

theorem settleSend_withBuffer (l : Link) (buffer : List UInt8) (id : TaskId) (verdict : Verdict) :
    (l.withBuffer buffer).settleSend id verdict = (l.settleSend id verdict).withBuffer buffer := by
  have hs : (l.withBuffer buffer).stage? id = l.stage? id := rfl
  unfold settleSend
  rw [hs]
  split <;> rfl

theorem settleWaiter_withBuffer (l : Link) (buffer : List UInt8) (verdict : Verdict) :
    (l.withBuffer buffer).settleWaiter verdict = (l.settleWaiter verdict).withBuffer buffer := by
  have hw : (l.withBuffer buffer).waiter = l.waiter := rfl
  unfold settleWaiter
  rw [hw]
  cases l.waiter with
  | none => rfl
  | some id => simp only [settleSend_withBuffer]; rfl

theorem acknowledge_withBuffer (l : Link) (buffer : List UInt8) (seq : UInt8) :
    (l.withBuffer buffer).acknowledge seq = (l.acknowledge seq).withBuffer buffer := by
  have hp : (l.withBuffer buffer).packetSeq = l.packetSeq := rfl
  unfold acknowledge
  rw [hp]
  split
  · rfl
  · exact settleWaiter_withBuffer { l with packetSeq := nextSeq l.packetSeq } buffer _

theorem accept_withBuffer (l : Link) (buffer : List UInt8) (frame : Frame) :
    (l.withBuffer buffer).accept frame =
      ((l.accept frame).1.withBuffer buffer, (l.accept frame).2) := by
  unfold accept
  cases frame.isAck with
  | true => simp [acknowledge_withBuffer]
  | false => cases ho : l.outlet <;> simp [write, withBuffer, ho]

theorem acceptAll_withBuffer (l : Link) (buffer : List UInt8) (frames : List Frame) :
    (l.withBuffer buffer).acceptAll frames =
      ((l.acceptAll frames).1.withBuffer buffer, (l.acceptAll frames).2) := by
  induction frames generalizing l with
  | nil => rfl
  | cons frame rest ih => simp [acceptAll_cons, accept_withBuffer, ih]

theorem receiveChunks_eq (handle : σ → Frame → σ × Except Fault Bool) (l : Link) (user : σ)
    (chunks : List (List UInt8)) :
    l.receiveChunks handle user chunks =
      ((l.acceptAll (Stream.feed l.buffer chunks).1).1.withBuffer (Stream.feed l.buffer chunks).2,
        (l.acceptAll (Stream.feed l.buffer chunks).1).2.foldl (fun u f => (handle u f).1) user) := by
  induction chunks generalizing l user with
  | nil => rfl
  | cons chunk rest ih =>
    have hx : l.extract chunk = (l.withBuffer (Stream.drain (l.buffer ++ chunk)).2,
      (Stream.drain (l.buffer ++ chunk)).1) := rfl
    simp only [receiveChunks, hx, serve_eq, acceptAll_withBuffer, ih, Stream.feed,
      acceptAll_append, List.foldl_append]
    rfl

theorem settleWaiter_outgoing (l : Link) (verdict : Verdict) :
    (l.settleWaiter verdict).outgoing = l.outgoing
      ∧ (l.settleWaiter verdict).outlet = l.outlet ∧ (l.settleWaiter verdict).inUse = l.inUse := by
  unfold settleWaiter settleSend
  split
  · split <;> exact ⟨rfl, rfl, rfl⟩
  · exact ⟨rfl, rfl, rfl⟩

theorem accept_ack {l : Link} {frame : Frame} (h : frame.isAck = true) :
    (l.accept frame).1.outgoing = l.outgoing ∧ (l.accept frame).1.outlet = l.outlet
      ∧ (l.accept frame).1.inUse = l.inUse ∧ (l.accept frame).2 = none := by
  unfold accept acknowledge
  rw [if_pos h]
  split
  · exact ⟨rfl, rfl, rfl, rfl⟩
  · obtain ⟨ho, hl, hu⟩ :=
      settleWaiter_outgoing { l with packetSeq := nextSeq l.packetSeq } .acknowledged
    exact ⟨ho, hl, hu, rfl⟩

theorem accept_data {l : Link} (ho : l.outlet = true) {frame : Frame} (h : frame.isAck = false) :
    (l.accept frame).1.outgoing
        = l.outgoing ++ [(Frame.ack frame.header.flags.packetSeq false).encode]
      ∧ (l.accept frame).1.outlet = l.outlet ∧ (l.accept frame).1.inUse = l.inUse
      ∧ (l.accept frame).2 = if l.inUse && frame.packet.isSome then some frame else none := by
  simp only [accept, h, write, ho, Bool.false_eq_true, if_false, if_true, and_self]

theorem outlet_accept (l : Link) (frame : Frame) : (l.accept frame).1.outlet = l.outlet := by
  cases h : frame.isAck with
  | true => exact (accept_ack h).2.1
  | false =>
    simp only [accept, h, write, Bool.false_eq_true, if_false]
    split <;> rfl

theorem inUse_accept (l : Link) (frame : Frame) : (l.accept frame).1.inUse = l.inUse := by
  cases h : frame.isAck with
  | true => exact (accept_ack h).2.2.1
  | false =>
    simp only [accept, h, write, Bool.false_eq_true, if_false]
    split <;> rfl

theorem accept_unused {l : Link} (hu : l.inUse = false) (frame : Frame) :
    (l.accept frame).2 = none := by
  unfold accept write
  split
  · rfl
  · cases l.outlet <;> simp [hu]

theorem acceptAll_unused {l : Link} (hu : l.inUse = false) (frames : List Frame) :
    (l.acceptAll frames).2 = [] := by
  induction frames generalizing l with
  | nil => rfl
  | cons frame rest ih =>
    have hrest := ih ((inUse_accept l frame).trans hu)
    rw [acceptAll_cons, accept_unused hu, hrest]
    rfl

theorem acceptAll_echoes {l : Link} (ho : l.outlet = true) (frames : List Frame) :
    (l.acceptAll frames).1.outgoing
      = l.outgoing ++ (frames.filter (!·.isAck)).map (·.echo.encode) := by
  induction frames generalizing l with
  | nil => simp [acceptAll]
  | cons frame rest ih =>
    rw [acceptAll]
    cases h : frame.isAck with
    | true =>
      obtain ⟨hout, hlet, -, -⟩ := accept_ack (l := l) h
      simp [ih (hlet.trans ho), hout, h]
    | false =>
      obtain ⟨hout, hlet, -, -⟩ := accept_data ho h
      simp [ih (hlet.trans ho), hout, h, Frame.echo]

theorem acceptAll_outgoing {l : Link} (ho : l.outlet = true) (frames : List Frame) :
    ∃ acks, (l.acceptAll frames).1.outgoing = l.outgoing ++ acks
      ∧ List.Forall₂ Frame.EchoedBy (frames.filter (!·.isAck)) acks := by
  refine ⟨_, acceptAll_echoes ho frames, ?_⟩
  rw [List.forall₂_map_right_iff, List.forall₂_same]
  exact fun f _ => f.echoedBy_echo

theorem acceptAll_delivered {l : Link} (hu : l.inUse = true) (ho : l.outlet = true)
    {frames : List Frame} (hf : ∀ f ∈ frames, f.WellFormed) :
    (l.acceptAll frames).2 = frames.filter (!·.isAck) := by
  induction frames generalizing l with
  | nil => rfl
  | cons frame rest ih =>
    have hrest : ∀ f ∈ rest, f.WellFormed := fun f hm => hf f (List.mem_cons_of_mem _ hm)
    rw [acceptAll]
    cases h : frame.isAck with
    | true =>
      obtain ⟨-, hlet, huse, hnone⟩ := accept_ack (l := l) h
      simp [ih (huse.trans hu) (hlet.trans ho) hrest, hnone, h]
    | false =>
      obtain ⟨-, hlet, huse, hsome⟩ := accept_data ho h
      obtain ⟨p, hp, -⟩ := by simpa [h] using (hf frame (List.mem_cons_self ..)).packet
      simp [ih (huse.trans hu) (hlet.trans ho) hrest, hsome, h, hu, hp]

/-- Two ways to cut a stream are the same to a fresh link and its user. Either way there is one
acknowledgement for each frame taken out that is none itself, in order and with its number. -/
theorem receiveChunks_cut (handle : σ → Frame → σ × Except Fault Bool) (user : σ)
    (ackTimeout : Nat) {chunks chunks' : List (List UInt8)}
    (h : chunks.flatten = chunks'.flatten) :
    let run := fun cut => (new ackTimeout).receiveChunks handle user cut
    let frames := fun cut => (Stream.feed [] cut).1.filter (!·.isAck)
    (run chunks).1.outgoing = (run chunks').1.outgoing
      ∧ frames chunks = frames chunks'
      ∧ (run chunks).2 = (run chunks').2
      ∧ (run chunks).1.packetSeq = (run chunks').1.packetSeq
      ∧ (run chunks).1.ackSeq = (run chunks').1.ackSeq
      ∧ ∀ cut ∈ [chunks, chunks'],
        List.Forall₂ Frame.EchoedBy (frames cut) (run cut).1.outgoing
          ∧ (run cut).2 = (frames cut).foldl (fun u f => (handle u f).1) user := by
  intro run frames
  have hrun : ∀ cut, run cut =
      (((new ackTimeout).acceptAll (Stream.feed [] cut).1).1.withBuffer (Stream.feed [] cut).2,
        ((new ackTimeout).acceptAll (Stream.feed [] cut).1).2.foldl
          (fun u f => (handle u f).1) user) :=
    fun cut => receiveChunks_eq handle (new ackTimeout) user cut
  -- all that the two runs do is told by the frames of the stream
  have hsame := Stream.feed_cut h
  refine ⟨?_, ?_, ?_, ?_, ?_, fun cut _ => ⟨?_, ?_⟩⟩
  · rw [hrun, hrun, hsame]
    rfl
  · exact congrArg (List.filter (!·.isAck)) hsame
  · rw [hrun, hrun, hsame]
  · rw [hrun, hrun, hsame]
    rfl
  · rw [hrun, hrun, hsame]
    rfl
  · obtain ⟨acks, hout, hecho⟩ :=
      acceptAll_outgoing (l := new ackTimeout) rfl (Stream.feed [] cut).1
    have hacks : (run cut).1.outgoing = acks := by
      rw [hrun]
      exact hout
    rw [hacks]
    exact hecho
  · rw [hrun, acceptAll_delivered rfl rfl fun f hf => Stream.wellFormed_of_mem_feed hf]

/-- Byte by byte, behind noise, to a user who counts the frames and fails on each. -/
theorem receiveChunks_cut_bytewise :
    let stream : List UInt8 := [0x00, 0xDE, 0x13]
      ++ ((Frame.single (.ofHeader (.of .indication 0x2B) [1])).stamp 2).encode
    let failing := fun (calls : Nat) (_ : Frame) => (calls + 1, Except.error Fault.timeout)
    (stream.map fun b => [b]).flatten = [stream].flatten
      ∧ ((new 1000).receiveChunks failing 0 (stream.map fun b => [b])).1.outgoing
        = ((new 1000).receiveChunks failing 0 [stream]).1.outgoing := by
  intro stream failing
  have h : (stream.map fun b => [b]).flatten = [stream].flatten := by
    simp [← List.flatMap_def]
  exact ⟨h, (receiveChunks_cut failing 0 1000 h).1⟩

end NcpHost.Link
