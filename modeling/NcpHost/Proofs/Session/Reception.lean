import NcpHost.Proofs.Command.RoundTrip
import NcpHost.Proofs.Keyed
import NcpHost.Proofs.Link.Reception
import NcpHost.Proofs.Session.Collection
import NcpHost.Session.Attachment

/-! What a session takes from the bytes that arrive on a line. Each frame that the link hands on is
collected, each packet that is completed is read, and each command is offered to the listeners once.
Callbacks change none of this, so that what a session took from some frames and then from others is
what it takes from all of them. The main statement follows a command from its fragments on the wire,
through any cuts, to the listeners. -/

namespace NcpHost.Session

def Event.command? : Event → Option Command
  | .dispatched c => some c
  | _ => none

def dispatches (s : Session) : List Command := s.log.filterMap Event.command?

def link? (s : Session) (id : LineId) : Option Link := (s.line? id).map (·.link)

def heard (catalog : Catalog) (packets : List Packet) : List Command :=
  packets.filterMap (readCommand? catalog)

def receiveAll (s : Session) (id : LineId) (chunks : List (List UInt8)) : Session :=
  chunks.foldl (fun s chunk => s.receiveBytes id chunk) s

theorem line?_modifyLine_at (s : Session) (id : LineId) (f : Line → Line) (k : LineId) :
    (s.modifyLine id f).line? k = if k = id then (s.line? k).map f else s.line? k :=
  Keyed.lookup_map_at s.lines id f k

theorem line?_modifyLine (s : Session) (id : LineId) (f : Line → Line) :
    (s.modifyLine id f).line? id = (s.line? id).map f :=
  (s.line?_modifyLine_at id f id).trans (if_pos rfl)

theorem line?_modifyLine_self {s : Session} {id : LineId} {l : Line} (h : s.line? id = some l)
    (f : Line → Line) : (s.modifyLine id f).line? id = some (f l) := by
  rw [line?_modifyLine, h, Option.map_some]

theorem modifyLine_modifyLine (s : Session) (line : LineId) (f g : Line → Line) :
    (s.modifyLine line f).modifyLine line g = s.modifyLine line fun l => g (f l) := by
  have hlines : (s.lines.map fun e => if e.1 = line then (e.1, f e.2) else e).map
      (fun e => if e.1 = line then (e.1, g e.2) else e)
      = s.lines.map fun e => if e.1 = line then (e.1, g (f e.2)) else e := by
    rw [List.map_map]
    refine List.map_congr_left fun e _ => ?_
    dsimp only [Function.comp]
    split <;> rfl
  unfold modifyLine
  rw [← hlines]

theorem line?_congr {s s' : Session} (h : s'.lines = s.lines) (id : LineId) :
    s'.line? id = s.line? id := by
  rw [line?, line?, h]

/-- The session is the same to everything that arrives. -/
structure Steady (s s' : Session) : Prop where
  catalog : s'.catalog = s.catalog
  registry : s'.registry = s.registry
  fragments : s'.fragments = s.fragments
  dispatches : s'.dispatches = s.dispatches
  lines : s'.lines = s.lines

theorem Steady.trans {s s' s'' : Session} (h : Steady s s') (h' : Steady s' s'') :
    Steady s s'' :=
  ⟨h'.catalog.trans h.catalog, h'.registry.trans h.registry, h'.fragments.trans h.fragments,
    h'.dispatches.trans h.dispatches, h'.lines.trans h.lines⟩

theorem record_steady (s : Session) {e : Event} (h : e.command? = none) :
    Steady s (s.record e) :=
  ⟨rfl, rfl, rfl, by simp [dispatches, record, h], rfl⟩

theorem invoke_steady (s : Session) (callback : Callback Deed) (c : Command) :
    Steady s (s.invoke callback c).1 := by
  cases callback with
  | inline deed =>
    obtain ⟨warnings, heq⟩ := s.invoke_inline deed c
    have hone : Steady s (s.record (.callback deed.name c.render)) := record_steady s rfl
    rw [heq]
    exact hone.trans ⟨rfl, rfl, rfl, rfl, rfl⟩
  | spawned deed =>
    rw [invoke]
    split
    · exact record_steady s rfl
    · exact ⟨rfl, rfl, rfl, rfl, rfl⟩

theorem invokeAll_steady (s : Session) (c : Command) (callbacks : List (Callback Deed)) :
    Steady s (s.invokeAll c callbacks).1 := by
  induction callbacks generalizing s with
  | nil => exact ⟨rfl, rfl, rfl, rfl, rfl⟩
  | cons callback rest ih =>
    have hone := invoke_steady s callback c
    rw [invokeAll]
    split
    · next s' h => rwa [h] at hone
    · next s' h =>
      rw [h] at hone
      exact hone.trans (ih s')

structure Took (frames : List Frame) (s s' : Session) : Prop where
  catalog : s'.catalog = s.catalog
  fragments : s'.fragments = (collectAll s.fragments frames).1
  dispatches : s'.dispatches
    = s.dispatches ++ heard s.catalog (collectAll s.fragments frames).2
  registry : s'.registry
    = (heard s.catalog (collectAll s.fragments frames).2).foldl (fun r c => (r.dispatch c).1)
        s.registry

theorem took_nil (s : Session) : Took [] s s := ⟨rfl, rfl, by simp [collectAll, heard], rfl⟩

theorem Took.append {as bs : List Frame} {s s' s'' : Session} (h : Took as s s')
    (h' : Took bs s' s'') : Took (as ++ bs) s s'' := by
  have hheard : ∀ before after : List Packet,
      heard s.catalog (before ++ after) = heard s.catalog before ++ heard s.catalog after :=
    fun _ _ => List.filterMap_append ..
  refine ⟨h'.catalog.trans h.catalog, ?_, ?_, ?_⟩
  · rw [h'.fragments, h.fragments, collectAll_append]
  · rw [h'.dispatches, h.dispatches, h.fragments, h.catalog, collectAll_append, hheard,
      List.append_assoc]
  · rw [h'.registry, h.registry, h.fragments, h.catalog, collectAll_append, hheard,
      List.foldl_append]

theorem Took.steady {frames : List Frame} {s s' s'' : Session} (h : Took frames s s')
    (h' : Steady s' s'') : Took frames s s'' :=
  ⟨h'.catalog.trans h.catalog, h'.fragments.trans h.fragments, h'.dispatches.trans h.dispatches,
    h'.registry.trans h.registry⟩

theorem receiveFrame_took (s : Session) (frame : Frame) :
    Took [frame] s (s.receiveFrame frame).1 ∧ (s.receiveFrame frame).1.lines = s.lines := by
  have hone := collectAll_singleton s.fragments frame
  cases hc : (collect s.fragments frame).2.bind (readCommand? s.catalog) with
  | none =>
    have hheard : heard s.catalog (collect s.fragments frame).2.toList = [] := by
      cases hp : (collect s.fragments frame).2 <;> simp_all [heard]
    have hrun : s.receiveFrame frame
        = ({ s with fragments := (collect s.fragments frame).1 }, false) := by
      simp only [receiveFrame, hc]
    rw [hrun]
    refine ⟨⟨rfl, ?_, ?_, ?_⟩, rfl⟩
    · rw [hone]
    · rw [hone, hheard, List.append_nil]
      rfl
    · rw [hone, hheard]
      rfl
  | some c =>
    have hheard : heard s.catalog (collect s.fragments frame).2.toList = [c] := by
      cases hp : (collect s.fragments frame).2 <;> simp_all [heard]
    have hrun : s.receiveFrame frame
        = ({ s with fragments := (collect s.fragments frame).1 } : Session).deliver c := by
      simp only [receiveFrame, hc]
    have hsteady := invokeAll_steady
      (record { s with fragments := (collect s.fragments frame).1
                       registry := (s.registry.dispatch c).1 } (.dispatched c)) c
      (s.registry.dispatch c).2.callbacks
    rw [hrun]
    refine ⟨⟨hsteady.catalog, ?_, ?_, ?_⟩, hsteady.lines⟩
    · rw [hone]
      exact hsteady.fragments
    · rw [hone, hheard]
      refine hsteady.dispatches.trans ?_
      simp [dispatches, record, Event.command?]
    · rw [hone, hheard]
      exact hsteady.registry

theorem receiveFrame_keeps {s : Session} {frame : Frame}
    (h : frame.header.flags.isLast = false) :
    s.receiveFrame frame = ({ s with fragments := (collect s.fragments frame).1 }, false) := by
  have hc := collect_of_not_last s.fragments h
  simp [receiveFrame, hc]

theorem link?_modifyLine {s : Session} {id : LineId} {l : Line} (h : s.line? id = some l)
    (f : Line → Line) : (s.modifyLine id f).link? id = some (f l).link := by
  rw [link?, line?_modifyLine_self h, Option.map_some]

theorem accept_handed {l : Link} {frame f : Frame} (h : (l.accept frame).2 = some f) :
    f = frame := by
  unfold Link.accept at h
  split at h
  · exact absurd h nofun
  · dsimp only at h
    split at h
    · exact (Option.some.inj h).symm
    · exact absurd h nofun

theorem wakeRunnable_steady (s : Session) : Steady s s.wakeRunnable := ⟨rfl, rfl, rfl, rfl, rfl⟩

def acceptFrame (s : Session) (id : LineId) (l : Line) (frame : Frame) : Session × Bool :=
  let accepted := l.link.accept frame
  let s := s.modifyLine id fun l => { l with link := accepted.1 }
  match accepted.2 with
  | some f => s.receiveFrame f
  | none => (s, false)

theorem acceptFrames_cons {s : Session} {id : LineId} {l : Line} (h : s.line? id = some l)
    (frame : Frame) (rest : List Frame) :
    s.acceptFrames id (frame :: rest) =
      if (s.acceptFrame id l frame).2 then
        (s.acceptFrame id l frame).1.wakeRunnable.modifyLine id Line.stopReading
      else (s.acceptFrame id l frame).1.wakeRunnable.acceptFrames id rest := by
  rw [acceptFrames, h]
  rfl

theorem acceptFrame_took {s : Session} {id : LineId} {l : Line} (h : s.line? id = some l)
    (frame : Frame) :
    Took (l.link.accept frame).2.toList s (s.acceptFrame id l frame).1
      ∧ (s.acceptFrame id l frame).1.link? id = some (l.link.accept frame).1 := by
  have hlink : (s.modifyLine id fun l' => { l' with link := (l.link.accept frame).1 }).link? id
      = some (l.link.accept frame).1 := link?_modifyLine h _
  rw [acceptFrame]
  cases hh : (l.link.accept frame).2 with
  | none => exact ⟨⟨rfl, rfl, (took_nil s).dispatches, rfl⟩, hlink⟩
  | some f =>
    obtain ⟨htook, hlines⟩ :=
      receiveFrame_took (s.modifyLine id fun l' => { l' with link := (l.link.accept frame).1 }) f
    refine ⟨⟨htook.catalog, htook.fragments, htook.dispatches, htook.registry⟩, ?_⟩
    rw [link?, line?_congr hlines]
    exact hlink

theorem acceptFrame_of_not_last {s : Session} {id : LineId} {l : Line} {frame : Frame}
    (h : frame.header.flags.isLast = false) : (s.acceptFrame id l frame).2 = false := by
  rw [acceptFrame]
  cases hh : (l.link.accept frame).2 with
  | none => rfl
  | some f =>
    rw [accept_handed hh]
    exact congrArg Prod.snd (receiveFrame_keeps h)

def CompleteLast (frames : List Frame) : Prop :=
  ∀ f ∈ frames.dropLast, f.header.flags.isLast = false

theorem CompleteLast.split {as bs : List Frame} (h : CompleteLast (as ++ bs)) :
    CompleteLast as ∧ CompleteLast bs := by
  cases bs with
  | nil =>
    rw [List.append_nil] at h
    exact ⟨h, fun f hm => absurd hm List.not_mem_nil⟩
  | cons b bs =>
    rw [CompleteLast, List.dropLast_append_of_ne_nil (List.cons_ne_nil b bs)] at h
    exact ⟨fun f hm => h f (List.mem_append_left _ (List.dropLast_subset as hm)),
      fun f hm => h f (List.mem_append_right _ hm)⟩

theorem acceptFrames_took {frames : List Frame} (h : CompleteLast frames) {s : Session} {id : LineId}
    {l : Link} (hl : s.link? id = some l) :
    Took (l.acceptAll frames).2 s (s.acceptFrames id frames)
      ∧ (s.acceptFrames id frames).link? id = some (l.acceptAll frames).1 := by
  induction frames generalizing s l with
  | nil => exact ⟨took_nil s, hl⟩
  | cons frame rest ih =>
    obtain ⟨line, hline, rfl⟩ := Option.map_eq_some_iff.mp hl
    obtain ⟨htook, hlink⟩ := acceptFrame_took hline frame
    have hwoken := htook.steady (wakeRunnable_steady (s.acceptFrame id line frame).1)
    rw [acceptFrames_cons hline, Link.acceptAll_cons]
    -- only the last frame can complete a packet, so only behind it the reader may end
    cases rest with
    | nil =>
      rw [Link.acceptAll, List.append_nil]
      split
      · obtain ⟨line', hline', hl'⟩ := Option.map_eq_some_iff.mp hlink
        refine ⟨⟨hwoken.catalog, hwoken.fragments, hwoken.dispatches, hwoken.registry⟩, ?_⟩
        have hwoken' := line?_congr (wakeRunnable_steady (s.acceptFrame id line frame).1).lines id
        rw [link?_modifyLine (hwoken'.trans hline')]
        exact congrArg some hl'
      · exact ⟨hwoken, hlink⟩
    | cons next rest =>
      have hfirst : frame.header.flags.isLast = false := h frame (by simp)
      obtain ⟨hothers, hend⟩ := ih (s := (s.acceptFrame id line frame).1.wakeRunnable)
        (fun f hm => h f (List.mem_cons_of_mem _ hm)) hlink
      rw [acceptFrame_of_not_last hfirst, if_neg Bool.false_ne_true]
      exact ⟨hwoken.append hothers, hend⟩

theorem receiveAll_took {chunks : List (List UInt8)} {s : Session} {id : LineId} {l : Link}
    (hl : s.link? id = some l)
    (h : CompleteLast (Stream.feed l.buffer chunks).1) :
    Took (l.acceptAll (Stream.feed l.buffer chunks).1).2 s (s.receiveAll id chunks)
      ∧ (s.receiveAll id chunks).link? id
        = some ((l.acceptAll (Stream.feed l.buffer chunks).1).1.withBuffer
            (Stream.feed l.buffer chunks).2) := by
  induction chunks generalizing s l with
  | nil => exact ⟨took_nil s, hl⟩
  | cons chunk rest ih =>
    obtain ⟨line, hline, rfl⟩ := Option.map_eq_some_iff.mp hl
    let now := Stream.drain (line.link.buffer ++ chunk)
    let later := Stream.feed now.2 rest
    have hfeed : Stream.feed line.link.buffer (chunk :: rest) = (now.1 ++ later.1, later.2) := rfl
    rw [hfeed] at h ⊢
    let s' := s.modifyLine id fun l => { l with link := line.link.withBuffer now.2 }
    have hbytes : s.receiveBytes id chunk = s'.acceptFrames id now.1 := by
      simp only [receiveBytes, hline]
      rfl
    have hs' : s'.link? id = some (line.link.withBuffer now.2) := link?_modifyLine hline _
    -- a frame that completes a packet is the last of all, so of this chunk and of the others
    obtain ⟨hnow, hlater⟩ := h.split
    obtain ⟨hfirst, hmid⟩ := acceptFrames_took hnow hs'
    rw [Link.acceptAll_withBuffer] at hfirst hmid
    have hrun : s.receiveAll id (chunk :: rest) = (s'.acceptFrames id now.1).receiveAll id rest := by
      rw [← hbytes]
      rfl
    obtain ⟨hothers, hend⟩ := ih hmid hlater
    rw [Link.acceptAll_withBuffer] at hothers hend
    rw [hrun, Link.acceptAll_append]
    have hstart : Took (line.link.acceptAll now.1).2 s (s'.acceptFrames id now.1) :=
      ⟨hfirst.catalog, hfirst.fragments, hfirst.dispatches, hfirst.registry⟩
    exact ⟨hstart.append hothers, hend⟩

theorem completeLast_split {p : Packet} {maxBody : Nat} {stamped : List Frame}
    (h : List.Forall₂ Frame.StampOf (Fragment.split p maxBody) stamped) : CompleteLast stamped := by
  intro g hg
  rw [List.dropLast_eq_take, ← h.length_eq] at hg
  obtain ⟨f, hf, hs⟩ := exists_of_mem_right (List.forall₂_take _ h) hg
  rw [← List.dropLast_eq_take] at hf
  rw [hs.isLast, Fragment.isLast_of_mem_dropLast hf]

theorem readCommand?_eq {catalog : Catalog} {d : Definition} {payload : List UInt8} {c : Command}
    (hd : catalog.lookup? d.header = some d)
    (hc : Command.ofPacket d (.ofHeader d.header payload) = .ok c) :
    readCommand? catalog (.ofHeader d.header payload) = some c := by
  simp [readCommand?, Packet.ofHeader, hd] at hc ⊢
  simp [hc, Except.toOption]

/-- The fragments of a command arrive in any chunks, under any numbers, in any state of the session.
Each is acknowledged under its number, the listeners get the command once, as it was sent, and no
fragment is left. -/
theorem receiveAll_command {d : Definition} {params : List (String × Value)} {c : Command}
    (hm : Command.make d params = .ok c) (ht : d.OptionalTrail) (hr : d.RemainingLast)
    (hc : c.Traced) :
    ∃ p, c.toPacket = .ok p ∧ ∀ (maxBody : Nat) (seqs : List UInt8),
      seqs.length = (Fragment.split p maxBody).length →
      let frames := List.zipWith Frame.stamp (Fragment.split p maxBody) seqs
      ∀ chunks : List (List UInt8), chunks.flatten = frames.flatMap Frame.encode →
      ∀ (s : Session) (id : LineId) (l : Link), s.link? id = some l → l.buffer = [] →
      l.inUse = true → l.outlet = true → s.catalog.lookup? d.header = some d →
      let s' := s.receiveAll id chunks
      ∃ acks, (s'.link? id).map (·.outgoing) = some (l.outgoing ++ acks)
        ∧ List.Forall₂ Frame.EchoedBy frames acks
        ∧ s'.dispatches = s.dispatches ++ [c]
        ∧ s'.registry = (s.registry.dispatch c).1
        ∧ s'.fragments = [] := by
  obtain ⟨payload, hpacket, hread⟩ := Command.ofPacket_toPacket hm ht hr hc
  refine ⟨_, hpacket, ?_⟩
  intro maxBody seqs hseqs frames chunks hchunks s id l hl hbuffer huse hlet hlookup s'
  have hp : (Packet.ofHeader d.header payload).header.isSome = true := rfl
  have hstamped := Frame.stampOf_zipWith hseqs
  have hformed : ∀ f ∈ frames, f.WellFormed ∧ f.isAck = false
      ∧ f.header.frameType = FrameHeader.packetType := by
    intro f hf
    obtain ⟨g, hg, hs⟩ := exists_of_mem_right hstamped hf
    exact Fragment.wellFormed_of_mem_split hp hg hs
  -- the reader finds the fragments again, whatever the chunks
  have hfeed : (Stream.feed l.buffer chunks).1 = frames := by
    rw [hbuffer]
    exact Stream.feed_encode (fun f hf => ⟨(hformed f hf).1, (hformed f hf).2.2⟩) hchunks
  have hfilter : frames.filter (!·.isAck) = frames := by
    rw [List.filter_eq_self]
    intro f hf
    rw [(hformed f hf).2.1]
    rfl
  have hhanded : (l.acceptAll frames).2 = frames := by
    rw [Link.acceptAll_delivered huse hlet fun f hf => (hformed f hf).1, hfilter]
  -- only the last fragment completes the packet, so no crash can keep the reader from the others
  have hlast : CompleteLast (Stream.feed l.buffer chunks).1 := by
    rw [hfeed]
    exact completeLast_split hstamped
  obtain ⟨htook, hlink⟩ := receiveAll_took hl hlast
  rw [hfeed, hhanded] at htook
  rw [hfeed] at hlink
  -- what the session held of another packet goes with the first fragment
  have hcollected : collectAll s.fragments frames = ([], [.ofHeader d.header payload]) :=
    collectAll_split hp hstamped s.fragments
  have hheard : heard s.catalog (collectAll s.fragments frames).2 = [c] := by
    rw [hcollected]
    simp [heard, readCommand?_eq hlookup hread]
  obtain ⟨acks, hout, hecho⟩ := Link.acceptAll_outgoing hlet frames
  rw [hfilter] at hecho
  refine ⟨acks, ?_, hecho, ?_, ?_, ?_⟩
  · rw [hlink]
    exact congrArg some hout
  · rw [htook.dispatches, hheard]
  · rw [htook.registry, hheard]
    rfl
  · rw [htook.fragments, hcollected]

/-- Three fragments, byte by byte, to a session that still holds a fragment of something else. -/
theorem receiveAll_command_bytewise :
    let d : Definition := ⟨"Probe", .of .indication 0x77,
      [⟨"Level", .u16, false⟩, ⟨"Trace", .remaining, true⟩], false, none⟩
    let c : Command := ⟨d, [some (.uint 258), some (.bytes [1, 2, 3, 4, 5])], false⟩
    let p : Packet := .ofHeader d.header [2, 1, 1, 2, 3, 4, 5]
    let frames := List.zipWith Frame.stamp (Fragment.split p 4) [1, 2, 3]
    let s := { (new (.forDevice "tty") (.insert .empty d) true).attach.1 with
      fragments := [.ofPacket (.continuation [0xFF]) ⟨Flags.firstMask⟩] }
    let s' := s.receiveAll 1 ((frames.flatMap Frame.encode).map fun b => [b])
    c.toPacket = .ok p ∧ frames.length = 3 ∧ s'.dispatches = [c] ∧ s'.fragments = [] := by
  intro d c p frames s s'
  have hp : c.toPacket = .ok p := rfl
  have hmake : Command.make d [("Level", .uint 258), ("Trace", .bytes [1, 2, 3, 4, 5])] = .ok c :=
    rfl
  obtain ⟨q, hq, h⟩ := receiveAll_command hmake (by decide) (by decide)
    (by simp [Command.Traced, c, d, Command.entries])
  obtain rfl : p = q := Except.ok.inj (hp.symm.trans hq)
  have hlength : (Fragment.split p 4).length = 3 := by decide +kernel
  obtain ⟨acks, -, hecho, hdispatched, -, hfragments⟩ := h 4 [1, 2, 3] hlength.symm
    ((frames.flatMap Frame.encode).map fun b => [b]) (by simp [← List.flatMap_def, frames]) s 1
    (.new 1000) rfl rfl rfl rfl rfl
  refine ⟨hp, ?_, hdispatched, hfragments⟩
  simp [frames, hlength]

end NcpHost.Session
