import NcpHost.Proofs.Command.Catalog
import NcpHost.Proofs.Frame.Layout
import NcpHost.Proofs.Session.Cuts

/-! The version in the header of a packet plays no part. The definition is found by kind and id, the
command that is read carries the header of its definition, and on the way to the session two such
packets differ in one byte of their first fragment. So a session that gets the one ends up as if it
had got the other. -/

namespace NcpHost

structure Frame.Alike (f f' : Frame) : Prop where
  header : f'.header = f.header
  data : f.isAck = false
  packet : f.packet.isSome = true
  packet' : f'.packet.isSome = true

namespace Frame

theorem Alike.data' {f f' : Frame} (h : f.Alike f') : f'.isAck = false := by
  rw [isAck, h.header]
  exact h.data

theorem Alike.isLast {f f' : Frame} (h : f.Alike f') :
    f'.header.flags.isLast = f.header.flags.isLast := by
  rw [h.header]

theorem Alike.stamp {f f' : Frame} (h : f.Alike f') (seq : UInt8) :
    (f.stamp seq).Alike (f'.stamp seq) := by
  refine ⟨?_, ?_, h.packet, h.packet'⟩
  · rw [Frame.stamp, Frame.stamp, h.header]
  · exact (Frame.StampOf.isAck ⟨seq, rfl⟩).trans h.data

theorem alike_zipWith_stamp {frames frames' : List Frame} (h : List.Forall₂ Alike frames frames')
    (seqs : List UInt8) :
    List.Forall₂ Alike (List.zipWith stamp frames seqs) (List.zipWith stamp frames' seqs) := by
  induction h generalizing seqs with
  | nil => simp
  | cons hf _ ih =>
    cases seqs with
    | nil => simp
    | cons seq seqs => exact .cons (hf.stamp seq) (ih seqs)

theorem alike_ofPacket {p p' : Packet} (h : p'.body.length = p.body.length) {flags : Flags}
    (hack : flags.isAck = false) : (ofPacket p flags).Alike (ofPacket p' flags) := by
  refine ⟨?_, hack, rfl, rfl⟩
  rw [ofPacket, ofPacket, Packet.encodedLength, Packet.encodedLength, h]

end Frame

namespace Fragment

theorem alike_followers (chunks : List (List UInt8)) :
    List.Forall₂ Frame.Alike (followers chunks) (followers chunks) := by
  refine List.forall₂_same.mpr fun f hf => ?_
  obtain ⟨chunk, -, rfl | rfl⟩ := mem_followers hf
  · exact Frame.alike_ofPacket rfl rfl
  · exact Frame.alike_ofPacket rfl rfl

theorem alike_split {p p' : Packet} {b b' : UInt8} {rest : List UInt8} (h : p.body = b :: rest)
    (h' : p'.body = b' :: rest) (maxBody : Nat) :
    List.Forall₂ Frame.Alike (split p maxBody) (split p' maxBody) := by
  have hlen : p'.body.length = p.body.length := by rw [h, h', List.length_cons, List.length_cons]
  rw [split, split]
  dsimp only
  rw [hlen]
  split
  · exact .cons (Frame.alike_ofPacket hlen rfl) .nil
  · obtain ⟨n, hn⟩ := Nat.exists_eq_add_one.mpr
      (leadLength_bounds (limit_pos maxBody) p.body.length).1
    rw [limit] at hn
    rw [hn]
    have hdrop : p'.body.drop (n + 1) = p.body.drop (n + 1) := by rw [h, h']; rfl
    have hlead : ∀ q : Packet, (leadPacket q.header (q.body.take (n + 1))).body
        = q.body.take (n + 1) := fun q => body_leadPacket (List.take_append_drop _ _)
    rw [hdrop, lead_eq, lead_eq]
    refine .cons (Frame.alike_ofPacket ?_ rfl) (alike_followers _)
    rw [hlead, hlead, List.length_take, List.length_take, hlen]

end Fragment

namespace Link

theorem accept_of_data (l : Link) {f : Frame} (h : f.isAck = false) (hp : f.packet.isSome = true) :
    (l.accept f).2 = if l.inUse then some f else none := by
  cases ho : l.outlet <;> simp [accept, h, hp, write, ho]

theorem accept_alike {f f' : Frame} (h : f.Alike f') (l : Link) :
    (l.accept f').1 = (l.accept f).1 := by
  simp only [accept, h.data, h.data', h.header, Bool.false_eq_true, if_false]

end Link

namespace Session

/-- What a session makes of a packet: nothing if its header is not known; else what is wrong with
its payload, or the command with what the listeners make of it. -/
def outcome (s : Session) (packet : Packet) :
    Option (Except DecodeFault (Command × Dispatch Deed)) :=
  (packet.header.bind s.catalog.lookup?).map fun d =>
    (Command.ofPacket d packet).map fun c => (c, (s.registry.dispatch c).2)

theorem outcome_version {s : Session} {inserted : List Definition}
    (hc : s.catalog.Filled inserted) (h : CommandHeader) (payload : List UInt8) (version : UInt8) :
    s.outcome (.ofHeader { h with version := version } payload)
      = s.outcome (.ofHeader h payload) := by
  have hfound : s.catalog.lookup? { h with version := version } = s.catalog.lookup? h := rfl
  simp only [outcome, Packet.ofHeader, Option.bind_some, hfound]
  cases hd : s.catalog.lookup? h with
  | none => rfl
  | some d =>
    have hnames := hc.names_of_lookup? hd
    have hread := Command.ofPacket_of_names hnames payload
    have hread' := Command.ofPacket_of_names (h := { h with version := version }) hnames payload
    rw [Packet.ofHeader] at hread hread'
    rw [Option.map_some, Option.map_some, hread, hread']

theorem receiveFrame_outcome {s : Session} {frame : Frame} {fragments : List Frame} {p : Packet}
    (h : collect s.fragments frame = (fragments, some p)) :
    s.receiveFrame frame = match s.outcome p with
      | some (.ok (c, d)) =>
        ({ s with fragments := fragments, registry := (s.registry.dispatch c).1 }.record
          (.dispatched c)).invokeAll c d.callbacks
      | _ => ({ s with fragments := fragments }, false) := by
  simp only [receiveFrame, h, Option.bind_some, readCommand?, outcome]
  cases p.header.bind s.catalog.lookup? with
  | none => rfl
  | some d => cases hread : Command.ofPacket d p <;> simp only [Option.map_some, hread] <;> rfl

theorem collect_of_collectAll {fragments : List Frame} {frame : Frame} {p : Packet}
    (h : collectAll fragments [frame] = ([], [p])) : collect fragments frame = ([], some p) := by
  rw [collectAll_singleton] at h
  obtain ⟨hleft, hpacket⟩ := Prod.mk.inj h
  exact Prod.ext hleft (Option.toList_eq_singleton_iff.mp hpacket)

theorem acceptFrame_of_data (s : Session) (id : LineId) {l : Line} (hu : l.link.inUse = true)
    {f : Frame} (h : f.isAck = false) (hp : f.packet.isSome = true) :
    s.acceptFrame id l f = (s.setLink id (l.link.accept f).1).receiveFrame f := by
  have hhanded : (l.link.accept f).2 = some f := (l.link.accept_of_data h hp).trans (if_pos hu)
  rw [acceptFrame, hhanded]
  rfl

theorem acceptFrames_alike_used {frames frames' : List Frame}
    (h : List.Forall₂ Frame.Alike frames frames') (hlast : CompleteLast frames) {p p' : Packet}
    {s : Session} (hsame : ∀ s₁ : Session, s₁.catalog = s.catalog → s₁.outcome p' = s₁.outcome p)
    {id : LineId} {l : Link} (hl : s.link? id = some l) (hu : l.inUse = true)
    {fragments' : List Frame} (hp : collectAll s.fragments frames = ([], [p]))
    (hp' : collectAll fragments' frames' = ([], [p'])) :
    { s with fragments := fragments' }.acceptFrames id frames' = s.acceptFrames id frames := by
  induction h generalizing s l fragments' with
  | nil => exact absurd (Prod.mk.inj hp).2 nofun
  | @cons f f' rest rest' hf hrest ih =>
    obtain ⟨line, hline, rfl⟩ := Option.map_eq_some_iff.mp hl
    let s' : Session := { s with fragments := fragments' }
    let told := s.setLink id (line.link.accept f).1
    let told' : Session := { told with fragments := fragments' }
    have hline' : s'.line? id = some line := hline
    have hone' : s'.acceptFrame id line f' = told'.receiveFrame f' := by
      rw [acceptFrame_of_data s' id hu hf.data' hf.packet', Link.accept_alike hf]
      rfl
    rw [acceptFrames_cons hline, acceptFrames_cons (s := s') hline', hone',
      acceptFrame_of_data s id hu hf.data hf.packet]
    cases hrest with
    | nil =>
      -- the packets are complete
      have hc : collect told.fragments f = ([], some p) := collect_of_collectAll hp
      have hc' : collect told'.fragments f' = ([], some p') := collect_of_collectAll hp'
      have hreceived : told'.receiveFrame f' = told.receiveFrame f := by
        rw [receiveFrame_outcome hc, receiveFrame_outcome hc', hsame told' rfl]
        rfl
      rw [hreceived]
    | cons hnext hrest =>
      have hfirst : f.header.flags.isLast = false := hlast f (by simp)
      have hfirst' : f'.header.flags.isLast = false := hf.isLast.trans hfirst
      rw [collectAll_cons_of_not_last _ hfirst] at hp
      rw [collectAll_cons_of_not_last _ hfirst'] at hp'
      have hnext := ih (fun g hm => hlast g (List.mem_cons_of_mem _ hm))
        (s := { told with fragments := (collect s.fragments f).1 }.wakeRunnable) hsame
        (link?_setLink hl _) ((line.link.inUse_accept f).trans hu) hp hp'
      rw [receiveFrame_keeps hfirst, receiveFrame_keeps hfirst', if_neg Bool.false_ne_true,
        if_neg Bool.false_ne_true]
      exact hnext

theorem acceptFrames_alike_unused {frames frames' : List Frame}
    (h : List.Forall₂ Frame.Alike frames frames') {s : Session} {id : LineId} {l : Link}
    (hl : s.link? id = some l) (hu : l.inUse = false) :
    s.acceptFrames id frames' = s.acceptFrames id frames := by
  induction h generalizing s l with
  | nil => rfl
  | @cons f f' rest rest' hf hrest ih =>
    obtain ⟨line, hline, rfl⟩ := Option.map_eq_some_iff.mp hl
    have hone : s.acceptFrame id line f' = s.acceptFrame id line f := by
      rw [acceptFrame, acceptFrame, Link.accept_unused hu, Link.accept_unused hu,
        Link.accept_alike hf]
    rw [acceptFrames_cons hline, acceptFrames_cons hline, hone]
    split
    · rfl
    · exact ih (acceptFrame_took hline f).2 ((line.link.inUse_accept f).trans hu)

theorem acceptFrames_alike {frames frames' : List Frame}
    (h : List.Forall₂ Frame.Alike frames frames') (hlast : CompleteLast frames) {p p' : Packet}
    {s : Session} (hsame : ∀ s₁ : Session, s₁.catalog = s.catalog → s₁.outcome p' = s₁.outcome p)
    (id : LineId) (hp : collectAll s.fragments frames = ([], [p]))
    (hp' : collectAll s.fragments frames' = ([], [p'])) :
    s.acceptFrames id frames' = s.acceptFrames id frames := by
  cases hl : s.line? id with
  | none => rw [acceptFrames_of_none hl, acceptFrames_of_none hl]
  | some l =>
    have hlink : s.link? id = some l.link := by rw [link?, hl, Option.map_some]
    cases hu : l.link.inUse with
    | false => exact acceptFrames_alike_unused h hlink hu
    | true => exact acceptFrames_alike_used h hlast hsame hlink hu hp hp'

theorem receiveAll_split {p : Packet} (hp : p.header.isSome = true) {maxBody : Nat}
    {seqs : List UInt8} (hseqs : seqs.length = (Fragment.split p maxBody).length)
    {chunks : List (List UInt8)}
    (hchunks : chunks.flatten
      = (List.zipWith Frame.stamp (Fragment.split p maxBody) seqs).flatMap Frame.encode)
    {s : Session} {id : LineId} {l : Link} (hl : s.link? id = some l) (hbuffer : l.buffer = []) :
    s.receiveAll id chunks
      = ((s.setLink id l).acceptFrames id
          (List.zipWith Frame.stamp (Fragment.split p maxBody) seqs)).setBuffer id [] := by
  have hstamped := Frame.stampOf_zipWith hseqs
  refine receiveAll_whole (fun f hf => ?_) (completeLast_split hstamped) ?_ hchunks hl hbuffer
  · obtain ⟨g, hg, hs⟩ := exists_of_mem_right hstamped hf
    obtain ⟨hformed, -, htype⟩ := Fragment.wellFormed_of_mem_split hp hg hs
    exact ⟨hformed, htype⟩
  · intro hnil
    rw [hnil, List.forall₂_nil_right_iff] at hstamped
    exact Fragment.split_ne_nil p maxBody hstamped

/-- It makes no difference to a session which of two packets it gets: it makes the same of either,
and it ends up the same whichever frames bring them, and when either comes in as fragments under the
same numbers, however the bytes are cut. -/
structure TreatsAlike (s : Session) (p p' : Packet) : Prop where
  outcome : s.outcome p' = s.outcome p
  accepted : ∀ (id : LineId) (frames frames' : List Frame),
    List.Forall₂ Frame.Alike frames frames' → CompleteLast frames →
    collectAll s.fragments frames = ([], [p]) →
    collectAll s.fragments frames' = ([], [p']) →
    s.acceptFrames id frames' = s.acceptFrames id frames
  received : ∀ (maxBody : Nat) (seqs : List UInt8),
    seqs.length = (Fragment.split p maxBody).length →
    let frames := List.zipWith Frame.stamp (Fragment.split p maxBody) seqs
    let frames' := List.zipWith Frame.stamp (Fragment.split p' maxBody) seqs
    ∀ chunks chunks' : List (List UInt8), chunks.flatten = frames.flatMap Frame.encode →
    chunks'.flatten = frames'.flatMap Frame.encode →
    ∀ (id : LineId) (l : Link), s.link? id = some l → l.buffer = [] →
    s.receiveAll id chunks' = s.receiveAll id chunks

theorem treatsAlike_version {s : Session} {inserted : List Definition}
    (hc : s.catalog.Filled inserted) (h : CommandHeader) (payload : List UInt8) (version : UInt8) :
    s.TreatsAlike (.ofHeader h payload) (.ofHeader { h with version := version } payload) := by
  have hsame : ∀ s₁ : Session, s₁.catalog = s.catalog →
      s₁.outcome (.ofHeader { h with version := version } payload)
        = s₁.outcome (.ofHeader h payload) := by
    intro s₁ hs
    have hc₁ : s₁.catalog.Filled inserted := hs.symm ▸ hc
    exact outcome_version hc₁ h payload version
  refine ⟨hsame s rfl, fun id frames frames' halike hlast hp hp' => ?_, ?_⟩
  · exact acceptFrames_alike halike hlast hsame id hp hp'
  · intro maxBody seqs hseqs frames frames' chunks chunks' hchunks hchunks' id l hl hbuffer
    have hsplit : List.Forall₂ Frame.Alike (Fragment.split (.ofHeader h payload) maxBody)
        (Fragment.split (.ofHeader { h with version := version } payload) maxBody) :=
      Fragment.alike_split rfl rfl maxBody
    have hseqs' := hseqs.trans hsplit.length_eq
    have hstamped := Frame.stampOf_zipWith hseqs
    have hframes : (s.setLink id l).acceptFrames id frames'
        = (s.setLink id l).acceptFrames id frames :=
      acceptFrames_alike (s := s.setLink id l) (Frame.alike_zipWith_stamp hsplit seqs)
        (completeLast_split hstamped) hsame id (collectAll_split rfl hstamped s.fragments)
        (collectAll_split rfl (Frame.stampOf_zipWith hseqs') s.fragments)
    rw [receiveAll_split rfl hseqs hchunks hl hbuffer,
      receiveAll_split rfl hseqs' hchunks' hl hbuffer, hframes]

/-- A catalog finds under a header the last definition of its kind and id that came in, and nothing
if there is none. So no packet is held against a definition that its header does not name, and a
session treats packets alike that differ in the version of their header only. -/
theorem versions_ignored {catalog : Catalog} {inserted : List Definition}
    (hc : catalog.Filled inserted) (h : CommandHeader) :
    (∀ d, catalog.lookup? h = some d ↔ Catalog.LastNamed inserted h d)
      ∧ (catalog.lookup? h = none ↔ ∀ d ∈ inserted, d.header.names h = false)
      ∧ (∀ d, catalog.lookup? h = some d → ∀ payload name header,
        Command.ofPacket d (.ofHeader h payload) ≠ .error (.wrongHeader name header))
      ∧ ∀ s : Session, s.catalog = catalog → ∀ (payload : List UInt8) (version : UInt8),
        s.TreatsAlike (.ofHeader h payload) (.ofHeader { h with version := version } payload) := by
  refine ⟨hc.lookup?_eq_some_iff h, hc.lookup?_eq_none_iff h,
    fun d hd payload name header => ?_, ?_⟩
  · exact Command.ofPacket_ne_wrongHeader (hc.names_of_lookup? hd) payload name header
  · rintro s rfl payload version
    exact treatsAlike_version hc h payload version

/-- A response that took the place of an older one, under two versions, in two fragments of which
the first has no room for the header: byte by byte, and all at once. -/
theorem versions_ignored_two_fragments :
    let older : Definition := ⟨"Probe.Rsp", .of .response 0x77, [⟨"TSN", .u8, false⟩], false, none⟩
    let d : Definition := ⟨"Probe.Rsp", ⟨2, .response, 0x77⟩,
      [⟨"TSN", .u8, false⟩, ⟨"Level", .u16, false⟩], false, none⟩
    let request : Definition := ⟨"Probe.Req", .of .request 0x77, [], false, some d⟩
    let catalog := (Catalog.standard.register older).register request
    let s : Session := { (new (.forDevice "tty") catalog true).attach.1 with
      registry := (Registry.empty.await [.anyOf d]).1 }
    let h : CommandHeader := .of .response 0x77
    let p : Packet := .ofHeader h [7, 2, 1]
    let p' : Packet := .ofHeader { h with version := 9 } [7, 2, 1]
    let bytes := fun p =>
      (List.zipWith Frame.stamp (Fragment.split p 4) [1, 2]).flatMap Frame.encode
    let inserted := Catalog.insertions Standard.all ++ Catalog.insertions [older]
      ++ Catalog.insertions [request]
    catalog.Filled inserted ∧ Catalog.LastNamed inserted h d
      ∧ s.outcome p' = some (.ok (⟨d, [some (.uint 7), some (.uint 258)], false⟩, ⟨some 0, []⟩))
      ∧ s.receiveAll 1 ((bytes p').map fun b => [b]) = s.receiveAll 1 [bytes p] := by
  intro older d request catalog s h p p' bytes inserted
  have hc : catalog.Filled inserted := .register request (.register older .standard)
  obtain ⟨hlookup, -, -, halike⟩ := versions_ignored hc h
  have hlength : (Fragment.split p 4).length = 2 := by decide +kernel
  obtain ⟨houtcome, -, hreceived⟩ := halike s rfl [7, 2, 1] 9
  refine ⟨hc, (hlookup d).mp rfl, houtcome.trans rfl, ?_⟩
  exact hreceived 4 [1, 2] hlength.symm [bytes p] ((bytes p').map fun b => [b]) (by simp [bytes, p])
    (by simp [← List.flatMap_def, bytes, p']) 1 (.new 1000) rfl rfl

end Session

end NcpHost
