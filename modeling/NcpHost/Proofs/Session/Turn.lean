import NcpHost.Proofs.Session.Mirror

/-! The turn of a request, on the line of requests. It makes moves of its own only, and where nobody
has to come back behind another one, it does not part anybody's fragments. -/

namespace NcpHost.Session

open Wire

section

variable {s s' : Session} {w w' : Wire} {id : TaskId}

theorem Mirrors.moved (h : Mirrors (some id) s w) (hm : Relation.ReflTransGen (Move id) w w')
    (hcurrent : s'.current = s.current) (hline : ∃ l, s'.lines = [(1, l)] ∧ l.Follows w')
    (hwritten : s'.written = w'.sent) (htasks : s'.tasks = s.tasks)
    (hnext : s'.nextTask = s.nextTask) : Mirrors (some id) s' w' := by
  have hothers : ∀ {k}, k ≠ id → SamePlace k w w' := fun hk => samePlace_of_moves hm h.sound hk
  constructor
  case sound => exact Moves.sound (Moves.of_own hm) h.sound
  case current => exact hcurrent.trans h.current
  case line => exact hline
  case written => exact hwritten
  case keys => exact htasks ▸ h.keys
  case recent =>
    rw [htasks, hnext]
    exact h.recent
  case known =>
    rw [hnext]
    intro k hk
    by_cases hid : k = id
    · exact hid ▸ h.recent id (h.present id rfl)
    · exact h.known k ((hothers hid).ids.mp hk)
  case present => exact htasks ▸ h.present
  case placed =>
    rw [htasks]
    intro e he hne
    exact (h.placed e he hne).congr (hothers fun heq => hne (congrArg some heq.symm))
  case gone =>
    rw [htasks]
    intro k hk
    have hsame := hothers fun heq : k = id => hk (heq ▸ h.present id rfl)
    rw [hsame.line, hsame.owed]
    exact h.gone k hk

theorem Mirrors.line_eq {busy : Option TaskId} (h : Mirrors busy s w) :
    ∃ l, s.line? 1 = some l ∧ s.lines = [(1, l)] ∧ l.Follows w := by
  obtain ⟨l, hl, hrest⟩ := h.line
  exact ⟨l, by simp [line?, hl], hl, hrest⟩

theorem Mirrors.enterSend (h : Mirrors (some id) s w) (hid : id ∉ w.line) {f : Frame}
    (hf : (w.owed id).head? = some f) : Mirrors (some id) (s.enterSend id 1 f) (w.join id) := by
  obtain ⟨l, -, hl, hfollows⟩ := h.line_eq
  refine h.moved (.single (.join hid)) rfl ?_ h.written rfl rfl
  refine ⟨{ l with link := l.link.enter id f }, ?_, hfollows.up, hfollows.reads, hfollows.writes,
    hfollows.queue.enter h.sound hid hf, hfollows.carries⟩
  simp [Session.enterSend, Session.modifyLine, hl]

theorem record_sent (s : Session) (id : TaskId) (line : LineId) (writes : List (List UInt8)) :
    ∃ log, writes.foldl (fun s bytes => s.record (.sent id line bytes)) s = { s with log := log }
      ∧ log.filterMap Event.sent? = s.written ++ writes.map fun bytes => (id, bytes) := by
  induction writes generalizing s with
  | nil => exact ⟨s.log, rfl, (List.append_nil _).symm⟩
  | cons bytes writes ih =>
    obtain ⟨log, hs, hlog⟩ := ih (s.record (.sent id line bytes))
    refine ⟨log, hs, hlog.trans ?_⟩
    have hwritten : (s.record (.sent id line bytes)).written = s.written ++ [(id, bytes)] := by
      rw [Session.written, record, List.filterMap_append]
      rfl
    rw [hwritten, List.append_assoc]
    rfl

theorem followDeadline_alike (s : Session) (id : TaskId) (before after : Option Nat) :
    Alike s (s.followDeadline id before after) := by
  unfold followDeadline
  split
  · exact ⟨rfl, rfl, rfl, rfl, rfl⟩
  · split
    · exact ⟨rfl, rfl, rfl, rfl, rfl⟩
    · exact ⟨rfl, rfl, rfl, rfl, rfl⟩

theorem Mirrors.proceedSend (h : Mirrors (some id) s w) (hid : id ∈ w.line) :
    ∃ w', Link.Proceeded id w w' (s.proceedSend id 1).2
      ∧ Mirrors (some id) (s.proceedSend id 1).1 w' := by
  obtain ⟨l, hl?, hl, hfollows⟩ := h.line_eq
  obtain ⟨w', writes, hproceeded, hqueue, houtgoing, hsent⟩ :=
    hfollows.queue.proceed h.sound hid s.agenda.now
  have hwrites : (l.link.proceed id s.agenda.now).1.outgoing.drop l.link.outgoing.length = writes := by
    rw [houtgoing, List.drop_left]
  obtain ⟨log, hlog, hwritten⟩ := record_sent
    (s.modifyLine 1 fun l' => { l' with link := (l.link.proceed id s.agenda.now).1 }) id 1 writes
  -- the session goes on with the send as the link does, and then keeps record and timer
  have hsplit : s.proceedSend id 1 =
      (({ (s.modifyLine 1 fun l' => { l' with link := (l.link.proceed id s.agenda.now).1 }) with
            log := log } : Session).followDeadline id (l.link.deadline? id)
          ((l.link.proceed id s.agenda.now).1.deadline? id), (l.link.proceed id s.agenda.now).2) := by
    unfold Session.proceedSend
    rw [hl?]
    dsimp only
    rw [hwrites, hlog]
  refine ⟨w', ?_, ?_⟩
  · rw [hsplit]
    exact hproceeded
  · rw [hsplit]
    refine Mirrors.alike ?_ (followDeadline_alike _ _ _ _)
    refine h.moved hproceeded.moves rfl ?_ ?_ rfl rfl
    · refine ⟨{ l with link := (l.link.proceed id s.agenda.now).1 }, ?_, hfollows.up, hfollows.reads,
        hfollows.writes, hqueue, ?_⟩
      · simp [Session.modifyLine, hl]
      · have hdata : w'.sent.map (·.2) = w.sent.map (·.2) ++ writes := by
          rw [hsent, List.map_append, List.map_map]
          exact congrArg (_ ++ ·) (List.map_id writes)
        rw [hdata, Line.stream, houtgoing, List.flatten_append, ← List.append_assoc]
        exact hfollows.carries.append writes
    · rw [hsent, ← h.written]
      exact hwritten

theorem Mirrors.endExchange (h : Mirrors (some id) s w) (hline : id ∉ w.line)
    (howed : w.owed id = []) (e : Exchange) (result : Except Fault Command) :
    Mirrors none (s.endExchange id e result) w := by
  have halike : Alike s { s with
      blockingLock := s.blockingLock.leave id
      registry := s.registry.release e.listener } := ⟨rfl, rfl, rfl, rfl, rfl⟩
  exact (h.alike halike).finish hline howed _

theorem Mirrors.listen (h : Mirrors (some id) s w) (hline : id ∉ w.line) (howed : w.owed id = [])
    (e : Exchange) : Mirrors none (s.listen id e) w := by
  unfold Session.listen
  split
  · exact h.endExchange hline howed e _
  · exact h.endExchange hline howed e _
  · split
    · exact h.endExchange hline howed e _
    · have hplaced : Placed w id (.answering e (s.agenda.now + e.timeout)) := ⟨hline, howed⟩
      exact (h.suspend hplaced).alike ⟨rfl, rfl, rfl, rfl, rfl⟩

structure Turned (calm : Prop) (id : TaskId) (w w' : Wire) : Prop where
  moves : Relation.ReflTransGen (Move id) w w'
  requests : w'.requests = w.requests
  gathered : calm → Gathered w.schedule → Gathered w'.schedule

theorem turned_refl (calm : Prop) (id : TaskId) (w : Wire) : Turned calm id w w :=
  ⟨.refl, rfl, fun _ hg => hg⟩

theorem Mirrors.sendAll {e : Exchange} (he : e.line = 1) (frames : List Frame) (h : Mirrors (some id) s w)
    (hid : id ∉ w.line) (howed : w.owed id = frames) :
    ∃ w', Mirrors none (s.sendAll id e frames) w'
      ∧ Turned (frames ≠ [] → id ∉ w.schedule ∨ w.schedule.getLast? = some id) id w w' := by
  induction frames generalizing s w with
  | nil => exact ⟨w, h.listen hid howed e, turned_refl _ id w⟩
  | cons f rest ih =>
    have hfirst : (w.owed id).head? = some f := by rw [howed]; rfl
    have hjoined := h.enterSend hid hfirst
    have hbehind : (w.join id).behind id = rest := by
      rw [behind_join h.sound hid, howed, List.tail_cons]
    obtain ⟨w₁, hproceeded, hsent⟩ :=
      hjoined.proceedSend (List.mem_append_right _ List.mem_cons_self)
    have hmoves := Relation.ReflTransGen.head (Move.join hid) hproceeded.moves
    have hschedule : w₁.schedule = w.schedule ++ [id] :=
      hproceeded.schedule.trans (schedule_join h.sound id)
    have hgathered : (id ∉ w.schedule ∨ w.schedule.getLast? = some id) →
        Gathered w.schedule → Gathered w₁.schedule := by
      intro hcalm hg
      rw [hschedule]
      exact hg.concat hcalm
    rw [Session.sendAll, he]
    generalize (s.enterSend id 1 f).proceedSend id 1 = sent at hproceeded hsent ⊢
    obtain ⟨s₁, result⟩ := sent
    rcases hproceeded.result with ⟨rfl, hline, hb⟩ | ⟨rfl, hline, ho⟩
    · -- the fragment waits for the link or for its acknowledgement
      have hmem : id ∈ w₁.line := hline ▸ List.mem_append_right _ List.mem_cons_self
      refine ⟨w₁, hsent.suspend ⟨he, hmem, hb.trans hbehind⟩, hmoves, hproceeded.requests, ?_⟩
      exact fun hcalm hg => hgathered (hcalm (List.cons_ne_nil f rest)) hg
    · -- it did not have to wait, and the next fragment goes the same way
      have hnodup := hjoined.sound.line
      rw [hline, List.nodup_cons] at hnodup
      obtain ⟨w', hmirrors, hturned⟩ := ih hsent hnodup.1 (ho.trans hbehind)
      refine ⟨w', hmirrors, hmoves.trans hturned.moves,
        hturned.requests.trans hproceeded.requests, fun hcalm hg => ?_⟩
      refine hturned.gathered (fun _ => Or.inr ?_) (hgathered (hcalm (List.cons_ne_nil f rest)) hg)
      rw [hschedule, List.getLast?_concat]

theorem Mirrors.resumeSending {e : Exchange} (he : e.line = 1) {unsent : List Frame}
    (h : Mirrors (some id) s w) (hid : id ∈ w.line) (hbehind : w.behind id = unsent) :
    ∃ w', Mirrors none (s.resumeSending id e unsent) w' ∧ Turned (¬w.Crowded) id w w' := by
  obtain ⟨w₁, hproceeded, hsent⟩ := h.proceedSend hid
  rw [Session.resumeSending, he]
  generalize s.proceedSend id 1 = sent at hproceeded hsent ⊢
  obtain ⟨s₁, result⟩ := sent
  rcases hproceeded.result with ⟨rfl, hline, hb⟩ | ⟨rfl, hline, ho⟩
  · refine ⟨w₁, hsent.suspend ⟨he, hline ▸ hid, hb.trans hbehind⟩, hproceeded.moves,
      hproceeded.requests, fun _ hg => ?_⟩
    rw [hproceeded.schedule]
    exact hg
  · have hnodup := h.sound.line
    rw [hline, List.nodup_cons] at hnodup
    obtain ⟨w', hmirrors, hturned⟩ := hsent.sendAll he unsent hnodup.1 (ho.trans hbehind)
    refine ⟨w', hmirrors, hproceeded.moves.trans hturned.moves,
      hturned.requests.trans hproceeded.requests, fun hcalm hg => ?_⟩
    refine hturned.gathered (fun hunsent => Or.inr ?_) (hproceeded.schedule ▸ hg)
    -- with fragments left and nobody else in line, the request follows itself
    rw [hproceeded.schedule]
    refine getLast?_schedule h.sound ?_
    cases hrest : w₁.line with
    | nil => rw [hline, hrest]
    | cons j rest =>
      rw [hrest] at hline
      exact absurd ⟨id, j, rest, hline, hbehind ▸ hunsent⟩ hcalm

theorem prepare_of_current (h : s.current = some 1) (c : Command) :
    (∃ cause, s.prepare c = .error cause ∧ packetOf? c = none)
      ∨ ∃ pattern p, s.prepare c = .ok (pattern, 1, p) ∧ packetOf? c = some p := by
  unfold prepare packetOf?
  rw [h]
  by_cases hkind : c.kind = .request
  · rw [if_neg (not_not_intro hkind), if_pos hkind]
    cases c.responsePattern with
    | error cause => exact Or.inl ⟨_, rfl, rfl⟩
    | ok pattern =>
      cases c.toPacket with
      | error cause => exact Or.inl ⟨_, rfl, rfl⟩
      | ok p => exact Or.inr ⟨pattern, p, rfl, rfl⟩
  · rw [if_pos hkind, if_neg hkind]
    exact Or.inl ⟨_, rfl, rfl⟩

theorem Mirrors.startRequest (h : Mirrors (some id) s w) {c : Command} (hid : id ∉ w.schedule)
    (howed : w.owed id = fragmentsOf c) (purpose : Purpose) (timeout : Nat) :
    ∃ w', Mirrors none (s.startRequest id purpose c timeout) w' ∧ Turned True id w w' := by
  have hline : id ∉ w.line := fun hm => hid (mem_schedule h.sound hm)
  unfold Session.startRequest
  rcases prepare_of_current h.current c with ⟨cause, hp, hnone⟩ | ⟨pattern, p, hp, hsome⟩
  · have hnothing : w.owed id = [] := by rw [howed, fragmentsOf, hnone]
    rw [hp]
    exact ⟨w, h.finish hline hnothing _, turned_refl _ id w⟩
  · have hfragments : w.owed id = Fragment.split p Frame.bodyLimit := by
      rw [howed, fragmentsOf, hsome]
    have hnew : ∀ {w'}, Turned (Fragment.split p Frame.bodyLimit ≠ [] →
        id ∉ w.schedule ∨ w.schedule.getLast? = some id) id w w' → Turned True id w w' :=
      fun ht => ⟨ht.moves, ht.requests, fun _ => ht.gathered fun _ => Or.inl hid⟩
    rw [hp]
    dsimp only
    have hregistered : Alike s { s with registry := (s.registry.await [pattern]).1 } :=
      ⟨rfl, rfl, rfl, rfl, rfl⟩
    split
    · obtain ⟨w', hmirrors, hturned⟩ :=
        (h.alike hregistered).sendAll (e := ⟨purpose, 1, (s.registry.await [pattern]).2, timeout⟩)
          rfl _ hline hfragments
      exact ⟨w', hmirrors, hnew hturned⟩
    · have hjoined : Alike s { s with
          registry := (s.registry.await [pattern]).1
          blockingLock := s.blockingLock.join id } := ⟨rfl, rfl, rfl, rfl, rfl⟩
      split
      · obtain ⟨w', hmirrors, hturned⟩ :=
          (h.alike hjoined).sendAll (e := ⟨purpose, 1, (s.registry.await [pattern]).2, timeout⟩)
            rfl _ hline hfragments
        exact ⟨w', hmirrors, hnew hturned⟩
      · exact ⟨w, (h.alike hjoined).suspend ⟨rfl, hid, hfragments⟩, turned_refl _ id w⟩

theorem Mirrors.resumeGated (h : Mirrors none s w) {e : Exchange} {frames : List Frame}
    (ht : s.task? id = some (.gated e frames)) :
    ∃ w', Mirrors none (s.resumeGated id e frames) w' ∧ Turned (¬w.Crowded) id w w' := by
  obtain ⟨hbusy, he, hid, howed⟩ := h.begin ht
  unfold Session.resumeGated
  split
  · obtain ⟨w', hmirrors, hturned⟩ :=
      hbusy.sendAll he frames (fun hm => hid (mem_schedule h.sound hm)) howed
    exact ⟨w', hmirrors, hturned.moves, hturned.requests,
      fun _ => hturned.gathered fun _ => Or.inl hid⟩
  · exact ⟨w, h, turned_refl _ id w⟩

theorem Mirrors.resumeAnswering (h : Mirrors none s w) {e : Exchange} {deadline : Nat}
    (ht : s.task? id = some (.answering e deadline)) :
    Mirrors none (s.resumeAnswering id e deadline) w := by
  obtain ⟨hbusy, hline, howed⟩ := h.begin ht
  unfold Session.resumeAnswering
  split
  · exact hbusy.endExchange hline howed e _
  · exact hbusy.endExchange hline howed e _
  · split
    · exact hbusy.endExchange hline howed e _
    · exact h

theorem Mirrors.resumeWaiting (h : Mirrors (some id) s w) (hline : id ∉ w.line)
    (howed : w.owed id = []) (listener : ListenerId) :
    Mirrors none (s.resumeWaiting id listener) w := by
  have hreleased : Alike s { s with registry := s.registry.release listener } :=
    ⟨rfl, rfl, rfl, rfl, rfl⟩
  unfold Session.resumeWaiting
  split
  · exact (h.alike hreleased).finish hline howed _
  · exact (h.alike hreleased).finish hline howed _
  · have hplaced : Placed w id (.waiting listener) := ⟨hline, howed⟩
    exact h.suspend hplaced

theorem Mirrors.endCallback (h : Mirrors (some id) s w) (hline : id ∉ w.line)
    (howed : w.owed id = []) (deed : Deed) (command : String) :
    Mirrors none (s.endCallback id deed command) w := by
  obtain ⟨warnings, heq⟩ := s.endCallback_eq id deed command
  have hone : Alike (s.dropTask id) ((s.dropTask id).record (.callback deed.name command)) :=
    record_alike _ rfl
  rw [heq]
  exact (h.dropTask hline howed).alike (hone.trans ⟨rfl, rfl, rfl, rfl, rfl⟩)

/-- What happens to the line of requests: packets are brought, and the requests move. If nobody has
to come back behind another one, those who were together stay together. -/
structure Went (packets : List Packet) (w w' : Wire) : Prop where
  moves : Moves w w'
  requests : w'.requests.map (·.2) = w.requests.map (·.2) ++ packets
  gathered : ¬w.Crowded → Gathered w.schedule → Gathered w'.schedule

theorem went_refl (w : Wire) : Went [] w w := ⟨.refl, (List.append_nil _).symm, fun _ hg => hg⟩

theorem Turned.went {calm : Prop} (h : Turned calm id w w') (hcalm : ¬w.Crowded → calm) :
    Went [] w w' := by
  refine ⟨Moves.of_own h.moves, ?_, fun hc => h.gathered (hcalm hc)⟩
  rw [h.requests, List.append_nil]

theorem Mirrors.enlist (h : Mirrors (some id) s w) (hids : id ∉ w.ids) (hline : id ∉ w.line)
    (p : Packet) : Mirrors (some id) s (w.enlist id p) := by
  obtain ⟨l, hl, hf⟩ := h.line
  refine h.moved (.single (.enlist p hids)) rfl ?_ h.written rfl rfl
  exact ⟨l, hl, hf.up, hf.reads, hf.writes, hf.queue.enlist h.sound hids hline p, hf.carries⟩

theorem Mirrors.enroll (h : Mirrors (some id) s w) (hids : id ∉ w.ids) (hline : id ∉ w.line)
    (c : Command) :
    Mirrors (some id) s (w.enroll id (packetOf? c))
      ∧ id ∉ (w.enroll id (packetOf? c)).schedule
      ∧ (w.enroll id (packetOf? c)).owed id = fragmentsOf c
      ∧ Went (packetOf? c).toList w (w.enroll id (packetOf? c)) := by
  have hschedule := not_mem_schedule h.sound hids hline
  unfold fragmentsOf
  cases packetOf? c with
  | none => exact ⟨h, hschedule, owed_eq_nil h.sound hids, went_refl w⟩
  | some p =>
    have hmove : Move id w (w.enlist id p) := .enlist p hids
    exact ⟨h.enlist hids hline p, hschedule, owed_enlist w id p, .single ⟨id, hmove⟩,
      List.map_append, fun _ hg => hg⟩

def versionPacket? (tsn : UInt8) : Option Packet :=
  match Command.make Standard.moduleVersion [("TSN", .uint tsn.toUInt64)] with
  | .ok c => packetOf? c
  | .error _ => none

theorem Mirrors.startVersion (h : Mirrors (some id) s w) (hids : id ∉ w.ids) (hline : id ∉ w.line) :
    ∃ w', Mirrors none (s.startVersion id) w' ∧ Went (versionPacket? s.tsn).toList w w' := by
  have hnumbered : Alike s s.takeTsn.1 := ⟨rfl, rfl, rfl, rfl, rfl⟩
  have htsn : s.takeTsn.2 = s.tsn := rfl
  unfold Session.startVersion versionPacket?
  dsimp only
  rw [htsn]
  cases Command.make Standard.moduleVersion [("TSN", .uint s.tsn.toUInt64)] with
  | error cause =>
    exact ⟨w, (h.alike hnumbered).finish hline (owed_eq_nil h.sound hids) _, went_refl w⟩
  | ok c =>
    obtain ⟨henrolled, hnew, howed, hwent⟩ := (h.alike hnumbered).enroll hids hline c
    obtain ⟨w', hmirrors, hturned⟩ := henrolled.startRequest hnew howed .version
      s.takeTsn.1.config.requestTimeout.toNat
    refine ⟨w', hmirrors, hwent.moves.trans (Moves.of_own hturned.moves), ?_, fun hc hg => ?_⟩
    · rw [hturned.requests, hwent.requests]
    · exact hturned.gathered trivial (hwent.gathered hc hg)

def queried? (s : Session) (id : TaskId) : Option Packet :=
  match s.task? id with
  | some (.fresh .version) => versionPacket? s.tsn
  | _ => none

/-- The turn of a task makes moves of this one task. -/
theorem Mirrors.turnTask (h : Mirrors none s w) (id : TaskId) :
    ∃ w', Mirrors none (s.turnTask id) w' ∧ Went (s.queried? id).toList w w' := by
  unfold Session.turnTask queried?
  cases ht : s.task? id with
  | none => exact ⟨w, h, went_refl w⟩
  | some t =>
    obtain ⟨hbusy, hplaced⟩ := h.begin ht
    -- by stage: resets have no place in such a run
    cases t with
    | fresh job =>
      cases job with
      | request c timeout =>
        obtain ⟨w', hmirrors, hturned⟩ :=
          hbusy.startRequest hplaced.1 hplaced.2 .response timeout
        exact ⟨w', hmirrors, hturned.went fun _ => trivial⟩
      | version => exact hbusy.startVersion hplaced.1 hplaced.2
      | reset option wait => exact hplaced.elim
      | wait listener =>
        exact ⟨w, hbusy.resumeWaiting hplaced.1 hplaced.2 listener, went_refl w⟩
      | callback deed command =>
        refine ⟨w, ?_, went_refl w⟩
        dsimp only [startJob]
        split
        · exact hbusy.endCallback hplaced.1 hplaced.2 deed command
        · have hasleep : Placed w id (.dozing deed command (s.agenda.now + deed.delay)) := hplaced
          exact (hbusy.suspend hasleep).alike ⟨rfl, rfl, rfl, rfl, rfl⟩
    | gated e frames =>
      obtain ⟨w', hmirrors, hturned⟩ := h.resumeGated ht
      exact ⟨w', hmirrors, hturned.went fun hc => hc⟩
    | sending e unsent =>
      obtain ⟨w', hmirrors, hturned⟩ := hbusy.resumeSending hplaced.1 hplaced.2.1 hplaced.2.2
      exact ⟨w', hmirrors, hturned.went fun hc => hc⟩
    | answering e deadline => exact ⟨w, h.resumeAnswering ht, went_refl w⟩
    | resetGated request wait => exact hplaced.elim
    | resetSending line wait lossSeen => exact hplaced.elim
    | resetWaiting deadline lossSeen => exact hplaced.elim
    | reconnecting attempt due => exact hplaced.elim
    | waiting listener =>
      exact ⟨w, hbusy.resumeWaiting hplaced.1 hplaced.2 listener, went_refl w⟩
    | dozing deed command due =>
      refine ⟨w, ?_, went_refl w⟩
      dsimp only
      split
      · exact hbusy.endCallback hplaced.1 hplaced.2 deed command
      · exact h

end

end NcpHost.Session
