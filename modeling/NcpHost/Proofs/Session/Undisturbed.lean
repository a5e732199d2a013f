import NcpHost.Proofs.Session.Reception
import NcpHost.Proofs.Session.Turn
import NcpHost.Session.Act

/-! Runs in which nothing is given up and nothing goes away. Requests start, bytes arrive, time passes
and workers take turns, in any order; the line of requests goes along with all of it. -/

namespace NcpHost.Session

open Wire

def Job.isReset : Job → Bool
  | .reset _ _ => true
  | _ => false

def Job.packet? : Job → Option Packet
  | .request c _ => packetOf? c
  | _ => none

section

variable {busy : Option TaskId} {s : Session} {w : Wire}

theorem Mirrors.spawn (h : Mirrors none s w) (job : Job) :
    Mirrors (some s.nextTask) (s.spawn job).1 w ∧ s.nextTask ∉ w.ids ∧ s.nextTask ∉ w.line
      ∧ ∀ t, (s.nextTask, t) ∈ (s.spawn job).1.tasks → t = .fresh job := by
  have hnew : s.nextTask ∉ s.tasks.map (·.1) := fun hm => Nat.lt_irrefl _ (h.recent _ hm)
  have hkeys : (s.spawn job).1.tasks.map (·.1) = s.tasks.map (·.1) ++ [s.nextTask] := List.map_append
  refine ⟨?_, fun hm => Nat.lt_irrefl _ (h.known _ hm), (h.gone _ hnew).1, ?_⟩
  · constructor
    case sound => exact h.sound
    case current => exact h.current
    case line => exact h.line
    case written => exact h.written
    case keys =>
      rw [hkeys]
      exact nodup_concat h.keys hnew
    case recent =>
      rw [hkeys]
      intro k hk
      rcases List.mem_append.mp hk with hold | hlast
      · exact Nat.lt_succ_of_lt (h.recent k hold)
      · exact List.mem_singleton.mp hlast ▸ Nat.lt_succ_self _
    case known => exact fun k hk => Nat.lt_succ_of_lt (h.known k hk)
    case present =>
      rw [hkeys]
      intro k hk
      exact Option.some.inj hk ▸ List.mem_append_right _ List.mem_cons_self
    case placed =>
      intro e he hne
      rcases List.mem_append.mp he with hold | hlast
      · exact h.placed e hold nofun
      · exact absurd (congrArg (some ·.1) (List.mem_singleton.mp hlast).symm) hne
    case gone =>
      rw [hkeys]
      exact fun k hk => h.gone k fun hm => hk (List.mem_append_left _ hm)
  · intro t ht
    rcases List.mem_append.mp ht with hold | hlast
    · exact absurd (List.mem_map_of_mem hold) hnew
    · exact (Prod.mk.inj (List.mem_singleton.mp hlast)).2

theorem Mirrors.rest {id : TaskId} (h : Mirrors (some id) s w)
    (ht : ∀ t, (id, t) ∈ s.tasks → Placed w id t) : Mirrors none s w := by
  refine ⟨h.sound, h.current, h.line, h.written, h.keys, h.recent, h.known, nofun, ?_, h.gone⟩
  intro e he _
  by_cases hid : e.1 = id
  · exact hid ▸ ht e.2 (hid ▸ he)
  · exact h.placed e he fun heq => hid (Option.some.inj heq).symm

theorem Mirrors.start (h : Mirrors none s w) {job : Job} (hjob : job.isReset = false) :
    ∃ w', Mirrors none (s.spawn job).1 w' ∧ Went job.packet?.toList w w' := by
  obtain ⟨hspawned, hids, hline, hstage⟩ := h.spawn job
  have howed := owed_eq_nil h.sound hids
  cases job with
  | request c timeout =>
    obtain ⟨henrolled, hschedule, hfragments, hwent⟩ := hspawned.enroll hids hline c
    refine ⟨_, henrolled.rest fun t ht => ?_, hwent⟩
    rw [hstage t ht]
    exact ⟨hschedule, hfragments⟩
  | version =>
    refine ⟨w, hspawned.rest fun t ht => ?_, went_refl w⟩
    rw [hstage t ht]
    exact ⟨hids, hline⟩
  | reset option wait => exact absurd hjob nofun
  | wait listener =>
    refine ⟨w, hspawned.rest fun t ht => ?_, went_refl w⟩
    rw [hstage t ht]
    exact ⟨hline, howed⟩
  | callback deed command =>
    refine ⟨w, hspawned.rest fun t ht => ?_, went_refl w⟩
    rw [hstage t ht]
    exact ⟨hline, howed⟩

theorem Mirrors.invoke (h : Mirrors none s w) (callback : Callback Deed) (c : Command) :
    Mirrors none (s.invoke callback c).1 w := by
  cases callback with
  | inline deed =>
    obtain ⟨warnings, heq⟩ := s.invoke_inline deed c
    have hone : Alike s (s.record (.callback deed.name c.render)) := record_alike s rfl
    rw [heq]
    exact h.alike (hone.trans ⟨rfl, rfl, rfl, rfl, rfl⟩)
  | spawned deed =>
    rw [Session.invoke]
    split
    · exact h.alike (record_alike s rfl)
    · obtain ⟨hspawned, hids, hline, hstage⟩ := h.spawn (.callback deed c.render)
      refine hspawned.rest fun t ht => ?_
      rw [hstage t ht]
      exact ⟨hline, owed_eq_nil h.sound hids⟩

theorem Mirrors.invokeAll (h : Mirrors none s w) (c : Command) (callbacks : List (Callback Deed)) :
    Mirrors none (s.invokeAll c callbacks).1 w := by
  induction callbacks generalizing s with
  | nil => exact h
  | cons callback rest ih =>
    have hone := h.invoke callback c
    rw [Session.invokeAll]
    split
    · next s' hs => rwa [hs] at hone
    · next s' hs =>
      rw [hs] at hone
      exact ih hone

theorem Mirrors.receiveFrame (h : Mirrors none s w) (frame : Frame) :
    Mirrors none (s.receiveFrame frame).1 w := by
  have hcollected : Alike s { s with fragments := (collect s.fragments frame).1 } :=
    ⟨rfl, rfl, rfl, rfl, rfl⟩
  unfold Session.receiveFrame
  dsimp only
  split
  · next c _ =>
    have hdispatched : Alike s { s with
        fragments := (collect s.fragments frame).1
        registry := (s.registry.dispatch c).1 } := ⟨rfl, rfl, rfl, rfl, rfl⟩
    exact ((h.alike hdispatched).alike (record_alike _ rfl)).invokeAll c _
  · exact h.alike hcollected

theorem Line.Follows.accept {l : Line} (h : l.Follows w) (frame : Frame) :
    Line.Follows { l with link := (l.link.accept frame).1 } w := by
  refine ⟨h.up, h.reads, h.writes, h.queue.accept frame, ?_⟩
  cases hack : frame.isAck with
  | true =>
    rw [Line.stream, (Link.accept_ack hack).1]
    exact h.carries
  | false =>
    rw [Line.stream, (Link.accept_data h.queue.outlet hack).1, List.flatten_append,
      List.flatten_singleton, ← List.append_assoc]
    exact h.carries.ack frame.header.flags.packetSeq

theorem Mirrors.acceptFrame (h : Mirrors none s w) {id : LineId} {l : Line}
    (hl : s.line? id = some l) (frame : Frame) :
    Mirrors none (s.acceptFrame id l frame).1 w := by
  have haccepted : Mirrors none
      (s.modifyLine id fun l' => { l' with link := (l.link.accept frame).1 }) w := by
    refine h.modifyLine fun l' hl' hf => ?_
    obtain rfl := Option.some.inj (hl.symm.trans hl')
    exact hf.accept frame
  rw [Session.acceptFrame]
  cases (l.link.accept frame).2 with
  | none => exact haccepted
  | some f => exact haccepted.receiveFrame f

theorem Mirrors.stopReading (h : Mirrors none s w) (id : LineId) :
    Mirrors none (s.modifyLine id Line.stopReading) w :=
  h.modifyLine fun _ _ hf => ⟨hf.up, hf.reads, hf.writes, hf.queue, hf.carries⟩

theorem Mirrors.acceptFrames (h : Mirrors none s w) (id : LineId) (frames : List Frame) :
    Mirrors none (s.acceptFrames id frames) w := by
  induction frames generalizing s with
  | nil => exact h
  | cons frame rest ih =>
    cases hl : s.line? id with
    | none =>
      rw [Session.acceptFrames, hl]
      exact h
    | some l =>
      have hwoken : Mirrors none (s.acceptFrame id l frame).1.wakeRunnable w :=
        (h.acceptFrame hl frame).alike ⟨rfl, rfl, rfl, rfl, rfl⟩
      rw [acceptFrames_cons hl]
      split
      · exact hwoken.stopReading id
      · exact ih hwoken

theorem Mirrors.receiveBytes (h : Mirrors none s w) (id : LineId) (bytes : List UInt8) :
    Mirrors none (s.receiveBytes id bytes) w := by
  unfold Session.receiveBytes
  split
  · exact h
  · next l hl =>
    refine Mirrors.acceptFrames (h.modifyLine fun l' hl' hf => ?_) id _
    obtain rfl := Option.some.inj (hl.symm.trans hl')
    exact ⟨hf.up, hf.reads, hf.writes, hf.queue.congr rfl rfl rfl fun _ hk => hk, hf.carries⟩

theorem Mirrors.holds (h : Mirrors none s w) : s.holds 1 = true := by
  rw [Session.holds, h.current]
  rfl

theorem Mirrors.turnReader (h : Mirrors none s w) (id : LineId) :
    Mirrors none (s.turnReader id) w := by
  unfold Session.turnReader
  split
  · exact h
  · next l hl =>
    obtain ⟨rfl, hfollows⟩ := h.follows hl
    split
    · exact h
    · next hreadable =>
      have hbytes : (!l.inbound.isEmpty) = true := by
        simp only [Line.readable, hfollows.up, hfollows.reads, Bool.or_false] at hreadable
        cases hb : l.inbound.isEmpty with
        | true => simp [hb] at hreadable
        | false => rfl
      rw [h.holds, hfollows.reads, hbytes]
      refine Mirrors.receiveBytes (h.modifyLine fun l' _ hf => ?_) 1 _
      exact ⟨hf.up, hf.reads, hf.writes, hf.queue, hf.carries⟩

theorem Mirrors.turnWriter (h : Mirrors none s w) (id : LineId) :
    Mirrors none (s.turnWriter id) w := by
  have hflushed : Mirrors none (s.modifyLine id Line.flush) w := by
    refine h.modifyLine fun l _ hf => ⟨hf.up, hf.reads, hf.writes,
      hf.queue.congr rfl rfl rfl fun _ hk => hk, ?_⟩
    have hstream : l.flush.stream = l.stream := by simp [Line.stream, Line.flush]
    exact hstream ▸ hf.carries
  unfold Session.turnWriter
  split
  · exact h
  · next l hl =>
    obtain ⟨rfl, hfollows⟩ := h.follows hl
    split
    · exact h
    · rw [hfollows.writes]
      dsimp only [Bool.false_and]
      rw [hflushed.holds]
      exact hflushed

/-- The act gives up nothing, and leaves the line where it is. -/
def Act.isUndisturbed : Act → Bool
  | .attach | .disconnect | .abort _ | .hangUp _ | .breakReading _ | .breakWriting _ => false
  | .start job => !job.isReset
  | _ => true

/-- The packet that an act brings. A version query has one from its first turn on, since it carries
a number that is taken then. -/
def brought? (s : Session) : Act → Option Packet
  | .start job => job.packet?
  | .turn (.task id) => s.queried? id
  | _ => none

def brought (s : Session) : List Act → List Packet
  | [] => []
  | act :: acts => (s.brought? act).toList ++ (s.perform act).1.brought acts

theorem Mirrors.perform (h : Mirrors none s w) {act : Act} (hact : act.isUndisturbed = true) :
    ∃ w', Mirrors none (s.perform act).1 w' ∧ Went (s.brought? act).toList w w' := by
  have stays : ∀ {s'}, Mirrors none s' w → ∃ w', Mirrors none s' w' ∧ Went [] w w' :=
    fun h' => ⟨w, h', went_refl w⟩
  cases act with
  | attach => exact absurd hact nofun
  -- the session has a line, so that there is nothing to connect
  | connect =>
    have hconnected : s.isConnected = true := by rw [isConnected, h.current]; rfl
    have hsame : (s.perform .connect).1 = s := by simp [Session.perform, connect, hconnected]
    refine stays ?_
    rw [hsame]
    exact h
  | disconnect => exact absurd hact nofun
  | setHook name => exact stays (h.alike ⟨rfl, rfl, rfl, rfl, rfl⟩)
  | takeTsn => exact stays (h.alike ⟨rfl, rfl, rfl, rfl, rfl⟩)
  | start job => exact h.start (by simpa [Act.isUndisturbed] using hact)
  | abort id => exact absurd hact nofun
  | await patterns =>
    refine stays ?_
    rw [Session.perform, Session.await]
    split
    · exact h
    · exact h.alike ⟨rfl, rfl, rfl, rfl, rfl⟩
  | subscribe patterns callback =>
    refine stays ?_
    rw [Session.perform, Session.subscribe]
    split
    · exact h
    · exact h.alike ⟨rfl, rfl, rfl, rfl, rfl⟩
  | remove listener => exact stays (h.alike ⟨rfl, rfl, rfl, rfl, rfl⟩)
  | cancel listener => exact stays (h.alike ⟨rfl, rfl, rfl, rfl, rfl⟩)
  | release listener => exact stays (h.alike ⟨rfl, rfl, rfl, rfl, rfl⟩)
  | arrive line bytes =>
    have harrived : Mirrors none (s.arrive line bytes) w := by
      refine h.modifyLine fun l _ hf => ?_
      split
      · exact ⟨hf.up, hf.reads, hf.writes, hf.queue, hf.carries⟩
      · exact hf
    exact stays harrived
  | hangUp line => exact absurd hact nofun
  | breakReading line => exact absurd hact nofun
  | breakWriting line => exact absurd hact nofun
  | elapse time => exact stays (h.alike ⟨rfl, rfl, rfl, rfl, rfl⟩)
  | queue ready => exact stays (h.alike ⟨rfl, rfl, rfl, rfl, rfl⟩)
  | turn worker =>
    cases worker with
    | reader line => exact stays (h.turnReader line)
    | writer line => exact stays (h.turnWriter line)
    | task id => exact h.turnTask id

theorem Mirrors.run (h : Mirrors none s w) {acts : List Act}
    (hacts : ∀ act ∈ acts, act.isUndisturbed = true) :
    ∃ w', Mirrors none (s.run acts) w' ∧ Moves w w'
      ∧ w'.requests.map (·.2) = w.requests.map (·.2) ++ s.brought acts := by
  induction acts generalizing s w with
  | nil => exact ⟨w, h, .refl, (List.append_nil _).symm⟩
  | cons act acts ih =>
    obtain ⟨w₁, hone, hwent⟩ := h.perform (hacts act List.mem_cons_self)
    obtain ⟨w', hrun, hmoves, hrequests⟩ := ih hone fun a ha => hacts a (List.mem_cons_of_mem _ ha)
    refine ⟨w', hrun, hwent.moves.trans hmoves, ?_⟩
    rw [hrequests, hwent.requests, List.append_assoc]
    rfl

theorem mirrors_attach (config : Config) (catalog : Catalog) (deviceOpens : Bool) :
    Mirrors none (Session.new config catalog deviceOpens).attach.1 .idle := by
  refine ⟨sound_idle, rfl, ⟨.new config.ackTimeout.toNat, rfl, rfl, rfl, rfl, ?_, .nil⟩, rfl,
    List.nodup_nil, ?_, ?_, nofun, ?_, ?_⟩
  · exact ⟨rfl, rfl, fun _ => rfl, rfl, fun id => List.not_mem_nil⟩
  · exact fun id hm => absurd hm List.not_mem_nil
  · exact fun id hm => absurd hm List.not_mem_nil
  · exact fun e hm => absurd hm List.not_mem_nil
  · exact fun id _ => ⟨List.not_mem_nil, rfl⟩

end

end NcpHost.Session
