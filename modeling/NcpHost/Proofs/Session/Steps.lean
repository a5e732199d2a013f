import NcpHost.Proofs.Keyed
import NcpHost.Proofs.Session.Step

/-! Every act comes down to small steps. The fragments that a request sends in one turn are handed to
the link one by one, and frames that are read in one turn are offered one by one. -/

namespace NcpHost.Session

section

variable {s s' : Session} {id : TaskId}

theorem task?_suspend (s : Session) (id : TaskId) (t : Stage) (k : TaskId) :
    (s.suspend id t).task? k = if k = id then (s.task? k).map fun _ => t else s.task? k :=
  Keyed.lookup_map_at s.tasks id (fun _ => t) k

theorem task?_suspend_self (h : s.task? id ≠ none) (t : Stage) :
    (s.suspend id t).task? id = some t := by
  rw [task?_suspend, if_pos rfl]
  cases ht : s.task? id with
  | none => exact absurd ht h
  | some _ => rfl

theorem ne_none_of_task? {t : Stage} (h : s.task? id = some t) : s.task? id ≠ none :=
  fun hn => absurd (h.symm.trans hn) nofun

theorem task?_dropTask (s : Session) (id k : TaskId) :
    (s.dropTask id).task? k = if k = id then none else s.task? k :=
  Keyed.lookup_filter_ne s.tasks id k

theorem task?_finish (s : Session) (id : TaskId) (outcome : Outcome) (k : TaskId) :
    (s.finish id outcome).task? k = if k = id then none else s.task? k :=
  task?_dropTask s id k

theorem task?_finish_self (s : Session) (id : TaskId) (outcome : Outcome) :
    (s.finish id outcome).task? id = none :=
  (task?_finish s id outcome id).trans (if_pos rfl)

theorem ne_of_gone {t : Stage} (h : s.task? id = none) : s.task? id ≠ some t := by
  rw [h]
  exact nofun

theorem dropTask_suspend (s : Session) (id : TaskId) (t : Stage) :
    (s.suspend id t).dropTask id = s.dropTask id := by
  have htasks : (s.tasks.map fun e => if e.1 = id then (e.1, t) else e).filter (fun e => e.1 != id)
      = s.tasks.filter fun e => e.1 != id := by
    induction s.tasks with
    | nil => rfl
    | cons e rest ih =>
      rw [List.map_cons]
      by_cases he : e.1 = id
      · rw [if_pos he, List.filter_cons_of_neg (by simp [he]), List.filter_cons_of_neg (by simp [he]),
          ih]
      · rw [if_neg he, List.filter_cons_of_pos (by simp [he]), List.filter_cons_of_pos (by simp [he]),
          ih]
  unfold Session.dropTask Session.suspend
  rw [← htasks]

theorem suspend_suspend (s : Session) (id : TaskId) (t t' : Stage) :
    (s.suspend id t).suspend id t' = s.suspend id t' := by
  have htasks : (s.tasks.map fun e => if e.1 = id then (e.1, t) else e).map
      (fun e => if e.1 = id then (e.1, t') else e)
      = s.tasks.map fun e => if e.1 = id then (e.1, t') else e := by
    rw [List.map_map]
    refine List.map_congr_left fun e _ => ?_
    dsimp only [Function.comp]
    split <;> rfl
  unfold Session.suspend
  rw [← htasks]

end

section

variable {s s' : Session} {id : TaskId} {line : LineId}

theorem recordAll (s : Session) (id : TaskId) (line : LineId) (writes : List (List UInt8)) :
    writes.foldl (fun s bytes => s.record (.sent id line bytes)) s
      = { s with log := s.log ++ writes.map (.sent id line) } := by
  induction writes generalizing s with
  | nil => simp
  | cons bytes rest ih =>
    rw [List.foldl_cons, ih]
    simp [record]

theorem followDeadline_eq (s : Session) (id : TaskId) (before after : Option Nat) :
    ∃ agenda : Agenda Worker, agenda.now = s.agenda.now
      ∧ s.followDeadline id before after = { s with agenda := agenda } := by
  unfold followDeadline
  split
  · exact ⟨s.agenda, rfl, rfl⟩
  · split
    · next due _ => exact ⟨(s.agenda.dropTimer (.task id)).setTimer due (.task id), rfl, rfl⟩
    · exact ⟨s.agenda.dropTimer (.task id), rfl, rfl⟩

theorem sends_proceedSend (s : Session) (id : TaskId) (line : LineId) :
    ∃ s' agenda, agenda.now = s.agenda.now ∧ Sends id line s s' (s.proceedSend id line).2
      ∧ (s.proceedSend id line).1 = { s' with agenda := agenda } := by
  unfold proceedSend
  split
  · next h => exact ⟨s, s.agenda, rfl, .stray h, rfl⟩
  · next l h =>
    dsimp only
    rw [recordAll]
    obtain ⟨agenda, hnow, heq⟩ := followDeadline_eq
      (s.passSend id line l (l.link.proceed id s.agenda.now).1) id (l.link.deadline? id)
      ((l.link.proceed id s.agenda.now).1.deadline? id)
    exact ⟨_, agenda, hnow, .goes h (l.link.proceeds id s.agenda.now), heq⟩

theorem Sends.suspend {result : Option (Except Fault Unit)} (h : Sends id line s s' result)
    (t : Stage) : Sends id line (s.suspend id t) (s'.suspend id t) result := by
  cases h with
  | stray h => exact .stray h
  | goes hl hp => exact .goes hl hp

theorem Sends.now {result : Option (Except Fault Unit)} (h : Sends id line s s' result) :
    s'.agenda = s.agenda := by
  cases h <;> rfl

theorem Sends.task? {result : Option (Except Fault Unit)} (h : Sends id line s s' result)
    (k : TaskId) : s'.task? k = s.task? k := by
  cases h <;> rfl

end

section

variable {s s' : Session} {act : Act} {id : TaskId}

theorem steps_quiet (h : Quiet s s') : Steps act s s' := .single (.ripple (.quiet h))

theorem steps_move (hact : act = .turn (.task id)) (h : Move id s s') : Steps act s s' :=
  .single (.move hact h)

theorem quiet_agenda (s : Session) {agenda : Agenda Worker} (h : s.agenda.now ≤ agenda.now) :
    Quiet s { s with agenda := agenda } :=
  ⟨rfl, rfl, rfl, rfl, rfl, fun _ => rfl, rfl, rfl, h⟩

theorem now_wakeAll (agenda : Agenda Worker) (workers : List Worker) :
    (agenda.wakeAll workers).now = agenda.now := by
  unfold Agenda.wakeAll
  induction workers generalizing agenda with
  | nil => rfl
  | cons w rest ih =>
    rw [List.foldl_cons, ih]
    unfold Agenda.wake
    split <;> rfl

theorem quiet_wakeRunnable (s : Session) : Quiet s s.wakeRunnable :=
  quiet_agenda s (Nat.le_of_eq (now_wakeAll s.agenda s.runnable).symm)

theorem quiet_suspend {t : Stage} (h : s.task? id = some t) {agenda : Agenda Worker}
    (hnow : s.agenda.now ≤ agenda.now) :
    Quiet s ({ s with agenda := agenda }.suspend id t) := by
  refine ⟨rfl, rfl, rfl, rfl, rfl, fun k => ?_, rfl, rfl, hnow⟩
  rw [task?_suspend]
  split
  · next hk =>
    subst hk
    exact (congrArg (Option.map fun _ => t) h).trans h.symm
  · rfl

theorem endExchange_suspend (s : Session) (id : TaskId) (t : Stage) (e : Exchange)
    (result : Except Fault Command) :
    (s.suspend id t).endExchange id e result = s.endExchange id e result :=
  congrArg (Session.record · (.finished id (e.purpose.outcome result)))
    (dropTask_suspend { s with
      blockingLock := s.blockingLock.leave id
      registry := s.registry.release e.listener } id t)

theorem listen_steps (hact : act = .turn (.task id)) (e : Exchange) (hid : s.task? id ≠ none) :
    Steps act (s.sendNext id e []) (s.listen id e) := by
  have ht : (s.sendNext id e []).task? id = some (.answering e (s.agenda.now + e.timeout)) :=
    task?_suspend_self hid _
  have hends : ∀ result, (s.sendNext id e []).endExchange id e result = s.endExchange id e result :=
    endExchange_suspend s id _ e
  unfold Session.listen
  split
  · next c hp => exact hends _ ▸ steps_move hact (.take ht (.answer hp))
  · next hp => exact hends _ ▸ steps_move hact (.take ht (.cancelled hp))
  · next hp =>
    split
    · next h0 =>
      refine hends _ ▸ steps_move hact (.take ht (.timeout hp ?_))
      rw [h0]
      exact Nat.le_refl _
    · exact steps_quiet ⟨rfl, rfl, rfl, rfl, rfl, fun _ => rfl, rfl, rfl, Nat.le_refl _⟩

theorem sendNext_suspend (s : Session) (id : TaskId) (t : Stage) (e : Exchange)
    (frames : List Frame) : (s.suspend id t).sendNext id e frames = s.sendNext id e frames := by
  cases frames with
  | nil => exact suspend_suspend s id t _
  | cons frame rest => exact suspend_suspend (s.enterSend id e.line frame) id t _

theorem quiet_sendNext (s : Session) (id : TaskId) (e : Exchange) (frames : List Frame)
    {agenda : Agenda Worker} (h : agenda.now = s.agenda.now) :
    Quiet (s.sendNext id e frames) ({ s with agenda := agenda }.sendNext id e frames) := by
  cases frames with
  | nil =>
    unfold sendNext
    rw [h]
    exact ⟨rfl, rfl, rfl, rfl, rfl, fun _ => rfl, rfl, rfl, Nat.le_of_eq h.symm⟩
  | cons frame rest => exact ⟨rfl, rfl, rfl, rfl, rfl, fun _ => rfl, rfl, rfl, Nat.le_of_eq h.symm⟩

inductive Passes (act : Act) (id : TaskId) (line : LineId) (s : Session) : Session → Prop where
  | stays {s' s₂ : Session} : Sends id line s s' none → Quiet s' s₂ → Passes act id line s s₂
  | leaves {s' s₁ s₂ : Session} {result : Except Fault Unit} : Sends id line s s' (some result) →
    Move id s s₁ → s₁.task? id ≠ s.task? id →
    s₁.lines = s'.lines ∨ (∃ frame, s₁.lines = (s'.enterSend id line frame).lines) →
    Steps act s₁ s₂ → Passes act id line s s₂

theorem Passes.steps {line : LineId} (h : Passes act id line s s') (hact : act = .turn (.task id))
    {t : Stage} (ht : s.task? id = some t) (hseat : t.seat? = some line) : Steps act s s' := by
  cases h with
  | stays hs hq => exact .trans (steps_move hact (.write ht hseat hs)) (steps_quiet hq)
  | leaves _ hm _ _ hsteps => exact .trans (steps_move hact hm) hsteps

theorem task?_sendNext_ne (h : s.task? id ≠ none) (e : Exchange) (frames : List Frame) :
    (s.sendNext id e frames).task? id ≠ some (.sending e frames) := by
  cases frames with
  | nil =>
    rw [show (s.sendNext id e []).task? id = _ from task?_suspend_self h _]
    exact nofun
  | cons frame rest =>
    have hentered : (s.enterSend id e.line frame).task? id ≠ none := h
    rw [show (s.sendNext id e (frame :: rest)).task? id = _ from task?_suspend_self hentered _]
    intro heq
    exact List.cons_ne_self frame rest (Stage.sending.inj (Option.some.inj heq)).2.symm

theorem lines_sendNext (s : Session) (id : TaskId) (e : Exchange) (frames : List Frame) :
    (s.sendNext id e frames).lines = s.lines
      ∨ ∃ frame, (s.sendNext id e frames).lines = (s.enterSend id e.line frame).lines := by
  cases frames with
  | nil => exact Or.inl rfl
  | cons frame rest => exact Or.inr ⟨frame, rfl⟩

theorem resumeSending_passes (e : Exchange) (unsent : List Frame) (hid : s.task? id ≠ none)
    (hbehind : ∀ s' : Session, s'.task? id ≠ none →
      Steps act (s'.sendNext id e unsent) (s'.sendAll id e unsent)) :
    Passes act id e.line (s.suspend id (.sending e unsent)) (s.resumeSending id e unsent) := by
  have ht : (s.suspend id (.sending e unsent)).task? id = some (.sending e unsent) :=
    task?_suspend_self hid _
  obtain ⟨s', agenda, hnow, hsends, heq⟩ := sends_proceedSend s id e.line
  have hgone := hsends.suspend (.sending e unsent)
  have hnow' : s'.agenda.now ≤ agenda.now :=
    Nat.le_of_eq ((congrArg Agenda.now hsends.now).trans hnow.symm)
  unfold resumeSending
  generalize s.proceedSend id e.line = sent at hsends hgone heq ⊢
  obtain ⟨s₂, result⟩ := sent
  dsimp only at hsends hgone heq
  subst heq
  rcases result with _ | cause | _
  · -- the fragment waits for the link or for its acknowledgement
    exact .stays hgone ⟨rfl, rfl, rfl, rfl, rfl, fun _ => rfl, rfl, rfl, hnow'⟩
  · refine .leaves hgone (.fail ht hgone) ?_ (Or.inl rfl) (steps_quiet ?_)
    · exact ht ▸ ne_of_gone (task?_finish_self _ id _)
    rw [endExchange_suspend]
    exact ⟨rfl, rfl, rfl, rfl, rfl, fun _ => rfl, rfl, rfl, hnow'⟩
  · -- it is over, and the next fragment goes the same way
    have hid' : s'.task? id ≠ none := fun hn => hid ((hsends.task? id).symm.trans hn)
    refine .leaves hgone (.next ht hgone) ?_ (lines_sendNext _ id e unsent) ?_
    · rw [ht, sendNext_suspend]
      exact task?_sendNext_ne hid' e unsent
    rw [sendNext_suspend]
    refine .trans (steps_quiet (quiet_sendNext s' id e unsent ?_)) (hbehind _ hid')
    exact hnow.trans (congrArg Agenda.now hsends.now).symm

theorem sendAll_steps (hact : act = .turn (.task id)) (e : Exchange) (frames : List Frame)
    (hid : s.task? id ≠ none) : Steps act (s.sendNext id e frames) (s.sendAll id e frames) := by
  induction frames generalizing s with
  | nil => exact listen_steps hact e hid
  | cons frame rest ih =>
    have hentered : (s.enterSend id e.line frame).task? id ≠ none := hid
    exact (resumeSending_passes e rest hentered fun s' hid' => ih hid').steps hact
      (task?_suspend_self hentered _) rfl

theorem resumeSending_steps (hact : act = .turn (.task id)) {e : Exchange} {unsent : List Frame}
    (ht : s.task? id = some (.sending e unsent)) : Steps act s (s.resumeSending id e unsent) := by
  have hid : s.task? id ≠ none := by
    rw [ht]
    exact nofun
  exact .trans (steps_quiet (quiet_suspend ht (Nat.le_refl _)))
    ((resumeSending_passes e unsent hid fun s' hid' => sendAll_steps hact e unsent hid').steps hact
      (task?_suspend_self hid _) rfl)

theorem resumeAnswering_steps (hact : act = .turn (.task id)) {e : Exchange} {deadline : Nat}
    (ht : s.task? id = some (.answering e deadline)) :
    Steps act s (s.resumeAnswering id e deadline) := by
  unfold resumeAnswering
  split
  · next c hp => exact steps_move hact (.take ht (.answer hp))
  · next hp => exact steps_move hact (.take ht (.cancelled hp))
  · next hp =>
    split
    · next hd => exact steps_move hact (.take ht (.timeout hp hd))
    · exact .refl

theorem resumeGated_steps (hact : act = .turn (.task id)) {e : Exchange} {frames : List Frame}
    (ht : s.task? id = some (.gated e frames)) : Steps act s (s.resumeGated id e frames) := by
  unfold resumeGated
  split
  · next hh =>
    refine .trans (steps_move hact (.pass ht hh)) (sendAll_steps hact e frames ?_)
    rw [ht]
    exact nofun
  · exact .refl

theorem startRequest_issue (hact : act = .turn (.task id)) {job : Job} {purpose : Purpose}
    {c pattern : Command} {line : LineId} {packet : Packet} (ht : s.task? id = some (.fresh job))
    (hasks : Asks job purpose c) (hp : s.prepare c = .ok (pattern, line, packet)) (timeout : Nat) :
    ∃ s', Move id s s' ∧ Steps act s' (s.startRequest id purpose c timeout)
      ∧ s'.registry = (s.registry.await [pattern]).1 ∧ s'.log = s.log
      ∧ ∃ t, s'.task? id = some t
        ∧ t.exchange? = some ⟨purpose, line, s.registry.nextId, timeout⟩
        ∧ (c.isBlocking = true → s'.blockingLock = s.blockingLock.join id) := by
  have hid : s.task? id ≠ none := by
    rw [ht]
    exact nofun
  let e : Exchange := ⟨purpose, line, s.registry.nextId, timeout⟩
  let frames := Fragment.split packet Frame.bodyLimit
  unfold startRequest
  rw [hp]
  dsimp only
  cases hb : c.isBlocking with
  | false =>
    let registered : Session := { s with registry := (s.registry.await [pattern]).1 }
    refine ⟨_, .issue timeout ht hasks hp hb, sendAll_steps hact _ _ hid, ?_, ?_, ?_⟩
    · cases Fragment.split packet Frame.bodyLimit <;> rfl
    · cases Fragment.split packet Frame.bodyLimit <;> rfl
    · cases hf : Fragment.split packet Frame.bodyLimit with
      | nil => exact ⟨_, task?_suspend_self (s := registered) hid _, rfl, nofun⟩
      | cons frame rest =>
        have hentered : (registered.enterSend id line frame).task? id ≠ none := hid
        exact ⟨_, task?_suspend_self hentered _, rfl, nofun⟩
  | true =>
    let joined : Session := { s with
      registry := (s.registry.await [pattern]).1
      blockingLock := s.blockingLock.join id }
    have hgated : (joined.suspend id (.gated e frames)).task? id = some (.gated e frames) :=
      task?_suspend_self hid _
    refine ⟨_, .gate timeout ht hasks hp hb, ?_, rfl, rfl, _, hgated, rfl, fun _ => rfl⟩
    rw [Bool.not_true, if_neg Bool.false_ne_true]
    split
    · next hh =>
      -- the lock was free, so that the request goes on at once
      refine .trans (steps_move hact (.pass hgated hh)) ?_
      rw [sendNext_suspend]
      exact sendAll_steps hact _ _ hid
    · exact .refl

theorem startRequest_steps (hact : act = .turn (.task id)) {job : Job} {purpose : Purpose}
    {c : Command} (ht : s.task? id = some (.fresh job)) (hasks : Asks job purpose c)
    (timeout : Nat) : Steps act s (s.startRequest id purpose c timeout) := by
  cases hp : s.prepare c with
  | error cause =>
    rw [startRequest, hp]
    refine steps_move hact (.leave ht ⟨rfl, rfl⟩ (fun c' t' heq => ⟨cause, ?_, rfl⟩) ?_)
    · cases hasks with
      | request =>
        obtain ⟨rfl, -⟩ := Job.request.inj (Stage.fresh.inj heq)
        exact hp
      | version => exact absurd heq nofun
    · cases hasks <;> rfl
  | ok prepared =>
    obtain ⟨s', hmove, hsteps, -⟩ := startRequest_issue hact ht hasks hp timeout
    exact .trans (steps_move hact hmove) hsteps

theorem startVersion_steps (hact : act = .turn (.task id))
    (ht : s.task? id = some (.fresh .version)) : Steps act s (s.startVersion id) := by
  have hnumbered : Quiet s s.takeTsn.1 :=
    ⟨rfl, rfl, rfl, rfl, rfl, fun _ => rfl, rfl, rfl, Nat.le_refl _⟩
  have ht' : s.takeTsn.1.task? id = some (.fresh .version) := ht
  unfold startVersion
  dsimp only
  refine .trans (steps_quiet hnumbered) ?_
  split
  · exact steps_move hact (.leave ht' ⟨rfl, rfl⟩ (fun _ _ heq => absurd heq nofun) rfl)
  · next c _ => exact startRequest_steps hact ht' (.version c) _

theorem resumeWaiting_steps (hact : act = .turn (.task id)) {t : Stage} {listener : ListenerId}
    (ht : s.task? id = some t) (hplain : t.Plain) (hw : t.waits? = some listener) :
    Steps act s (s.resumeWaiting id listener) := by
  unfold resumeWaiting
  split
  · next c hp => exact steps_move hact (.receive ht hw (.answer hp))
  · next hp => exact steps_move hact (.receive ht hw (.cancelled hp))
  · next hp =>
    refine steps_move hact (.rest ht hplain ?_ ⟨rfl, rfl⟩ rfl hw.symm fun k hk => ?_)
    · rintro c timeout rfl
      exact absurd hw nofun
    · exact Option.some.inj (hw.symm.trans hk) ▸ hp

def Stage.isIdle (t : Stage) : Prop :=
  t.Plain ∧ t.isFresh = false ∧ t.waits? = none

theorem endReset_steps (hact : act = .turn (.task id)) {t : Stage} (ht : s.task? id = some t)
    (hplain : t.Plain) (hjob : ∀ c timeout, t ≠ .fresh (.request c timeout))
    (hwaits : t.waits? = none) (outcome : Outcome) : Steps act s (s.endReset id outcome) := by
  have hleft : Quiet s { s with resetLock := s.resetLock.leave id } :=
    ⟨rfl, rfl, rfl, rfl, rfl, fun _ => rfl, rfl, rfl, Nat.le_refl _⟩
  exact .trans (steps_quiet hleft)
    (steps_move hact (.leave (t := t) ht hplain
      (fun c timeout heq => absurd heq (hjob c timeout)) hwaits))

theorem resumeResetSending_passes (hid : s.task? id ≠ none) (line : LineId) (wait lossSeen : Bool) :
    Passes act id line (s.suspend id (.resetSending line wait lossSeen))
      (s.resumeResetSending id line wait lossSeen) := by
  have ht : (s.suspend id (.resetSending line wait lossSeen)).task? id
      = some (.resetSending line wait lossSeen) := task?_suspend_self hid _
  obtain ⟨s', agenda, hnow, hsends, heq⟩ := sends_proceedSend s id line
  have hgone := hsends.suspend (.resetSending line wait lossSeen)
  have hnow' : s'.agenda.now ≤ agenda.now :=
    Nat.le_of_eq ((congrArg Agenda.now hsends.now).trans hnow.symm)
  unfold resumeResetSending
  generalize s.proceedSend id line = sent at hsends hgone heq ⊢
  obtain ⟨s₂, result⟩ := sent
  dsimp only at hsends hgone heq
  subst heq
  have hends : ∀ (outcome : Outcome) r, result = some r →
      Passes act id line (s.suspend id (.resetSending line wait lossSeen))
        (endReset { s' with agenda := agenda } id outcome) := by
    rintro outcome r rfl
    have hmove : Move id _ _ := .endReset (o := outcome) ht hgone
    refine .leaves hgone hmove ?_ (Or.inl rfl) (steps_quiet ?_)
    · exact ht ▸ ne_of_gone (task?_finish_self _ id _)
    unfold Session.finish Session.endReset
    rw [dropTask_suspend]
    exact ⟨rfl, rfl, rfl, rfl, rfl, fun _ => rfl, rfl, rfl, hnow'⟩
  have hpass : ∀ r, result = some r → ∀ t : Stage, t.isIdle → ∀ s₂, Quiet (s'.suspend id t) s₂ →
      Passes act id line (s.suspend id (.resetSending line wait lossSeen)) s₂ := by
    rintro r rfl t ⟨hplain, hold, hw⟩ s₂ hq
    refine .leaves hgone (.passReset ht hgone hplain hold hw) ?_ (Or.inl rfl) (steps_quiet ?_)
    · rw [task?_suspend_self (ne_none_of_task? ((hgone.task? id).trans ht)), ht]
      rintro heq
      exact absurd hplain.2 (Option.some.inj heq ▸ nofun)
    rw [suspend_suspend]
    exact hq
  -- the send goes on, fails, or is over; then the reset waits, or knows of the loss already
  rcases result with _ | cause | _
  · exact .stays hgone ⟨rfl, rfl, rfl, rfl, rfl, fun _ => rfl, rfl, rfl, hnow'⟩
  · exact hends _ _ rfl
  · dsimp only
    unfold resetSent
    split
    · exact hends _ _ rfl
    · split
      · exact hpass _ rfl (.reconnecting 1 _) ⟨⟨rfl, rfl⟩, rfl, rfl⟩ _
          ⟨rfl, rfl, rfl, rfl, rfl, fun _ => rfl, rfl, rfl, hnow'⟩
      · exact hpass _ rfl (.resetWaiting _ false) ⟨⟨rfl, rfl⟩, rfl, rfl⟩ _
          ⟨rfl, rfl, rfl, rfl, rfl, fun _ => rfl, rfl, rfl, hnow'⟩

theorem resumeResetSending_steps (hact : act = .turn (.task id)) (hid : s.task? id ≠ none)
    (line : LineId) (wait lossSeen : Bool) :
    Steps act (s.suspend id (.resetSending line wait lossSeen))
      (s.resumeResetSending id line wait lossSeen) :=
  (resumeResetSending_passes hid line wait lossSeen).steps hact (task?_suspend_self hid _) rfl

theorem sendReset_steps (hact : act = .turn (.task id)) {t : Stage} {request : Frame} {wait : Bool}
    (ht : s.task? id = some t)
    (hreset : (∃ option, t = .fresh (.reset option wait)) ∨ t = .resetGated request wait) :
    Steps act s (s.sendReset id request wait) := by
  unfold sendReset
  split
  · refine endReset_steps hact ht ?_ ?_ ?_ _
    · rcases hreset with ⟨_, rfl⟩ | rfl <;> exact ⟨rfl, rfl⟩
    · rcases hreset with ⟨_, rfl⟩ | rfl <;> exact nofun
    · rcases hreset with ⟨_, rfl⟩ | rfl <;> rfl
  · next line hc =>
    have hentered : (s.enterSend id line request).task? id ≠ none := by
      rw [show (s.enterSend id line request).task? id = some t from ht]
      exact nofun
    exact .trans (steps_move hact (.enterReset wait ht hreset hc))
      (resumeResetSending_steps hact hentered line wait false)

theorem startReset_steps (hact : act = .turn (.task id)) {option : Standard.ResetOption}
    {wait : Bool} (ht : s.task? id = some (.fresh (.reset option wait))) :
    Steps act s (s.startReset id option wait) := by
  unfold startReset
  dsimp only
  split
  · have hnumbered : Quiet s s.takeTsn.1 :=
      ⟨rfl, rfl, rfl, rfl, rfl, fun _ => rfl, rfl, rfl, Nat.le_refl _⟩
    have ht' : s.takeTsn.1.task? id = some (.fresh (.reset option wait)) := ht
    exact .trans (steps_quiet hnumbered) (steps_move hact
      (.leave ht' ⟨rfl, rfl⟩ (fun _ _ heq => absurd heq nofun) rfl))
  · next request _ =>
    let joined : Session := { s.takeTsn.1 with resetLock := s.takeTsn.1.resetLock.join id }
    have hjoined : Quiet s joined :=
      ⟨rfl, rfl, rfl, rfl, rfl, fun _ => rfl, rfl, rfl, Nat.le_refl _⟩
    refine .trans (steps_quiet hjoined) ?_
    split
    · exact sendReset_steps (s := joined) hact ht (Or.inl ⟨option, rfl⟩)
    · exact steps_move hact (.rest (s := joined) ht ⟨rfl, rfl⟩ nofun ⟨rfl, rfl⟩ rfl rfl nofun)

theorem rest_steps (hact : act = .turn (.task id)) {t t' : Stage} (ht : s.task? id = some t)
    (hidle : t.isIdle) (hidle' : t'.isIdle) (hq : Quiet (s.suspend id t') s') : Steps act s s' := by
  have hmoved : Move id s (s.suspend id t') :=
    .rest ht hidle.1 (fun c timeout heq => absurd hidle.2.1 (heq ▸ nofun)) hidle'.1 hidle'.2.1
      (hidle'.2.2.trans hidle.2.2.symm) fun k hk => absurd (hidle.2.2.symm.trans hk) nofun
  exact .trans (steps_move hact hmoved) (steps_quiet hq)

theorem resumeResetWaiting_steps (hact : act = .turn (.task id)) {deadline : Nat} {lossSeen : Bool}
    (ht : s.task? id = some (.resetWaiting deadline lossSeen)) :
    Steps act s (s.resumeResetWaiting id deadline lossSeen) := by
  unfold resumeResetWaiting
  split
  · have hidle : (Stage.reconnecting 1 (s.agenda.now + reconnectDelay)).isIdle :=
      ⟨⟨rfl, rfl⟩, rfl, rfl⟩
    exact rest_steps hact ht ⟨⟨rfl, rfl⟩, rfl, rfl⟩ hidle
      ⟨rfl, rfl, rfl, rfl, rfl, fun _ => rfl, rfl, rfl, Nat.le_refl _⟩
  · split
    · exact endReset_steps hact ht ⟨rfl, rfl⟩ nofun rfl _
    · exact .refl

end

section

variable {s s' : Session} {act : Act} {id : LineId}

theorem steps_switch (hmay : MaySwitch act s) (h : Switch s s') : Steps act s s' :=
  .single (.switch hmay h)

theorem MaySwitch.congr (h : MaySwitch act s) (ht : ∀ id, s'.task? id = s.task? id) :
    MaySwitch act s' := by
  intro id hact
  rw [ht]
  exact h id hact

theorem tasks_closeCurrent (s : Session) : s.closeCurrent.tasks = s.tasks := by
  unfold closeCurrent
  split <;> rfl

theorem closeCurrent_steps (hmay : MaySwitch act s) :
    Steps act s s.closeCurrent ∧ s.closeCurrent.Shut := by
  unfold closeCurrent Shut
  cases hc : s.current with
  | none => exact ⟨.refl, fun id l h => absurd (hc.symm.trans h) nofun⟩
  | some id =>
    dsimp only
    have hclosed : ∀ l, (s.modifyLine id Line.close).line? id = some l → l.link.closed = true := by
      intro l hl
      rw [line?_modifyLine] at hl
      obtain ⟨l', -, rfl⟩ := Option.map_eq_some_iff.mp hl
      rfl
    refine ⟨?_, fun k l hk hl => ?_⟩
    · let shut := fun l : Line => { l with link := l.link.close }.stopReading
      have hsplit : s.modifyLine id Line.close
          = (s.modifyLine id shut).modifyLine id Line.stopWriting :=
        (modifyLine_modifyLine s id shut Line.stopWriting).symm
      rw [hsplit]
      refine .trans (steps_switch hmay (.shut fun _ _ => rfl)) (steps_switch ?_ (.stopWriting ?_))
      · exact hmay.congr fun _ => rfl
      · intro l hl
        rw [line?_modifyLine] at hl
        obtain ⟨l', -, rfl⟩ := Option.map_eq_some_iff.mp hl
        exact Or.inl rfl
    · obtain rfl : id = k := Option.some.inj (hc.symm.trans hk)
      exact hclosed l hl

theorem attach_steps (hmay : MaySwitch act s) : Steps act s s.attach.1 := by
  obtain ⟨hsteps, hshut⟩ := closeCurrent_steps hmay
  have hmay' : MaySwitch act s.closeCurrent := by
    refine hmay.congr fun k => ?_
    rw [task?, tasks_closeCurrent, task?]
  refine .trans hsteps (.trans (steps_switch hmay' (.addLine s.config.ackTimeout.toNat hshut)) ?_)
  refine steps_quiet ?_
  unfold attach closeCurrent
  split <;> exact ⟨rfl, rfl, rfl, rfl, rfl, fun _ => rfl, rfl, rfl, Nat.le_refl _⟩

theorem disconnect_steps (hmay : MaySwitch act s) : Steps act s s.disconnect := by
  obtain ⟨hsteps, hshut⟩ := closeCurrent_steps hmay
  have hmay' : MaySwitch act s.closeCurrent := by
    refine hmay.congr fun k => ?_
    rw [task?, tasks_closeCurrent, task?]
  have hmay'' : MaySwitch act { s.closeCurrent with current := none } := hmay'
  refine .trans hsteps (.trans (steps_switch hmay' (.unuse hshut)) ?_)
  unfold disconnect
  split
  · exact steps_quiet ⟨rfl, rfl, rfl, rfl, rfl, fun _ => rfl, rfl, rfl, Nat.le_refl _⟩
  · refine .trans (steps_switch hmay'' (.clear rfl)) (steps_quiet ?_)
    unfold closeCurrent
    dsimp only
    split <;> exact ⟨rfl, rfl, rfl, rfl, rfl, fun _ => rfl, rfl, rfl, Nat.le_refl _⟩

theorem connect_steps (hmay : MaySwitch act s) : Steps act s s.connect.1 := by
  unfold connect
  split
  · exact .refl
  · split
    · exact attach_steps hmay
    · refine .trans (disconnect_steps hmay) (steps_quiet ?_)
      exact ⟨rfl, rfl, rfl, rfl, rfl, fun _ => rfl, rfl, rfl, Nat.le_refl _⟩

theorem task?_noticeLoss (s : Session) (id : TaskId) :
    ({ s with tasks := s.tasks.map fun (e : TaskId × Stage) => (e.1, e.2.noticeLoss) } :
      Session).task? id = (s.task? id).map Stage.noticeLoss :=
  Keyed.lookup_map s.tasks (fun _ => Stage.noticeLoss) id

theorem leaveLine_steps (hmay : MaySwitch act s)
    (hclosed : ∀ l, s.line? id = some l → l.link.closed = true) (cause : Option Fault) :
    Steps act s (s.leaveLine id cause) := by
  unfold leaveLine
  split
  · exact .refl
  · next hc =>
    have hcurrent : s.current = some id := not_not.mp hc
    have hshut : s.Shut := fun k l hk hl => by
      obtain rfl : id = k := Option.some.inj (hcurrent.symm.trans hk)
      exact hclosed l hl
    have hmay' : MaySwitch act { s with current := none } := hmay
    refine .trans (steps_switch hmay (.unuse hshut)) ?_
    refine .trans (steps_switch hmay' .noticeLoss) ?_
    dsimp only
    split
    · refine .trans (steps_quiet ?_) (.single (.ripple (.note rfl)))
      exact ⟨rfl, rfl, rfl, rfl, rfl, fun _ => rfl, rfl, rfl, Nat.le_refl _⟩
    · exact steps_quiet ⟨rfl, rfl, rfl, rfl, rfl, fun _ => rfl, rfl, rfl, Nat.le_refl _⟩

theorem lines_leaveLine (s : Session) (id : LineId) (cause : Option Fault) :
    (s.leaveLine id cause).lines = s.lines := by
  unfold leaveLine
  split
  · rfl
  · dsimp only
    split <;> rfl

theorem loseLine_steps (hmay : MaySwitch act s) (id : LineId) (cause : Option Fault) :
    Steps act s (s.loseLine id cause)
      ∧ ∀ l, (s.loseLine id cause).line? id = some l → l.link.closed = true := by
  unfold loseLine
  split
  · next hl => exact ⟨.refl, fun l h => absurd (hl.symm.trans h) nofun⟩
  · next l hl =>
    let shut := s.modifyLine id fun l => { l with link := l.link.close }
    have hclosed : ∀ l, shut.line? id = some l → l.link.closed = true := by
      intro l hl
      rw [line?_modifyLine] at hl
      obtain ⟨l', -, rfl⟩ := Option.map_eq_some_iff.mp hl
      rfl
    have hmay' : MaySwitch act shut := hmay
    have hsteps : Steps act s shut := steps_switch hmay (.shut fun _ _ => rfl)
    dsimp only
    split
    · refine ⟨.trans hsteps (leaveLine_steps hmay' hclosed cause), fun l hl => hclosed l ?_⟩
      rw [← hl, line?_congr (lines_leaveLine shut id cause)]
    · exact ⟨hsteps, hclosed⟩

theorem steps_upkeep {f : Line → Line} (hf : ∀ l, s.line? id = some l → Tended l.link (f l).link) :
    Steps act s (s.modifyLine id f) :=
  .single (.ripple (.upkeep hf))

theorem steps_aside (f : Line → Line) (hf : ∀ l, (f l).link = l.link) :
    Steps act s (s.modifyLine id f) := by
  refine steps_upkeep fun l _ => ?_
  rw [hf l]
  exact .same rfl rfl rfl rfl rfl rfl

theorem invokeAll_steps (s : Session) (c : Command) (callbacks : List (Callback Deed)) :
    Steps act s (s.invokeAll c callbacks).1 := by
  induction callbacks generalizing s with
  | nil => exact .refl
  | cons callback rest ih =>
    have hone : Steps act s (s.invoke callback c).1 := by
      cases callback with
      | inline deed =>
        obtain ⟨warnings, heq⟩ := s.invoke_inline deed c
        rw [heq]
        refine .trans (.single (.ripple (.note (e := .callback deed.name c.render) rfl))) ?_
        exact steps_quiet ⟨rfl, rfl, rfl, rfl, rfl, fun _ => rfl, rfl, rfl, Nat.le_refl _⟩
      | spawned deed =>
        unfold invoke
        dsimp only
        split
        · exact .single (.ripple (.note rfl))
        · exact .single (.ripple (.spawn deed c.render))
    rw [invokeAll]
    split
    · next s' h => rwa [h] at hone
    · next s' h =>
      rw [h] at hone
      exact .trans hone (ih s')

theorem receiveFrame_steps {line : LineId} (hact : act = .turn (.reader line)) (frame : Frame) :
    Steps act s (s.receiveFrame frame).1 := by
  unfold receiveFrame
  dsimp only
  let collected : Session := { s with fragments := (collect s.fragments frame).1 }
  have hcollected : Steps act s collected :=
    steps_quiet ⟨rfl, rfl, rfl, rfl, rfl, fun _ => rfl, rfl, rfl, Nat.le_refl _⟩
  split
  · next c _ =>
    exact .trans hcollected (.trans (.single (.offer line c hact)) (invokeAll_steps _ c _))
  · exact hcollected

theorem acceptFrames_steps (hact : act = .turn (.reader id)) (frames : List Frame) :
    Steps act s (s.acceptFrames id frames) := by
  induction frames generalizing s with
  | nil => exact .refl
  | cons frame rest ih =>
    cases hl : s.line? id with
    | none =>
      rw [acceptFrames, hl]
    | some l =>
      have hheard : Steps act s
          (s.modifyLine id fun l' => { l' with link := (l.link.accept frame).1 }) := by
        refine steps_upkeep fun l' hl' => ?_
        obtain rfl : l = l' := Option.some.inj (hl.symm.trans hl')
        exact .heard frame
      have haccepted : Steps act s (s.acceptFrame id l frame).1 := by
        unfold acceptFrame
        dsimp only
        split
        · exact .trans hheard (receiveFrame_steps hact _)
        · exact hheard
      have hwoken : Steps act s (s.acceptFrame id l frame).1.wakeRunnable :=
        .trans haccepted (steps_quiet (quiet_wakeRunnable _))
      rw [acceptFrames_cons hl]
      split
      · exact .trans hwoken (steps_aside Line.stopReading fun _ => rfl)
      · exact .trans hwoken ih

theorem receiveBytes_steps (hact : act = .turn (.reader id)) (bytes : List UInt8) :
    Steps act s (s.receiveBytes id bytes) := by
  unfold receiveBytes
  split
  · exact .refl
  · next l hl =>
    refine .trans (steps_upkeep fun l' hl' => ?_) (acceptFrames_steps hact _)
    obtain rfl : l = l' := Option.some.inj (hl.symm.trans hl')
    exact .same rfl rfl rfl rfl rfl rfl

theorem turnReader_steps (hact : act = .turn (.reader id)) : Steps act s (s.turnReader id) := by
  have hmay : MaySwitch act s := fun k h => absurd (hact.symm.trans h) nofun
  have hlost : ∀ cause, Steps act s ((s.loseLine id cause).modifyLine id Line.stopReading) :=
    fun cause => .trans (loseLine_steps hmay id cause).1 (steps_aside Line.stopReading fun _ => rfl)
  unfold turnReader
  split
  · exact .refl
  · next l hl =>
    split
    · exact .refl
    · split
      · exact steps_aside Line.stopReading fun _ => rfl
      · split
        · exact hlost _
        · split
          · have hread : Steps act s (s.modifyLine id fun l => { l with inbound := [] }) :=
              steps_aside _ fun _ => rfl
            exact .trans hread (receiveBytes_steps hact _)
          · exact hlost _

theorem turnWriter_steps (hact : act = .turn (.writer id)) : Steps act s (s.turnWriter id) := by
  have hmay : ∀ s', MaySwitch act s' := fun s' k h => absurd (hact.symm.trans h) nofun
  unfold turnWriter
  split
  · exact .refl
  · next l hl =>
    split
    · exact .refl
    · split
      · dsimp only
        split
        · obtain ⟨hsteps, hclosed⟩ := loseLine_steps (hmay s) id (some (.io "write fault"))
          exact .trans hsteps (steps_switch (hmay _) (.stopWriting fun l hl => Or.inl (hclosed l hl)))
        · next hh =>
          refine steps_switch (hmay s) (.stopWriting fun _ _ => Or.inr ?_)
          simpa using hh
      · have hflushed : Steps act s (s.modifyLine id Line.flush) :=
          steps_upkeep fun _ _ => .same rfl rfl rfl rfl rfl rfl
        dsimp only
        split
        · exact hflushed
        · next hh =>
          refine .trans hflushed (steps_switch (hmay _) (.stopWriting fun _ _ => Or.inr ?_))
          simpa using hh

end

section

variable {s : Session} {act : Act} {id : TaskId}

theorem tasks_disconnect (s : Session) : s.disconnect.tasks = s.tasks := by
  unfold disconnect
  dsimp only
  split
  · exact tasks_closeCurrent s
  · exact tasks_closeCurrent _

theorem tasks_connect (s : Session) : s.connect.1.tasks = s.tasks := by
  unfold connect
  split
  · rfl
  · split
    · exact tasks_closeCurrent s
    · exact tasks_disconnect s

theorem resumeReconnecting_steps (hact : act = .turn (.task id)) {attempt due : Nat}
    (ht : s.task? id = some (.reconnecting attempt due)) :
    Steps act s (s.resumeReconnecting id attempt due) := by
  have hmay : MaySwitch act s := by
    intro k h
    obtain rfl : k = id := by simpa using h.symm.trans hact
    exact ⟨attempt, due, ht⟩
  unfold resumeReconnecting
  split
  · exact .refl
  · have hconnected := connect_steps hmay
    have ht' : s.connect.1.task? id = some (.reconnecting attempt due) := by
      rw [Session.task?, tasks_connect]
      exact ht
    generalize s.connect = connected at hconnected ht' ⊢
    obtain ⟨s', result⟩ := connected
    dsimp only at hconnected ht'
    have hends : ∀ outcome, Steps act s (s'.endReset id outcome) := fun outcome =>
      .trans hconnected (endReset_steps hact ht' ⟨rfl, rfl⟩ nofun rfl outcome)
    rcases result with cause | _
    · dsimp only
      split
      · exact hends _
      · have hidle : (Stage.reconnecting (attempt + 1) (s'.agenda.now + reconnectDelay)).isIdle :=
          ⟨⟨rfl, rfl⟩, rfl, rfl⟩
        exact .trans hconnected (rest_steps hact ht' ⟨⟨rfl, rfl⟩, rfl, rfl⟩ hidle
          ⟨rfl, rfl, rfl, rfl, rfl, fun _ => rfl, rfl, rfl, Nat.le_refl _⟩)
    · exact hends _

theorem endCallback_steps (hact : act = .turn (.task id)) {deed : Deed} {command : String}
    (hm : Move id s ((s.dropTask id).record (.callback deed.name command))) :
    Steps act s (s.endCallback id deed command) := by
  obtain ⟨warnings, heq⟩ := s.endCallback_eq id deed command
  rw [heq]
  exact .trans (steps_move hact hm)
    (steps_quiet ⟨rfl, rfl, rfl, rfl, rfl, fun _ => rfl, rfl, rfl, Nat.le_refl _⟩)

theorem startJob_steps (hact : act = .turn (.task id)) {job : Job}
    (ht : s.task? id = some (.fresh job)) : Steps act s (s.startJob id job) := by
  cases job with
  | request c timeout => exact startRequest_steps hact ht (.request c timeout) timeout
  | version => exact startVersion_steps hact ht
  | reset option wait => exact startReset_steps hact ht
  | wait listener => exact resumeWaiting_steps hact ht ⟨rfl, rfl⟩ rfl
  | callback deed command =>
    unfold startJob
    dsimp only
    split
    · exact endCallback_steps hact (.call ht ⟨rfl, rfl⟩ nofun rfl)
    · have hmove : Move id s (s.suspend id (.dozing deed command (s.agenda.now + deed.delay))) :=
        .rest ht ⟨rfl, rfl⟩ nofun ⟨rfl, rfl⟩ rfl rfl nofun
      exact .trans (steps_move hact hmove)
        (steps_quiet ⟨rfl, rfl, rfl, rfl, rfl, fun _ => rfl, rfl, rfl, Nat.le_refl _⟩)

theorem turnTask_steps (hact : act = .turn (.task id)) : Steps act s (s.turnTask id) := by
  unfold turnTask
  split
  · exact .refl
  · next job ht => exact startJob_steps hact ht
  · next e frames ht => exact resumeGated_steps hact ht
  · next e unsent ht => exact resumeSending_steps hact ht
  · next e deadline ht => exact resumeAnswering_steps hact ht
  · next request wait ht =>
    unfold resumeResetGated
    split
    · exact sendReset_steps hact ht (Or.inr rfl)
    · exact .refl
  · next line wait lossSeen ht =>
    have hid : s.task? id ≠ none := by
      rw [ht]
      exact nofun
    exact .trans (steps_quiet (quiet_suspend ht (Nat.le_refl _)))
      (resumeResetSending_steps hact hid line wait lossSeen)
  · next deadline lossSeen ht => exact resumeResetWaiting_steps hact ht
  · next attempt due ht => exact resumeReconnecting_steps hact ht
  · next listener ht => exact resumeWaiting_steps hact ht ⟨rfl, rfl⟩ rfl
  · next deed command due ht =>
    split
    · exact endCallback_steps hact (.call ht ⟨rfl, rfl⟩ nofun rfl)
    · exact .refl

/-- Every act is a few small steps. -/
theorem perform_steps (s : Session) (act : Act) : Steps act s (s.perform act).1 := by
  -- what comes from outside may switch lines; the turn of a task only sometimes
  have hmay : (∀ id, act ≠ .turn (.task id)) → MaySwitch act s := fun h id hact => absurd hact (h id)
  cases act with
  | attach => exact attach_steps (hmay nofun)
  | connect =>
    have hsteps := connect_steps (hmay nofun)
    unfold perform
    dsimp only
    split
    · next h => rwa [h] at hsteps
    · next h => rwa [h] at hsteps
  | disconnect => exact disconnect_steps (hmay nofun)
  | setHook name => exact steps_quiet ⟨rfl, rfl, rfl, rfl, rfl, fun _ => rfl, rfl, rfl, Nat.le_refl _⟩
  | takeTsn => exact steps_quiet ⟨rfl, rfl, rfl, rfl, rfl, fun _ => rfl, rfl, rfl, Nat.le_refl _⟩
  | start job => exact .single (.start job rfl)
  | abort id => exact .single (.abort id rfl)
  | await patterns =>
    have hreply : (s.perform (.await patterns)).1 = (s.replyListener (s.await patterns)).1 := rfl
    rw [hreply, Session.await]
    split
    · exact .refl
    · exact .single (.await patterns rfl)
  | subscribe patterns callback =>
    have hreply : (s.perform (.subscribe patterns callback)).1 = (s.replyListener (s.subscribe patterns callback)).1 := rfl
    rw [hreply, Session.subscribe]
    split
    · exact .refl
    · exact .single (.subscribe patterns callback rfl)
  | remove listener => exact .single (.remove listener rfl)
  | cancel listener => exact .single (.cancel listener rfl)
  | release listener => exact .single (.release listener rfl)
  | arrive line bytes =>
    refine steps_aside (fun l => if l.isOpen then { l with inbound := l.inbound ++ bytes } else l) ?_
    intro l
    split <;> rfl
  | hangUp line => exact steps_aside (fun l => { l with hungUp := true }) fun _ => rfl
  | breakReading line => exact steps_aside (fun l => { l with readFault := true }) fun _ => rfl
  | breakWriting line => exact steps_aside (fun l => { l with writeFault := true }) fun _ => rfl
  | elapse time =>
    refine steps_quiet (quiet_agenda s ?_)
    refine Nat.le_trans (Nat.le_max_left s.agenda.now time) (Nat.le_of_eq (Eq.symm ?_))
    exact now_wakeAll _ _
  | queue ready => exact steps_quiet (quiet_agenda s (Nat.le_refl _))
  | turn worker =>
    cases worker with
    | reader line => exact turnReader_steps rfl
    | writer line => exact turnWriter_steps rfl
    | task id => exact turnTask_steps rfl

end

end NcpHost.Session
