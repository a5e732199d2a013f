import NcpHost.Proofs.Session.Gate

/-! How a request ends. Whatever it ends with, and whenever it is given up, its listener goes with it,
nobody finds it in any line, and no other listener is touched. A request that is refused only says
so. -/

namespace NcpHost

namespace Registry

variable {κ : Type} {r : Registry κ}

structure Free (r : Registry κ) (id : ListenerId) : Prop where
  listener : r.listener? id = none
  slot : r.slot? id = none

theorem Sound.free_of_new (hr : r.Sound) {id : ListenerId} (h : r.nextId ≤ id) : r.Free id := by
  have hnew : ¬id < r.nextId := Nat.not_lt.mpr h
  exact ⟨not_not.mp fun hn => hnew (hr.known id hn), not_not.mp fun hn => hnew (hr.held id hn)⟩

theorem Sound.free_release (hr : r.Sound) (id : ListenerId) : (r.release id).Free id :=
  ⟨((hr.unregister_eq id).1 id).trans (if_pos rfl), (slot?_forget _ id id).trans (if_pos rfl)⟩

theorem Free.same {r' : Registry κ} {id : ListenerId} (h : r.Free id) (h' : r'.Free id) :
    Same id r r' :=
  ⟨h'.listener.trans h.listener.symm, h'.slot.trans h.slot.symm⟩

end Registry

namespace Session

def Stage.requests : Stage → Bool
  | fresh (.request _ _) | fresh .version | gated _ _ | sending _ _ | answering _ _ => true
  | _ => false

def Owns (s : Session) (id : TaskId) (listener : ListenerId) : Prop :=
  ∃ e, s.exchange? id = some e ∧ e.listener = listener

inductive Pursued (id : TaskId) (e : Exchange) (s s' : Session) : Prop where
  | waits : s'.exchange? id = some e → s'.registry = s.registry → Pursued id e s s'
  | ended : s'.task? id = none → s'.registry = s.registry.release e.listener → Pursued id e s s'

section

variable {s s' : Session} {id : TaskId} {e : Exchange} {t : Stage}

theorem Pursued.of_eq {s₀ : Session} (h : Pursued id e s₀ s') (hr : s₀.registry = s.registry) :
    Pursued id e s s' := by
  cases h with
  | waits he hr' => exact .waits he (hr'.trans hr)
  | ended hgone hr' => exact .ended hgone (hr ▸ hr')

theorem pursued_endExchange (s : Session) (id : TaskId) (e : Exchange)
    (result : Except Fault Command) : Pursued id e s (s.endExchange id e result) :=
  .ended (task?_finish_self _ id _) rfl

theorem pursued_suspend (h : s.task? id ≠ none) {t : Stage} (ht : t.exchange? = some e) :
    Pursued id e s (s.suspend id t) :=
  .waits ((exchange?_suspend_self h t).trans ht) rfl

theorem pursued_listen (h : s.task? id ≠ none) (e : Exchange) : Pursued id e s (s.listen id e) := by
  unfold listen
  split
  · exact pursued_endExchange s id e _
  · exact pursued_endExchange s id e _
  · split
    · exact pursued_endExchange s id e _
    · exact .waits (exchange?_suspend_self h _) rfl

theorem proceedSend_frame (s : Session) (id : TaskId) (line : LineId) :
    (s.proceedSend id line).1.registry = s.registry
      ∧ (s.proceedSend id line).1.task? id = s.task? id := by
  obtain ⟨s', agenda, -, hs, heq⟩ := s.sends_proceedSend id line
  rw [heq]
  exact ⟨hs.writes.registry, hs.task? id⟩

theorem pursued_sendAll (h : s.task? id ≠ none) (e : Exchange) (frames : List Frame) :
    Pursued id e s (s.sendAll id e frames) := by
  induction frames generalizing s with
  | nil => exact pursued_listen h e
  | cons frame rest ih =>
    obtain ⟨hr, ht⟩ := (s.enterSend id e.line frame).proceedSend_frame id e.line
    have h' : ((s.enterSend id e.line frame).proceedSend id e.line).1.task? id ≠ none := by
      rw [ht]
      exact h
    unfold sendAll
    generalize (s.enterSend id e.line frame).proceedSend id e.line = sent at hr h'
    split
    · exact (pursued_suspend h' rfl).of_eq hr
    · exact (pursued_endExchange _ id e _).of_eq hr
    · exact (ih h').of_eq hr

theorem pursued_resumeSending (h : s.task? id ≠ none) (e : Exchange) (unsent : List Frame) :
    Pursued id e s (s.resumeSending id e unsent) := by
  obtain ⟨hr, ht⟩ := s.proceedSend_frame id e.line
  have h' : (s.proceedSend id e.line).1.task? id ≠ none := by
    rw [ht]
    exact h
  unfold resumeSending
  generalize s.proceedSend id e.line = sent at hr h'
  split
  · exact (pursued_suspend h' rfl).of_eq hr
  · exact (pursued_endExchange _ id e _).of_eq hr
  · exact (pursued_sendAll h' e unsent).of_eq hr

theorem pursued_resumeAnswering (he : s.exchange? id = some e) (deadline : Nat) :
    Pursued id e s (s.resumeAnswering id e deadline) := by
  unfold resumeAnswering
  split
  · exact pursued_endExchange s id e _
  · exact pursued_endExchange s id e _
  · split
    · exact pursued_endExchange s id e _
    · exact .waits he rfl

theorem pursued_resumeGated (h : s.task? id ≠ none) (he : s.exchange? id = some e)
    (frames : List Frame) : Pursued id e s (s.resumeGated id e frames) := by
  unfold resumeGated
  split
  · exact pursued_sendAll h e frames
  · exact .waits he rfl

theorem startRequest_pursued (h : s.task? id ≠ none) (purpose : Purpose) (c : Command)
    (timeout : Nat) :
    (∃ cause, s.prepare c = .error cause
        ∧ s.startRequest id purpose c timeout = s.finish id (.failed cause))
      ∨ ∃ pattern e, e.listener = s.registry.nextId
        ∧ Pursued id e { s with registry := (s.registry.await [pattern]).1 }
          (s.startRequest id purpose c timeout) := by
  unfold startRequest
  cases hp : s.prepare c with
  | error cause => exact Or.inl ⟨cause, rfl, rfl⟩
  | ok prepared =>
    obtain ⟨pattern, line, packet⟩ := prepared
    refine Or.inr ⟨pattern, ⟨purpose, line, s.registry.nextId, timeout⟩, rfl, ?_⟩
    let registered : Session := { s with registry := (s.registry.await [pattern]).1 }
    let joined : Session := { registered with blockingLock := s.blockingLock.join id }
    have hregistered : registered.task? id ≠ none := h
    have hjoined : joined.task? id ≠ none := h
    dsimp only
    split
    · exact pursued_sendAll hregistered _ _
    · split
      · exact (pursued_sendAll hjoined _ _).of_eq rfl
      · exact (pursued_suspend hjoined rfl).of_eq rfl

inductive AtTurn (id : TaskId) (s s' : Session) : Prop where
  | refused : s.exchange? id = none → s'.task? id = none → s'.registry = s.registry → AtTurn id s s'
  | begins {pattern : Command} {e : Exchange} : s.exchange? id = none →
    e.listener = s.registry.nextId →
    Pursued id e { s with registry := (s.registry.await [pattern]).1 } s' → AtTurn id s s'
  | goesOn {e : Exchange} : s.exchange? id = some e → Pursued id e s s' → AtTurn id s s'

theorem atTurn_startRequest {s₀ : Session} (hr : s₀.registry = s.registry)
    (h : s₀.task? id ≠ none) (hnone : s.exchange? id = none) (purpose : Purpose) (c : Command)
    (timeout : Nat) : AtTurn id s (s₀.startRequest id purpose c timeout) := by
  rcases startRequest_pursued h purpose c timeout with ⟨cause, -, heq⟩ | ⟨pattern, e, he, hp⟩
  · rw [heq]
    exact .refused hnone (task?_finish_self s₀ id _) hr
  · rw [hr] at he hp
    exact .begins hnone he (hp.of_eq rfl)

theorem atTurn (ht : s.task? id = some t) (hreq : t.requests = true) :
    AtTurn id s (s.turnTask id) := by
  have h : s.task? id ≠ none := ne_none_of_task? ht
  have he := exchange?_of_task? ht
  unfold turnTask
  rw [ht]
  cases t with
  | gated e frames => exact .goesOn he (pursued_resumeGated h he frames)
  | sending e unsent => exact .goesOn he (pursued_resumeSending h e unsent)
  | answering e deadline => exact .goesOn he (pursued_resumeAnswering he deadline)
  | fresh job =>
    cases job with
    | request c timeout => exact atTurn_startRequest rfl h he .response c timeout
    | version =>
      show AtTurn id s (s.startVersion id)
      have hr : s.takeTsn.1.registry = s.registry := rfl
      have h' : s.takeTsn.1.task? id ≠ none := h
      unfold startVersion
      dsimp only
      split
      · exact .refused he (task?_finish_self _ id _) rfl
      · exact atTurn_startRequest hr h' he .version _ _
    | reset | wait | callback => exact absurd hreq Bool.false_ne_true
  | resetGated | resetSending | resetWaiting | reconnecting | waiting | dozing =>
    exact absurd hreq Bool.false_ne_true

end

/-- The registry when a request is over: its listener is gone, and every other one is as before. -/
structure Relieved (s : Session) (id : TaskId) (r : Registry Deed) : Prop where
  own : ∀ k, s.Owns id k → r.Free k
  others : ∀ k, ¬s.Owns id k → Registry.Same k s.registry r
  /-- One that came and went in the same turn. -/
  brief : ∀ k, s.registry.nextId ≤ k → r.Free k

section

variable {s s' : Session} {act : Act} {id : TaskId} {t : Stage}

theorem Listening.relieved_of_same (h : s.Listening) (hnone : s.exchange? id = none) :
    s.Relieved id s.registry := by
  refine ⟨fun k hk => ?_, fun _ _ => ⟨rfl, rfl⟩, fun _ hk => h.sound.free_of_new hk⟩
  obtain ⟨e, he, -⟩ := hk
  exact absurd (hnone.symm.trans he) nofun

theorem Listening.relieved_of_release (h : s.Listening) {e : Exchange}
    (he : s.exchange? id = some e) : s.Relieved id (s.registry.release e.listener) := by
  refine ⟨fun k hk => ?_, fun k hk => ?_, fun k hk => ?_⟩
  · obtain ⟨e', he', rfl⟩ := hk
    obtain rfl := Option.some.inj (he.symm.trans he')
    exact h.sound.free_release e.listener
  · exact h.sound.same_release fun heq => hk ⟨e, he, heq.symm⟩
  · refine (h.sound.release e.listener).free_of_new ?_
    rw [nextId_release]
    exact hk

theorem Listening.relieved_of_begun (h : s.Listening) (hnone : s.exchange? id = none)
    (pattern : Command) :
    s.Relieved id ((s.registry.await [pattern]).1.release s.registry.nextId) := by
  have hsound : (s.registry.await [pattern]).1.Sound := h.sound.register _
  have hnew := hsound.free_release s.registry.nextId
  refine ⟨fun k hk => ?_, fun k _ => ?_, fun k hk => ?_⟩
  · obtain ⟨e, he, -⟩ := hk
    exact absurd (hnone.symm.trans he) nofun
  · rcases Nat.lt_trichotomy k s.registry.nextId with hlt | rfl | hgt
    · exact (h.sound.same_register _ hlt).trans (hsound.same_release (Nat.ne_of_lt hlt))
    · exact (h.sound.free_of_new (Nat.le_refl _)).same hnew
    · have hfree : (s.registry.await [pattern]).1.Free k := hsound.free_of_new hgt
      exact ((h.sound.free_of_new (Nat.le_of_lt hgt)).same hfree).trans
        (hsound.same_release (Nat.ne_of_gt hgt))
  · rcases Nat.eq_or_lt_of_le hk with rfl | hgt
    · exact hnew
    · refine (hsound.release _).free_of_new ?_
      rw [nextId_release]
      exact hgt

theorem Listening.relieved_turn (h : s.Listening) (ht : AtTurn id s s')
    (hgone : s'.task? id = none) : s.Relieved id s'.registry := by
  have hwaits : ∀ {e : Exchange}, s'.exchange? id ≠ some e := by
    intro e he
    exact absurd ((exchange?_of_gone hgone).symm.trans he) nofun
  cases ht with
  | refused hnone _ hr =>
    rw [hr]
    exact h.relieved_of_same hnone
  | begins hnone he hp =>
    cases hp with
    | waits he' => exact absurd he' hwaits
    | ended _ hr =>
      rw [hr, he]
      exact h.relieved_of_begun hnone _
  | goesOn he hp =>
    cases hp with
    | waits he' => exact absurd he' hwaits
    | ended _ hr =>
      rw [hr]
      exact h.relieved_of_release he

theorem Listening.relieved_abort (h : s.Listening) (ht : s.task? id = some t)
    (hreq : t.requests = true) : s.Relieved id (s.abort id).registry := by
  have he := exchange?_of_task? ht
  have hr := (abort_spec ht).registry
  rw [hr]
  cases t with
  | gated | sending | answering => exact h.relieved_of_release he
  | fresh job =>
    cases job with
    | request | version => exact h.relieved_of_same he
    | reset | wait | callback => exact absurd hreq Bool.false_ne_true
  | resetGated | resetSending | resetWaiting | reconnecting | waiting | dozing =>
    exact absurd hreq Bool.false_ne_true

theorem Regular.relieved (h : s.Regular) (ht : s.task? id = some t) (hreq : t.requests = true)
    (hgone : (s.perform act).1.task? id = none) :
    (act = .turn (.task id) ∨ act = .abort id) ∧ s.Relieved id (s.perform act).1.registry := by
  have hends : act = .turn (.task id) ∨ act = .abort id := by
    by_contra hnot
    rw [not_or] at hnot
    exact (perform_steps s act).stays hnot.1 hnot.2 (ne_none_of_task? ht) hgone
  refine ⟨hends, ?_⟩
  rcases hends with rfl | rfl
  · exact h.orderly.listening.relieved_turn (atTurn ht hreq) hgone
  · exact h.orderly.listening.relieved_abort ht hreq

structure Without (s : Session) (id : TaskId) : Prop where
  task : s.task? id = none
  blocking : id ∉ s.blockingLock.line
  sending : ∀ line l, s.line? line = some l →
    id ∉ l.link.sendLock.line ∧ l.link.stage? id = none

theorem Regular.without (h : s.Regular) (hgone : s.task? id = none) : s.Without id := by
  refine ⟨hgone, fun hm => h.lined.asks id hm (exchange?_of_gone hgone), fun line l hl => ?_⟩
  have hout : id ∉ l.link.sendLock.line := by
    intro hm
    have hsits := (h.linked.seated line l hl id).mp hm
    exact absurd ((seat?_of_gone hgone).symm.trans hsits) nofun
  exact ⟨hout, not_not.mp fun hn => hout (((h.linked.sound line l hl).standing id).mpr hn)⟩

theorem Regular.without_run (h : s.Regular) (hid : id < s.nextTask) (hgone : s.task? id = none)
    (more : List Act) : (s.run more).Without id := by
  have hkeeps : ∀ {act} {s s' : Session}, s.Regular → Step act s s' →
      id < s.nextTask ∧ s.task? id = none → id < s'.nextTask ∧ s'.task? id = none :=
    fun _ hstep hs => hstep.gone hs.1 hs.2
  obtain ⟨hregular, -, hgone'⟩ := h.run_keeps hkeeps ⟨hid, hgone⟩ more
  exact hregular.without hgone'

theorem Regular.unlistened_run (h : s.Regular) {k : ListenerId} (hk : k < s.registry.nextId)
    (hgone : s.registry.listener? k = none) (more : List Act) :
    (s.run more).registry.listener? k = none := by
  have hkeeps : ∀ {act} {s s' : Session}, s.Regular → Step act s s' →
      k < s.registry.nextId ∧ s.registry.listener? k = none →
      k < s'.registry.nextId ∧ s'.registry.listener? k = none := by
    intro act s s' h hstep hs
    have hl := h.orderly.listening
    exact ⟨Nat.lt_of_lt_of_le hs.1 (hstep.nextId_le hl), hstep.unlistened hl hs.1 hs.2⟩
  exact (h.run_keeps hkeeps ⟨hk, hgone⟩ more).2.2

/-- The act with which a request ends, and what it leaves. -/
structure Traceless (s : Session) (id : TaskId) (act : Act) : Prop where
  ends : act = .turn (.task id) ∨ act = .abort id
  own : ∀ k, s.Owns id k → (s.perform act).1.registry.Free k
  others : ∀ k, ¬s.Owns id k → Registry.Same k s.registry (s.perform act).1.registry
  buckets : ∀ header k, k ∈ (s.perform act).1.registry.bucket header
    ↔ k ∈ s.registry.bucket header ∧ ¬s.Owns id k
  /-- Whatever comes, its listener, had it before this act or in it, stays away, and it stands in no
  line, neither at the blocking lock nor at the send lock of any link. -/
  later : ∀ more, ((s.perform act).1.run more).Without id
    ∧ ∀ k, s.Owns id k ∨ s.registry.nextId ≤ k ∧ k < (s.perform act).1.registry.nextId →
      ((s.perform act).1.run more).registry.listener? k = none

theorem Regular.traceless (h : s.Regular) (ht : s.task? id = some t) (hreq : t.requests = true)
    (hgone : (s.perform act).1.task? id = none) : s.Traceless id act := by
  obtain ⟨hends, hrelieved⟩ := h.relieved ht hreq hgone
  have h' : (s.perform act).1.Regular := h.steps (perform_steps s act)
  have hl := h.orderly.listening
  have hl' := h'.orderly.listening
  have hid : id < (s.perform act).1.nextTask :=
    (h.run_keeps (fun _ hstep hid => Nat.lt_of_lt_of_le hid hstep.nextTask_le)
      (hl.known id (ne_none_of_task? ht)) [act]).2
  have hgiven : s.registry.nextId ≤ (s.perform act).1.registry.nextId :=
    (h.run_keeps (fun h hstep hle => Nat.le_trans hle (hstep.nextId_le h.orderly.listening))
      (Nat.le_refl _) [act]).2
  refine ⟨hends, hrelieved.own, hrelieved.others, fun header k => ?_, fun more => ⟨?_, ?_⟩⟩
  · rw [hl'.sound.enlisted, hl.sound.enlisted]
    by_cases hk : s.Owns id k
    · have hfree := (hrelieved.own k hk).listener
      simp [hk, hfree]
    · have hsame := (hrelieved.others k hk).listener
      simp [hk, hsame]
  · exact h'.without_run hid hgone more
  · rintro k (hk | ⟨hnew, hk⟩)
    · have hold : k < s.registry.nextId := by
        obtain ⟨e, he, rfl⟩ := hk
        exact hl.given id e he
      exact h'.unlistened_run (Nat.lt_of_lt_of_le hold hgiven) (hrelieved.own k hk).listener more
    · exact h'.unlistened_run hk (hrelieved.brief k hnew).listener more

/-- A session can do nothing for a request: it is none, has no response, leaves fields open, or there is
no line to send it on. -/
def Refuses (s : Session) : Job → Prop
  | .request c _ => c.kind ≠ .request ∨ c.definition.response = none ∨ c.isPattern = true
    ∨ s.current = none
  | .version => s.current = none
  | _ => False

theorem prepare_of_refuses {c : Command} {timeout : Nat} (h : s.Refuses (.request c timeout)) :
    ∃ cause, s.prepare c = .error cause := by
  unfold prepare
  split
  · exact ⟨_, rfl⟩
  · next hkind =>
    split
    · exact ⟨_, rfl⟩
    · exact ⟨_, rfl⟩
    · exact ⟨_, rfl⟩
    · next hpattern hcurrent hpacket =>
      rcases h with hnot | hnone | hopen | hoff
      · exact absurd hnot hkind
      · simp [Command.responsePattern, hnone] at hpattern
      · simp [Command.toPacket, hopen] at hpacket
      · simp [hoff] at hcurrent

/-- A request was refused: it is gone, this is all that is said, and nothing else has happened. -/
structure Refused (s : Session) (id : TaskId) (s' : Session) : Prop where
  task? : ∀ k, s'.task? k = if k = id then none else s.task? k
  registry : s'.registry = s.registry
  lines : s'.lines = s.lines
  blockingLock : s'.blockingLock = s.blockingLock
  resetLock : s'.resetLock = s.resetLock
  log : ∃ cause, s'.log = s.log ++ [.finished id (.failed cause)]

theorem refused_finish (s : Session) (id : TaskId) (cause : Fault) :
    s.Refused id (s.finish id (.failed cause)) :=
  ⟨task?_finish s id _, rfl, rfl, rfl, rfl, cause, rfl⟩

theorem refused_startRequest {purpose : Purpose} {c : Command} {timeout : Nat}
    (h : s.Refuses (.request c timeout)) :
    s.Refused id (s.startRequest id purpose c timeout) := by
  obtain ⟨cause, hp⟩ := prepare_of_refuses h
  rw [startRequest, hp]
  exact refused_finish s id cause

theorem refused {job : Job} (ht : s.task? id = some (.fresh job)) (h : s.Refuses job) :
    s.Refused id (s.perform (.turn (.task id))).1 := by
  show s.Refused id (s.turnTask id)
  unfold turnTask
  rw [ht]
  cases job with
  | request c timeout => exact refused_startRequest h
  | version =>
    show s.Refused id (s.startVersion id)
    unfold startVersion
    dsimp only
    split
    · next cause _ =>
      obtain ⟨htask, hr, hl, hb, hrl, hlog⟩ := refused_finish s.takeTsn.1 id (.command cause)
      exact ⟨htask, hr, hl, hb, hrl, hlog⟩
    · next c _ =>
      have hrefuses : s.takeTsn.1.Refuses
          (.request c s.takeTsn.1.config.requestTimeout.toNat) := Or.inr (Or.inr (Or.inr h))
      have hrefused : s.takeTsn.1.Refused id (s.takeTsn.1.startRequest id .version c
        s.takeTsn.1.config.requestTimeout.toNat) := refused_startRequest hrefuses
      obtain ⟨htask, hr, hl, hb, hrl, hlog⟩ := hrefused
      exact ⟨htask, hr, hl, hb, hrl, hlog⟩
  | reset | wait | callback => exact absurd h not_false

end

/-- However a request ends in a run, it leaves nothing behind and takes nothing else with it; and one
that is refused writes nothing and lays hands on no listener. -/
theorem request_leaves_nothing (config : Config) (catalog : Catalog) (deviceOpens : Bool)
    (acts : List Act) (id : TaskId) :
    let s := (new config catalog deviceOpens).run acts
    (∀ act t, s.task? id = some t → t.requests = true → (s.perform act).1.task? id = none →
        s.Traceless id act)
      ∧ ∀ job, s.task? id = some (.fresh job) → s.Refuses job →
        s.Refused id (s.perform (.turn (.task id))).1 := by
  intro s
  have hregular : s.Regular := (regular_new config catalog deviceOpens).run acts
  exact ⟨fun act t ht hreq hgone => hregular.traceless ht hreq hgone, fun job ht h => refused ht h⟩

/-- A blocking request is given up while its fragment waits for its acknowledgement, so is one that waits
for the blocking lock behind it, and one that comes before there is a line is refused. -/
theorem request_leaves_nothing_three_ends :
    let reply : Definition := ⟨"Tell", .of .response 0x77, [⟨"N", .u8, false⟩], false, none⟩
    let request : Act :=
      .start (.request ⟨⟨"Ask", .of .request 0x77, [], true, some reply⟩, [], false⟩ 5000)
    let s := Session.new (.forDevice "tty") (.insert .empty reply) true
    let sent := s.run [.attach, request, request, .turn (.task 0), .turn (.task 1)]
    sent.Owns 0 0 ∧ sent.Traceless 0 (.abort 0) ∧ sent.blockingLock.line = [0, 1]
      ∧ sent.Owns 1 1 ∧ sent.Traceless 1 (.abort 1)
      ∧ (s.run [request]).Refused 0 ((s.run [request]).perform (.turn (.task 0))).1 := by
  intro reply request s sent
  have howns : ∀ id < 2, (sent.exchange? id).map Exchange.listener = some id := by decide +kernel
  have hrequests : ∀ id < 2, (sent.task? id).any Stage.requests = true := by decide +kernel
  have hgone : ∀ id < 2, ((sent.perform (.abort id)).1.task? id).isNone = true := by
    decide +kernel
  have hends : ∀ id < 2, sent.Owns id id ∧ sent.Traceless id (.abort id) := by
    intro id hid
    obtain ⟨t, ht, hreq⟩ := (Option.any_eq_true _ _).mp (hrequests id hid)
    exact ⟨Option.map_eq_some_iff.mp (howns id hid),
      (request_leaves_nothing _ _ _ _ id).1 (.abort id) t ht hreq
        (Option.isNone_iff_eq_none.mp (hgone id hid))⟩
  refine ⟨(hends 0 (by decide)).1, (hends 0 (by decide)).2, by decide +kernel,
    (hends 1 (by decide)).1, (hends 1 (by decide)).2, ?_⟩
  exact (request_leaves_nothing _ _ _ [request] 0).2 _ rfl (Or.inr (Or.inr (Or.inr rfl)))

end Session

end NcpHost
