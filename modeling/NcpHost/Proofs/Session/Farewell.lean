import NcpHost.Proofs.Session.Aftermath
import NcpHost.Proofs.Session.Unending

/-! A session that disconnects ends everything at once. Those who wait for a command at that moment stand
in line behind each other, at the blocking lock and at the send locks of lines that are closed. One of them
is always the first wherever it stands, and can go on without time passing. Whatever others do, it stays
the first, and its own turn takes it away or nearer to its end. So all of them are over before the clock
moves on. -/

namespace NcpHost.Session

def aheadOf (s : Session) (id : TaskId) : List TaskId :=
  match s.task? id with
  | some (.gated _ _) => s.blockingLock.ahead id
  | some (.sending e _) => s.aheadAt e.line id
  | _ => []

def toGo (t : Option Stage) : Nat := (t.map fun t => t.rank + 1).getD 0

section

variable {s s₁ s₂ : Session} {act : Act} {id : TaskId} {t : Stage}

theorem isSettled_of_peek {k : ListenerId} (h : s.registry.peek k ≠ .pending) :
    s.isSettled k = true := by
  unfold isSettled
  split
  · next hpending => exact absurd hpending h
  · rfl

theorem aheadOf_gated {e : Exchange} {frames : List Frame}
    (ht : s.task? id = some (.gated e frames)) : s.aheadOf id = s.blockingLock.ahead id := by
  rw [aheadOf, ht]

theorem aheadOf_sending {e : Exchange} {unsent : List Frame}
    (ht : s.task? id = some (.sending e unsent)) : s.aheadOf id = s.aheadAt e.line id := by
  rw [aheadOf, ht]

theorem Regular.pending_of_exchange (hs : s.Regular) {e : Exchange} (he : s.exchange? id = some e) :
    s.Pending id :=
  ⟨e.listener, hs.orderly.listening.given id e he, awaited?_of_exchange? he⟩

theorem Aftermath.at_link (h : s.Aftermath s₁) (hs : s.Regular) (hr : s₁.Regular)
    (hid : s.Pending id) {e : Exchange} {unsent : List Frame}
    (ht : s₁.task? id = some (.sending e unsent)) : ∃ l, s₁.line? e.line = some l
      ∧ l.link.closed = true ∧ id ∈ l.link.sendLock.line ∧ e.line ≤ s.generation := by
  have hold := hs.line_known (h.asked hid (exchange?_of_task? ht))
  obtain ⟨l, hl⟩ := Option.ne_none_iff_exists'.mp (hr.linked.present id _ e.line ht rfl)
  exact ⟨l, hl, h.closed hr hl hold, (hr.linked.seated _ l hl id).mpr (seat?_of_task? ht), hold⟩

theorem Aftermath.first_at_link (h : s.Aftermath s₁) (hs : s.Regular) (hr : s₁.Regular)
    (hid : s.Pending id) {e : Exchange} {unsent : List Frame}
    (ht : s₁.task? id = some (.sending e unsent)) :
    ∃ j, s.Pending j ∧ s₁.task? j ≠ none ∧ s₁.aheadOf j = [] := by
  obtain ⟨l, hl, -, hin, hold⟩ := h.at_link hs hr hid ht
  have hfair := (hr.linked.sound _ l hl).fair
  let j := (l.link.sendLock.ahead id).headD id
  have hholder : l.link.sendLock.holder = some j := hfair.holder_ahead hin
  have hjin := FairLock.mem_line_of_holder hholder
  obtain ⟨tj, htj, hseat⟩ := Option.bind_eq_some_iff.mp ((hr.linked.seated _ l hl j).mp hjin)
  have hasks := h.seats j tj e.line htj (Stage.line?_of_seat? hseat) hold
  cases tj with
  | sending e' =>
    have hline : e'.line = e.line := Option.some.inj hseat
    rcases h.asks j e' (exchange?_of_task? htj) with hasked | ⟨-, hnew⟩
    · refine ⟨j, hs.pending_of_exchange hasked, ne_none_of_task? htj, ?_⟩
      rw [aheadOf_sending htj, hline, aheadAt_of_line? hl]
      exact (hfair.holder_iff hjin).mp hholder
    · exact absurd hold (Nat.not_le_of_lt (hline ▸ hnew))
  | resetSending => exact absurd rfl hasks
  | fresh | gated | answering | resetGated | resetWaiting | reconnecting | waiting | dozing =>
    exact absurd hseat nofun

theorem Aftermath.first (h : s.Aftermath s₁) (hs : s.Regular) (hr : s₁.Regular)
    (hid : s.Pending id) (hthere : s₁.task? id ≠ none) :
    ∃ j, s.Pending j ∧ s₁.task? j ≠ none ∧ s₁.aheadOf j = [] := by
  obtain ⟨t, ht⟩ := Option.ne_none_iff_exists'.mp hthere
  cases t with
  | sending => exact h.first_at_link hs hr hid ht
  | gated e frames =>
    have hlined := hr.lined
    have hin := hlined.gated id ⟨e, frames, ht⟩
    let j := (s₁.blockingLock.ahead id).headD id
    have hholder : s₁.blockingLock.holder = some j := hlined.fair.holder_ahead hin
    have hjin := FairLock.mem_line_of_holder hholder
    obtain ⟨e', he'⟩ := Option.ne_none_iff_exists'.mp (hlined.asks j hjin)
    have hj : s.Pending j := by
      by_cases hne : id = j
      · exact hne ▸ hid
      -- its listener is older than one that was there
      rcases h.asks j e' he' with hasked | ⟨hnew, -⟩
      · exact hs.pending_of_exchange hasked
      · have he := exchange?_of_task? ht
        have hsenior := hlined.older_of_holder hholder hin hne e' e he' he
        have hgiven := hs.orderly.listening.given id e (h.asked hid he)
        exact absurd (Nat.lt_trans hsenior hgiven) (Nat.not_lt.mpr hnew)
    obtain ⟨tj, htj, -⟩ := Option.bind_eq_some_iff.mp he'
    have hhead := (hlined.fair.holder_iff hjin).mp hholder
    cases tj with
    | sending => exact h.first_at_link hs hr hj htj
    | gated => exact ⟨j, hj, ne_none_of_task? htj, (aheadOf_gated htj).trans hhead⟩
    | fresh | answering | resetGated | resetSending | resetWaiting | reconnecting | waiting
    | dozing =>
      exact ⟨j, hj, ne_none_of_task? htj, by rw [aheadOf, htj]⟩
  | fresh | answering | resetGated | resetSending | resetWaiting | reconnecting | waiting
  | dozing =>
    exact ⟨id, hid, hthere, by rw [aheadOf, ht]⟩

theorem Aftermath.runnable (h : s.Aftermath s₁) (hs : s.Regular) (hr : s₁.Regular)
    (hid : s.Pending id) (ht : s₁.task? id = some t) (hfirst : s₁.aheadOf id = []) :
    Worker.task id ∈ s₁.runnable := by
  obtain ⟨k, hk, hsettled⟩ := h.settled_at hid ht
  refine mem_runnable ht ?_
  cases t with
  | fresh => rfl
  | gated e frames =>
    have hin := hr.lined.gated id ⟨e, frames, ht⟩
    rw [aheadOf_gated ht] at hfirst
    exact beq_iff_eq.mpr ((hr.lined.fair.holder_iff hin).mpr hfirst)
  | sending e unsent =>
    obtain ⟨l, hl, hclosed, hin, -⟩ := h.at_link hs hr hid ht
    have hsound := hr.linked.sound _ l hl
    rw [aheadOf_sending ht, aheadAt_of_line? hl] at hfirst
    show s₁.canSend id e.line = true
    rw [canSend, hl]
    exact (hsound.canProceed_iff hclosed).mpr ((hsound.fair.holder_iff hin).mpr hfirst)
  | answering | waiting =>
    obtain rfl := Option.some.inj hk
    exact isSettled_of_peek hsettled
  | resetGated | resetSending | resetWaiting | reconnecting | dozing => exact absurd hk nofun

theorem Steps.first_stays (h : Steps act s₁ s₂) (hr : s₁.Regular)
    (hsame : s₂.task? id = s₁.task? id) (hfirst : s₁.aheadOf id = []) : s₂.aheadOf id = [] := by
  cases ht : s₁.task? id with
  | none => rw [aheadOf, hsame, ht]
  | some t =>
    cases t with
    | gated e frames =>
      rw [aheadOf_gated ht] at hfirst
      rw [aheadOf_gated (hsame.trans ht)]
      rcases h.advances hr ht hsame with heq | hlt
      · exact heq.trans hfirst
      · rw [hfirst] at hlt
        exact absurd hlt (Nat.not_lt_zero _)
    | sending e unsent =>
      obtain ⟨l, hl⟩ := Option.ne_none_iff_exists'.mp (hr.linked.present id _ e.line ht rfl)
      obtain ⟨l', hl', hcloser⟩ := h.closer hr ht hsame hl
      rw [aheadOf_sending ht, aheadAt_of_line? hl] at hfirst
      rw [aheadOf_sending (hsame.trans ht), aheadAt_of_line? hl']
      rcases hcloser with hlt | ⟨heq, -⟩
      · rw [hfirst] at hlt
        exact absurd hlt (Nat.not_lt_zero _)
      · exact heq.trans hfirst
    | fresh | answering | resetGated | resetSending | resetWaiting | reconnecting | waiting
    | dozing => rw [aheadOf, hsame, ht]

theorem resumeWaiting_gone {k : ListenerId} (hsettled : s₁.registry.peek k ≠ .pending) :
    (s₁.resumeWaiting id k).task? id = none := by
  unfold resumeWaiting
  split
  · exact task?_finish_self _ id _
  · exact task?_finish_self _ id _
  · next hpending => exact absurd hpending hsettled

theorem resumeAnswering_gone {e : Exchange} (hsettled : s₁.registry.peek e.listener ≠ .pending)
    (deadline : Nat) : (s₁.resumeAnswering id e deadline).task? id = none := by
  unfold resumeAnswering
  split
  · exact task?_finish_self _ id _
  · exact task?_finish_self _ id _
  · next hpending => exact absurd hpending hsettled

theorem Aftermath.leaves_link (h : s.Aftermath s₁) (hs : s.Regular) (hr : s₁.Regular)
    (hid : s.Pending id) {e : Exchange} {unsent : List Frame}
    (ht : s₁.task? id = some (.sending e unsent)) (hfirst : s₁.aheadOf id = []) :
    (s₁.turnTask id).task? id ≠ some (.sending e unsent) := by
  intro ht'
  obtain ⟨l, hl, hclosed, -, hold⟩ := h.at_link hs hr hid ht
  rw [aheadOf_sending ht, aheadAt_of_line? hl] at hfirst
  have hself : (l.link.sendLock.ahead id).headD id = id := by rw [hfirst, List.headD_nil]
  obtain ⟨l', hl', hleads⟩ := turnTask_leads hr ht hl hself.symm (ht'.trans ht.symm)
  have hsteps : Steps (.turn (.task id)) s₁ (s₁.turnTask id) :=
    perform_steps s₁ (.turn (.task id))
  have hr' := hr.steps hsteps
  have hclosed' := (h.steps hs hr hsteps).closed hr' hl' hold
  cases hleads with
  | writes _ hwritten =>
    exact (hr'.linked.sound _ l' hl').told_of_closed hclosed' _ _ hwritten
  | waits hstage => exact (hr.linked.sound _ l hl).told_of_closed hclosed _ _ hstage
  | passes hlt =>
    rw [hfirst] at hlt
    exact absurd hlt (Nat.not_lt_zero _)

theorem Aftermath.leaves (h : s.Aftermath s₁) (hs : s.Regular) (hr : s₁.Regular)
    (hid : s.Pending id) (ht : s₁.task? id = some t) (hfirst : s₁.aheadOf id = []) :
    (s₁.turnTask id).task? id ≠ some t := by
  obtain ⟨k, hk, hsettled⟩ := h.settled_at hid ht
  cases t with
  | fresh job =>
    cases job with
    | wait =>
      obtain rfl := Option.some.inj hk
      rw [turnTask, ht]
      exact ne_of_gone (resumeWaiting_gone hsettled)
    | request | version | reset | callback => cases hk
  | waiting =>
    obtain rfl := Option.some.inj hk
    rw [turnTask, ht]
    exact ne_of_gone (resumeWaiting_gone hsettled)
  | answering e deadline =>
    obtain rfl := Option.some.inj hk
    rw [turnTask, ht]
    exact ne_of_gone (resumeAnswering_gone hsettled deadline)
  | gated e frames =>
    have hin := hr.lined.gated id ⟨e, frames, ht⟩
    rw [aheadOf_gated ht] at hfirst
    exact turnTask_ungates hr ht (beq_iff_eq.mpr ((hr.lined.fair.holder_iff hin).mpr hfirst))
  | sending e unsent => exact h.leaves_link hs hr hid ht hfirst
  | resetGated | resetSending | resetWaiting | reconnecting | dozing => cases hk

theorem Aftermath.onward_step (h : s.Aftermath s₁) (hid : s.Pending id) (hstep : Step act s₁ s₂) :
    s₂.task? id = s₁.task? id ∨ toGo (s₂.task? id) < toGo (s₁.task? id) := by
  rcases h.stays id hid with ⟨hknown, hgone⟩ | ⟨hsame, -⟩
  · exact Or.inl ((hstep.gone hknown hgone).2.trans hgone.symm)
  · obtain ⟨k, hk, hw⟩ := hid
    have hw₁ := hsame.trans hw
    obtain ⟨t, ht, -⟩ := Option.bind_eq_some_iff.mp hw₁
    have hends : s₂.task? id = none → toGo (s₂.task? id) < toGo (s₁.task? id) := by
      intro hgone
      rw [hgone, ht]
      exact Nat.succ_pos t.rank
    cases hstep.atWait hw₁ with
    | same heq => exact Or.inl heq
    | nearer he he' hlt =>
      obtain ⟨t', ht', -⟩ := Option.bind_eq_some_iff.mp he'
      rw [rank_of_task? ht, rank_of_task? ht'] at hlt
      rw [ht, ht']
      exact Or.inr (Nat.succ_lt_succ hlt)
    | looked ht' hw' hpending =>
      -- what it looks for was decided on
      have hk' := (awaited?_of_task? ht').symm.trans hw₁
      rw [(Stage.waits_only hw').1] at hk'
      obtain rfl := Option.some.inj hk'
      exact absurd hpending (h.settled _ hk)
    | ended _ hgone | aborted _ hgone => exact Or.inr (hends hgone)

theorem Aftermath.onward (h : s.Aftermath s₁) (hs : s.Regular) (hr : s₁.Regular)
    (hid : s.Pending id) (hsteps : Steps act s₁ s₂) :
    s₂.task? id = s₁.task? id ∨ toGo (s₂.task? id) < toGo (s₁.task? id) := by
  induction hsteps with
  | refl => exact Or.inl rfl
  | tail hbefore hstep ih =>
    exact onward_trans toGo ih ((h.steps hs hr hbefore).onward_step hid hstep)

theorem Aftermath.ends (h : s.Aftermath s₁) (hs : s.Regular) (hr : s₁.Regular)
    (hid : s.Pending id) (hsteps : Steps act s₁ s₂) (hkept : act ≠ .abort id)
    (hthere : s₁.task? id ≠ none) (hgone : s₂.task? id = none) :
    ∃ o, .finished id o ∈ s₂.log := by
  induction hsteps with
  | refl => exact absurd hgone hthere
  | @tail s₂ s₃ hbefore hstep ih =>
    by_cases hbetween : s₂.task? id = none
    · obtain ⟨o, ho⟩ := ih hbetween
      exact ⟨o, (steps_log (.single hstep)).subset ho⟩
    · obtain ⟨t, ht⟩ := Option.ne_none_iff_exists'.mp hbetween
      obtain ⟨k, hk, -⟩ := (h.steps hs hr hbefore).settled_at hid ht
      rcases (hstep.atWait ((awaited?_of_task? ht).trans hk)).goes hbetween hgone with
        ⟨o, before, -, hlog, -⟩ | ⟨hact, -⟩
      · refine ⟨o, hlog ▸ List.mem_append_right _ (List.mem_append_right _ ?_)⟩
        exact List.mem_cons_self
      · exact absurd hact hkept

variable {happenings : Nat → Happening}

theorem Aftermath.after (h : s.Aftermath s₁) (hs : s.Regular) (h₁ : s₁.Lawful) (n : Nat) :
    s.Aftermath (s₁.after happenings n) := by
  induction n with
  | zero => exact h
  | succ n ih => exact ih.steps hs (h₁.after happenings n).regular (h₁.after_steps happenings n)

theorem Aftermath.settle (h : s.Aftermath s₁) (hs : s.Regular) (h₁ : s₁.Lawful)
    (happenings : Nat → Happening) (limit : TaskId) :
    ∃ n, ∀ id < limit, s.Pending id → ∀ m ≥ n,
      (s₁.after happenings m).task? id = (s₁.after happenings n).task? id := by
  induction limit with
  | zero => exact ⟨0, fun id hid => absurd hid (Nat.not_lt_zero id)⟩
  | succ last ih =>
    obtain ⟨n, hn⟩ := ih
    by_cases hlast : s.Pending last
    · obtain ⟨n', hle, hn'⟩ := settles (fun m => (s₁.after happenings m).task? last) toGo n
        fun m _ => (h.after hs h₁ m).onward hs (h₁.after happenings m).regular hlast
          (h₁.after_steps happenings m)
      refine ⟨n', fun id hid hpending m hm => ?_⟩
      rcases Nat.lt_succ_iff_lt_or_eq.mp hid with hlt | rfl
      · exact (hn id hlt hpending m (Nat.le_trans hle hm)).trans (hn id hlt hpending n' hle).symm
      · exact hn' m hm
    · refine ⟨n, fun id hid hpending => ?_⟩
      rcases Nat.lt_succ_iff_lt_or_eq.mp hid with hlt | rfl
      · exact hn id hlt hpending
      · exact absurd hpending hlast

/-- Where everybody who can go on gets a turn, all who were pending are over at some time. -/
theorem Aftermath.all_end (h : s.Aftermath s₁) (hs : s.Regular) (h₁ : s₁.Lawful)
    (hprompt : s₁.Prompt happenings) :
    ∃ n, ∀ id, s.Pending id → (s₁.after happenings n).task? id = none := by
  obtain ⟨n, hstays⟩ := h.settle hs h₁ happenings s.nextTask
  refine ⟨n, fun id hid => not_not.mp fun hthere => ?_⟩
  have hafter : ∀ m, s.Aftermath (s₁.after happenings m) := h.after hs h₁
  have hregular : ∀ m, (s₁.after happenings m).Regular := fun m => (h₁.after happenings m).regular
  -- the first of those who are left would have to move in its turn
  obtain ⟨j, hj, hjthere, hfirst⟩ := (hafter n).first hs (hregular n) hid hthere
  obtain ⟨t, ht⟩ := Option.ne_none_iff_exists'.mp hjthere
  have hknown : j < s.nextTask := hs.orderly.listening.known j hj.present
  have hat : ∀ m ≥ n, (s₁.after happenings m).task? j = some t :=
    fun m hm => (hstays j hknown hj m hm).trans ht
  have hahead : ∀ m ≥ n, (s₁.after happenings m).aheadOf j = [] := by
    intro m hm
    induction m, hm using Nat.le_induction with
    | base => exact hfirst
    | succ m hm ih =>
      refine (h₁.after_steps happenings m).first_stays (hregular m) ?_ ih
      exact (hat (m + 1) (Nat.le_succ_of_le hm)).trans (hat m hm).symm
  obtain ⟨m, hm, hturn⟩ := hprompt.turns n j fun m hm =>
    (hafter m).runnable hs (hregular m) hj (hat m hm) (hahead m hm)
  refine (hafter m).leaves hs (hregular m) hj (hat m hm) (hahead m hm) ?_
  have hnext := hat (m + 1) (Nat.le_succ_of_le hm)
  rwa [Session.after, hturn] at hnext

theorem Aftermath.after_ends (h : s.Aftermath s₁) (hs : s.Regular) (h₁ : s₁.Lawful)
    (hid : s.Pending id) (hthere : s₁.task? id ≠ none) (n : Nat)
    (hkept : ∀ m < n, happenings m ≠ .act (.abort id))
    (hgone : (s₁.after happenings n).task? id = none) :
    ∃ o, .finished id o ∈ (s₁.after happenings n).log := by
  induction n with
  | zero => exact absurd hgone hthere
  | succ n ih =>
    have hsteps := h₁.after_steps happenings n
    by_cases hbefore : (s₁.after happenings n).task? id = none
    · obtain ⟨o, ho⟩ := ih (fun m hm => hkept m (Nat.lt_succ_of_lt hm)) hbefore
      exact ⟨o, (steps_log hsteps).subset ho⟩
    · refine (h.after hs h₁ n).ends hs (h₁.after happenings n).regular hid hsteps ?_ hbefore hgone
      exact fun hact => hkept n (Nat.lt_succ_self n) (Happening.eq_of_asAct hact nofun nofun)

theorem Aftermath.awake (h : s.Aftermath s₁) (hs : s.Regular) (hr : s₁.Regular)
    (hid : s.Pending id) (hthere : s₁.task? id ≠ none) :
    ∃ j, s.Pending j ∧ Worker.task j ∈ s₁.runnable := by
  obtain ⟨j, hj, hjthere, hfirst⟩ := h.first hs hr hid hthere
  obtain ⟨t, ht⟩ := Option.ne_none_iff_exists'.mp hjthere
  exact ⟨j, hj, h.runnable hs hr hj ht hfirst⟩

theorem Aftermath.all_end_at_once (h : s.Aftermath s₁) (hs : s.Regular) (h₁ : s₁.Lawful)
    (hprompt : s₁.Prompt happenings) :
    ∃ n, (s₁.after happenings n).agenda.now = s₁.agenda.now
      ∧ ∀ id, s.Pending id → (s₁.after happenings n).task? id = none := by
  classical
  have hex := h.all_end hs h₁ hprompt
  refine ⟨Nat.find hex, ?_, Nat.find_spec hex⟩
  have hnow : ∀ n ≤ Nat.find hex, (s₁.after happenings n).agenda.now = s₁.agenda.now := by
    intro n
    induction n with
    | zero => exact fun _ => rfl
    | succ n ih =>
      intro hn
      have hsome := Nat.find_min hex hn
      push Not at hsome
      obtain ⟨id, hid, hthere⟩ := hsome
      obtain ⟨j, -, hj⟩ := (h.after hs h₁ n).awake hs (h₁.after happenings n).regular hid hthere
      exact (hprompt.clock n j hj).trans (ih (Nat.le_of_lt hn))
  exact hnow _ (Nat.le_refl _)

theorem versionOutcome_ne_timeout (c : Command) : versionOutcome c ≠ .failed .timeout := by
  have hlacking : ∀ name, Outcome.failed (.decode (.lacking name)) ≠ .failed .timeout := by
    intro name h
    cases h
  unfold versionOutcome
  dsimp only
  split
  · intro h
    cases h
  · split
    · next heq =>
      split at heq <;> cases heq
      exact hlacking _
    · next heq _ =>
      split at heq <;> cases heq
      exact hlacking _
    · next heq _ _ =>
      split at heq <;> cases heq
      exact hlacking _
    · intro h
      cases h

theorem Parting.ne_timeout {o : Outcome} (h : s.Parting id o) : o ≠ .failed .timeout := by
  cases h with
  | @answered e c =>
    cases e.purpose with
    | response => exact nofun
    | version => exact versionOutcome_ne_timeout c
  | received | cancelled | notConnected => exact nofun

/-- What holds at all times after a session has disconnected. -/
structure Farewell (s s' : Session) : Prop where
  unlistened : ∀ k < s.registry.nextId, s'.registry.listener? k = none
  received : ∀ k < s.registry.nextId, s'.registry.peek k = .closed
    ∨ ∃ c, s'.registry.peek k = .delivered c ∧ s.registry.peek k = .delivered c
  record : ∃ new, s'.log = s.log ++ new ∧ ∀ id, s.Pending id →
    (∀ line bytes, .sent id line bytes ∉ new)
      ∧ ∀ o, .finished id o ∈ new → s.Parting id o ∧ o ≠ .failed .timeout
  awake : ∀ id, s.Pending id → s'.task? id ≠ none →
    ∃ j, s.Pending j ∧ Worker.task j ∈ s'.runnable

theorem Aftermath.farewell (h : s.Aftermath s₁) (hs : s.Regular) (hr : s₁.Regular) :
    s.Farewell s₁ := by
  refine ⟨h.unlistened, fun k hk => ?_, ?_, fun id hid hthere => h.awake hs hr hid hthere⟩
  · cases hpeek : s₁.registry.peek k with
    | pending => exact absurd hpeek (h.settled k hk)
    | delivered c => exact Or.inr ⟨c, rfl, h.delivered k hk c hpeek⟩
    | closed => exact Or.inl rfl
  · obtain ⟨new, hlog, hnew⟩ := h.record
    refine ⟨new, hlog, fun id hid => ⟨(hnew id hid).1, fun o ho => ?_⟩⟩
    have hparting := (hnew id hid).2 o ho
    exact ⟨hparting, hparting.ne_timeout⟩

theorem Aftermath.parting_of_finished (h : s.Aftermath s₁) (hs : s.Regular) (hid : s.Pending id)
    {o : Outcome} (ho : .finished id o ∈ s₁.log) : s.Parting id o := by
  obtain ⟨new, hlog, hnew⟩ := h.record
  rw [hlog] at ho
  rcases List.mem_append.mp ho with hold | hm
  · exact absurd (hs.orderly.ended id o hold).2 hid.present
  · exact (hnew id hid).2 o hm

end

/-- A session disconnects while no reset has got past the reset lock. Whatever happens then, none of the
listeners that there were is left, and whoever waited for a command of one of them, behind any locks,
writes nothing more and ends with the command that it had got before, or cancelled, or not connected. Such
a task can go on as long as any of them is there; and where the clock waits for those who can go on, all of
them are over before it moves. -/
theorem disconnect_ends_all (config : Config) (catalog : Catalog) (deviceOpens : Bool)
    (before : List Happening) (happenings : Nat → Happening) :
    let s := (new config catalog deviceOpens).happenAll before
    let left := s.happen (.act .disconnect)
    s.resetLock.isHeld = false →
      (∀ n, s.Farewell (left.after happenings n))
        ∧ (left.Prompt happenings → ∃ n,
          (left.after happenings n).agenda.now = s.agenda.now
            ∧ ∀ id, s.Pending id → (left.after happenings n).task? id = none
              ∧ ((∀ m < n, happenings m ≠ .act (.abort id)) →
                ∃ o, .finished id o ∈ (left.after happenings n).log ∧ s.Parting id o)) := by
  intro s left hfree
  have hnew := lawful_new config catalog deviceOpens
  have hs : s.Lawful := hnew.happenAll before
  -- a listener is registered wherever a command can still come, so that to cancel all decides all
  have htied : s.registry.Tied := hnew.tied Registry.tied_empty before
  have hleft : left.Lawful := hs.happen (.act .disconnect)
  have h : s.Aftermath left := aftermath_disconnect hs htied hfree
  have hregular := hs.regular
  refine ⟨fun n => (h.after hregular hleft n).farewell hregular (hleft.after happenings n).regular,
    fun hprompt => ?_⟩
  obtain ⟨n, hnow, hgone⟩ := h.all_end_at_once hregular hleft hprompt
  have hstart : left.agenda.now = s.agenda.now := by
    obtain ⟨lines, heq⟩ := disconnect_eq hfree
    show s.disconnect.agenda.now = _
    rw [heq]
  refine ⟨n, hnow.trans hstart, fun id hid => ⟨hgone id hid, fun hkept => ?_⟩⟩
  have hthere : left.task? id ≠ none := by
    show s.disconnect.task? id ≠ none
    rw [task?, tasks_disconnect]
    exact hid.present
  obtain ⟨o, ho⟩ := h.after_ends hregular hleft hid hthere n hkept (hgone id hid)
  exact ⟨o, ho, (h.after hregular hleft n).parting_of_finished hregular hid ho⟩

/-- A request has got its response and not looked at it, the next one waits for its acknowledgement and
has one behind it at either lock, and somebody waits for a command that never came. -/
theorem disconnect_ends_all_five_waits :
    let tell : Definition := ⟨"Tell", .of .response 0x77, [⟨"N", .u8, false⟩], false, none⟩
    let seen : Definition := ⟨"Seen", .of .response 0x78, [], false, none⟩
    let ask : Act :=
      .start (.request ⟨⟨"Ask", .of .request 0x77, [], true, some tell⟩, [], false⟩ 5000)
    let look : Act :=
      .start (.request ⟨⟨"Look", .of .request 0x78, [], false, some seen⟩, [], false⟩ 5000)
    let answer := ((Frame.single (.ofHeader seen.header [])).stamp 1).encode
    let acts : List Act := [.attach, look, .turn (.task 0), .arrive 1 (Frame.ack 0 false).encode,
      .turn (.reader 1), .turn (.task 0), .arrive 1 answer, .turn (.reader 1),
      .await [.anyOf tell], .start (.wait 1), ask, ask, look, .turn (.task 1), .turn (.task 2),
      .turn (.task 3), .turn (.task 4)]
    let s := (new (.forDevice "tty") (.insert .empty seen) true).happenAll (acts.map .act)
    let left := s.happen (.act .disconnect)
    let turns := thenRest [.attach, .turn (.task 3), .turn (.task 4), .turn (.task 2),
      .turn (.task 4), .turn (.task 1), .turn (.task 3), .turn (.task 0)]
    (∀ id < 5, s.Pending id)
      ∧ (∀ n, s.Farewell (left.after (fun n => .act (turns n)) n))
      ∧ ∃ n, (left.after (fun n => .act (turns n)) n).agenda.now = s.agenda.now
        ∧ ∀ id < 5, (left.after (fun n => .act (turns n)) n).task? id = none
          ∧ ∃ o, .finished id o ∈ (left.after (fun n => .act (turns n)) n).log ∧ s.Parting id o := by
  intro tell seen ask look answer acts s left turns
  have hpending : ∀ id < 5, s.Pending id := by decide +kernel
  have hkept : ∀ id n, Happening.act (turns n) ≠ .act (.abort id) := fun id =>
    forall_thenRest (P := fun act => Happening.act act ≠ .act (.abort id)) (by simp) fun _ => nofun
  have htasks : (left.run [.attach, .turn (.task 3), .turn (.task 4), .turn (.task 2),
      .turn (.task 4), .turn (.task 1), .turn (.task 3), .turn (.task 0)]).tasks.map (·.1) = [] := by
    decide +kernel
  have hprompt : left.Prompt fun n => .act (turns n) :=
    prompt_thenRest (List.map_eq_nil_iff.mp htasks) (by decide +kernel)
  obtain ⟨hfarewell, hends⟩ := disconnect_ends_all (.forDevice "tty") (.insert .empty seen) true
    (acts.map .act) (fun n => .act (turns n)) (by decide +kernel)
  obtain ⟨n, hnow, hall⟩ := hends hprompt
  refine ⟨hpending, hfarewell, n, ?_, fun id hid => ?_⟩
  -- nobody is to compute the clocks
  · with_reducible exact hnow
  · obtain ⟨hgone, hended⟩ := hall id (hpending id hid)
    exact ⟨hgone, hended fun m _ => hkept id m⟩

end NcpHost.Session
