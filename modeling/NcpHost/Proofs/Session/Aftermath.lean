import NcpHost.Proofs.Registry.Future
import NcpHost.Proofs.Session.Custody
import NcpHost.Proofs.Session.Progress

/-! What a session leaves behind when it disconnects. Its lines are closed, its listeners are gone, and
whoever waits for a command finds one that came before, or that none will come. Whatever is done then,
those who come later get other lines and younger listeners, and those who were there stay where they are
until they are over: nothing that they do makes them wait for a deadline. -/

namespace NcpHost

namespace Registry

variable {κ : Type} {r r' : Registry κ} {id : ListenerId}

/-- Where a command can still be left, a listener is registered. -/
def Tied (r : Registry κ) : Prop :=
  ∀ id s, r.slot? id = some s → s.live = true → r.listener? id ≠ none

theorem tied_empty : (empty : Registry κ).Tied := fun _ _ h => absurd h nofun

theorem Tied.fades (h : r.Tied) (hfades : ∀ k, Fades k r r') : r'.Tied := by
  intro id s' hs' hlive'
  obtain ⟨s, hs, -⟩ := (hfades id).content s' hs'
  obtain ⟨hlive, hlistener⟩ := (hfades id).live s s' hs hs' hlive'
  exact hlistener ▸ h id s hs hlive

theorem Tied.register (h : r.Tied) (hr : r.Sound) (l : Listener κ) : (r.register l).1.Tied := by
  intro id s hs hlive
  rw [hr.slot?_register] at hs
  rw [hr.listener?_register]
  split
  · exact nofun
  · next hold =>
    rw [if_neg fun hnew => hold hnew.1] at hs
    exact h id s hs hlive

theorem Tied.dispatch (h : r.Tied) (hr : r.Sound) (c : Command) : (r.dispatch c).1.Tied := by
  intro id s' hs' hlive
  cases hr.dispatch_offered c id with
  | passed _ hsame =>
    rw [hsame.listener]
    exact h id s' (hsame.slot ▸ hs') hlive
  | spent _ _ _ _ _ hslot | won _ _ _ _ _ hslot =>
    rw [hslot] at hs'
    obtain ⟨s, -, rfl⟩ := Option.map_eq_some_iff.mp hs'
    exact absurd hlive Bool.false_ne_true

theorem Fades.peek (h : Fades id r r') (hsettled : r.peek id ≠ .pending) :
    r'.peek id = r.peek id ∨ r'.peek id = .closed := by
  rw [peek_eq] at hsettled
  rw [peek_eq, peek_eq]
  cases hs' : r'.slot? id with
  | none => exact Or.inr rfl
  | some s' =>
    obtain ⟨s, hs, hcontent⟩ := h.content s' hs'
    rw [hs, Option.getD_some] at hsettled
    rw [hs, Option.getD_some, Option.getD_some]
    cases hc : s.content with
    | some c => exact Or.inl (by simp [Slot.peek, hcontent, hc])
    | none =>
      have hdead : s'.live = false := Bool.eq_false_iff.mpr fun hlive =>
        hsettled (Slot.peek_eq_pending.mpr ⟨hc, (h.live s s' hs hs' hlive).1⟩)
      exact Or.inr (Slot.peek_eq_closed.mpr ⟨hcontent.trans hc, hdead⟩)

theorem Sound.peek_dispatch (hr : r.Sound) (c : Command) (hnone : r.listener? id = none) :
    (r.dispatch c).1.peek id = r.peek id := by
  have hnot : ¬r.Awaits c id := by
    rintro ⟨l, hl, -⟩
    exact absurd (hnone.symm.trans hl) nofun
  cases hr.dispatch_offered c id with
  | passed _ hsame => exact hsame.peek_eq
  | spent _ _ hawaits | won _ hawaits => exact absurd hawaits hnot

theorem Tied.settled_clear (h : r.Tied) (hr : r.Sound) (id : ListenerId) :
    r.clear.peek id ≠ .pending := by
  rw [peek_eq]
  cases hs' : r.clear.slot? id with
  | none => exact nofun
  | some s' =>
    intro hpending
    have hfades := hr.fades_clear id
    obtain ⟨s, hs, -⟩ := hfades.content s' hs'
    obtain ⟨hlive, hlistener⟩ := hfades.live s s' hs hs' (Slot.peek_eq_pending.mp hpending).2
    exact h id s hs hlive hlistener.symm

theorem Fades.delivered (h : Fades id r r') {c : Command} (hc : r'.peek id = .delivered c) :
    r.peek id = .delivered c := by
  obtain ⟨s', hs', hc'⟩ := peek_eq_delivered.mp hc
  obtain ⟨s, hs, hcontent⟩ := h.content s' hs'
  exact peek_eq_delivered.mpr ⟨s, hs, hcontent.symm.trans hc'⟩

end Registry

namespace Session

section

variable {s s' s₁ s₂ : Session} {act : Act} {id : TaskId} {k : ListenerId}

def awaited? (s : Session) (id : TaskId) : Option ListenerId := (s.task? id).bind Stage.listener?

def Pending (s : Session) (id : TaskId) : Prop := ∃ k < s.registry.nextId, s.awaited? id = some k

instance (s : Session) (id : TaskId) : Decidable (s.Pending id) :=
  decidable_of_iff ((s.awaited? id).any (· < s.registry.nextId) = true) (by
    simp [Pending, Option.any_eq_true, and_comm])

theorem Pending.present (h : s.Pending id) : s.task? id ≠ none := by
  obtain ⟨_, -, hw⟩ := h
  obtain ⟨t, ht, -⟩ := Option.bind_eq_some_iff.mp hw
  exact ne_none_of_task? ht

theorem awaited?_of_task? {t : Stage} (h : s.task? id = some t) : s.awaited? id = t.listener? := by
  rw [awaited?, h]
  rfl

theorem awaited?_congr (h : s'.task? id = s.task? id) : s'.awaited? id = s.awaited? id := by
  rw [awaited?, h, awaited?]

theorem exchange?_congr (h : s'.task? id = s.task? id) : s'.exchange? id = s.exchange? id := by
  rw [exchange?, h, exchange?]

theorem awaited?_of_exchange? {e : Exchange} (h : s.exchange? id = some e) :
    s.awaited? id = some e.listener := by
  obtain ⟨t, ht, hte⟩ := Option.bind_eq_some_iff.mp h
  rw [awaited?_of_task? ht]
  cases t <;> first | exact congrArg (Option.map Exchange.listener) hte | exact absurd hte nofun

theorem Stage.waits_only {t : Stage} (h : t.waits? = some k) :
    t.listener? = some k ∧ t.exchange? = none := by
  cases t with
  | waiting => exact ⟨h, rfl⟩
  | fresh job => cases job <;> exact ⟨h, rfl⟩
  | gated | sending | answering | resetGated | resetSending | resetWaiting | reconnecting | dozing =>
    exact absurd h nofun

inductive Ceases (id : TaskId) (s : Session) : Outcome → Prop where
  | asked {e : Exchange} {result : Except Fault Command} : Ends id e s result →
    Ceases id s (e.purpose.outcome result)
  | waited {t : Stage} {k : ListenerId} {outcome : Outcome} : s.task? id = some t →
    t.waits? = some k → Receives s k outcome → Ceases id s outcome

inductive AtWait (act : Act) (id : TaskId) (s s' : Session) : Prop where
  | same : s'.task? id = s.task? id → AtWait act id s s'
  | nearer {e : Exchange} : s.exchange? id = some e → s'.exchange? id = some e →
    s'.rank id < s.rank id → AtWait act id s s'
  | looked {t t' : Stage} {k : ListenerId} : s.task? id = some t → t.waits? = some k →
    s.registry.peek k = .pending → s'.task? id = some t' → t'.waits? = some k → AtWait act id s s'
  | ended {outcome : Outcome} : act = .turn (.task id) → s'.task? id = none →
    Ceases id s outcome →
    (∃ new, s'.log = s.log ++ (new ++ [.finished id outcome]) ∧ Besides id new) → AtWait act id s s'
  | aborted : act = .abort id → s'.task? id = none → s'.log = s.log → AtWait act id s s'

theorem Move.atWait (h : Move id s s') (hact : act = .turn (.task id))
    (hw : s.awaited? id = some k) : AtWait act id s s' := by
  obtain ⟨t, ht, hl⟩ := Option.bind_eq_some_iff.mp hw
  rcases Stage.listener?_cases hl with ⟨e, hte, rfl⟩ | hwaits
  · have he : s.exchange? id = some e := (exchange?_of_task? ht).trans hte
    cases h.own with
    | without hnone => exact absurd (hnone.symm.trans he) nofun
    | begins _ hfresh => exact absurd ((exchange?_of_task? hfresh).symm.trans he) nofun
    | goesOn hold hnew =>
      obtain rfl := Option.some.inj (hold.symm.trans he)
      rcases h.onward (he ▸ Option.some_ne_none _) with hsame | hlt
      · exact .same hsame
      · exact .nearer he hnew hlt
    | ends hold hends hgone _ hlog =>
      obtain ⟨line, writes, hlog⟩ := hlog
      exact .ended hact hgone (.asked hends)
        ⟨_, hlog.trans (List.append_assoc _ _ _), besides_sent id id line writes⟩
  · have hnot : ∀ {t' : Stage}, s.task? id = some t' → t'.waits? ≠ none := by
      intro t' ht' hnone
      obtain rfl := Option.some.inj (ht.symm.trans ht')
      exact absurd (hnone.symm.trans hwaits) nofun
    cases h with
    | leave ht' _ _ hnone | call ht' _ _ hnone => exact absurd hnone (hnot ht')
    | rest ht' _ _ _ _ hsame hpending =>
      obtain rfl := Option.some.inj (ht.symm.trans ht')
      exact .looked ht hwaits (hpending k hwaits) (task?_suspend_self (ne_none_of_task? ht) _)
        (hsame.trans hwaits)
    | receive ht' hw' hreceives =>
      exact .ended hact (task?_finish_self _ id _) (.waited ht' hw' hreceives)
        ⟨[], rfl, besides_nil id⟩
    | issue _ ht' hasks | gate _ ht' hasks =>
      refine absurd ?_ (hnot ht')
      cases hasks <;> rfl
    | @write t' _ _ ht' hseat =>
      refine absurd ?_ (hnot ht')
      cases t' <;> first | rfl | exact absurd hseat (Option.some_ne_none _).symm
    | enterReset _ ht' hreset =>
      refine absurd ?_ (hnot ht')
      rcases hreset with ⟨_, rfl⟩ | rfl <;> rfl
    | pass ht' | next ht' | fail ht' | take ht' | passReset ht' | endReset ht' =>
      exact absurd rfl (hnot ht')

theorem Step.atWait (h : Step act s s') (hw : s.awaited? id = some k) : AtWait act id s s' := by
  obtain ⟨t, ht, hl⟩ := Option.bind_eq_some_iff.mp hw
  cases h.atTask id with
  | same hsame => exact .same hsame
  | starts _ _ hnone => exact absurd hnone (ne_none_of_task? ht)
  | @told t' ht' htold =>
    obtain rfl := Option.some.inj (ht.symm.trans ht')
    refine .same (htold.trans (Eq.trans (congrArg some ?_) ht.symm))
    cases t <;> first | rfl | exact absurd hl nofun
  | moves hm hact => exact hm.atWait hact hw
  | aborts _ hgone hact hlog => exact .aborted hact hgone hlog

theorem AtWait.stays (h : AtWait act id s s') : s'.task? id = none
    ∨ s'.awaited? id = s.awaited? id ∧ s'.exchange? id = s.exchange? id := by
  cases h with
  | same hsame => exact Or.inr ⟨awaited?_congr hsame, exchange?_congr hsame⟩
  | nearer he he' =>
    exact Or.inr ⟨(awaited?_of_exchange? he').trans (awaited?_of_exchange? he).symm,
      he'.trans he.symm⟩
  | looked ht hw _ ht' hw' =>
    obtain ⟨hl, hnone⟩ := Stage.waits_only hw
    obtain ⟨hl', hnone'⟩ := Stage.waits_only hw'
    refine Or.inr ⟨?_, ?_⟩
    · rw [awaited?_of_task? ht', awaited?_of_task? ht, hl, hl']
    · rw [exchange?_of_task? ht', exchange?_of_task? ht, hnone, hnone']
  | ended _ hgone | aborted _ hgone => exact Or.inl hgone

theorem AtWait.goes (h : AtWait act id s s') (hthere : s.task? id ≠ none)
    (hgone : s'.task? id = none) :
    (∃ outcome new, Ceases id s outcome ∧ s'.log = s.log ++ (new ++ [.finished id outcome])
        ∧ Besides id new)
      ∨ act = .abort id ∧ s'.log = s.log := by
  cases h with
  | same heq => exact absurd (heq.symm.trans hgone) hthere
  | nearer _ he => exact absurd ((exchange?_of_gone hgone).symm.trans he) nofun
  | looked _ _ _ ht => exact absurd ht (ne_of_gone hgone)
  | ended _ _ hceases hlog =>
    obtain ⟨new, hlog, hbesides⟩ := hlog
    exact Or.inl ⟨_, new, hceases, hlog, hbesides⟩
  | aborted hact _ hlog => exact Or.inr ⟨hact, hlog⟩

theorem Step.asks (h : Step act s s') {e : Exchange} (he : s'.exchange? id = some e) :
    s.exchange? id = some e ∨ e.listener = s.registry.nextId ∧ s.current = some e.line := by
  have hgone : s'.task? id ≠ none := fun hn => absurd ((exchange?_of_gone hn).symm.trans he) nofun
  cases h.atTask id with
  | same hsame => exact Or.inl ((exchange?_congr hsame).symm.trans he)
  | starts _ _ _ hfresh => exact absurd ((exchange?_of_task? hfresh).symm.trans he) nofun
  | @told t ht htold =>
    rw [exchange?_of_task? htold, Stage.exchange?_noticeLoss] at he
    exact Or.inl ((exchange?_of_task? ht).trans he)
  | moves hm =>
    cases hm.own with
    | without _ hnone => exact absurd (hnone.symm.trans he) nofun
    | begins _ _ _ hp he' =>
      obtain rfl := Option.some.inj (he'.symm.trans he)
      exact Or.inr ⟨rfl, current_of_prepare hp⟩
    | goesOn hold hnew => exact Or.inl (hold.trans (hnew.symm.trans he))
    | ends _ _ hnone => exact absurd hnone hgone
  | aborts _ hnone => exact absurd hnone hgone

theorem Step.peek (h : Step act s s') (hl : s.Listening) (hgiven : k < s.registry.nextId)
    (hnone : s.registry.listener? k = none) (hsettled : s.registry.peek k ≠ .pending) :
    s'.registry.peek k = s.registry.peek k ∨ s'.registry.peek k = .closed := by
  cases h.atRegistry hl with
  | same hr => exact Or.inl (hr ▸ rfl)
  | registers l _ hr => exact Or.inl (hr ▸ (hl.sound.same_register l hgiven).peek_eq)
  | fades hf => exact (hf k).peek hsettled
  | offers c hr => exact Or.inl (hr ▸ hl.sound.peek_dispatch c hnone)

theorem Step.tied (h : Step act s s') (hl : s.Listening) (htied : s.registry.Tied) :
    s'.registry.Tied := by
  cases h.atRegistry hl with
  | same hr => exact hr ▸ htied
  | registers l _ hr => exact hr ▸ htied.register hl.sound l
  | fades hf => exact htied.fades hf
  | offers c hr => exact hr ▸ htied.dispatch hl.sound c

theorem Steps.tied (h : Steps act s s') (hr : s.Regular) (htied : s.registry.Tied) :
    s'.registry.Tied := by
  induction h with
  | refl => exact htied
  | tail hbefore hstep ih => exact hstep.tied (hr.steps hbefore).orderly.listening ih

theorem Lawful.tied (hs : s.Lawful) (htied : s.registry.Tied) (happenings : List Happening) :
    (s.happenAll happenings).registry.Tied := by
  induction happenings generalizing s with
  | nil => exact htied
  | cons h rest ih =>
    exact ih (hs.happen h) ((happen_steps hs.outline h).tied hs.regular htied)

theorem Sends.error {line : LineId} {cause : Fault}
    (h : Sends id line s s' (some (.error cause))) : cause = .notConnected := by
  generalize hresult : some (Except.error cause) = result at h
  cases h with
  | stray => exact Except.error.inj (Option.some.inj hresult)
  | goes _ hp => exact (hresult ▸ hp).error

/-- What a task that was pending may end with: a command that it had got before, or that there will be
none. -/
inductive Parting (s : Session) (id : TaskId) : Outcome → Prop where
  | answered {e : Exchange} {c : Command} : s.exchange? id = some e →
    s.registry.peek e.listener = .delivered c → Parting s id (e.purpose.outcome (.ok c))
  | received {k : ListenerId} {c : Command} : s.exchange? id = none → s.awaited? id = some k →
    s.registry.peek k = .delivered c → Parting s id (.response c)
  | cancelled : Parting s id (.failed .cancelled)
  | notConnected : s.exchange? id ≠ none → Parting s id (.failed .notConnected)

structure Aftermath (s s' : Session) : Prop where
  generation : s.generation ≤ s'.generation
  nextId : s.registry.nextId ≤ s'.registry.nextId
  current : ∀ line, s'.current = some line → s.generation < line
  unlistened : ∀ k < s.registry.nextId, s'.registry.listener? k = none
  settled : ∀ k < s.registry.nextId, s'.registry.peek k ≠ .pending
  delivered : ∀ k < s.registry.nextId, ∀ c, s'.registry.peek k = .delivered c →
    s.registry.peek k = .delivered c
  asks : ∀ id e, s'.exchange? id = some e →
    s.exchange? id = some e ∨ s.registry.nextId ≤ e.listener ∧ s.generation < e.line
  seats : ∀ id t line, s'.task? id = some t → t.line? = some line → line ≤ s.generation →
    t.exchange? ≠ none
  stays : ∀ id, s.Pending id → id < s'.nextTask ∧ s'.task? id = none
    ∨ s'.awaited? id = s.awaited? id ∧ s'.exchange? id = s.exchange? id
  record : ∃ new, s'.log = s.log ++ new ∧ ∀ id, s.Pending id →
    (∀ line bytes, .sent id line bytes ∉ new) ∧ ∀ o, .finished id o ∈ new → s.Parting id o

theorem disconnect_eq (hfree : s.resetLock.isHeld = false) : ∃ lines, s.disconnect
    = { s with
        registry := s.registry.clear, lines := lines, current := none, state := .disconnected
        fragments := [], hook := none } := by
  unfold disconnect
  rw [if_neg (Bool.eq_false_iff.mp hfree)]
  unfold closeCurrent
  dsimp only
  split <;> exact ⟨_, rfl⟩

theorem aftermath_disconnect (hs : s.Lawful) (htied : s.registry.Tied)
    (hfree : s.resetLock.isHeld = false) : s.Aftermath s.disconnect := by
  obtain ⟨lines, heq⟩ := disconnect_eq hfree
  have hsound := hs.regular.orderly.listening.sound
  rw [heq]
  refine ⟨Nat.le_refl _, Nat.le_refl _, fun _ hc => absurd hc nofun, fun _ _ => rfl,
    fun k _ => htied.settled_clear hsound k, fun k _ c hc => (hsound.fades_clear k).delivered hc,
    fun id e he => Or.inl he, fun id t line ht hline _ hnone => ?_, fun id _ => Or.inr ⟨rfl, rfl⟩,
    [], (List.append_nil _).symm, fun id _ =>
    ⟨fun _ _ => List.not_mem_nil, fun _ h => absurd h List.not_mem_nil⟩⟩
  -- it would be a reset that is past the lock
  have hpast : t.pastLock? = some true := by
    cases t <;> first
      | rfl
      | exact absurd hnone (Option.some_ne_none _)
      | exact absurd hline nofun
  have hheld := hs.custody.holder id ((custody_of_task? ht).trans hpast)
  have hfree : s.resetLock.holder.isSome = false := hfree
  rw [show s.resetLock.holder = some id from hheld] at hfree
  exact absurd hfree nofun

theorem Regular.line_known (hr : s.Regular) {e : Exchange} (he : s.exchange? id = some e) :
    e.line ≤ s.generation := by
  obtain ⟨t, ht, hte⟩ := Option.bind_eq_some_iff.mp he
  exact hr.linked.known _ (hr.linked.present id t _ ht (Stage.line?_of_exchange? hte))

theorem Aftermath.asked (h : s.Aftermath s') (hid : s.Pending id) {e : Exchange}
    (he : s'.exchange? id = some e) : s.exchange? id = some e := by
  rcases h.stays id hid with ⟨-, hgone⟩ | ⟨-, hsame⟩
  · exact absurd ((exchange?_of_gone hgone).symm.trans he) nofun
  · exact hsame.symm.trans he

theorem Aftermath.settled_at (h : s.Aftermath s') (hid : s.Pending id) {t : Stage}
    (ht : s'.task? id = some t) :
    ∃ k, t.listener? = some k ∧ s'.registry.peek k ≠ .pending := by
  rcases h.stays id hid with ⟨-, hgone⟩ | ⟨hsame, -⟩
  · exact absurd ht (ne_of_gone hgone)
  · obtain ⟨k, hk, hw⟩ := hid
    exact ⟨k, (awaited?_of_task? ht).symm.trans (hsame.trans hw), h.settled k hk⟩

theorem Aftermath.closed (h : s.Aftermath s') (hr : s'.Regular) {line : LineId} {l : Line}
    (hl : s'.line? line = some l) (hold : line ≤ s.generation) : l.link.closed = true := by
  by_contra hc
  have hused := hr.linked.used line l hl (Bool.eq_false_iff.mpr hc)
  exact absurd hold (Nat.not_le_of_lt (h.current line hused))

theorem Aftermath.silent (h : s.Aftermath s') (hs : s.Regular) (hid : s.Pending id)
    {line : LineId} (hr : s'.Regular) : ¬MayWrite act s' id line := by
  rintro ⟨-, hseat, l, hl, hopen⟩
  obtain ⟨t, ht, hsits⟩ := Option.bind_eq_some_iff.mp hseat
  obtain ⟨k, hk, -⟩ := h.settled_at hid ht
  cases t with
  | sending e =>
    obtain rfl := Option.some.inj hsits
    have hold := hs.line_known (h.asked hid (exchange?_of_task? ht))
    exact absurd (hopen.symm.trans (h.closed hr hl hold)) nofun
  | resetSending => exact absurd hk nofun
  | fresh | gated | answering | resetGated | resetWaiting | reconnecting | waiting | dozing =>
    exact absurd hsits nofun

theorem Aftermath.parting (h : s.Aftermath s') (hid : s.Pending id) {outcome : Outcome}
    (hceases : Ceases id s' outcome) (hthere : s'.awaited? id = s.awaited? id)
    (hsame : s'.exchange? id = s.exchange? id) : s.Parting id outcome := by
  obtain ⟨k, hk, hawaited⟩ := hid
  cases hceases with
  | @asked e result hends =>
    have he : s'.exchange? id = some e := by
      cases hends with
      | found ht | unsent ht => exact exchange?_of_task? ht
    have hlistener : e.listener = k :=
      Option.some.inj ((awaited?_of_exchange? he).symm.trans (hthere.trans hawaited))
    have hgiven : e.listener < s.registry.nextId := hlistener ▸ hk
    have hasked := hsame.symm.trans he
    have hfailed : ∀ cause, e.purpose.outcome (.error cause) = .failed cause := fun cause => by
      cases e.purpose <;> rfl
    cases hends with
    | found _ hfinds =>
      cases hfinds with
      | answer hc => exact .answered hasked (h.delivered _ hgiven _ hc)
      | cancelled => exact hfailed _ ▸ .cancelled
      | timeout hpending => exact absurd hpending (h.settled _ hgiven)
    | unsent _ hsends =>
      rw [hfailed, hsends.error]
      exact .notConnected (hasked ▸ Option.some_ne_none e)
  | @waited t k' _ ht hw hreceives =>
    obtain ⟨hl, hnone⟩ := Stage.waits_only hw
    obtain rfl : k' = k := by
      rw [awaited?_of_task? ht, hl, hawaited] at hthere
      exact Option.some.inj hthere
    cases hreceives with
    | answer hc =>
      exact .received (hsame.symm.trans ((exchange?_of_task? ht).trans hnone)) hawaited
        (h.delivered _ hk _ hc)
    | cancelled => exact .cancelled

theorem Aftermath.finished (h : s.Aftermath s₁) (hstep : Step act s₁ s₂) {more : List Event}
    (hlog : s₂.log = s₁.log ++ more) (hid : s.Pending id) {outcome : Outcome}
    (hm : .finished id outcome ∈ more) : s.Parting id outcome := by
  obtain ⟨new, hnew, hends⟩ := hstep.recorded
  obtain rfl : more = new := List.append_cancel_left (hlog.symm.trans hnew)
  have hpresent : ¬(s₁.task? id = none ∨ s₂.task? id ≠ none) := fun hno =>
    absurd (hends id hno _ hm) (by simp [Event.isEndOf])
  rw [not_or, not_not] at hpresent
  obtain ⟨hthere, hgone⟩ := hpresent
  rcases h.stays id hid with ⟨-, hnone⟩ | ⟨hawaited, hsame⟩
  · exact absurd hnone hthere
  · have hpending := hid
    obtain ⟨k, -, hk⟩ := hid
    rcases (hstep.atWait (hawaited.trans hk)).goes hthere hgone with
      ⟨o, before, hceases, hover, hbesides⟩ | ⟨-, hsilent⟩
    · obtain rfl : more = before ++ [_] := List.append_cancel_left (hlog.symm.trans hover)
      rcases List.mem_append.mp hm with hm | hm
      · exact absurd (hbesides _ hm).2 (by simp [Event.isEndOf])
      · obtain ⟨-, rfl⟩ := Event.finished.inj (List.mem_singleton.mp hm)
        exact h.parting hpending hceases hawaited hsame
    · obtain rfl : more = [] := List.append_cancel_left
        (hlog.symm.trans (hsilent.trans (List.append_nil _).symm))
      exact absurd hm List.not_mem_nil

theorem Aftermath.seated (h : s.Aftermath s₁) (hstep : Step act s₁ s₂)
    {t : Stage} {line : LineId} (ht : s₂.task? id = some t) (hline : t.line? = some line)
    (hold : line ≤ s.generation) : t.exchange? ≠ none := by
  rcases hstep.lineFrom ht hline with ⟨t₁, ht₁, hline₁⟩ | hc
  · obtain ⟨e, he⟩ := Option.ne_none_iff_exists'.mp (h.seats id t₁ line ht₁ hline₁ hold)
    have hasked := (exchange?_of_task? ht₁).trans he
    rcases (hstep.atWait (awaited?_of_exchange? hasked)).stays with hgone | ⟨-, hsame⟩
    · exact absurd ht (ne_of_gone hgone)
    · rw [← exchange?_of_task? ht, hsame, hasked]
      exact Option.some_ne_none e
  · exact absurd hold (Nat.not_le_of_lt (h.current line hc))

theorem Aftermath.stayed (h : s.Aftermath s₁) (hr : s₁.Regular) (hstep : Step act s₁ s₂)
    (hid : s.Pending id) : id < s₂.nextTask ∧ s₂.task? id = none
      ∨ s₂.awaited? id = s.awaited? id ∧ s₂.exchange? id = s.exchange? id := by
  rcases h.stays id hid with ⟨hknown, hgone⟩ | ⟨hawaited, hsame⟩
  · exact Or.inl (hstep.gone hknown hgone)
  · obtain ⟨k, -, hk⟩ := hid
    have hwaits := hawaited.trans hk
    obtain ⟨t, ht, -⟩ := Option.bind_eq_some_iff.mp hwaits
    have hknown := hr.orderly.listening.known id (ne_none_of_task? ht)
    rcases (hstep.atWait hwaits).stays with hgone | ⟨hawaited', hsame'⟩
    · exact Or.inl ⟨Nat.lt_of_lt_of_le hknown hstep.nextTask_le, hgone⟩
    · exact Or.inr ⟨hawaited'.trans hawaited, hsame'.trans hsame⟩

theorem Aftermath.step (h : s.Aftermath s₁) (hs : s.Regular) (hr : s₁.Regular)
    (hstep : Step act s₁ s₂) : s.Aftermath s₂ := by
  have hl := hr.orderly.listening
  have hgiven : ∀ {k}, k < s.registry.nextId → k < s₁.registry.nextId :=
    fun hk => Nat.lt_of_lt_of_le hk h.nextId
  -- an old listener is gone, so its slot changes only by being read or dropped
  have hpeek : ∀ k < s.registry.nextId, s₂.registry.peek k = s₁.registry.peek k
      ∨ s₂.registry.peek k = .closed :=
    fun k hk => hstep.peek hl (hgiven hk) (h.unlistened k hk) (h.settled k hk)
  have hcurrent : s.generation ≤ s₂.generation
      ∧ ∀ line, s₂.current = some line → s.generation < line := by
    rcases hstep.current with ⟨hc, hg⟩ | ⟨-, ⟨hc, hg⟩ | ⟨hc, hg, -⟩⟩
    · exact ⟨hg ▸ h.generation, hc ▸ h.current⟩
    · exact ⟨hg ▸ h.generation, fun line hline => absurd (hc.symm.trans hline) nofun⟩
    · refine ⟨hg ▸ Nat.le_succ_of_le h.generation, fun line hline => ?_⟩
      obtain rfl := Option.some.inj (hc.symm.trans hline)
      exact Nat.lt_succ_of_le h.generation
  refine ⟨hcurrent.1, Nat.le_trans h.nextId (hstep.nextId_le hl), hcurrent.2,
    fun k hk => hstep.unlistened hl (hgiven hk) (h.unlistened k hk), fun k hk => ?_,
    fun k hk c hc => ?_, fun id e he => ?_, fun id t line ht hline => h.seated hstep ht hline,
    fun id hid => h.stayed hr hstep hid, ?_⟩
  · rcases hpeek k hk with hsame | hclosed
    · exact hsame ▸ h.settled k hk
    · rw [hclosed]
      exact nofun
  · rcases hpeek k hk with hsame | hclosed
    · exact h.delivered k hk c (hsame.symm.trans hc)
    · exact absurd (hclosed.symm.trans hc) nofun
  · rcases hstep.asks he with hold | ⟨hlistener, hc⟩
    · exact h.asks id e hold
    · exact Or.inr ⟨hlistener ▸ h.nextId, h.current _ hc⟩
  · obtain ⟨new, hlog, hnew⟩ := h.record
    obtain ⟨more, hmore, hsent⟩ := hstep.writesDuly
    refine ⟨new ++ more, by rw [hmore, hlog, List.append_assoc], fun id hid =>
      ⟨fun line bytes hm => ?_, fun o hm => ?_⟩⟩
    · rcases List.mem_append.mp hm with hm | hm
      · exact (hnew id hid).1 line bytes hm
      · exact h.silent hs hid hr (hsent id line bytes hm)
    · rcases List.mem_append.mp hm with hm | hm
      · exact (hnew id hid).2 o hm
      · exact h.finished hstep hmore hid hm

theorem Aftermath.steps (h : s.Aftermath s₁) (hs : s.Regular) (hr : s₁.Regular)
    (hsteps : Steps act s₁ s₂) : s.Aftermath s₂ := by
  induction hsteps with
  | refl => exact h
  | tail hbefore hstep ih => exact ih.step hs (hr.steps hbefore) hstep

end

end Session

end NcpHost
