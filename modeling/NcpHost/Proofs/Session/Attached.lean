import NcpHost.Proofs.Session.Revival

/-! What a reset says that waited for the module and succeeded. It has either connected again in that very
turn, or it was not told of a loss for as long as it waits for one. Whatever takes the line in use away
tells it, with one exception: somebody who disconnects tells nobody. So the session uses a line when the
reset returns, unless it has disconnected in the meantime and was not attached to anything since. -/

namespace NcpHost.Session

inductive Phase where
  | pending
  /-- It has its request at a link, or waits for the module, and was told of no loss. -/
  | unwarned
  | warned
  deriving DecidableEq, Repr

def Stage.phase? : Stage → Option Phase
  | fresh (.reset _ true) => some .pending
  | resetGated _ true => some .pending
  | resetSending _ true false => some .unwarned
  | resetWaiting _ false => some .unwarned
  | resetSending _ true true => some .warned
  | resetWaiting _ true => some .warned
  | reconnecting _ _ => some .warned
  | _ => none

def phase? (s : Session) (id : TaskId) : Option Phase := (s.task? id).bind Stage.phase?

section

variable {s s' : Session} {act : Act} {id : TaskId} {line : LineId} {p : Phase} {t : Stage}
  {h : Happening}

theorem phase?_of_task? (ht : s.task? id = some t) : s.phase? id = t.phase? := by
  rw [phase?, ht, Option.bind_some]

theorem present_of_phase? (hp : s.phase? id = some p) : s.task? id ≠ none := by
  obtain ⟨t, ht, -⟩ := Option.bind_eq_some_iff.mp hp
  exact ne_none_of_task? ht

theorem Stage.eq_of_pending (h : t.phase? = some .pending) :
    (∃ option, t = .fresh (.reset option true)) ∨ ∃ request, t = .resetGated request true := by
  unfold phase? at h
  split at h <;> simp_all

theorem Stage.eq_of_unwarned (h : t.phase? = some .unwarned) :
    (∃ line, t = .resetSending line true false) ∨ ∃ deadline, t = .resetWaiting deadline false := by
  unfold phase? at h
  split at h <;> simp_all

theorem Stage.eq_of_warned (h : t.phase? = some .warned) :
    (∃ line, t = .resetSending line true true) ∨ (∃ deadline, t = .resetWaiting deadline true)
      ∨ ∃ attempt due, t = .reconnecting attempt due := by
  unfold phase? at h
  split at h <;> simp_all

theorem Stage.phase?_noticeLoss (h : t.phase? = some p) :
    t.noticeLoss.phase? = some (if p = .unwarned then .warned else p) := by
  unfold phase? at h
  split at h <;> cases h <;> rfl

theorem task?_proceedSend (s : Session) (id : TaskId) (line : LineId) (k : TaskId) :
    (s.proceedSend id line).1.task? k = s.task? k := by
  obtain ⟨s', agenda, -, hsends, heq⟩ := s.sends_proceedSend id line
  rw [heq]
  exact hsends.task? k

theorem finished_proceedSend {o : Outcome} {k : TaskId}
    (h : .finished k o ∈ (s.proceedSend id line).1.log) : .finished k o ∈ s.log := by
  obtain ⟨s', agenda, -, hsends, heq⟩ := s.sends_proceedSend id line
  obtain ⟨line', writes, hlog⟩ := hsends.writes.log
  rw [heq] at h
  rcases List.mem_append.mp (hlog ▸ h : _ ∈ s.log ++ writes.map (.sent id line')) with hold | hnew
  · exact hold
  · obtain ⟨_, -, hsent⟩ := List.mem_map.mp hnew
    cases hsent

def Phase.knowing (lossSeen : Bool) : Phase := if lossSeen then .warned else .unwarned

theorem phase?_resetSent (hid : s.task? id ≠ none) (lossSeen : Bool) :
    (s.resetSent id true lossSeen).phase? id = some (.knowing lossSeen) := by
  cases lossSeen with
  | true =>
    obtain ⟨due, hslept⟩ := task?_sleepBefore hid 1
    exact phase?_of_task? hslept
  | false => exact phase?_of_task? (task?_suspend_self hid _)

theorem phase?_resumeResetSending {s₀ : Session} (hr : s₀.Regular) (hid : s₀.task? id ≠ none)
    (htask : s.task? id = s₀.task? id) (hlog : s.log = s₀.log) (line : LineId) (lossSeen : Bool) :
    (s.resumeResetSending id line true lossSeen).phase? id = some (.knowing lossSeen)
      ∨ ∃ cause, (s.resumeResetSending id line true lossSeen).Over id (.failed cause) := by
  have hthere : (s.proceedSend id line).1.task? id ≠ none := by
    rwa [task?_proceedSend, htask]
  have hended : ∀ o, .finished id o ∈ (s.proceedSend id line).1.log → .finished id o ∈ s₀.log :=
    fun o ho => hlog ▸ finished_proceedSend ho
  unfold resumeResetSending
  generalize s.proceedSend id line = sent at hthere hended
  obtain ⟨s₁, _ | cause | _⟩ := sent
  · refine Or.inl ((phase?_of_task? (task?_suspend_self hthere _)).trans ?_)
    cases lossSeen <;> rfl
  · exact Or.inr ⟨cause, over_endReset hr hid hended _⟩
  · exact Or.inl (phase?_resetSent hthere lossSeen)

inductive ResetTurn (id : TaskId) (s s' : Session) : Phase → Prop where
  | lingers : s'.phase? id = some .pending → ResetTurn id s s' .pending
  | asks : s.current ≠ none → s'.current = s.current → s'.phase? id = some .unwarned →
    ResetTurn id s s' .pending
  | waits : s'.current = s.current → s'.phase? id = some .unwarned → ResetTurn id s s' .unwarned
  | gives {deadline : Nat} : s.task? id = some (.resetWaiting deadline false) →
    deadline ≤ s.agenda.now → s'.current = s.current → s'.Over id .done →
    ResetTurn id s s' .unwarned
  | pursues : s'.phase? id = some .warned → ResetTurn id s s' .warned
  | revives {attempt due : Nat} : s.task? id = some (.reconnecting attempt due) →
    s.connect.2 = .ok () → s'.current ≠ none → s'.Over id .done → ResetTurn id s s' .warned
  | fails {p : Phase} {cause : Fault} : s'.Over id (.failed cause) → ResetTurn id s s' p

theorem resetTurn_sendReset {s₀ : Session} (hr : s₀.Regular) (hid : s₀.task? id ≠ none)
    (htask : s.task? id = s₀.task? id) (hlog : s.log = s₀.log) (hcurrent : s.current = s₀.current)
    (request : Frame) : ResetTurn id s₀ (s.sendReset id request true) .pending := by
  have hkept : (s.sendReset id request true).current = s₀.current :=
    (congrArg Outline.current (outline_sendReset s id request true)).trans hcurrent
  generalize hafter : s.sendReset id request true = s' at hkept
  unfold sendReset at hafter
  split at hafter
  · subst hafter
    exact .fails (over_endReset hr hid (fun o ho => hlog ▸ ho) _)
  · next line hline =>
    have hon : s₀.current ≠ none := by
      rw [← hcurrent, hline]
      exact nofun
    subst hafter
    rcases phase?_resumeResetSending (s := s.enterSend id line request) hr hid htask hlog line false
      with hphase | ⟨cause, hover⟩
    · exact .asks hon hkept hphase
    · exact .fails hover

theorem resetTurn_startReset (hr : s.Regular) (hid : s.task? id ≠ none)
    (option : Standard.ResetOption) : ResetTurn id s (s.startReset id option true) .pending := by
  unfold startReset
  dsimp only
  split
  · exact .fails (over_finish hr hid s.takeTsn.1 (fun o ho => ho) _)
  · next request _ =>
    let joined : Session := { s.takeTsn.1 with resetLock := s.takeTsn.1.resetLock.join id }
    split
    · exact resetTurn_sendReset (s := joined) hr hid rfl rfl rfl request
    · exact .lingers (phase?_of_task? (task?_suspend_self (s := joined) hid _))

theorem resetTurn_pending (hr : s.Regular) (ht : s.task? id = some t)
    (hp : t.phase? = some .pending) : ResetTurn id s (s.turnTask id) .pending := by
  have hid := ne_none_of_task? ht
  rcases Stage.eq_of_pending hp with ⟨option, rfl⟩ | ⟨request, rfl⟩
  · rw [turnTask, ht]
    exact resetTurn_startReset hr hid option
  · rw [turnTask, ht]
    dsimp only
    unfold resumeResetGated
    split
    · exact resetTurn_sendReset hr hid rfl rfl rfl request
    · exact .lingers (phase?_of_task? ht)

theorem resetTurn_unwarned (hr : s.Regular) (ht : s.task? id = some t)
    (hp : t.phase? = some .unwarned) : ResetTurn id s (s.turnTask id) .unwarned := by
  have hid := ne_none_of_task? ht
  rcases Stage.eq_of_unwarned hp with ⟨line, rfl⟩ | ⟨deadline, rfl⟩
  · rw [turnTask, ht]
    have hkept := congrArg Outline.current (outline_resumeResetSending s id line true false)
    rcases phase?_resumeResetSending hr hid rfl rfl line false with hphase | ⟨cause, hover⟩
    · exact .waits hkept hphase
    · exact .fails hover
  · have hkept := congrArg Outline.current (outline_resumeResetWaiting s id deadline false)
    have hturn : s.turnTask id = s.resumeResetWaiting id deadline false := by
      rw [turnTask, ht]
    rw [hturn]
    by_cases hdue : deadline ≤ s.agenda.now
    · have hends : s.resumeResetWaiting id deadline false = s.endReset id .done := if_pos hdue
      refine .gives ht hdue hkept ?_
      rw [hends]
      exact over_endReset hr hid (fun o ho => ho) _
    · have hstays : s.resumeResetWaiting id deadline false = s := if_neg hdue
      refine .waits hkept ?_
      rw [hstays]
      exact phase?_of_task? ht

theorem current_connect (h : s.connect.2 = .ok ()) : s.connect.1.current ≠ none := by
  unfold connect at h ⊢
  split at h
  · cases h
  · split at h
    · next hoff hopens =>
      rw [if_neg hoff, if_pos hopens]
      exact nofun
    · cases h

theorem resetTurn_warned (hr : s.Regular) (ht : s.task? id = some t)
    (hp : t.phase? = some .warned) : ResetTurn id s (s.turnTask id) .warned := by
  have hid := ne_none_of_task? ht
  rcases Stage.eq_of_warned hp with ⟨line, rfl⟩ | ⟨deadline, rfl⟩ | ⟨attempt, due, rfl⟩
  · rw [turnTask, ht]
    rcases phase?_resumeResetSending hr hid rfl rfl line true with hphase | ⟨cause, hover⟩
    · exact .pursues hphase
    · exact .fails hover
  · rw [turnTask, ht]
    obtain ⟨due, hslept⟩ := task?_sleepBefore hid 1
    exact .pursues (phase?_of_task? hslept)
  · cases tries hr ht with
    | early _ hsame => exact .pursues (hsame.symm ▸ phase?_of_task? ht)
    | again _ _ _ hslept => exact .pursues (phase?_of_task? hslept)
    | fails _ _ _ hover => exact .fails hover
    | succeeds hdue hok hover =>
      refine .revives ht hok ?_ hover
      have hturn : s.turnTask id = s.resumeReconnecting id attempt due := by
        rw [turnTask, ht]
      have hends : s.resumeReconnecting id attempt due = s.connect.1.endReset id .done := by
        unfold resumeReconnecting
        rw [if_neg (Nat.not_lt.mpr hdue),
          show s.connect = (s.connect.1, .ok ()) from Prod.ext rfl hok]
      rw [hturn, hends]
      exact current_connect hok

theorem resetTurn (hr : s.Regular) (hp : s.phase? id = some p) :
    ResetTurn id s (s.turnTask id) p := by
  obtain ⟨t, ht, hstage⟩ := Option.bind_eq_some_iff.mp hp
  cases p with
  | pending => exact resetTurn_pending hr ht hstage
  | unwarned => exact resetTurn_unwarned hr ht hstage
  | warned => exact resetTurn_warned hr ht hstage

theorem connect_of_current (hc : s.current = some line) : s.connect.1 = s := by
  unfold connect
  rw [if_pos]
  rw [isConnected, hc]
  rfl

theorem disconnects_or_loses (hs : s.Lawful) (hc : s.current = some line)
    (hgone : (s.happen h).current = none) : h = .act .disconnect ∨ Loses line s (s.happen h) := by
  have hstays : (s.happen h).current = s.current →
      h = .act .disconnect ∨ Loses line s (s.happen h) :=
    fun hsame => absurd ((hgone.symm.trans hsame).trans hc) nofun
  have hconnects : ∀ s' : Session, s'.outline = s.connect.1.outline →
      s'.current = s.current := fun s' heq =>
    (congrArg Outline.current heq).trans (congrArg Session.current (connect_of_current hc))
  -- what comes from a line concerns the session only if it is the one in use
  cases hh : h.line? with
  | some k =>
    by_cases hk : s.current = some k
    · obtain rfl := Option.some.inj (hc.symm.trans hk)
      exact Or.inr (loses_happen hs hh hc hgone)
    · exact hstays (aside_happen hs.outline hh hk).current
  | none =>
    cases h with
    | report | late => cases hh
    | device => exact hstays rfl
    | act act =>
      cases act with
      | disconnect => exact Or.inl rfl
      | attach => cases hgone
      | connect =>
        exact hstays (hconnects _ (congrArg outline (perform_connect s)))
      | setHook | takeTsn | start | remove | cancel | release | elapse | queue => exact hstays rfl
      | arrive => exact hstays rfl
      | abort k => exact hstays (congrArg Outline.current (outline_abort s k))
      | await patterns =>
        exact hstays (congrArg Outline.current (outline_replyListener_await s patterns))
      | subscribe patterns callback =>
        exact hstays (congrArg Outline.current (outline_replyListener_subscribe s patterns callback))
      | hangUp | breakReading | breakWriting => cases hh
      | turn worker =>
        cases worker with
        | reader | writer => cases hh
        | task k =>
          rcases outline_turnTask s k with heq | heq
          · exact hstays (congrArg Outline.current heq)
          · exact hstays (hconnects _ heq)

/-- While a reset had its request at a link or waited for the module, and was told of no loss, the session
disconnected from the line in use, and since then it has not used any. -/
def Unplugged (s : Session) (during : List Happening) (id : TaskId) : Prop :=
  ∃ before after, during = before ++ .act .disconnect :: after
    ∧ (s.happenAll before).phase? id = some .unwarned ∧ (s.happenAll before).current ≠ none
    ∧ ∀ since, since <+: after →
      (s.happenAll (before ++ .act .disconnect :: since)).current = none

variable {during : List Happening}

theorem Unplugged.off (hu : s.Unplugged during id) : (s.happenAll during).current = none := by
  obtain ⟨before, after, rfl, -, -, hsince⟩ := hu
  exact hsince after (List.prefix_refl after)

theorem Unplugged.concat (hu : s.Unplugged during id)
    (hoff : (s.happenAll (during ++ [h])).current = none) : s.Unplugged (during ++ [h]) id := by
  obtain ⟨before, after, rfl, hphase, hon, hsince⟩ := hu
  have hsplit : before ++ .act .disconnect :: after ++ [h]
      = before ++ .act .disconnect :: (after ++ [h]) := by
    rw [List.append_assoc, List.cons_append]
  refine ⟨before, after ++ [h], hsplit, hphase, hon, fun since hprefix => ?_⟩
  rcases List.prefix_concat_iff.mp hprefix with rfl | hshorter
  · exact hsplit ▸ hoff
  · exact hsince since hshorter

theorem unplugged_now (hphase : (s.happenAll during).phase? id = some .unwarned)
    (hon : (s.happenAll during).current ≠ none) :
    s.Unplugged (during ++ [.act .disconnect]) id := by
  refine ⟨during, [], rfl, hphase, hon, fun since hprefix => ?_⟩
  rw [List.prefix_nil.mp hprefix, happenAll_concat]
  rfl

theorem in_use_or_unplugged (hphase : (s.happenAll during).phase? id = some .unwarned)
    (hnow : (s.happenAll during).current ≠ none ∨ s.Unplugged during id)
    (honly : (s.happenAll during).current ≠ none → (s.happenAll (during ++ [h])).current = none →
      h = .act .disconnect) :
    (s.happenAll (during ++ [h])).current ≠ none ∨ s.Unplugged (during ++ [h]) id := by
  by_cases hoff : (s.happenAll (during ++ [h])).current = none
  · refine Or.inr ?_
    rcases hnow with hon | hu
    · rw [honly hon hoff]
      exact unplugged_now hphase hon
    · exact hu.concat hoff
  · exact Or.inl hoff

/-- A reset is over, or in one of its phases; and if it was told of no loss, the session uses a line or
has disconnected. -/
structure Watched (s : Session) (during : List Happening) (id : TaskId) : Prop where
  known : id < (s.happenAll during).nextTask
  phase : (s.happenAll during).task? id = none ∨ ∃ p, (s.happenAll during).phase? id = some p
    ∧ (p = .unwarned → (s.happenAll during).current ≠ none ∨ s.Unplugged during id)

theorem phase_of_other (hs : s.Lawful) (hp : s.phase? id = some p)
    (hown : h ≠ .act (.turn (.task id))) (hkept : h ≠ .act (.abort id)) :
    ∃ p', (s.happen h).phase? id = some p' ∧ (p' = .unwarned → p = .unwarned
      ∧ (s.current ≠ none → (s.happen h).current = none → h = .act .disconnect)) := by
  obtain ⟨t, ht, hstage⟩ := Option.bind_eq_some_iff.mp hp
  have hown' : h.asAct ≠ .turn (.task id) := fun heq =>
    hown (Happening.eq_of_asAct heq nofun nofun)
  have hkept' : h.asAct ≠ .abort id := fun heq => hkept (Happening.eq_of_asAct heq nofun nofun)
  have htold := Stage.phase?_noticeLoss hstage
  have hwarned : (if p = .unwarned then Phase.warned else p) ≠ .unwarned := by
    split
    · exact nofun
    · next hne => exact hne
  rcases (happen_steps hs.outline h).notices hown' hkept' ht with hsame | hnoticed
  · refine ⟨p, (phase?_of_task? hsame).trans hstage, fun hunwarned => ⟨hunwarned, fun hon hoff => ?_⟩⟩
    obtain ⟨line, hc⟩ := Option.ne_none_iff_exists'.mp hon
    refine (disconnects_or_loses hs hc hoff).resolve_right fun hlost => ?_
    have hnoticed : (s.happen h).phase? id = t.noticeLoss.phase? :=
      phase?_of_task? (by rw [hlost.told, ht, Option.map_some])
    have hphase : (s.happen h).phase? id = some p := (phase?_of_task? hsame).trans hstage
    exact hwarned ((Option.some.inj (htold.symm.trans (hnoticed.symm.trans hphase))).trans hunwarned)
  · exact ⟨_, (phase?_of_task? hnoticed).trans htold, fun hunwarned => absurd hunwarned hwarned⟩

theorem Watched.concat (ha : s.Watched during id) (hs : s.Lawful) (h : Happening) :
    s.Watched (during ++ [h]) id := by
  have hs' : (s.happenAll during).Lawful := hs.happenAll during
  have hsteps := happen_steps hs'.outline h
  refine ⟨?_, ?_⟩
  · rw [happenAll_concat]
    exact Nat.lt_of_lt_of_le ha.known hsteps.nextTask_le
  rcases ha.phase with hgone | ⟨p, hp, haccount⟩
  · refine Or.inl ?_
    rw [happenAll_concat]
    exact (hsteps.gone ha.known hgone).2
  -- without a warning the line in use goes by a disconnect only
  have hkeeps : p = .unwarned →
      ((s.happenAll during).current ≠ none → (s.happenAll (during ++ [h])).current = none →
        h = .act .disconnect) →
      (s.happenAll (during ++ [h])).current ≠ none ∨ s.Unplugged (during ++ [h]) id := by
    rintro rfl honly
    exact in_use_or_unplugged hp (haccount rfl) honly
  have hsame : (s.happenAll (during ++ [h])).current = (s.happenAll during).current →
      (s.happenAll during).current ≠ none → (s.happenAll (during ++ [h])).current = none →
      h = .act .disconnect := fun heq hon hoff => absurd (heq.symm.trans hoff) hon
  rw [happenAll_concat] at hkeeps hsame ⊢
  by_cases hkept : h = .act (.abort id)
  · subst hkept
    exact Or.inl ((task?_abort _ id id).trans (if_pos rfl))
  by_cases hown : h = .act (.turn (.task id))
  · subst hown
    have hturn := resetTurn hs'.regular hp
    show ((s.happenAll during).turnTask id).task? id = none ∨ _
    cases hturn with
    | lingers hphase => exact Or.inr ⟨_, hphase, nofun⟩
    | asks hon hcurrent hphase => exact Or.inr ⟨_, hphase, fun _ => Or.inl (hcurrent ▸ hon)⟩
    | waits hcurrent hphase => exact Or.inr ⟨_, hphase, fun _ => hkeeps rfl (hsame hcurrent)⟩
    | pursues hphase => exact Or.inr ⟨_, hphase, nofun⟩
    | gives _ _ _ hover | revives _ _ _ hover | fails hover => exact Or.inl hover.gone
  · obtain ⟨p', hphase, honly⟩ := phase_of_other hs' hp hown hkept
    exact Or.inr ⟨p', hphase, fun hunwarned =>
      hkeeps (honly hunwarned).1 (honly hunwarned).2⟩

theorem watched (hs : s.Lawful) (hp : s.phase? id = some .pending) (during : List Happening) :
    s.Watched during id := by
  induction during using List.reverseRecOn with
  | nil =>
    exact ⟨hs.regular.orderly.listening.known id (present_of_phase? hp), Or.inr ⟨_, hp, nofun⟩⟩
  | append_singleton earlier h ih => exact ih.concat hs h

theorem Steps.ended_of_gone (h : Steps act s s') (hid : id < s.nextTask) (hgone : s.task? id = none)
    {o : Outcome} (ho : .finished id o ∈ s'.log) : .finished id o ∈ s.log := by
  induction h with
  | refl => exact ho
  | tail hsteps hstep ih =>
    obtain ⟨new, hlog, hnew⟩ := hstep.recorded
    rw [hlog] at ho
    rcases List.mem_append.mp ho with hold | hm
    · exact ih hold
    · exact absurd (hnew id (Or.inl (Steps.gone hsteps hid hgone).2) _ hm) (by simp [Event.isEndOf])

/-- A reset that is to wait for the module ends in its own turn. If it ends well, it has given up to wait
for a loss, or has connected again. -/
theorem ends_well (hs : s.Lawful) (hp : s.phase? id = some p) (hbefore : .finished id .done ∉ s.log)
    (hends : .finished id .done ∈ (s.happen h).log) :
    h = .act (.turn (.task id))
      ∧ ((∃ attempt due, s.task? id = some (.reconnecting attempt due) ∧ s.connect.2 = .ok ()
          ∧ (s.happen h).current ≠ none)
        ∨ p = .unwarned ∧ (s.happen h).current = s.current
          ∧ ∃ deadline, s.task? id = some (.resetWaiting deadline false)
            ∧ deadline ≤ s.agenda.now) := by
  have hgone : (s.happen h).task? id = none := ((hs.happen h).regular.orderly.ended id _ hends).2
  have hover : ∀ {p'}, (s.happen h).phase? id ≠ some p' := fun hp' => present_of_phase? hp' hgone
  by_cases hkept : h = .act (.abort id)
  · subst hkept
    exact absurd (log_abort s id ▸ hends) hbefore
  by_cases hown : h = .act (.turn (.task id))
  · refine ⟨hown, ?_⟩
    subst hown
    cases resetTurn hs.regular hp with
    | lingers hphase | asks _ _ hphase | waits _ hphase | pursues hphase => exact absurd hphase hover
    | gives ht hdue hcurrent => exact Or.inr ⟨rfl, hcurrent, _, ht, hdue⟩
    | revives ht hok hon => exact Or.inl ⟨_, _, ht, hok, hon⟩
    | fails hfailed => exact absurd (hfailed.only _ hends) nofun
  · obtain ⟨p', hphase, -⟩ := phase_of_other hs hp hown hkept
    exact absurd hphase hover

def Event.endsWell (id : TaskId) : Event → Bool
  | .finished k .done => k == id
  | _ => false

theorem any_endsWell {log : List Event} :
    log.any (Event.endsWell id) = true ↔ .finished id .done ∈ log := by
  rw [List.any_eq_true]
  constructor
  · rintro ⟨e, he, hend⟩
    unfold Event.endsWell at hend
    split at hend
    · exact eq_of_beq hend ▸ he
    · cases hend
  · exact fun h => ⟨_, h, beq_self_eq_true id⟩

instance {log : List Event} : Decidable (.finished id .done ∈ log) :=
  decidable_of_iff _ any_endsWell

end

/-- Somebody asks for a reset that waits for the module, and whatever happens besides, it ends well at some
time, which is in its own turn. Then it has either connected again in this turn, or its time has passed
and it was told of no loss; and in that case the session uses no line exactly if it disconnected while
the reset had its request at a link or waited, and used none since. So if it did not disconnect in that
time, it uses a line. -/
theorem reset_leaves_attached (config : Config) (catalog : Catalog) (deviceOpens : Bool)
    (before during : List Happening) (h : Happening) (option : Standard.ResetOption) :
    let s := (new config catalog deviceOpens).happenAll before
    let id := s.nextTask
    let asked := s.happen (.act (.start (.reset option true)))
    let last := asked.happenAll during
    .finished id .done ∉ last.log → .finished id .done ∈ (last.happen h).log →
      h = .act (.turn (.task id))
      ∧ ((∃ attempt due, last.task? id = some (.reconnecting attempt due)
          ∧ last.connect.2 = .ok () ∧ (last.happen h).isConnected = true)
        ∨ ∃ deadline, last.task? id = some (.resetWaiting deadline false)
          ∧ deadline ≤ last.agenda.now
          ∧ ((last.happen h).isConnected = false ↔ asked.Unplugged during id))
      ∧ ((∀ earlier later, during = earlier ++ .act .disconnect :: later →
          (asked.happenAll earlier).phase? id ≠ some .unwarned) →
        (last.happen h).isConnected = true) := by
  intro s id asked last hbefore hends
  have hs : s.Lawful := (lawful_new config catalog deviceOpens).happenAll before
  have hasked : asked.Lawful := hs.happen _
  have hlast : last.Lawful := hasked.happenAll during
  have hunused := hs.regular.orderly.listening.unused
  have hfresh : asked.task? id = some (.fresh (.reset option true)) :=
    (task?_spawn hunused (.reset option true) id).trans (if_pos rfl)
  have ha := watched hasked (phase?_of_task? hfresh) during
  rcases ha.phase with hgone | ⟨p, hp, haccount⟩
  · exact absurd ((happen_steps hlast.outline h).ended_of_gone ha.known hgone hends) hbefore
  -- being connected is read off the line in use
  have hon : ∀ {s' : Session}, s'.isConnected = true ↔ s'.current ≠ none := by
    intro s'
    exact Option.isSome_iff_ne_none
  obtain ⟨hturn, ⟨attempt, due, ht, hok, hconnected⟩ | ⟨hunwarned, hcurrent, deadline, ht, hdue⟩⟩ :=
    ends_well hlast hp hbefore hends
  · exact ⟨hturn, Or.inl ⟨attempt, due, ht, hok, hon.mpr hconnected⟩, fun _ => hon.mpr hconnected⟩
  · have hoff : (last.happen h).isConnected = false ↔ asked.Unplugged during id := by
      rw [← Bool.not_eq_true, hon, hcurrent, not_not]
      exact ⟨(haccount hunwarned).neg_resolve_left, fun hu => hu.off⟩
    refine ⟨hturn, Or.inr ⟨deadline, ht, hdue, hoff⟩, fun hnever => ?_⟩
    rw [← Bool.not_eq_false, hoff]
    rintro ⟨earlier, later, hsplit, hphase, -⟩
    exact hnever earlier later hsplit hphase

/-- A module acknowledges the request and drops no line. Meanwhile somebody disconnects and attaches
another stream, with which the reset ends well. -/
theorem reset_leaves_attached_new_stream :
    let before : List Happening := [.act .attach]
    let during : List Happening := [.act (.turn (.task 0)),
      .act (.arrive 1 (Frame.ack 0 false).encode), .act (.turn (.reader 1)), .act (.turn (.task 0)),
      .act .disconnect, .act .attach, .act (.elapse 5000)]
    let s := (new (.forDevice "tty") .empty true).happenAll before
    let asked := s.happen (.act (.start (.reset .plain true)))
    let last := asked.happenAll during
    .finished 0 .done ∉ last.log ∧ .finished 0 .done ∈ (last.happen (.act (.turn (.task 0)))).log
      ∧ (last.happen (.act (.turn (.task 0)))).isConnected = true
      ∧ ¬asked.Unplugged during 0 := by
  intro before during s asked last
  have hbefore : .finished 0 .done ∉ last.log := by decide +kernel
  have hends : .finished 0 .done ∈ (last.happen (.act (.turn (.task 0)))).log := by decide +kernel
  have hon : (last.happen (.act (.turn (.task 0)))).isConnected = true := by decide +kernel
  have hphase : last.phase? 0 = some .unwarned := by decide +kernel
  refine ⟨hbefore, hends, hon, fun hunplugged => ?_⟩
  obtain ⟨-, ⟨attempt, due, ht, -⟩ | ⟨deadline, -, -, hoff⟩, -⟩ := reset_leaves_attached
    (.forDevice "tty") .empty true before during (.act (.turn (.task 0))) .plain hbefore hends
  · exact absurd ((phase?_of_task? ht).symm.trans hphase) nofun
  · exact absurd ((hoff.mpr hunplugged).symm.trans hon) nofun

/-- A module acknowledges the request and does not drop the line; somebody disconnects, and the reset ends
well without anything to go on with. -/
theorem reset_leaves_unplugged :
    let s := (new (.forDevice "tty") .empty true).happenAll [.act .attach,
      .act (.start (.reset .plain true)), .act (.turn (.task 0)),
      .act (.arrive 1 (Frame.ack 0 false).encode), .act (.turn (.reader 1)), .act (.turn (.task 0)),
      .act .disconnect, .act (.elapse 5000)]
    let s' := s.happen (.act (.turn (.task 0)))
    .finished 0 .done ∉ s.log ∧ .finished 0 .done ∈ s'.log ∧ s'.isConnected = false := by
  decide +kernel

end NcpHost.Session
