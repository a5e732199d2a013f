import NcpHost.Proofs.Session.Unending

/-! What a reset does about a lost line. A reset that is to wait for the module has asked to be told of a
loss before it wrote its request, so that it is told wherever it has come to. If it does not wait for the
acknowledgement of its request any more, it tries to connect again, up to five times, and what comes of
the last attempt is what it returns. But a loss also fails the send that waits for its acknowledgement,
and a reset whose send fails is over. -/

namespace NcpHost

theorem Link.Proceeds.result_of_settled {l l' : Link} {id : TaskId} {now deadline : Nat}
    {verdict : Verdict} {result : Option (Except Fault Unit)} (h : l.Proceeds id now l' result)
    (hs : l.stage? id = some (.outstanding deadline (some verdict))) :
    result = some verdict.result := by
  cases h with
  | settled hs' =>
    obtain ⟨-, hv⟩ := SendStage.outstanding.inj (Option.some.inj (hs'.symm.trans hs))
    rw [Option.some.inj hv]
  | gone hs' | behind hs' | refused hs' | unheard hs' | writes hs' | passes hs' | expired hs'
  | waits hs' => exact absurd (hs'.symm.trans hs) (by simp)

namespace Session

section

variable {s s' : Session} {act : Act} {id : TaskId} {line : LineId}

theorem Shift.settled {l l' : Link} {deadline : Nat} {verdict : Verdict}
    (h : Shift act s s' line l l') (hl : l.Sound) (hid : s'.sitsAt line id)
    (htask : s'.task? id = s.task? id)
    (hs : l.stage? id = some (.outstanding deadline (some verdict))) :
    l'.stage? id = some (.outstanding deadline (some verdict)) := by
  have hid₀ : s.sitsAt line id := by
    rwa [sitsAt, seat?, ← htask]
  have hothers : ∀ {k now l₁ result}, k ≠ id → l.Proceeds k now l₁ result →
      l₁.stage? id = some (.outstanding deadline (some verdict)) :=
    fun hk hp => (hp.keeps.2.2 id hk.symm).trans hs
  -- whoever does something to the link, a verdict that was given is not replaced
  cases h with
  | tends _ ht =>
    cases ht with
    | same hsends => rwa [Link.stage?, hsends]
    | heard frame =>
      rw [hl.accept_stage?, hs]
      split <;> rfl
  | closes =>
    rw [hl.close_stage?, hs]
    rfl
  | drops => exact hs
  | @enters k frame hout =>
    have hk : k ≠ id := fun heq => hout (heq ▸ hid₀)
    exact ((Link.stage?_setStage l k (.queued frame) id).trans (if_neg hk.symm)).trans hs
  | @stays k _ _ _ hp =>
    refine hothers ?_ hp
    rintro rfl
    exact absurd (hp.result_of_settled hs).symm (Option.some_ne_none _)
  | @leaves k _ _ _ hleft hp => exact hothers (fun heq => ((hleft id).mp hid).2 heq.symm) hp
  | @follows k _ l₁ frame _ hmoved _ hp =>
    have hk : k ≠ id := by
      rintro rfl
      exact hmoved htask
    exact ((Link.stage?_setStage l₁ k (.queued frame) id).trans (if_neg hk.symm)).trans
      (hothers hk hp)
  | aborts k hleft =>
    have hk : id ≠ k := ((hleft id).mp hid).2
    exact ((Link.stage?_abort l k id).trans (if_neg hk)).trans hs

theorem Steps.keeps_stage (h : Steps act s s') (hown : act ≠ .turn (.task id))
    (hkept : act ≠ .abort id) {t : Stage} (ht : s.task? id = some t) (htold : t.noticeLoss = t) :
    s'.task? id = some t := by
  have hstill := h.notices hown hkept ht
  rwa [htold, or_self] at hstill

structure Over (s : Session) (id : TaskId) (o : Outcome) : Prop where
  gone : s.task? id = none
  ended : .finished id o ∈ s.log
  only : ∀ o', .finished id o' ∈ s.log → o' = o

theorem over_finish (hr : s.Regular) (hid : s.task? id ≠ none) (s' : Session)
    (hlog : ∀ o, .finished id o ∈ s'.log → .finished id o ∈ s.log) (outcome : Outcome) :
    (s'.finish id outcome).Over id outcome := by
  refine ⟨task?_finish_self s' id outcome, List.mem_append_right _ List.mem_cons_self, ?_⟩
  intro o' ho'
  rcases List.mem_append.mp ho' with hold | hnew
  · exact absurd (hr.orderly.ended id o' (hlog o' hold)).2 hid
  · exact (Event.finished.inj (List.mem_singleton.mp hnew)).2

theorem over_endReset (hr : s.Regular) (hid : s.task? id ≠ none)
    (hlog : ∀ o, .finished id o ∈ s'.log → .finished id o ∈ s.log) (outcome : Outcome) :
    (s'.endReset id outcome).Over id outcome :=
  over_finish hr hid { s' with resetLock := s'.resetLock.leave id } hlog outcome

theorem Over.step {o : Outcome} (h : s.Over id o) (hr : s.Regular) (hs : Step act s s') :
    s'.Over id o := by
  have hid : id < s.nextTask := (hr.orderly.ended id o h.ended).1
  obtain ⟨new, hlog, hnew⟩ := hs.recorded
  refine ⟨(hs.gone hid h.gone).2, hlog ▸ List.mem_append_left _ h.ended, fun o' ho' => ?_⟩
  rw [hlog] at ho'
  rcases List.mem_append.mp ho' with hold | hm
  · exact h.only o' hold
  · exact absurd (hnew id (Or.inl h.gone) _ hm) (by simp [Event.isEndOf])

theorem Over.steps {o : Outcome} (h : s.Over id o) (hr : s.Regular) (hs : Steps act s s') :
    s'.Over id o := by
  induction hs with
  | refl => exact h
  | tail hsteps hstep ih => exact ih.step (hr.steps hsteps) hstep

/-- A reset that is to wait for the module knows that its line is gone. If its request is still at the
link, this is what became of the acknowledgement. -/
inductive Told (id : TaskId) (line : LineId) (verdict : Verdict) (s : Session) : Prop where
  | sending {l : Line} {deadline : Nat} : s.task? id = some (.resetSending line true true) →
    s.line? line = some l → l.link.stage? id = some (.outstanding deadline (some verdict)) →
    Told id line verdict s
  | waiting {deadline : Nat} : verdict = .acknowledged →
    s.task? id = some (.resetWaiting deadline true) → Told id line verdict s

variable {verdict : Verdict}

theorem Told.stage (h : Told id line verdict s) : ∃ t, s.task? id = some t ∧ t.noticeLoss = t
    ∧ ∀ attempt due, t ≠ .reconnecting attempt due := by
  cases h with
  | sending ht => exact ⟨_, ht, rfl, nofun⟩
  | waiting _ ht => exact ⟨_, ht, rfl, nofun⟩

theorem Told.step (h : Told id line verdict s) (hr : s.Regular) (hs : Step act s s')
    (hown : act ≠ .turn (.task id)) (hkept : act ≠ .abort id) : Told id line verdict s' := by
  have hl := hr.orderly.listening
  have hsteps : Steps act s s' := .single hs
  cases h with
  | sending ht hline hstage =>
    have ht' := hsteps.keeps_stage hown hkept ht rfl
    obtain ⟨l', hl', hshift⟩ := hs.shift hl hline (hr.linked.used line _ hline)
    have hstage' := hshift.settled (hr.linked.sound line _ hline) (seat?_of_task? ht')
      (ht'.trans ht.symm) hstage
    exact .sending ht' hl' hstage'
  | waiting hv ht => exact .waiting hv (hsteps.keeps_stage hown hkept ht rfl)

theorem Told.steps (h : Told id line verdict s) (hr : s.Regular) (hs : Steps act s s')
    (hown : act ≠ .turn (.task id)) (hkept : act ≠ .abort id) : Told id line verdict s' := by
  induction hs with
  | refl => exact h
  | tail hsteps hstep ih => exact ih.step (hr.steps hsteps) hstep hown hkept

theorem task?_sleepBefore (hid : s.task? id ≠ none) (attempt : Nat) :
    ∃ due, (s.sleepBefore id attempt).task? id = some (.reconnecting attempt due) :=
  ⟨_, task?_suspend_self (s := s.dropTimer id) hid _⟩

theorem Told.turn (h : Told id line verdict s) (hr : s.Regular) :
    verdict = .acknowledged
        ∧ (∃ due, (s.turnTask id).task? id = some (.reconnecting 1 due))
      ∨ verdict = .abandoned ∧ (s.turnTask id).Over id (.failed .notConnected) := by
  cases h with
  | @waiting deadline hv ht =>
    have hturn : s.turnTask id = s.sleepBefore id 1 := by
      rw [turnTask, ht]
      rfl
    exact Or.inl ⟨hv, hturn ▸ task?_sleepBefore (ne_none_of_task? ht) 1⟩
  | @sending l deadline ht hl hstage =>
    have hid := ne_none_of_task? ht
    have hturn : s.turnTask id = s.resumeResetSending id line true true := by
      rw [turnTask, ht]
    obtain ⟨s₁, agenda, -, hsends, heq⟩ := s.sends_proceedSend id line
    rw [hturn, resumeResetSending]
    generalize s.proceedSend id line = sent at hsends heq
    obtain ⟨s₂, result⟩ := sent
    dsimp only at hsends heq
    have hthere : s₂.task? id ≠ none := by
      rw [heq]
      exact fun hn => hid ((hsends.task? id).symm.trans hn)
    obtain rfl : result = some verdict.result := by
      cases hsends with
      | stray hnone => exact absurd (hl.symm.trans hnone) (Option.some_ne_none l)
      | goes hl' hp =>
        obtain rfl := Option.some.inj (hl'.symm.trans hl)
        exact hp.result_of_settled hstage
    cases verdict with
    | acknowledged => exact Or.inl ⟨rfl, task?_sleepBefore hthere 1⟩
    | abandoned =>
      refine Or.inr ⟨rfl, over_endReset hr hid (fun o ho => ?_) _⟩
      -- all that is new on record is what was written
      obtain ⟨line', writes, hlog⟩ := hsends.writes.log
      rw [heq] at ho
      rcases List.mem_append.mp (hlog ▸ ho : _ ∈ s.log ++ writes.map (.sent id line')) with hm | hm
      · exact hm
      · obtain ⟨_, -, hsent⟩ := List.mem_map.mp hm
        cases hsent

theorem log_connect (s : Session) : s.connect.1.log = s.log := by
  have hclosed : ∀ s : Session, s.closeCurrent.log = s.log := by
    intro s
    unfold closeCurrent
    split <;> rfl
  unfold connect
  split
  · rfl
  · split
    · exact hclosed s
    · unfold disconnect
      dsimp only
      split <;> exact hclosed _

theorem connect_error {cause : Fault} (h : s.connect.2 = .error cause) : cause ≠ .notConnected := by
  unfold connect at h
  split at h
  · obtain rfl := Except.error.inj h
    exact nofun
  · split at h
    · exact absurd h nofun
    · obtain rfl := Except.error.inj h
      unfold Config.openFault?
      split <;> exact nofun

inductive Tries (id : TaskId) (attempt due : Nat) (s : Session) : Prop where
  | early : s.agenda.now < due → s.turnTask id = s → Tries id attempt due s
  | succeeds : due ≤ s.agenda.now → s.connect.2 = .ok () → (s.turnTask id).Over id .done →
    Tries id attempt due s
  | again {cause : Fault} {due' : Nat} : due ≤ s.agenda.now → s.connect.2 = .error cause →
    attempt < reconnectAttempts →
    (s.turnTask id).task? id = some (.reconnecting (attempt + 1) due') → Tries id attempt due s
  | fails {cause : Fault} : due ≤ s.agenda.now → s.connect.2 = .error cause →
    reconnectAttempts ≤ attempt → (s.turnTask id).Over id (.failed cause) → Tries id attempt due s

theorem tries {attempt due : Nat} (hr : s.Regular)
    (ht : s.task? id = some (.reconnecting attempt due)) : Tries id attempt due s := by
  have hid := ne_none_of_task? ht
  have hturn : s.turnTask id = s.resumeReconnecting id attempt due := by
    rw [turnTask, ht]
  have hlog := log_connect s
  have hthere : s.connect.1.task? id ≠ none := by
    rw [task?, tasks_connect]
    exact hid
  unfold resumeReconnecting at hturn
  by_cases hdue : s.agenda.now < due
  · exact .early hdue (hturn.trans (if_pos hdue))
  rw [if_neg hdue] at hturn
  have hdue := Nat.not_lt.mp hdue
  cases hresult : s.connect.2 with
  | ok _ =>
    refine .succeeds hdue hresult ?_
    rw [show s.connect = (s.connect.1, .ok ()) from Prod.ext rfl hresult] at hturn
    exact hturn ▸ over_endReset hr hid (fun _ ho => hlog ▸ ho) _
  | error cause =>
    rw [show s.connect = (s.connect.1, .error cause) from Prod.ext rfl hresult] at hturn
    dsimp only at hturn
    by_cases hlast : reconnectAttempts ≤ attempt
    · rw [if_pos hlast] at hturn
      exact .fails hdue hresult hlast (hturn ▸ over_endReset hr hid (fun _ ho => hlog ▸ ho) _)
    · rw [if_neg hlast] at hturn
      obtain ⟨due', hslept⟩ := task?_sleepBefore hthere (attempt + 1)
      exact .again hdue hresult (Nat.not_le.mp hlast) (hturn ▸ hslept)

structure Loses (line : LineId) (s s' : Session) : Prop where
  told : ∀ k, s'.task? k = (s.task? k).map Stage.noticeLoss
  closed : ∀ l, s.line? line = some l →
    ∃ l', s'.line? line = some l' ∧ ∀ k, l'.link.stage? k = l.link.close.stage? k

theorem Loses.modifyLine (h : Loses line s s') {f : Line → Line}
    (hf : ∀ l k, (f l).link.stage? k = l.link.stage? k) :
    Loses line s (s'.modifyLine line f) := by
  refine ⟨h.told, fun l hl => ?_⟩
  obtain ⟨l', hl', hstages⟩ := h.closed l hl
  exact ⟨f l', line?_modifyLine_self hl' f, fun k => (hf l' k).trans (hstages k)⟩

theorem loses_loseLine (hs : s.Lawful) (hc : s.current = some line) (cause : Option Fault) :
    Loses line s (s.loseLine line cause) := by
  obtain ⟨l, hl⟩ := Option.ne_none_iff_exists'.mp (hs.regular.linked.current line hc)
  let shut := s.modifyLine line fun l => { l with link := l.link.close }
  have hused : l.link.inUse = true := by simpa [hc] using inUse_eq hs.outline hl
  have hlost : s.loseLine line cause = shut.leaveLine line cause := by
    unfold loseLine
    rw [hl]
    exact if_pos hused
  have hcurrent : shut.current = some line := hc
  have htasks : (shut.leaveLine line cause).tasks
      = s.tasks.map fun (e : TaskId × Stage) => (e.1, e.2.noticeLoss) := by
    unfold leaveLine
    rw [if_neg (not_not.mpr hcurrent)]
    dsimp only
    split <;> rfl
  rw [hlost]
  refine ⟨fun k => ?_, fun l' hl' => ?_⟩
  · rw [task?, htasks]
    exact task?_noticeLoss s k
  · obtain rfl := Option.some.inj (hl.symm.trans hl')
    have hshut : shut.line? line = some { l with link := l.link.close } := line?_modifyLine_self hl _
    exact ⟨_, (line?_congr (lines_leaveLine shut line cause) line).trans hshut, fun k => rfl⟩

theorem loses_turnReader (hs : s.Lawful) (hc : s.current = some line) :
    (s.turnReader line).current = s.current ∨ Loses line s (s.turnReader line) := by
  unfold turnReader
  split
  · exact Or.inl rfl
  · next l hl =>
    split
    · exact Or.inl rfl
    · split
      · exact Or.inl rfl
      · split
        · exact Or.inr ((loses_loseLine hs hc _).modifyLine fun _ _ => rfl)
        · split
          · let emptied := s.modifyLine line fun l => { l with inbound := [] }
            have hl' : emptied.line? line = some { l with inbound := [] } :=
              line?_modifyLine_self hl _
            obtain ⟨handed, -, houtline⟩ := outline_receiveBytes hl' l.inbound
            exact Or.inl (congrArg Outline.current houtline)
          · exact Or.inr ((loses_loseLine hs hc _).modifyLine fun _ _ => rfl)

theorem loses_turnWriter (hs : s.Lawful) (hc : s.current = some line) :
    (s.turnWriter line).current = s.current ∨ Loses line s (s.turnWriter line) := by
  unfold turnWriter
  split
  · exact Or.inl rfl
  · split
    · exact Or.inl rfl
    · split
      · dsimp only
        split
        · exact Or.inr ((loses_loseLine hs hc _).modifyLine fun _ _ => rfl)
        · exact Or.inl rfl
      · dsimp only
        split <;> exact Or.inl rfl

theorem loses_happen (hs : s.Lawful) {h : Happening} (hh : h.line? = some line)
    (hc : s.current = some line) (hgone : (s.happen h).current = none) :
    Loses line s (s.happen h) := by
  have hstays : (s.happen h).current = s.current → Loses line s (s.happen h) :=
    fun hsame => absurd ((hgone.symm.trans hsame).trans hc) nofun
  cases h with
  | report k cause =>
    obtain rfl := Option.some.inj hh
    exact loses_loseLine hs hc cause
  | late k cause => exact hstays (congrArg Session.current (happen_late hs.outline k cause))
  | device => exact absurd hh nofun
  | act act =>
    cases act with
    | hangUp | breakReading | breakWriting => exact hstays rfl
    | turn worker =>
      cases worker with
      | reader k =>
        obtain rfl := Option.some.inj hh
        exact (loses_turnReader hs hc).elim hstays fun hlost => hlost
      | writer k =>
        obtain rfl := Option.some.inj hh
        exact (loses_turnWriter hs hc).elim hstays fun hlost => hlost
      | task => exact absurd hh nofun
    | _ => exact absurd hh nofun

/-- A reset that is to wait for the module has written its request to a line, and waits for the
acknowledgement of it, or for the module to drop the line. -/
inductive Rebooting (s : Session) (id : TaskId) (line : LineId) : Prop where
  | sending {l : Line} {deadline : Nat} {told : Option Verdict} {lossSeen : Bool} :
    s.task? id = some (.resetSending line true lossSeen) → s.line? line = some l →
    l.link.stage? id = some (.outstanding deadline told) → Rebooting s id line
  | waiting {deadline : Nat} {lossSeen : Bool} : s.task? id = some (.resetWaiting deadline lossSeen) →
    Rebooting s id line

/-- The frame that a task has written to a line is not acknowledged, and the task has not given up
waiting for that. -/
def AwaitsAck (s : Session) (id : TaskId) (line : LineId) : Prop :=
  ∃ l deadline, s.line? line = some l ∧ l.link.stage? id = some (.outstanding deadline none)

def Stage.rebootsOver? : Stage → Option LineId
  | resetSending line true _ => some line
  | _ => none

theorem rebooting_of_stages {deadline : Nat} {told : Option Verdict}
    (ht : (s.task? id).bind Stage.rebootsOver? = some line)
    (hl : (s.line? line).bind (fun l => l.link.stage? id) = some (.outstanding deadline told)) :
    s.Rebooting id line ∧ (s.AwaitsAck id line ↔ told = none) := by
  obtain ⟨l, hline, hstage⟩ := Option.bind_eq_some_iff.mp hl
  refine ⟨?_, fun ⟨l₁, deadline₁, hl₁, hstage₁⟩ => ?_, fun hnone => ?_⟩
  · obtain ⟨t, htask, hover⟩ := Option.bind_eq_some_iff.mp ht
    unfold Stage.rebootsOver? at hover
    split at hover
    · obtain rfl := Option.some.inj hover
      exact .sending htask hline hstage
    · cases hover
  · obtain rfl := Option.some.inj (hline.symm.trans hl₁)
    exact (SendStage.outstanding.inj (Option.some.inj (hstage.symm.trans hstage₁))).2
  · exact ⟨l, deadline, hline, hnone ▸ hstage⟩

theorem Rebooting.present (h : s.Rebooting id line) : s.task? id ≠ none := by
  cases h with
  | sending ht | waiting ht => exact ne_none_of_task? ht

theorem Rebooting.told (h : s.Rebooting id line) (hs : s.Lawful) (hc : s.current = some line)
    (hl : Loses line s s') :
    s.AwaitsAck id line ∧ Told id line .abandoned s'
      ∨ ¬s.AwaitsAck id line ∧ Told id line .acknowledged s' := by
  have hlinked := hs.regular.linked
  cases h with
  | @sending l deadline told lossSeen ht hline hstage =>
    have ht' : s'.task? id = some (.resetSending line true true) := by
      rw [hl.told, ht]
      rfl
    have hsound := hlinked.sound line l hline
    obtain ⟨l', hl', hstages⟩ := hl.closed l hline
    have hstage' := (hstages id).trans (hsound.close_stage? id)
    rw [hstage] at hstage'
    rcases told with _ | _ | _
    · exact Or.inl ⟨⟨l, deadline, hline, hstage⟩, .sending ht' hl' hstage'⟩
    · refine Or.inr ⟨?_, .sending ht' hl' hstage'⟩
      rintro ⟨l₁, deadline₁, hl₁, hstage₁⟩
      obtain rfl := Option.some.inj (hline.symm.trans hl₁)
      exact absurd (hstage.symm.trans hstage₁) (by simp)
    · -- nobody is told that there will be no acknowledgement while the link is open
      have hopen : l.link.closed = false :=
        congrArg Prod.fst (Option.some.inj ((link_outline hline).symm.trans (hs.outline.used line hc)))
      exact absurd hstage (hsound.awaited hopen id deadline)
  | @waiting deadline lossSeen ht =>
    have ht' : s'.task? id = some (.resetWaiting deadline true) := by
      rw [hl.told, ht]
      rfl
    refine Or.inr ⟨?_, .waiting rfl ht'⟩
    rintro ⟨l, deadline₁, hl₁, hstage⟩
    have hstands := ((hlinked.sound line l hl₁).standing id).mpr (hstage ▸ nofun)
    have hsits := (hlinked.seated line l hl₁ id).mp hstands
    exact absurd ((seat?_of_task? ht).symm.trans hsits) nofun

def attempt? (s : Session) (id : TaskId) (h : Happening) : Option (Except Fault Unit) :=
  match h, s.task? id with
  | .act (.turn (.task k)), some (.reconnecting _ due) =>
    if k = id ∧ due ≤ s.agenda.now then some s.connect.2 else none
  | _, _ => none

def attempts (s : Session) (happenings : Nat → Happening) (id : TaskId) :
    Nat → List (Except Fault Unit)
  | 0 => []
  | n + 1 => attempts s happenings id n ++ ((s.after happenings n).attempt? id (happenings n)).toList

inductive Concludes : List (Except Fault Unit) → Outcome → Prop where
  | done {failed : List Fault} : failed.length < reconnectAttempts →
    Concludes (failed.map .error ++ [.ok ()]) .done
  | failed {failed : List Fault} {cause : Fault} : failed.length + 1 = reconnectAttempts →
    Concludes (failed.map .error ++ [.error cause]) (.failed cause)

def Sequel (verdict : Verdict) (tried : List (Except Fault Unit)) (o : Outcome) : Prop :=
  match verdict with
  | .acknowledged => Concludes tried o ∧ o ≠ .failed .notConnected
  | .abandoned => tried = [] ∧ o = .failed .notConnected

inductive Reviving (id : TaskId) (line : LineId) (verdict : Verdict)
    (tried : List (Except Fault Unit)) (s : Session) : Prop where
  | told : Told id line verdict s → tried = [] → Reviving id line verdict tried s
  | tries {failed : List Fault} {due : Nat} : verdict = .acknowledged →
    s.task? id = some (.reconnecting (failed.length + 1) due) → failed.length < reconnectAttempts →
    tried = failed.map .error → Reviving id line verdict tried s
  | ended {o : Outcome} : s.Over id o → Sequel verdict tried o → Reviving id line verdict tried s

def untried : Option Stage → Nat
  | none => 0
  | some (.reconnecting attempt _) => reconnectAttempts + 1 - attempt
  | some _ => reconnectAttempts + 1

variable {h : Happening} {tried : List (Except Fault Unit)}

theorem attempt?_of_other (hown : h ≠ .act (.turn (.task id))) : s.attempt? id h = none := by
  unfold attempt?
  split
  · next k _ _ _ =>
    refine if_neg ?_
    rintro ⟨rfl, -⟩
    exact hown rfl
  · rfl

theorem attempt?_of_stage (ht : ∀ attempt due, s.task? id ≠ some (.reconnecting attempt due)) :
    s.attempt? id h = none := by
  unfold attempt?
  split
  · next heq => exact absurd heq (ht _ _)
  · rfl

theorem attempt?_of_due {attempt due : Nat} (ht : s.task? id = some (.reconnecting attempt due)) :
    s.attempt? id (.act (.turn (.task id)))
      = if due ≤ s.agenda.now then some s.connect.2 else none := by
  unfold attempt?
  rw [ht]
  simp

theorem Reviving.of_other (h₀ : Reviving id line verdict tried s) (hs : s.Lawful)
    (hown : h ≠ .act (.turn (.task id))) (hkept : h ≠ .act (.abort id)) :
    Reviving id line verdict (tried ++ (s.attempt? id h).toList) (s.happen h)
      ∧ (s.happen h).task? id = s.task? id := by
  have hsteps := happen_steps hs.outline h
  have hown' : h.asAct ≠ .turn (.task id) := fun heq =>
    hown (Happening.eq_of_asAct heq nofun nofun)
  have hkept' : h.asAct ≠ .abort id := fun heq => hkept (Happening.eq_of_asAct heq nofun nofun)
  rw [attempt?_of_other hown, Option.toList_none, List.append_nil]
  cases h₀ with
  | told ht htried =>
    obtain ⟨t, hstage, htold, -⟩ := ht.stage
    refine ⟨.told (ht.steps hs.regular hsteps hown' hkept') htried, ?_⟩
    exact (hsteps.keeps_stage hown' hkept' hstage htold).trans hstage.symm
  | tries hv ht hlt htried =>
    have ht' := hsteps.keeps_stage hown' hkept' ht rfl
    exact ⟨.tries hv ht' hlt htried, ht'.trans ht.symm⟩
  | ended hover hsequel =>
    have hover' := hover.steps hs.regular hsteps
    exact ⟨.ended hover' hsequel, hover'.gone.trans hover.gone.symm⟩

theorem untried_of_not_reconnecting {t : Stage} (ht : s.task? id = some t)
    (hnot : ∀ attempt due, t ≠ .reconnecting attempt due) :
    untried (s.task? id) = reconnectAttempts + 1 := by
  rw [ht]
  cases t with
  | reconnecting attempt due => exact absurd rfl (hnot attempt due)
  | _ => rfl

theorem untried_of_gone (h : s.task? id = none) : untried (s.task? id) = 0 := by
  rw [h]
  rfl

theorem Told.reviving_turn (ht : Told id line verdict s) (hs : s.Lawful) :
    s.attempt? id (.act (.turn (.task id))) = none ∧ Reviving id line verdict [] (s.turnTask id)
      ∧ untried ((s.turnTask id).task? id) < untried (s.task? id) := by
  obtain ⟨t, hstage, -, hnot⟩ := ht.stage
  have hnone : s.attempt? id (.act (.turn (.task id))) = none := attempt?_of_stage
    fun attempt due heq => hnot attempt due (Option.some.inj (hstage.symm.trans heq))
  rw [untried_of_not_reconnecting hstage hnot]
  refine ⟨hnone, ?_⟩
  rcases ht.turn hs.regular with ⟨hv, due, hslept⟩ | ⟨rfl, hover⟩
  · refine ⟨@Reviving.tries id line _ _ _ [] due hv hslept (Nat.succ_pos _) rfl, ?_⟩
    rw [hslept]
    exact Nat.lt_succ_self _
  · refine ⟨.ended hover ⟨rfl, rfl⟩, ?_⟩
    rw [untried_of_gone hover.gone]
    exact Nat.succ_pos _

theorem reviving_tries (line : LineId) {failed : List Fault} {due : Nat} (hs : s.Lawful)
    (ht : s.task? id = some (.reconnecting (failed.length + 1) due))
    (hlt : failed.length < reconnectAttempts) :
    Reviving id line .acknowledged
        (failed.map .error ++ (s.attempt? id (.act (.turn (.task id)))).toList) (s.turnTask id)
      ∧ (s.turnTask id = s ∨ untried ((s.turnTask id).task? id) < untried (s.task? id)) := by
  have hbefore : untried (s.task? id) = reconnectAttempts - failed.length := by
    rw [ht]
    exact Nat.add_sub_add_right _ 1 _
  rw [attempt?_of_due ht, hbefore]
  -- too early, or an attempt; an attempt that fails leaves one less, or is the last
  cases tries hs.regular ht with
  | early hnow hsame =>
    rw [if_neg (Nat.not_le.mpr hnow), hsame, Option.toList_none, List.append_nil]
    exact ⟨.tries rfl ht hlt rfl, Or.inl rfl⟩
  | succeeds hdue hok hover =>
    rw [if_pos hdue, hok, untried_of_gone hover.gone]
    exact ⟨.ended hover ⟨.done hlt, nofun⟩, Or.inr (Nat.sub_pos_of_lt hlt)⟩
  | @again cause due' hdue hfails hless hslept =>
    have hlength : (failed ++ [cause]).length = failed.length + 1 := List.length_append
    have hfailed : failed.map (Except.error : Fault → Except Fault Unit) ++ [.error cause]
        = (failed ++ [cause]).map .error := by
      rw [List.map_append]
      rfl
    rw [if_pos hdue, hfails, Option.toList_some, hfailed]
    refine ⟨.tries rfl (hlength ▸ hslept) (hlength ▸ hless) rfl, Or.inr ?_⟩
    rw [hslept]
    dsimp only [untried]
    omega
  | @fails cause hdue hfails hlast hover =>
    have hcause : Outcome.failed cause ≠ .failed .notConnected := fun heq =>
      connect_error hfails (Outcome.failed.inj heq)
    rw [if_pos hdue, hfails, untried_of_gone hover.gone]
    exact ⟨.ended hover ⟨.failed (Nat.le_antisymm hlt hlast), hcause⟩,
      Or.inr (Nat.sub_pos_of_lt hlt)⟩

theorem Reviving.turn (h₀ : Reviving id line verdict tried s) (hs : s.Lawful) :
    Reviving id line verdict (tried ++ (s.attempt? id (.act (.turn (.task id)))).toList)
        (s.turnTask id)
      ∧ ((s.turnTask id).task? id = s.task? id
        ∨ untried ((s.turnTask id).task? id) < untried (s.task? id)) := by
  cases h₀ with
  | told ht htried =>
    obtain ⟨hnone, hnext, hless⟩ := ht.reviving_turn hs
    rw [hnone, htried]
    exact ⟨hnext, Or.inr hless⟩
  | tries hv ht hlt htried =>
    subst hv htried
    obtain ⟨hnext, hnearer⟩ := reviving_tries line hs ht hlt
    exact ⟨hnext, hnearer.imp_left (congrArg (task? · id))⟩
  | ended hover hsequel =>
    have hnone : s.attempt? id (.act (.turn (.task id))) = none :=
      attempt?_of_stage fun _ _ => ne_of_gone hover.gone
    have hturn : s.turnTask id = s := by
      rw [turnTask, hover.gone]
    rw [hnone, hturn, Option.toList_none, List.append_nil]
    exact ⟨.ended hover hsequel, Or.inl rfl⟩

theorem Reviving.happen (h₀ : Reviving id line verdict tried s) (hs : s.Lawful)
    (hkept : h ≠ .act (.abort id)) :
    Reviving id line verdict (tried ++ (s.attempt? id h).toList) (s.happen h)
      ∧ ((s.happen h).task? id = s.task? id
        ∨ untried ((s.happen h).task? id) < untried (s.task? id)) := by
  by_cases hown : h = .act (.turn (.task id))
  · rw [hown]
    exact h₀.turn hs
  · obtain ⟨hafter, hsame⟩ := h₀.of_other hs hown hkept
    exact ⟨hafter, Or.inl hsame⟩

theorem Reviving.sequel (h₀ : Reviving id line verdict tried s) (hs : s.Lawful) {o : Outcome}
    (ho : .finished id o ∈ s.log) : Sequel verdict tried o := by
  have hgone := (hs.regular.orderly.ended id o ho).2
  cases h₀ with
  | told ht =>
    obtain ⟨t, hstage, -⟩ := ht.stage
    exact absurd hgone (ne_none_of_task? hstage)
  | tries _ ht => exact absurd hgone (ne_none_of_task? ht)
  | ended hover hsequel => exact hover.only o ho ▸ hsequel

variable {happenings : Nat → Happening} {n : Nat}

theorem reviving_after (hs : s.Lawful) (h₀ : Told id line verdict (s.after happenings n))
    (htried : s.attempts happenings id n = []) (hkept : ∀ m, happenings m ≠ .act (.abort id)) :
    ∀ m ≥ n, Reviving id line verdict (s.attempts happenings id m) (s.after happenings m) := by
  intro m hm
  induction m, hm using Nat.le_induction with
  | base => exact .told h₀ htried
  | succ m _ ih => exact (ih.happen (hs.after happenings m) (hkept m)).1

theorem Lively.revives (hf : s.Lively happenings) (hs : s.Lawful)
    (h₀ : Told id line verdict (s.after happenings n)) (htried : s.attempts happenings id n = [])
    (hkept : ∀ m, happenings m ≠ .act (.abort id)) :
    ∃ m ≥ n, ∃ o, (s.after happenings m).Over id o := by
  have hreviving := reviving_after hs h₀ htried hkept
  obtain ⟨k, hk, hsame⟩ := settles (fun m => (s.after happenings m).task? id) untried n
    fun m hm => ((hreviving m hm).happen (hs.after happenings m) (hkept m)).2
  cases hreviving k hk with
  | ended hover => exact ⟨k, hk, _, hover⟩
  | told ht =>
    obtain ⟨t, hstage, -, hnot⟩ := ht.stage
    have hstays : ∀ m ≥ k, (s.after happenings m).task? id = some t := fun m hm =>
      (hsame m hm).trans hstage
    refine (hf.leaves hs 0 k hstays fun m hm _ hturn => ?_).elim
    cases hreviving m (Nat.le_trans hk hm) with
    | told ht' =>
      rcases ht'.turn (hs.after happenings m).regular with ⟨-, due, hslept⟩ | ⟨-, hover⟩
      · exact hnot 1 due (Option.some.inj (hturn.symm.trans hslept))
      · exact absurd (hover.gone.symm.trans hturn) nofun
    | tries _ ht' => exact hnot _ _ (Option.some.inj ((hstays m hm).symm.trans ht'))
    | ended hover => exact absurd (hover.gone.symm.trans (hstays m hm)) nofun
  | @tries failed due _ ht =>
    have hstays : ∀ m ≥ k, (s.after happenings m).task? id = _ := fun m hm => (hsame m hm).trans ht
    refine (hf.leaves hs due k hstays fun m hm hdue hturn => ?_).elim
    cases Session.tries (hs.after happenings m).regular (hstays m hm) with
    | early hnow => exact absurd hdue (Nat.not_le.mpr hnow)
    | succeeds _ _ hover | fails _ _ _ hover => exact absurd (hover.gone.symm.trans hturn) nofun
    | again _ _ _ hslept =>
      have hattempt := Option.some.inj (hslept.symm.trans hturn)
      exact absurd (Stage.reconnecting.inj hattempt).1 (Nat.succ_ne_self _)

/-- What a reset that knows of the loss ends with, and that it ends. -/
theorem Told.ends (h₀ : Told id line verdict (s.after happenings n)) (hs : s.Lawful)
    (hbefore : ∀ m < n, ∀ o, .finished id o ∉ (s.after happenings m).log)
    (htried : s.attempts happenings id n = []) (hkept : ∀ m, happenings m ≠ .act (.abort id)) :
    (∀ m o, .finished id o ∈ (s.after happenings m).log →
        Sequel verdict (s.attempts happenings id m) o)
      ∧ (s.Lively happenings → ∃ m o, .finished id o ∈ (s.after happenings m).log) := by
  refine ⟨fun m o ho => ?_, fun hf => ?_⟩
  · by_cases hm : m < n
    · exact absurd ho (hbefore m hm o)
    · exact (reviving_after hs h₀ htried hkept m (Nat.not_lt.mp hm)).sequel (hs.after happenings m) ho
  · obtain ⟨m, -, o, hover⟩ := hf.revives hs h₀ htried hkept
    exact ⟨m, o, hover.ended⟩

end

/-- A reset that has written its request to the line in use, and that is to wait for the module, loses
that line. If it does not wait for the acknowledgement of its request any more, be it that it came or
that it gave up waiting, it tries to connect again: it ends as soon as one attempt succeeds, and
otherwise with the error of the fifth one, which is never that there is no connection. But if it still
waits for the acknowledgement, it ends with the error that there is no connection, and has tried
nothing. It does end, if it is not given up and the session stays alive. -/
theorem reset_revives_unless_awaiting (config : Config) (catalog : Catalog) (deviceOpens : Bool)
    (before : List Happening) (happenings : Nat → Happening) (id : TaskId) (line : LineId) :
    let s := (new config catalog deviceOpens).happenAll before
    s.current = some line → s.Rebooting id line → (happenings 0).line? = some line →
      (s.after happenings 1).current = none → (∀ m, happenings m ≠ .act (.abort id)) →
      (¬s.AwaitsAck id line →
          (∀ m o, .finished id o ∈ (s.after happenings m).log →
              Concludes (s.attempts happenings id m) o ∧ o ≠ .failed .notConnected)
            ∧ (s.Lively happenings → ∃ m o, .finished id o ∈ (s.after happenings m).log))
        ∧ (s.AwaitsAck id line →
          (∀ m o, .finished id o ∈ (s.after happenings m).log →
              s.attempts happenings id m = [] ∧ o = .failed .notConnected)
            ∧ (s.Lively happenings → ∃ m o, .finished id o ∈ (s.after happenings m).log)) := by
  intro s hc hreboots hline hgone hkept
  have hs : s.Lawful := (lawful_new config catalog deviceOpens).happenAll before
  have hloses : Loses line s (s.after happenings 1) := loses_happen hs hline hc hgone
  have hother : happenings 0 ≠ .act (.turn (.task id)) := by
    intro heq
    rw [heq] at hline
    exact absurd hline nofun
  have htried : s.attempts happenings id 1 = [] :=
    congrArg Option.toList (attempt?_of_other (s := s) hother)
  have hbefore : ∀ m < 1, ∀ o, .finished id o ∉ (s.after happenings m).log := by
    intro m hm o ho
    obtain rfl := Nat.lt_one_iff.mp hm
    exact hreboots.present (hs.regular.orderly.ended id o ho).2
  rcases hreboots.told hs hc hloses with ⟨hawaits, htold⟩ | ⟨hnot, htold⟩
  · exact ⟨fun hnot => absurd hawaits hnot, fun _ => htold.ends hs hbefore htried hkept⟩
  · exact ⟨fun _ => htold.ends hs hbefore htried hkept, fun hawaits => absurd hawaits hnot⟩

/-- A module hangs up before it acknowledges the request, and another one hangs up after it did. The first
reset ends at once. The second one finds at its first attempt that somebody else attached a stream, and
succeeds at its next one. -/
theorem reset_revives_unless_awaiting_two_losses :
    let start := new (.forDevice "tty") .empty true
    let asked : List Happening :=
      [.act .attach, .act (.start (.reset .plain true)), .act (.turn (.task 0))]
    let acked : List Happening :=
      [.act (.arrive 1 (Frame.ack 0 false).encode), .act (.turn (.reader 1))]
    let early := start.happenAll (asked ++ [.act (.hangUp 1)])
    let late := start.happenAll (asked ++ acked ++ [.act (.hangUp 1)])
    let ends := thenRest [.turn (.reader 1), .turn (.task 0)]
    let revives := thenRest [.turn (.reader 1), .turn (.task 0), .elapse 1000, .attach,
      .turn (.task 0), .disconnect, .elapse 2000, .turn (.task 0)]
    (∃ m, .finished 0 (.failed .notConnected) ∈ (early.after (fun n => .act (ends n)) m).log)
      ∧ ∃ m o, .finished 0 o ∈ (late.after (fun n => .act (revives n)) m).log
        ∧ Concludes (late.attempts (fun n => .act (revives n)) 0 m) o
        ∧ o ≠ .failed .notConnected := by
  intro start asked acked early late ends revives
  -- in neither run the reset is given up
  have hkept : ∀ {acts : List Act}, (∀ act ∈ acts, Happening.act act ≠ .act (.abort 0)) →
      ∀ n, Happening.act (thenRest acts n) ≠ .act (.abort 0) := fun hacts =>
    forall_thenRest (P := fun act => Happening.act act ≠ .act (.abort 0)) hacts fun _ => nofun
  refine ⟨?_, ?_⟩
  · obtain ⟨hreboots, hawaits⟩ :=
      @rebooting_of_stages early 0 1 1000 none (by decide +kernel) (by decide +kernel)
    have hdone : (early.run [.turn (.reader 1), .turn (.task 0)]).tasks.map (·.1) = [] := by
      decide +kernel
    obtain ⟨-, hends⟩ := reset_revives_unless_awaiting (.forDevice "tty") .empty true _
      (fun n => .act (ends n)) 0 1 (by decide +kernel) hreboots rfl (by decide +kernel)
      (hkept (by simp))
    obtain ⟨honly, hsurely⟩ := hends (hawaits.mpr rfl)
    obtain ⟨m, o, ho⟩ := hsurely (fair_thenRest (List.map_eq_nil_iff.mp hdone)).lively
    obtain ⟨-, rfl⟩ := honly m o ho
    exact ⟨m, ho⟩
  · obtain ⟨hreboots, hawaits⟩ :=
      @rebooting_of_stages late 0 1 1000 (some .acknowledged) (by decide +kernel) (by decide +kernel)
    have hdone : (late.run [.turn (.reader 1), .turn (.task 0), .elapse 1000, .attach,
        .turn (.task 0), .disconnect, .elapse 2000, .turn (.task 0)]).tasks.map (·.1) = [] := by
      decide +kernel
    obtain ⟨hrevives, -⟩ := reset_revives_unless_awaiting (.forDevice "tty") .empty true _
      (fun n => .act (revives n)) 0 1 (by decide +kernel) hreboots rfl (by decide +kernel)
      (hkept (by simp))
    obtain ⟨honly, hsurely⟩ := hrevives fun hawaiting => Option.some_ne_none _ (hawaits.mp hawaiting)
    obtain ⟨m, o, ho⟩ := hsurely (fair_thenRest (List.map_eq_nil_iff.mp hdone)).lively
    exact ⟨m, o, ho, honly m o ho⟩

end Session

end NcpHost
