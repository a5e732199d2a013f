import NcpHost.Proofs.Session.Ahead
import NcpHost.Proofs.Session.Trail

/-! In a fair run every request comes to an end, unless it is given up before. A request never goes
back; one that stays at its place for ever would have others ahead of it for ever, the first of whom
holds a lock. Whoever holds the send lock writes its frame and gives up waiting in time, and whoever
holds the blocking lock sends its fragments and gives up waiting in time. -/

namespace NcpHost.Session

def Stage.rank : Stage → Nat
  | gated _ frames => frames.length + 3
  | sending _ unsent => unsent.length + 2
  | answering _ _ => 1
  | _ => 0

def rank (s : Session) (id : TaskId) : Nat := ((s.task? id).map Stage.rank).getD 0

def Asking (s : Session) (id : TaskId) : Prop :=
  s.exchange? id ≠ none ∨ id < s.nextTask ∧ s.task? id = none

section

variable {s s' : Session} {act : Act} {id : TaskId}

theorem rank_of_task? {t : Stage} (h : s.task? id = some t) : s.rank id = t.rank := by
  rw [rank, h]
  rfl

theorem rank_of_gone (h : s.task? id = none) : s.rank id = 0 := by
  rw [rank, h]
  rfl

theorem rank_congr (h : s'.task? id = s.task? id) : s'.rank id = s.rank id := by
  rw [rank, h, rank]

theorem rank_sendNext (h : s.task? id ≠ none) (e : Exchange) (frames : List Frame) :
    (s.sendNext id e frames).rank id < frames.length + 2 := by
  cases frames with
  | nil =>
    rw [show (s.sendNext id e []).rank id = _ from rank_of_task? (task?_suspend_self h _)]
    exact Nat.one_lt_two
  | cons frame rest =>
    have hentered : (s.enterSend id e.line frame).task? id ≠ none := h
    rw [show (s.sendNext id e (frame :: rest)).rank id = _ from
      rank_of_task? (task?_suspend_self hentered _)]
    exact Nat.lt_succ_self _

theorem Move.onward (h : Move id s s') (he : s.exchange? id ≠ none) :
    s'.task? id = s.task? id ∨ s'.rank id < s.rank id := by
  have hnone : ∀ {t : Stage}, s.task? id = some t → t.exchange? = none →
      s'.task? id = s.task? id ∨ s'.rank id < s.rank id :=
    fun ht hp => absurd ((exchange?_of_task? ht).trans hp) he
  have hgone : ∀ {t : Stage}, s.task? id = some t → 0 < t.rank → s'.task? id = none →
      s'.task? id = s.task? id ∨ s'.rank id < s.rank id := by
    intro t ht hpos hgone
    rw [rank_of_gone hgone, rank_of_task? ht]
    exact Or.inr hpos
  cases h with
  | leave ht hp | call ht hp | rest ht hp => exact hnone ht hp.1
  | @receive t _ _ ht hw =>
    refine hnone ht ?_
    cases t <;> first | rfl | exact absurd hw nofun
  | issue _ ht | gate _ ht => exact hnone ht rfl
  | pass ht =>
    refine Or.inr (Nat.lt_trans (rank_sendNext (ne_none_of_task? ht) _ _) ?_)
    rw [rank_of_task? ht]
    exact Nat.lt_succ_self _
  | write _ _ hs => exact Or.inl (hs.task? id)
  | next ht hs =>
    refine Or.inr (Nat.lt_of_lt_of_eq (rank_sendNext (hs.task? id ▸ ne_none_of_task? ht) _ _) ?_)
    rw [rank_of_task? ht]
    rfl
  | fail ht => exact hgone ht (Nat.succ_pos _) (task?_finish_self _ id _)
  | take ht => exact hgone ht (Nat.succ_pos _) (task?_finish_self _ id _)
  | enterReset _ ht hreset =>
    refine hnone ht ?_
    rcases hreset with ⟨_, rfl⟩ | rfl <;> rfl
  | passReset ht => exact hnone ht rfl
  | endReset ht => exact hnone ht rfl

theorem Step.onward (h : Step act s s') (hl : s.Listening) (ha : s.Asking id) :
    s'.Asking id ∧ (s'.task? id = s.task? id ∨ s'.rank id < s.rank id) := by
  rcases ha with he | ⟨hid, hgone⟩
  · obtain ⟨t, ht⟩ := Option.ne_none_iff_exists'.mp fun hn => he (exchange?_of_gone hn)
    have hasks : t.exchange? ≠ none := exchange?_of_task? ht ▸ he
    have hknown : id < s'.nextTask :=
      Nat.lt_of_lt_of_le (hl.known id (ne_none_of_task? ht)) h.nextTask_le
    have hsame : s'.task? id = s.task? id →
        s'.Asking id ∧ (s'.task? id = s.task? id ∨ s'.rank id < s.rank id) := by
      intro hs
      refine ⟨Or.inl ?_, Or.inl hs⟩
      rw [exchange?, hs]
      exact he
    -- nothing happens to it, it is told of a loss, it moves, or it is given up
    cases h.atTask id with
    | same hs => exact hsame hs
    | starts _ _ hnone => exact absurd hnone (ne_none_of_task? ht)
    | @told t' ht' htold =>
      obtain rfl := Option.some.inj (ht.symm.trans ht')
      refine hsame (htold.trans ?_)
      rw [ht]
      cases t <;> first | rfl | exact absurd rfl hasks
    | moves hm =>
      refine ⟨?_, hm.onward he⟩
      cases hm.own with
      | without hnone => exact absurd hnone he
      | begins _ ht' => exact absurd (exchange?_of_task? ht') he
      | goesOn _ he' => exact Or.inl (he' ▸ Option.some_ne_none _)
      | ends _ _ hgone => exact Or.inr ⟨hknown, hgone⟩
    | aborts _ hgone =>
      refine ⟨Or.inr ⟨hknown, hgone⟩, Or.inr ?_⟩
      rw [rank_of_gone hgone, rank_of_task? ht]
      cases t <;> first | exact Nat.succ_pos _ | exact absurd rfl hasks
  · obtain ⟨hid', hgone'⟩ := h.gone hid hgone
    exact ⟨Or.inr ⟨hid', hgone'⟩, Or.inl (hgone'.trans hgone.symm)⟩

theorem Steps.onward (h : Steps act s s') (ho : s.Orderly) (ha : s.Asking id) :
    s'.Asking id ∧ (s'.task? id = s.task? id ∨ s'.rank id < s.rank id) := by
  induction h with
  | refl => exact ⟨ha, Or.inl rfl⟩
  | tail hsteps hstep ih =>
    obtain ⟨ha', hstay⟩ := ih
    obtain ⟨ha'', hstay'⟩ := hstep.onward (ho.steps hsteps).listening ha'
    exact ⟨ha'', onward_trans (fun t : Option Stage => (t.map Stage.rank).getD 0) hstay hstay'⟩

theorem steps_stays {s₁ : Session} (h₁ : Steps act s s₁) (h₂ : Steps act s₁ s') (ho : s.Orderly)
    (ha : s.Asking id) (hsame : s'.task? id = s.task? id) : s₁.task? id = s.task? id := by
  obtain ⟨ha₁, hstay | hlt⟩ := h₁.onward ho ha
  · exact hstay
  · have hrank : s'.rank id = s.rank id := rank_congr hsame
    rcases (h₂.onward (ho.steps h₁) ha₁).2 with hstay | hlt'
    · have hrank' : s'.rank id = s₁.rank id := rank_congr hstay
      omega
    · omega

/-- Ahead of a task at a link there are fewer than before, or the same, and the first in line is still
at its send. -/
def Closer (id : TaskId) (l l' : Link) : Prop :=
  (l'.sendLock.ahead id).length < (l.sendLock.ahead id).length
    ∨ l'.sendLock.ahead id = l.sendLock.ahead id
      ∧ Awaits (l.stage? ((l.sendLock.ahead id).headD id))
        (l'.stage? ((l.sendLock.ahead id).headD id))

theorem Closer.trans {l l' l₂ : Link} (h : Closer id l l') (h' : Closer id l' l₂) :
    Closer id l l₂ := by
  rcases h with hlt | ⟨hsame, hawaits⟩
  · rcases h' with hlt' | ⟨hsame', -⟩
    · exact Or.inl (Nat.lt_trans hlt' hlt)
    · exact Or.inl (hsame' ▸ hlt)
  · rcases h' with hlt' | ⟨hsame', hawaits'⟩
    · exact Or.inl (hsame ▸ hlt')
    · refine Or.inr ⟨hsame'.trans hsame, fun deadline told hstage => ?_⟩
      obtain ⟨told', hstage'⟩ := hawaits deadline told hstage
      rw [hsame] at hawaits'
      exact hawaits' deadline told' hstage'

theorem Closer.length_le {l l' : Link} (h : Closer id l l') :
    (l'.sendLock.ahead id).length ≤ (l.sendLock.ahead id).length := by
  rcases h with hlt | ⟨hsame, -⟩
  · exact Nat.le_of_lt hlt
  · exact Nat.le_of_eq (congrArg List.length hsame)

theorem Steps.closer (h : Steps act s s') (hr : s.Regular) {e : Exchange} {unsent : List Frame}
    (ht : s.task? id = some (.sending e unsent)) (hsame : s'.task? id = s.task? id) {l : Line}
    (hl : s.line? e.line = some l) :
    ∃ l', s'.line? e.line = some l' ∧ Closer id l.link l'.link := by
  have ha : s.Asking id := Or.inl (exchange?_of_task? ht ▸ nofun)
  induction h with
  | refl => exact ⟨l, hl, Or.inr ⟨rfl, awaits_of_eq rfl⟩⟩
  | @tail s₁ s₂ hsteps hstep ih =>
    have hstay := steps_stays hsteps (.single hstep) hr.orderly ha hsame
    obtain ⟨l₁, hl₁, hcloser⟩ := ih hstay
    have hr₁ := hr.steps hsteps
    obtain ⟨l₂, hl₂, hshift⟩ := hstep.shift hr₁.orderly.listening hl₁ (hr₁.linked.used _ _ hl₁)
    refine ⟨l₂, hl₂, hcloser.trans ?_⟩
    exact hshift.ahead (hr₁.linked.sound _ _ hl₁) (hr₁.linked.seated _ _ hl₁)
      (seat?_of_task? (hstay.trans ht)) (hsame.trans hstay.symm)

theorem turnTask_passes {t : Stage} {line : LineId} (ht : s.task? id = some t)
    (hseat : t.seat? = some line) :
    ∃ s₀, Quiet s s₀ ∧ Passes (.turn (.task id)) id line s₀ (s.turnTask id) := by
  have hid : s.task? id ≠ none := ne_none_of_task? ht
  refine ⟨s.suspend id t, quiet_suspend ht (Nat.le_refl _), ?_⟩
  unfold turnTask
  rw [ht]
  cases t with
  | sending e unsent =>
    obtain rfl := Option.some.inj hseat
    exact resumeSending_passes e unsent hid fun s' hid' => sendAll_steps rfl e unsent hid'
  | resetSending line' wait lossSeen =>
    obtain rfl := Option.some.inj hseat
    exact resumeResetSending_passes hid line' wait lossSeen
  | fresh | gated | answering | resetGated | resetWaiting | reconnecting | waiting | dozing =>
    exact absurd hseat nofun

theorem Sends.proceeds {k : TaskId} {line : LineId} {l : Line} {result : Option (Except Fault Unit)}
    (hs : Sends k line s s' result) (hl : s.line? line = some l) :
    ∃ link, l.link.Proceeds k s.agenda.now link result
      ∧ s'.line? line = some { l with link := link } := by
  rcases hs.line?_eq hl with ⟨hne, -⟩ | ⟨-, hlink⟩
  · exact absurd rfl hne
  · exact hlink

theorem Sends.fewer_ahead {s₁ : Session} {k : TaskId} {line : LineId} {l : Line}
    {result : Except Fault Unit} (hs : Sends k line s s₁ (some result))
    (hlines : s'.lines = s₁.lines ∨ ∃ frame, s'.lines = (s₁.enterSend k line frame).lines)
    (hl : s.line? line = some l) (hsound : l.link.Sound) (hid : id ∈ l.link.sendLock.line)
    (hne : k ≠ id) :
    ∃ l', s'.line? line = some l'
      ∧ (l'.link.sendLock.ahead id).length < (l.link.sendLock.ahead id).length := by
  obtain ⟨link, hp, hl₁⟩ := hs.proceeds hl
  have hfewer := proceeds_fewer_ahead hsound hp hid hne
  rcases hlines with hlines | ⟨frame, hlines⟩
  · exact ⟨_, (line?_of_lines hlines _).trans hl₁, hfewer⟩
  · have hentered := (line?_of_lines hlines _).trans (line?_enterSend hl₁ frame)
    rw [if_pos rfl] at hentered
    refine ⟨_, hentered, ?_⟩
    rw [proceeds_ahead_enter hsound hp hid hne frame]
    exact hfewer

/-- What the first in line does at the link in its turn: it writes its frame, or its wait is not over,
or there are fewer in line ahead of somebody else. -/
inductive Leads (id : TaskId) (now : Nat) (l l' : Link) : Prop where
  | writes {frame : Frame} {deadline : Nat} :
    l.stage? ((l.sendLock.ahead id).headD id) = some (.queued frame) →
    l'.stage? ((l.sendLock.ahead id).headD id) = some (.outstanding deadline none) →
    Leads id now l l'
  | waits {deadline : Nat} :
    l.stage? ((l.sendLock.ahead id).headD id) = some (.outstanding deadline none) →
    now < deadline → Leads id now l l'
  | passes : (l'.sendLock.ahead id).length < (l.sendLock.ahead id).length → Leads id now l l'

theorem turnTask_leads (hr : s.Regular) {e : Exchange} {unsent : List Frame} {l : Line}
    (ht : s.task? id = some (.sending e unsent)) (hl : s.line? e.line = some l) {k : TaskId}
    (hk : k = (l.link.sendLock.ahead id).headD id)
    (hsame : (s.turnTask k).task? id = s.task? id) :
    ∃ l', (s.turnTask k).line? e.line = some l' ∧ Leads id s.agenda.now l.link l'.link := by
  have hsound := hr.linked.sound _ _ hl
  have hseated := hr.linked.seated _ _ hl
  have hin : id ∈ l.link.sendLock.line := (hseated id).mpr (seat?_of_task? ht)
  -- the first of those ahead holds the lock, so its send goes on
  have hholder : l.link.sendLock.holder = some k := hk ▸ hsound.fair.holder_ahead hin
  obtain ⟨t, hkt, hseat⟩ := Option.bind_eq_some_iff.mp
    ((hseated k).mp (FairLock.mem_line_of_holder hholder))
  obtain ⟨s₀, hq, hpasses⟩ := turnTask_passes hkt hseat
  have hl₀ : s₀.line? e.line = some l := (line?_of_lines hq.lines _).trans hl
  cases hpasses with
  | stays hs hq' =>
    obtain ⟨link, hp, hl₁⟩ := hs.proceeds hl₀
    refine ⟨_, (line?_of_lines hq'.lines _).trans hl₁, ?_⟩
    cases hp with
    | gone hnone =>
      exact absurd hnone ((hsound.standing k).mp (FairLock.mem_line_of_holder hholder))
    | behind _ hh => exact absurd (hh.symm.trans (beq_iff_eq.mpr hholder)) nofun
    | @writes frame hstage =>
      have hwritten := (Link.stage?_setStage (l.link.writing k frame) k
        (.outstanding (s₀.agenda.now + l.link.ackTimeout) none) k).trans (if_pos rfl)
      exact .writes (hk ▸ hstage) ((congrArg (Link.stage? _) hk.symm).trans hwritten)
    | waits hstage hd => exact .waits (hk ▸ hstage) (Nat.lt_of_le_of_lt hq.now hd)
  | @leaves s₁ s₂ _ result hs hm hmoved hlines hsteps =>
    have hquiet : Step (.turn (.task k)) s s₀ := .ripple (.quiet hq)
    have hr₀ : s₀.Regular := hr.step hquiet
    have hr₂ : s₂.Regular := hr₀.step (.move rfl hm)
    have ht₀ : s₀.task? id = s.task? id := hq.task? id
    have ha₀ : s₀.Asking id := Or.inl (exchange?_of_task? (ht₀.trans ht) ▸ nofun)
    have hstay : s₂.task? id = s₀.task? id :=
      steps_stays (.single (.move rfl hm)) hsteps hr₀.orderly ha₀ (hsame.trans ht₀.symm)
    -- the request itself would have moved
    have hne : k ≠ id := by
      rintro rfl
      exact hmoved hstay
    obtain ⟨l₂, hl₂, hfewer⟩ := hs.fewer_ahead hlines hl₀ hsound hin hne
    obtain ⟨l', hl', hcloser⟩ := hsteps.closer hr₂ (hstay.trans (ht₀.trans ht))
      (hsame.trans (hstay.trans ht₀).symm) hl₂
    exact ⟨l', hl', .passes (Nat.lt_of_le_of_lt hcloser.length_le hfewer)⟩

variable {acts : Nat → Act}

theorem Regular.asking_trail (hr : s.Regular) {n : Nat} (ha : (s.trail acts n).Asking id) :
    ∀ m ≥ n, (s.trail acts m).Asking id := by
  intro m hm
  induction m, hm using Nat.le_induction with
  | base => exact ha
  | succ m _ ih => exact ((s.trail_steps acts m).onward (hr.trail acts m).orderly ih).1

theorem Regular.settled (hr : s.Regular) {n : Nat} (ha : (s.trail acts n).Asking id) :
    ∃ k ≥ n, ∀ m ≥ k, (s.trail acts m).task? id = (s.trail acts k).task? id :=
  settles (fun m => (s.trail acts m).task? id) (fun t => (t.map Stage.rank).getD 0) n fun m hm =>
    ((s.trail_steps acts m).onward (hr.trail acts m).orderly (hr.asking_trail ha m hm)).2

theorem Fair.not_answering (hf : s.Fair acts) {n : Nat} {e : Exchange} {deadline : Nat} :
    ¬∀ m ≥ n, (s.trail acts m).task? id = some (.answering e deadline) := by
  intro hstay
  obtain ⟨k, hk, hpast⟩ := hf.past deadline n
  refine hf.stops id k
    (P := fun s' => s'.task? id = some (.answering e deadline) ∧ deadline ≤ s'.agenda.now)
    (fun m hm => ⟨hstay m (Nat.le_trans hk hm), hpast m hm⟩) fun m hm => ?_
  have ht := hstay m (Nat.le_trans hk hm)
  have hdue := hpast m hm
  rintro ⟨ht', -⟩
  rw [turnTask, ht] at ht'
  dsimp only [resumeAnswering] at ht'
  split at ht'
  · exact absurd ht' (ne_of_gone (task?_finish_self _ id _))
  · exact absurd ht' (ne_of_gone (task?_finish_self _ id _))
  · rw [if_pos hdue] at ht'
    exact absurd ht' (ne_of_gone (task?_finish_self _ id _))

def aheadAt (s : Session) (line : LineId) (id : TaskId) : List TaskId :=
  ((s.line? line).map fun l => l.link.sendLock.ahead id).getD []

theorem aheadAt_of_line? {line : LineId} {l : Line} (h : s.line? line = some l) :
    s.aheadAt line id = l.link.sendLock.ahead id := by
  rw [aheadAt, h]
  rfl

/-- A request at one of its fragments, with these ahead of it at the link of its line. -/
structure Behind (s : Session) (id : TaskId) (e : Exchange) (unsent : List Frame)
    (ahead : List TaskId) (l : Line) : Prop where
  task : s.task? id = some (.sending e unsent)
  line : s.line? e.line = some l
  ahead : l.link.sendLock.ahead id = ahead

section

variable {e : Exchange} {unsent : List Frame} {ahead : List TaskId} {l l' : Line}

theorem Behind.awaits (h : Behind s id e unsent ahead l) (h' : Behind s' id e unsent ahead l')
    (hr : s.Regular) (hsteps : Steps act s s') :
    Awaits (l.link.stage? (ahead.headD id)) (l'.link.stage? (ahead.headD id)) := by
  obtain ⟨l₁, hl₁, hcloser⟩ := hsteps.closer hr h.task (h'.task.trans h.task.symm) h.line
  obtain rfl := Option.some.inj (h'.line.symm.trans hl₁)
  rcases hcloser with hlt | ⟨-, hawaits⟩
  · rw [h.ahead, h'.ahead] at hlt
    exact absurd hlt (Nat.lt_irrefl _)
  · exact h.ahead ▸ hawaits

theorem Behind.turnTask (h : Behind s id e unsent ahead l)
    (h' : Behind (s.turnTask (ahead.headD id)) id e unsent ahead l') (hr : s.Regular) :
    (∃ frame deadline, l.link.stage? (ahead.headD id) = some (.queued frame)
        ∧ l'.link.stage? (ahead.headD id) = some (.outstanding deadline none))
      ∨ ∃ deadline, l.link.stage? (ahead.headD id) = some (.outstanding deadline none)
        ∧ s.agenda.now < deadline := by
  obtain ⟨l₁, hl₁, hleads⟩ := turnTask_leads hr h.task h.line
    (congrArg (List.headD · id) h.ahead.symm) (h'.task.trans h.task.symm)
  obtain rfl := Option.some.inj (h'.line.symm.trans hl₁)
  cases hleads with
  | @writes frame deadline hbefore hafter =>
    exact Or.inl ⟨frame, deadline, h.ahead ▸ hbefore, h.ahead ▸ hafter⟩
  | @waits deadline hstage hnow => exact Or.inr ⟨deadline, h.ahead ▸ hstage, hnow⟩
  | passes hlt =>
    rw [h.ahead, h'.ahead] at hlt
    exact absurd hlt (Nat.lt_irrefl _)

theorem Regular.behind_of_settled (hr : s.Regular) {n : Nat}
    (hstay : ∀ m ≥ n, (s.trail acts m).task? id = some (.sending e unsent)) :
    ∃ k ≥ n, ∃ ahead, ∀ m ≥ k, ∃ l, Behind (s.trail acts m) id e unsent ahead l := by
  have hline : ∀ m ≥ n, ∃ l, (s.trail acts m).line? e.line = some l := fun m hm =>
    Option.ne_none_iff_exists'.mp ((hr.trail acts m).linked.present id _ e.line (hstay m hm) rfl)
  obtain ⟨k, hk, hsame⟩ := settles (fun m => (s.trail acts m).aheadAt e.line id) List.length n
    fun m hm => by
      obtain ⟨l, hl⟩ := hline m hm
      obtain ⟨l', hl', hcloser⟩ := (s.trail_steps acts m).closer (hr.trail acts m) (hstay m hm)
        ((hstay (m + 1) (Nat.le_succ_of_le hm)).trans (hstay m hm).symm) hl
      rw [aheadAt_of_line? hl, aheadAt_of_line? hl']
      exact hcloser.symm.imp And.left fun hlt => hlt
  refine ⟨k, hk, (s.trail acts k).aheadAt e.line id, fun m hm => ?_⟩
  obtain ⟨l, hl⟩ := hline m (Nat.le_trans hk hm)
  exact ⟨l, hstay m (Nat.le_trans hk hm), hl, (aheadAt_of_line? hl).symm.trans (hsame m hm)⟩

theorem Regular.outstanding_trail (hr : s.Regular) {k m₀ deadline : Nat} {told₀ : Option Verdict}
    (hbehind : ∀ m ≥ k, ∃ l, Behind (s.trail acts m) id e unsent ahead l) (hm₀ : m₀ ≥ k)
    (h₀ : Behind (s.trail acts m₀) id e unsent ahead l)
    (hstage₀ : l.link.stage? (ahead.headD id) = some (.outstanding deadline told₀)) :
    ∀ m ≥ m₀, ∃ l told, Behind (s.trail acts m) id e unsent ahead l
      ∧ l.link.stage? (ahead.headD id) = some (.outstanding deadline told) := by
  intro m hm
  induction m, hm using Nat.le_induction with
  | base => exact ⟨l, told₀, h₀, hstage₀⟩
  | succ m hm ih =>
    obtain ⟨l₁, told₁, h₁, hstage₁⟩ := ih
    obtain ⟨l₂, h₂⟩ := hbehind (m + 1) (Nat.le_succ_of_le (Nat.le_trans hm₀ hm))
    obtain ⟨told₂, hstage₂⟩ :=
      h₁.awaits h₂ (hr.trail acts m) (s.trail_steps acts m) deadline told₁ hstage₁
    exact ⟨l₂, told₂, h₂, hstage₂⟩

theorem Fair.first_writes (hf : s.Fair acts) (hr : s.Regular) {k : Nat}
    (hbehind : ∀ m ≥ k, ∃ l, Behind (s.trail acts m) id e unsent ahead l) :
    ∃ m ≥ k, ∃ l deadline told, Behind (s.trail acts m) id e unsent ahead l
      ∧ l.link.stage? (ahead.headD id) = some (.outstanding deadline told) := by
  by_contra! hunwritten
  refine hf.stops (ahead.headD id) k
    (P := fun s' => ∃ l, Behind s' id e unsent ahead l
      ∧ ∀ deadline told, l.link.stage? (ahead.headD id) ≠ some (.outstanding deadline told))
    (fun m hm => ?_) fun m hm => ?_
  · obtain ⟨l, h⟩ := hbehind m hm
    exact ⟨l, h, fun deadline told => hunwritten m hm l deadline told h⟩
  · rintro ⟨l', h', hnot⟩
    obtain ⟨l, h⟩ := hbehind m hm
    rcases h.turnTask h' (hr.trail acts m) with ⟨_, deadline, -, hwritten⟩ | ⟨deadline, hwaits, -⟩
    · exact hnot deadline none hwritten
    · exact hunwritten m hm l deadline none h hwaits

theorem Fair.not_behind (hf : s.Fair acts) (hr : s.Regular) {k : Nat} :
    ¬∀ m ≥ k, ∃ l, Behind (s.trail acts m) id e unsent ahead l := by
  intro hbehind
  obtain ⟨m₀, hm₀, l₀, deadline, told₀, h₀, hstage₀⟩ := hf.first_writes hr hbehind
  have houtstanding := hr.outstanding_trail hbehind hm₀ h₀ hstage₀
  obtain ⟨m₁, hm₁, hpast⟩ := hf.past deadline m₀
  refine hf.stops (ahead.headD id) m₁ (P := fun s' => ∃ l, Behind s' id e unsent ahead l)
    (fun m hm => hbehind m (Nat.le_trans hm₀ (Nat.le_trans hm₁ hm))) fun m hm => ?_
  rintro ⟨l', h'⟩
  obtain ⟨l, told, h, hstage⟩ := houtstanding m (Nat.le_trans hm₁ hm)
  rcases h.turnTask h' (hr.trail acts m) with ⟨_, _, hqueued, -⟩ | ⟨deadline', hwaits, hnow⟩
  · exact absurd (hqueued.symm.trans hstage) nofun
  · obtain ⟨rfl, -⟩ := SendStage.outstanding.inj (Option.some.inj (hwaits.symm.trans hstage))
    exact absurd (hpast m hm) (Nat.not_le_of_lt hnow)

theorem Fair.not_sending (hf : s.Fair acts) (hr : s.Regular) {n : Nat} :
    ¬∀ m ≥ n, (s.trail acts m).task? id = some (.sending e unsent) := by
  intro hstay
  obtain ⟨k, -, ahead, hbehind⟩ := hr.behind_of_settled hstay
  exact hf.not_behind hr hbehind

end

theorem Step.advances (h : Step act s s') (hr : s.Regular) (hid : id ∈ s.blockingLock.line)
    (hpresent : s'.task? id ≠ none) :
    FairLock.Advances s.blockingLock s'.blockingLock id := by
  cases h.atLock with
  | same hlock => exact Or.inl (congrArg (FairLock.ahead · id) hlock)
  | joins k hlock => exact hlock ▸ Or.inl (FairLock.ahead_join hr.lined.fair hid k)
  | leaves k hgone hlock =>
    refine hlock ▸ FairLock.advances_leave hr.lined.nodup ?_
    rintro rfl
    exact hpresent hgone

theorem Steps.advances (h : Steps act s s') (hr : s.Regular) {e : Exchange} {frames : List Frame}
    (ht : s.task? id = some (.gated e frames)) (hsame : s'.task? id = s.task? id) :
    s.blockingLock.Advances s'.blockingLock id := by
  have ha : s.Asking id := Or.inl (exchange?_of_task? ht ▸ nofun)
  induction h with
  | refl => exact Or.inl rfl
  | @tail s₁ s₂ hsteps hstep ih =>
    have hstay := (steps_stays hsteps (.single hstep) hr.orderly ha hsame).trans ht
    have hr₁ := hr.steps hsteps
    refine (ih (hstay.trans ht.symm)).trans ?_
    exact hstep.advances hr₁ (hr₁.lined.gated id ⟨e, frames, hstay⟩)
      (ne_none_of_task? (hsame.trans ht))

theorem turnTask_ungates (hr : s.Regular) {e : Exchange} {frames : List Frame}
    (ht : s.task? id = some (.gated e frames)) (hholds : s.blockingLock.holds id = true) :
    (s.turnTask id).task? id ≠ some (.gated e frames) := by
  intro ht'
  have hturn : s.turnTask id = s.sendAll id e frames := by
    rw [turnTask, ht]
    exact if_pos hholds
  have hid : s.task? id ≠ none := ne_none_of_task? ht
  have hpass : Steps (.turn (.task id)) s (s.sendNext id e frames) :=
    steps_move rfl (.pass ht hholds)
  have hrest : Steps (.turn (.task id)) (s.sendNext id e frames) (s.turnTask id) :=
    hturn ▸ sendAll_steps rfl e frames hid
  have ha : s.Asking id := Or.inl (exchange?_of_task? ht ▸ Option.some_ne_none e)
  have hgated := steps_stays hpass hrest hr.orderly ha (ht'.trans ht.symm)
  exact not_gated_sendNext hid e frames ⟨e, frames, hgated.trans ht⟩

theorem Fair.not_gated_first (hf : s.Fair acts) (hr : s.Regular) {n : Nat} {e : Exchange}
    {frames : List Frame} : ¬∀ m ≥ n, (s.trail acts m).task? id = some (.gated e frames)
      ∧ (s.trail acts m).blockingLock.holder = some id := by
  intro hstay
  refine hf.stops id n (P := fun s' => s'.task? id = some (.gated e frames))
    (fun m hm => (hstay m hm).1) fun m hm => ?_
  obtain ⟨ht, hholder⟩ := hstay m hm
  exact turnTask_ungates (hr.trail acts m) ht (beq_iff_eq.mpr hholder)

theorem Regular.holds_of_settled (hr : s.Regular) {k : Nat} {e : Exchange} {frames : List Frame}
    (hstay : ∀ m ≥ k, (s.trail acts m).task? id = some (.gated e frames)) :
    ∃ first, ∃ n ≥ k, ∀ m ≥ n, (s.trail acts m).blockingLock.holder = some first := by
  obtain ⟨n, hn, hsame⟩ := settles (fun m => (s.trail acts m).blockingLock.ahead id) List.length k
    fun m hm => (s.trail_steps acts m).advances (hr.trail acts m) (hstay m hm)
      ((hstay (m + 1) (Nat.le_succ_of_le hm)).trans (hstay m hm).symm)
  refine ⟨((s.trail acts n).blockingLock.ahead id).headD id, n, hn, fun m hm => ?_⟩
  have hlined := (hr.trail acts m).lined
  have hgated := hlined.gated id ⟨e, frames, hstay m (Nat.le_trans hn hm)⟩
  rw [hlined.fair.holder_ahead hgated]
  exact congrArg (fun ahead => some (List.headD ahead id)) (hsame m hm)

theorem Fair.gated_of_settled (hf : s.Fair acts) (hr : s.Regular) {k : Nat} {t : Stage}
    (hexchange : t.exchange? ≠ none) (hstay : ∀ m ≥ k, (s.trail acts m).task? id = some t) :
    ∃ e frames, t = .gated e frames := by
  cases t with
  | gated e frames => exact ⟨e, frames, rfl⟩
  | sending => exact absurd hstay (hf.not_sending hr)
  | answering => exact absurd hstay hf.not_answering
  | fresh | resetGated | resetSending | resetWaiting | reconnecting | waiting | dozing =>
    exact absurd rfl hexchange

theorem Fair.not_gated (hf : s.Fair acts) (hr : s.Regular) {n : Nat} {e : Exchange}
    {frames : List Frame} : ¬∀ m ≥ n, (s.trail acts m).task? id = some (.gated e frames) := by
  intro hstay
  obtain ⟨first, n, -, hholder⟩ := hr.holds_of_settled hstay
  -- the one that holds the lock makes a request, and would stay at some place for ever
  have hasks : ∀ m ≥ n, (s.trail acts m).exchange? first ≠ none := fun m hm =>
    (hr.trail acts m).lined.asks first (FairLock.mem_line_of_holder (hholder m hm))
  obtain ⟨k, hk, hsettled⟩ := hr.settled (Or.inl (hasks n (Nat.le_refl n)))
  obtain ⟨t, ht⟩ := Option.ne_none_iff_exists'.mp fun hn =>
    hasks k hk (exchange?_of_gone hn)
  have hthere : ∀ m ≥ k, (s.trail acts m).task? first = some t :=
    fun m hm => (hsettled m hm).trans ht
  obtain ⟨e', frames', rfl⟩ :=
    hf.gated_of_settled hr (exchange?_of_task? ht ▸ hasks k hk) hthere
  exact hf.not_gated_first hr fun m hm => ⟨hthere m hm, hholder m (Nat.le_trans hk hm)⟩

/-- In a fair run, every request comes to an end. -/
theorem Fair.ends (hf : s.Fair acts) (hr : s.Regular) {n : Nat}
    (ha : (s.trail acts n).Asking id) : ∃ m ≥ n, (s.trail acts m).task? id = none := by
  -- in the end it does not move; it is gone, or waits for the lock, which it would get
  obtain ⟨k, hk, hsettled⟩ := hr.settled ha
  refine ⟨k, hk, not_not.mp fun hn => ?_⟩
  obtain ⟨t, ht⟩ := Option.ne_none_iff_exists'.mp hn
  have hthere : ∀ m ≥ k, (s.trail acts m).task? id = some t :=
    fun m hm => (hsettled m hm).trans ht
  have hexchange : t.exchange? ≠ none := by
    rcases hr.asking_trail ha k hk with he | ⟨-, hgone⟩
    · exact exchange?_of_task? ht ▸ he
    · exact absurd hgone hn
  obtain ⟨e, frames, rfl⟩ := hf.gated_of_settled hr hexchange hthere
  exact hf.not_gated hr hthere

end

end NcpHost.Session
