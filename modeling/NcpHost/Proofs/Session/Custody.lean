import NcpHost.Proofs.Link.Queue
import NcpHost.Proofs.Session.Gate
import NcpHost.Proofs.Session.LifeCycle

/-! Who has the reset lock. Only resets ask for it, each of them in its first turn, and nobody gets past
it without holding it. Requests, readers, writers and those who attach and disconnect leave it alone, so
that whoever holds it keeps it for as long as it is there. -/

namespace NcpHost.Session

def Stage.pastLock? : Stage → Option Bool
  | resetGated _ _ => some false
  | resetSending _ _ _ => some true
  | resetWaiting _ _ => some true
  | reconnecting _ _ => some true
  | _ => none

theorem Stage.pastLock?_noticeLoss (t : Stage) : t.noticeLoss.pastLock? = t.pastLock? := by
  cases t <;> rfl

@[ext]
structure Custody where
  lock : FairLock
  resets : TaskId → Option Bool

def custody (s : Session) : Custody where
  lock := s.resetLock
  resets id := (s.task? id).bind Stage.pastLock?

namespace Custody

variable {c : Custody} {id : TaskId}

def set (c : Custody) (id : TaskId) (past : Option Bool) : Custody :=
  { c with resets := fun k => if k = id then past else c.resets k }

def join (c : Custody) (id : TaskId) : Custody :=
  { c.set id (some false) with lock := c.lock.join id }

def leave (c : Custody) (id : TaskId) : Custody :=
  { c.set id none with lock := c.lock.leave id }

theorem set_of_eq {past : Option Bool} (h : c.resets id = past) : c.set id past = c := by
  ext1
  · rfl
  · funext k
    dsimp only [set]
    split
    · next hk => rw [hk, h]
    · rfl

theorem set_set (c : Custody) (id : TaskId) (past past' : Option Bool) :
    (c.set id past).set id past' = c.set id past' := by
  ext1
  · rfl
  · funext k
    dsimp only [set]
    split <;> rfl

structure Sound (c : Custody) : Prop where
  fair : c.lock.Fair
  nodup : c.lock.line.Nodup
  standing : ∀ k, k ∈ c.lock.line ↔ c.resets k ≠ none
  holder : ∀ k, c.resets k = some true → c.lock.holder = some k

theorem Sound.join (h : c.Sound) (hid : c.resets id = none) : (c.join id).Sound := by
  have hout : id ∉ c.lock.line := fun hm => (h.standing id).mp hm hid
  refine ⟨FairLock.fair_join _ _, FairLock.nodup_join h.fair h.nodup hout, fun k => ?_,
    fun k hk => ?_⟩
  · refine (FairLock.mem_line_join h.fair).trans ?_
    dsimp only [Custody.join, set]
    split
    · next hk => simp [hk]
    · next hk => simp [hk, h.standing]
  · dsimp only [Custody.join, set] at hk ⊢
    split at hk
    · exact absurd hk nofun
    · exact FairLock.holder_join (h.holder k hk) id

theorem Sound.pass (h : c.Sound) (hh : c.lock.holder = some id) : (c.set id (some true)).Sound := by
  refine ⟨h.fair, h.nodup, fun k => (h.standing k).trans ?_, fun k hk => ?_⟩
  · dsimp only [set]
    split
    · next hk =>
      have hid := (h.standing id).mp (FairLock.mem_line_of_holder hh)
      simp [hk, hid]
    · rfl
  · dsimp only [set] at hk ⊢
    split at hk
    · next hkid => rw [hkid, hh]
    · exact h.holder k hk

theorem Sound.leave (h : c.Sound) (id : TaskId) : (c.leave id).Sound := by
  refine ⟨h.fair.leave id, FairLock.nodup_leave h.nodup id, fun k => ?_, fun k hk => ?_⟩
  · refine (FairLock.mem_line_leave h.nodup).trans ?_
    dsimp only [Custody.leave, set]
    split
    · next hk => simp [hk]
    · next hk => simp [hk, h.standing]
  · dsimp only [Custody.leave, set] at hk ⊢
    split at hk
    · exact absurd hk nofun
    · next hkid => exact FairLock.holder_leave (h.holder k hk) hkid

end Custody

section

variable {s : Session} {id : TaskId}

theorem custody_of_task? {t : Stage} (h : s.task? id = some t) :
    s.custody.resets id = t.pastLock? := by
  show (s.task? id).bind Stage.pastLock? = _
  rw [h]
  rfl

theorem custody_suspend (h : s.task? id ≠ none) (t : Stage) :
    (s.suspend id t).custody = s.custody.set id t.pastLock? := by
  ext1
  · rfl
  · funext k
    show ((s.suspend id t).task? k).bind _ = if k = id then _ else _
    rw [task?_suspend]
    split
    · next hk =>
      obtain ⟨t', ht'⟩ := Option.ne_none_iff_exists'.mp h
      rw [hk, ht']
      rfl
    · rfl

theorem custody_finish (s : Session) (id : TaskId) (outcome : Outcome) :
    (s.finish id outcome).custody = s.custody.set id none := by
  ext1
  · rfl
  · funext k
    show ((s.finish id outcome).task? k).bind _ = if k = id then _ else _
    rw [task?_finish]
    split <;> rfl

theorem custody_finish_other (h : s.custody.resets id = none) (outcome : Outcome) :
    (s.finish id outcome).custody = s.custody :=
  (custody_finish s id outcome).trans (Custody.set_of_eq h)

theorem custody_suspend_other (h : s.custody.resets id = none) {t : Stage}
    (ht : t.pastLock? = none) : (s.suspend id t).custody = s.custody := by
  by_cases hid : s.task? id = none
  · ext1
    · rfl
    · funext k
      show ((s.suspend id t).task? k).bind _ = (s.task? k).bind _
      rw [task?_suspend]
      split
      · next hk => rw [hk, hid, Option.map_none]
      · rfl
  · rw [custody_suspend hid, ht, Custody.set_of_eq h]

theorem custody_spawn (s : Session) (job : Job) : (s.spawn job).1.custody = s.custody := by
  ext1
  · rfl
  · funext k
    show ((s.tasks ++ [(s.nextTask, Stage.fresh job)]).lookup k).bind _ = (s.tasks.lookup k).bind _
    rw [List.lookup_append]
    cases s.tasks.lookup k with
    | some t => rfl
    | none =>
      rw [Option.none_or, List.lookup_cons]
      split <;> rfl

theorem custody_endExchange (h : s.custody.resets id = none) (e : Exchange)
    (result : Except Fault Command) : (s.endExchange id e result).custody = s.custody :=
  custody_finish_other (s := { s with
    blockingLock := s.blockingLock.leave id
    registry := s.registry.release e.listener }) h _

theorem Sends.custody {line : LineId} {s' : Session} {result : Option (Except Fault Unit)}
    (h : Sends id line s s' result) : s'.custody = s.custody := by
  cases h <;> rfl

theorem custody_proceedSend (s : Session) (id : TaskId) (line : LineId) :
    (s.proceedSend id line).1.custody = s.custody := by
  obtain ⟨s', agenda, -, hs, heq⟩ := s.sends_proceedSend id line
  rw [heq]
  exact hs.custody

theorem custody_listen (h : s.custody.resets id = none) (e : Exchange) :
    (s.listen id e).custody = s.custody := by
  unfold listen
  split
  · exact custody_endExchange h e _
  · exact custody_endExchange h e _
  · split
    · exact custody_endExchange h e _
    · exact custody_suspend_other h rfl

theorem custody_sendAll (h : s.custody.resets id = none) (e : Exchange) (frames : List Frame) :
    (s.sendAll id e frames).custody = s.custody := by
  induction frames generalizing s with
  | nil => exact custody_listen h e
  | cons frame rest ih =>
    have hsent : ((s.enterSend id e.line frame).proceedSend id e.line).1.custody = s.custody :=
      custody_proceedSend (s.enterSend id e.line frame) id e.line
    unfold sendAll
    generalize (s.enterSend id e.line frame).proceedSend id e.line = sent at hsent
    obtain ⟨s', result⟩ := sent
    have h' : s'.custody.resets id = none := (congrArg (·.resets id) hsent).trans h
    rcases result with _ | cause | _
    · exact (custody_suspend_other h' rfl).trans hsent
    · exact (custody_endExchange h' e _).trans hsent
    · exact (ih h').trans hsent

theorem custody_resumeSending (h : s.custody.resets id = none) (e : Exchange)
    (unsent : List Frame) : (s.resumeSending id e unsent).custody = s.custody := by
  have hsent := custody_proceedSend s id e.line
  unfold resumeSending
  generalize s.proceedSend id e.line = sent at hsent
  obtain ⟨s', result⟩ := sent
  have h' : s'.custody.resets id = none := (congrArg (·.resets id) hsent).trans h
  rcases result with _ | cause | _
  · exact (custody_suspend_other h' rfl).trans hsent
  · exact (custody_endExchange h' e _).trans hsent
  · exact (custody_sendAll h' e unsent).trans hsent

theorem custody_resumeAnswering (h : s.custody.resets id = none) (e : Exchange) (deadline : Nat) :
    (s.resumeAnswering id e deadline).custody = s.custody := by
  unfold resumeAnswering
  split
  · exact custody_endExchange h e _
  · exact custody_endExchange h e _
  · split
    · exact custody_endExchange h e _
    · rfl

theorem custody_resumeGated (h : s.custody.resets id = none) (e : Exchange) (frames : List Frame) :
    (s.resumeGated id e frames).custody = s.custody := by
  unfold resumeGated
  split
  · exact custody_sendAll h e frames
  · rfl

theorem custody_startRequest (h : s.custody.resets id = none) (purpose : Purpose) (c : Command)
    (timeout : Nat) : (s.startRequest id purpose c timeout).custody = s.custody := by
  unfold startRequest
  split
  · exact custody_finish_other h _
  · next pattern line packet _ =>
    let registered : Session := { s with registry := (s.registry.await [pattern]).1 }
    let joined : Session := { registered with blockingLock := s.blockingLock.join id }
    dsimp only
    split
    · exact custody_sendAll (s := registered) h _ _
    · split
      · exact custody_sendAll (s := joined) h _ _
      · exact custody_suspend_other (s := joined) h rfl

theorem custody_startVersion (h : s.custody.resets id = none) :
    (s.startVersion id).custody = s.custody := by
  unfold startVersion
  dsimp only
  split
  · exact custody_finish_other (s := s.takeTsn.1) h _
  · exact custody_startRequest (s := s.takeTsn.1) h .version _ _

theorem custody_resumeWaiting (h : s.custody.resets id = none) (listener : ListenerId) :
    (s.resumeWaiting id listener).custody = s.custody := by
  let released : Session := { s with registry := s.registry.release listener }
  unfold resumeWaiting
  split
  · exact custody_finish_other (s := released) h _
  · exact custody_finish_other (s := released) h _
  · exact custody_suspend_other h rfl

theorem custody_leaveLine (s : Session) (line : LineId) (cause : Option Fault) :
    (s.leaveLine line cause).custody = s.custody := by
  have htold : ∀ s' : Session, s'.resetLock = s.resetLock →
      s'.tasks = s.tasks.map (fun (e : TaskId × Stage) => (e.1, e.2.noticeLoss)) →
      s'.custody = s.custody := by
    intro s' hlock htasks
    ext1
    · exact hlock
    · funext k
      show (s'.tasks.lookup k).bind _ = (s.task? k).bind _
      have hlookup := task?_noticeLoss s k
      rw [htasks]
      refine (congrArg (Option.bind · Stage.pastLock?) hlookup).trans ?_
      cases s.task? k with
      | none => rfl
      | some t => exact t.pastLock?_noticeLoss
  unfold leaveLine
  split
  · rfl
  · dsimp only
    split <;> exact htold _ rfl rfl

theorem custody_loseLine (s : Session) (line : LineId) (cause : Option Fault) :
    (s.loseLine line cause).custody = s.custody := by
  unfold loseLine
  split
  · rfl
  · dsimp only
    split
    · exact custody_leaveLine _ line cause
    · rfl

theorem custody_invoke (s : Session) (callback : Callback Deed) (c : Command) :
    (s.invoke callback c).1.custody = s.custody := by
  cases callback with
  | inline deed =>
    obtain ⟨warnings, heq⟩ := s.invoke_inline deed c
    rw [heq]
    rfl
  | spawned deed =>
    unfold invoke
    dsimp only
    split
    · rfl
    · exact custody_spawn s _

theorem custody_endCallback (hresets : s.custody.resets id = none)
    (deed : Deed) (command : String) : (s.endCallback id deed command).custody = s.custody := by
  obtain ⟨warnings, heq⟩ := s.endCallback_eq id deed command
  rw [heq]
  exact custody_finish_other hresets .done

theorem custody_invokeAll (s : Session) (c : Command) (callbacks : List (Callback Deed)) :
    (s.invokeAll c callbacks).1.custody = s.custody := by
  induction callbacks generalizing s with
  | nil => rfl
  | cons callback rest ih =>
    have hone := custody_invoke s callback c
    rw [invokeAll]
    split
    · next h => rwa [h] at hone
    · next s' h =>
      rw [h] at hone
      exact (ih s').trans hone

theorem custody_receiveFrame (s : Session) (frame : Frame) :
    (s.receiveFrame frame).1.custody = s.custody := by
  unfold receiveFrame
  dsimp only
  split
  · next c _ => exact custody_invokeAll _ c _
  · rfl

theorem custody_acceptFrames (s : Session) (line : LineId) (frames : List Frame) :
    (s.acceptFrames line frames).custody = s.custody := by
  induction frames generalizing s with
  | nil => rfl
  | cons frame rest ih =>
    unfold acceptFrames
    split
    · rfl
    · next l _ =>
      dsimp only
      cases (l.link.accept frame).2 with
      | none => exact ih _
      | some f =>
        have hreceived := custody_receiveFrame
          (s.modifyLine line fun l' => { l' with link := (l.link.accept frame).1 }) f
        dsimp only
        split
        · exact hreceived
        · exact (ih _).trans hreceived

theorem custody_turnReader (s : Session) (line : LineId) :
    (s.turnReader line).custody = s.custody := by
  unfold turnReader
  split
  · rfl
  · next l _ =>
    split
    · rfl
    · split
      · rfl
      · split
        · exact custody_loseLine s line _
        · split
          · unfold receiveBytes
            split
            · rfl
            · exact custody_acceptFrames _ line _
          · exact custody_loseLine s line _

theorem custody_turnWriter (s : Session) (line : LineId) :
    (s.turnWriter line).custody = s.custody := by
  unfold turnWriter
  split
  · rfl
  · split
    · rfl
    · split
      · dsimp only
        split
        · exact custody_loseLine s line _
        · rfl
      · dsimp only
        split <;> rfl

theorem custody_closeCurrent (s : Session) : s.closeCurrent.custody = s.custody := by
  unfold closeCurrent
  split <;> rfl

theorem custody_attach (s : Session) : s.attach.1.custody = s.custody := s.custody_closeCurrent

theorem custody_disconnect (s : Session) : s.disconnect.custody = s.custody := by
  unfold disconnect
  dsimp only
  split
  · exact custody_closeCurrent s
  · exact custody_closeCurrent { s with hook := none, registry := s.registry.clear }

theorem custody_connect (s : Session) : s.connect.1.custody = s.custody := by
  unfold connect
  split
  · rfl
  · split
    · exact custody_attach s
    · exact custody_disconnect s

end

section

variable {s s' : Session} {id : TaskId}

def GoesOn (id : TaskId) (s s' : Session) : Prop :=
  s'.custody = s.custody.set id (some true)
    ∨ s'.task? id = none ∧ s'.custody = s.custody.leave id

theorem goesOn_endReset (s : Session) (id : TaskId) (outcome : Outcome) :
    GoesOn id s (s.endReset id outcome) :=
  Or.inr ⟨task?_finish_self _ id outcome, custody_finish _ id outcome⟩

theorem goesOn_sleepBefore (h : s.task? id ≠ none) (attempt : Nat) :
    GoesOn id s (s.sleepBefore id attempt) :=
  Or.inl (custody_suspend (s := s.dropTimer id) h _)

theorem GoesOn.of_eq {s₀ : Session} (h : GoesOn id s₀ s') (heq : s₀.custody = s.custody) :
    GoesOn id s s' := by
  rwa [GoesOn, heq] at h

theorem goesOn_resetSent (h : s.task? id ≠ none) (wait lossSeen : Bool) :
    GoesOn id s (s.resetSent id wait lossSeen) := by
  unfold resetSent
  split
  · exact goesOn_endReset s id _
  · split
    · exact goesOn_sleepBefore h 1
    · exact Or.inl (custody_suspend h _)

theorem goesOn_resumeResetSending (h : s.task? id ≠ none) (line : LineId) (wait lossSeen : Bool) :
    GoesOn id s (s.resumeResetSending id line wait lossSeen) := by
  obtain ⟨s', agenda, -, hsends, heq⟩ := s.sends_proceedSend id line
  have hsent := custody_proceedSend s id line
  have hthere : (s.proceedSend id line).1.task? id ≠ none := by
    rw [heq]
    exact fun hn => h ((hsends.task? id).symm.trans hn)
  unfold resumeResetSending
  generalize s.proceedSend id line = sent at hsent hthere
  obtain ⟨s₁, result⟩ := sent
  rcases result with _ | cause | _
  · exact GoesOn.of_eq (Or.inl (custody_suspend hthere _)) hsent
  · exact (goesOn_endReset s₁ id _).of_eq hsent
  · exact (goesOn_resetSent hthere wait lossSeen).of_eq hsent

theorem goesOn_sendReset (h : s.task? id ≠ none) (request : Frame) (wait : Bool) :
    GoesOn id s (s.sendReset id request wait) := by
  unfold sendReset
  split
  · exact goesOn_endReset s id _
  · next line _ =>
    exact goesOn_resumeResetSending (s := s.enterSend id line request) h line wait false

theorem goesOn_resumeResetWaiting (h : s.custody.resets id = some true) (hid : s.task? id ≠ none)
    (deadline : Nat) (lossSeen : Bool) :
    GoesOn id s (s.resumeResetWaiting id deadline lossSeen) := by
  unfold resumeResetWaiting
  split
  · exact goesOn_sleepBefore hid 1
  · split
    · exact goesOn_endReset s id _
    · exact Or.inl (Custody.set_of_eq h).symm

theorem goesOn_resumeReconnecting (h : s.custody.resets id = some true) (hid : s.task? id ≠ none)
    (attempt due : Nat) : GoesOn id s (s.resumeReconnecting id attempt due) := by
  have hconnected := custody_connect s
  have hthere : s.connect.1.task? id ≠ none := by
    rw [task?, tasks_connect]
    exact hid
  unfold resumeReconnecting
  split
  · exact Or.inl (Custody.set_of_eq h).symm
  · generalize s.connect = connected at hconnected hthere
    obtain ⟨s₁, result⟩ := connected
    rcases result with cause | _
    · dsimp only
      split
      · exact (goesOn_endReset s₁ id _).of_eq hconnected
      · exact (goesOn_sleepBefore hthere _).of_eq hconnected
    · exact (goesOn_endReset s₁ id _).of_eq hconnected

inductive AtResetLock (id : TaskId) (s s' : Session) : Prop where
  | aside : s'.custody = s.custody → AtResetLock id s s'
  | waits : s.custody.resets id = none → s'.custody = s.custody.join id → AtResetLock id s s'
  | passes : s.resetLock.holder = some id → s'.custody = s.custody.set id (some true) →
    AtResetLock id s s'
  | enters : s.custody.resets id = none → (s.resetLock.join id).holder = some id →
    s'.custody = (s.custody.join id).set id (some true) → AtResetLock id s s'
  | leaves : s'.task? id = none → s'.custody = s.custody.leave id → AtResetLock id s s'
  | fails : s.custody.resets id = none → s'.task? id = none →
    s'.custody = (s.custody.join id).leave id → AtResetLock id s s'

theorem GoesOn.atResetLock (h : GoesOn id s s') (hpast : s.custody.resets id = some true) :
    AtResetLock id s s' := by
  rcases h with heq | ⟨hgone, heq⟩
  · exact .aside (heq.trans (Custody.set_of_eq hpast))
  · exact .leaves hgone heq

theorem atResetLock_startReset (h : s.custody.resets id = none) (hid : s.task? id ≠ none)
    (option : Standard.ResetOption) (wait : Bool) :
    AtResetLock id s (s.startReset id option wait) := by
  unfold startReset
  dsimp only
  split
  · exact .aside (custody_finish_other (s := s.takeTsn.1) h _)
  · next request _ =>
    let joined : Session := { s.takeTsn.1 with resetLock := s.resetLock.join id }
    split
    · next hh =>
      rcases goesOn_sendReset (s := joined) hid request wait with heq | ⟨hgone, heq⟩
      · refine .enters h (beq_iff_eq.mp hh) (heq.trans ?_)
        exact (Custody.set_set joined.custody id (some false) (some true)).symm
      · refine .fails h hgone (heq.trans ?_)
        have hset := Custody.set_set joined.custody id (some false) none
        exact congrArg (fun c => { c with lock := (s.resetLock.join id).leave id }) hset.symm
    · exact .waits h (custody_suspend (s := joined) hid _)

theorem atResetLock_turnTask (s : Session) (id : TaskId) : AtResetLock id s (s.turnTask id) := by
  unfold turnTask
  cases ht : s.task? id with
  | none => exact .aside rfl
  | some t =>
    have hid := ne_none_of_task? ht
    have hresets := custody_of_task? ht
    -- by stage: only resets come near the lock
    cases t with
    | fresh job =>
      cases job with
      | request c timeout => exact .aside (custody_startRequest hresets .response c timeout)
      | version => exact .aside (custody_startVersion hresets)
      | reset option wait => exact atResetLock_startReset hresets hid option wait
      | wait listener => exact .aside (custody_resumeWaiting hresets listener)
      | callback deed command =>
        refine .aside ?_
        dsimp only [startJob]
        split
        · exact custody_endCallback hresets deed command
        · exact custody_suspend_other hresets rfl
    | gated e frames => exact .aside (custody_resumeGated hresets e frames)
    | sending e unsent => exact .aside (custody_resumeSending hresets e unsent)
    | answering e deadline => exact .aside (custody_resumeAnswering hresets e deadline)
    | resetGated request wait =>
      dsimp only [resumeResetGated]
      split
      · next hh =>
        rcases goesOn_sendReset hid request wait with heq | ⟨hgone, heq⟩
        · exact .passes (beq_iff_eq.mp hh) heq
        · exact .leaves hgone heq
      · exact .aside rfl
    | resetSending line wait lossSeen =>
      exact (goesOn_resumeResetSending hid line wait lossSeen).atResetLock hresets
    | resetWaiting deadline lossSeen =>
      exact (goesOn_resumeResetWaiting hresets hid deadline lossSeen).atResetLock hresets
    | reconnecting attempt due =>
      exact (goesOn_resumeReconnecting hresets hid attempt due).atResetLock hresets
    | waiting listener => exact .aside (custody_resumeWaiting hresets listener)
    | dozing deed command due =>
      refine .aside ?_
      dsimp only
      split
      · exact custody_endCallback hresets deed command
      · rfl

theorem atResetLock_abort (s : Session) (id : TaskId) : AtResetLock id s (s.abort id) := by
  rcases s.abort_cases id with ⟨-, heq⟩ | ⟨t, ht, ha⟩
  · exact .aside (congrArg Session.custody heq)
  · refine .leaves ((ha.task? id).trans (if_pos rfl)) ?_
    ext1
    · show (s.abort id).resetLock = s.resetLock.leave id
      unfold abort
      rw [ht]
      dsimp only
      cases t.line? <;> cases t.listener? <;> rfl
    · funext k
      show ((s.abort id).task? k).bind _ = if k = id then _ else _
      rw [ha.task?]
      split <;> rfl

theorem AtResetLock.sound (h : AtResetLock id s s') (hs : s.custody.Sound) : s'.custody.Sound := by
  cases h with
  | aside heq => exact heq ▸ hs
  | waits hid heq => exact heq ▸ hs.join hid
  | passes hh heq => exact heq ▸ hs.pass hh
  | enters hid hh heq => exact heq ▸ (hs.join hid).pass hh
  | leaves _ heq => exact heq ▸ hs.leave id
  | fails hid _ heq => exact heq ▸ (hs.join hid).leave id

theorem AtResetLock.keeps (h : AtResetLock id s s') {k : TaskId}
    (hk : s.resetLock.holder = some k) : s'.resetLock.holder = some k ∨ s'.task? k = none := by
  have hlock : ∀ {c : Custody}, s'.custody = c → s'.resetLock = c.lock := congrArg Custody.lock
  have hleft : ∀ {l : FairLock}, l.holder = some k → s'.task? id = none →
      (l.leave id).holder = some k ∨ s'.task? k = none := by
    intro l hl hgone
    by_cases hkid : k = id
    · exact Or.inr (hkid ▸ hgone)
    · exact Or.inl (FairLock.holder_leave hl hkid)
  cases h with
  | aside heq | passes _ heq => exact Or.inl (hlock heq ▸ hk)
  | waits _ heq | enters _ _ heq => exact Or.inl (hlock heq ▸ FairLock.holder_join hk id)
  | leaves hgone heq => exact hlock heq ▸ hleft hk hgone
  | fails _ hgone heq => exact hlock heq ▸ hleft (FairLock.holder_join hk id) hgone

theorem atResetLock_happen (s : Session) (h : Happening) :
    ∃ id, AtResetLock id s (s.happen h) := by
  -- most things leave the lock alone, so any task will do
  have haside : (s.happen h).custody = s.custody → ∃ id, AtResetLock id s (s.happen h) :=
    fun heq => ⟨0, .aside heq⟩
  cases h with
  | report line cause => exact haside (custody_loseLine s line cause)
  | late line cause =>
    refine haside ?_
    unfold happen
    dsimp only
    split
    · split
      · rfl
      · exact custody_leaveLine s line cause
    · rfl
  | device opens => exact haside rfl
  | act act =>
    cases act with
    | attach => exact haside (custody_attach s)
    | connect =>
      refine haside ?_
      show (s.perform .connect).1.custody = _
      rw [perform_connect]
      exact custody_connect s
    | disconnect => exact haside (custody_disconnect s)
    | setHook | takeTsn | remove | cancel | release | arrive | hangUp | breakReading
    | breakWriting | elapse | queue => exact haside rfl
    | start job => exact haside (custody_spawn s job)
    | abort id => exact ⟨id, atResetLock_abort s id⟩
    | await patterns =>
      refine haside ?_
      show (s.replyListener (s.await patterns)).1.custody = _
      unfold await
      split <;> rfl
    | subscribe patterns callback =>
      refine haside ?_
      show (s.replyListener (s.subscribe patterns callback)).1.custody = _
      unfold subscribe
      split <;> rfl
    | turn worker =>
      cases worker with
      | reader line => exact haside (custody_turnReader s line)
      | writer line => exact haside (custody_turnWriter s line)
      | task id => exact ⟨id, atResetLock_turnTask s id⟩

theorem custody_sound_new (config : Config) (catalog : Catalog) (deviceOpens : Bool) :
    (new config catalog deviceOpens).custody.Sound :=
  ⟨fun _ => rfl, List.nodup_nil,
    fun _ => ⟨fun h => absurd h List.not_mem_nil, fun h => absurd rfl h⟩, fun _ h => absurd h nofun⟩

theorem Custody.Sound.happen (hs : s.custody.Sound) (h : Happening) :
    (s.happen h).custody.Sound := by
  obtain ⟨id, hat⟩ := s.atResetLock_happen h
  exact hat.sound hs

end

section

variable {s : Session} {h : Happening} {id : TaskId}

def Happening.asAct : Happening → Act
  | act a => a
  | report line _ => .hangUp line
  | late _ _ => .takeTsn
  | device _ => .takeTsn

theorem Happening.eq_of_asAct {h : Happening} {act : Act} (heq : h.asAct = act)
    (hhangs : ∀ line, act ≠ .hangUp line) (htakes : act ≠ .takeTsn) : h = .act act := by
  cases h with
  | act => exact congrArg Happening.act heq
  | report line => exact absurd heq.symm (hhangs line)
  | late | device => exact absurd heq.symm htakes

theorem happen_steps (hs : s.outline.Sound) (h : Happening) : Steps h.asAct s (s.happen h) := by
  cases h with
  | act act => exact perform_steps s act
  | report line cause =>
    have hmay : MaySwitch (.hangUp line) s := fun _ heq => absurd heq nofun
    exact (loseLine_steps hmay line cause).1
  | late line cause =>
    rw [happen_late hs]
  | device opens => exact steps_quiet ⟨rfl, rfl, rfl, rfl, rfl, fun _ => rfl, rfl, rfl, Nat.le_refl _⟩

structure Lawful (s : Session) : Prop where
  regular : s.Regular
  outline : s.outline.Sound
  custody : s.custody.Sound

theorem lawful_new (config : Config) (catalog : Catalog) (deviceOpens : Bool) :
    (new config catalog deviceOpens).Lawful :=
  ⟨regular_new config catalog deviceOpens, sound_new config catalog deviceOpens,
    custody_sound_new config catalog deviceOpens⟩

theorem Lawful.happen (hs : s.Lawful) (h : Happening) : (s.happen h).Lawful :=
  ⟨hs.regular.steps (happen_steps hs.outline h), (course hs.outline h).sound hs.outline,
    hs.custody.happen h⟩

theorem Lawful.happenAll (hs : s.Lawful) (happenings : List Happening) :
    (s.happenAll happenings).Lawful := by
  induction happenings generalizing s with
  | nil => exact hs
  | cons h rest ih => exact ih (hs.happen h)

theorem Lawful.keeps_lock_or_gone (hs : s.Lawful) (hid : id < s.nextTask)
    (hor : s.resetLock.holder = some id ∨ s.task? id = none) (happenings : List Happening) :
    (s.happenAll happenings).resetLock.holder = some id
      ∨ (s.happenAll happenings).task? id = none := by
  induction happenings generalizing s with
  | nil => exact hor
  | cons h rest ih =>
    have hsteps := happen_steps hs.outline h
    refine ih (hs.happen h) (Nat.lt_of_lt_of_le hid hsteps.nextTask_le) ?_
    rcases hor with hh | hgone
    · obtain ⟨k, hat⟩ := s.atResetLock_happen h
      exact hat.keeps hh
    · exact Or.inr (hsteps.gone hid hgone).2

theorem Lawful.resets_of_holder (hs : s.Lawful) (hh : s.resetLock.holder = some id) :
    ∃ t, s.task? id = some t ∧ t.pastLock? ≠ none := by
  have hresets := (hs.custody.standing id).mp (FairLock.mem_line_of_holder hh)
  obtain ⟨past, hpast⟩ := Option.ne_none_iff_exists'.mp hresets
  obtain ⟨t, ht, hstage⟩ := Option.bind_eq_some_iff.mp hpast
  exact ⟨t, ht, hstage ▸ nofun⟩

theorem Lawful.keeps_lock (hs : s.Lawful) (hh : s.resetLock.holder = some id)
    (happenings : List Happening) (hthere : (s.happenAll happenings).task? id ≠ none) :
    (s.happenAll happenings).resetLock.holder = some id := by
  obtain ⟨t, ht, -⟩ := hs.resets_of_holder hh
  have hid : id < s.nextTask := hs.regular.orderly.listening.known id (ne_none_of_task? ht)
  exact (hs.keeps_lock_or_gone hid (Or.inl hh) happenings).resolve_right hthere

theorem Lawful.lock_free (hs : s.Lawful)
    (hnone : ∀ id t, s.task? id = some t → t.pastLock? = none) : s.resetLock.isHeld = false := by
  refine Bool.eq_false_iff.mpr fun hheld => ?_
  obtain ⟨id, hh⟩ := Option.isSome_iff_exists.mp hheld
  obtain ⟨t, ht, hpast⟩ := hs.resets_of_holder hh
  exact hpast (hnone id t ht)

end

end NcpHost.Session
