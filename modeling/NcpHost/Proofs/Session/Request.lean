import NcpHost.Proofs.Registry
import NcpHost.Proofs.Session.Steps

/-! What a step does to a request. A request has a listener that nobody else has. Until it is given up
or has an outcome, only commands that are offered do anything to this listener, unless somebody lays
hands on it or all listeners are cancelled. -/

namespace NcpHost

namespace Registry

variable {κ : Type}

/-- A listener is no nearer to its command than before: it may be removed, and its slot closed or
dropped. -/
structure Fades (id : ListenerId) (r r' : Registry κ) : Prop where
  listener : r'.listener? id = none ∨ r'.listener? id = r.listener? id
  content : ∀ s', r'.slot? id = some s' → ∃ s, r.slot? id = some s ∧ s'.content = s.content
  live : ∀ s s', r.slot? id = some s → r'.slot? id = some s' → s'.live = true →
    s.live = true ∧ r'.listener? id = r.listener? id

theorem Same.fades {id : ListenerId} {r r' : Registry κ} (h : Same id r r') : Fades id r r' := by
  refine ⟨Or.inr h.listener, fun s' hs => ⟨s', h.slot ▸ hs, rfl⟩, fun s s' hs hs' hlive => ?_⟩
  obtain rfl := Option.some.inj (hs.symm.trans (h.slot.symm.trans hs'))
  exact ⟨hlive, h.listener⟩

section

variable {r : Registry κ}

theorem Sound.fades_unregister (hr : r.Sound) (id k : ListenerId) :
    Fades id r (r.unregister k) := by
  obtain ⟨hlistener, hslot, -⟩ := hr.unregister_eq k
  refine ⟨?_, fun s' hs => ?_, fun s s' hs hs' hlive => ?_⟩
  · rw [hlistener]
    split
    · exact Or.inl rfl
    · exact Or.inr rfl
  · rw [hslot] at hs
    split at hs
    · obtain ⟨s, h, rfl⟩ := Option.map_eq_some_iff.mp hs
      exact ⟨s, h, rfl⟩
    · exact ⟨s', hs, rfl⟩
  · rw [hslot, hs] at hs'
    split at hs'
    · obtain rfl := Option.some.inj hs'
      exact absurd hlive Bool.false_ne_true
    · next hk =>
      -- it is another listener, or it was gone before
      obtain rfl := Option.some.inj hs'
      refine ⟨hlive, (hlistener id).trans ?_⟩
      split
      · next heq =>
        subst heq
        exact (Option.not_isSome_iff_eq_none.mp fun hsome => hk ⟨rfl, hsome⟩).symm
      · rfl

theorem Sound.fades_cancel (hr : r.Sound) (id k : ListenerId) : Fades id r (r.cancel k) := by
  have h := hr.fades_unregister id k
  have hslot : (r.cancel k).slot? id
      = if id = k then ((r.unregister k).slot? id).map Slot.close else (r.unregister k).slot? id :=
    slot?_modifySlot _ k _ id
  refine ⟨h.listener, fun s' hs => ?_, fun s s' hs hs' hlive => ?_⟩
  · rw [hslot] at hs
    split at hs
    · obtain ⟨s, hu, rfl⟩ := Option.map_eq_some_iff.mp hs
      exact h.content s hu
    · exact h.content s' hs
  · rw [hslot] at hs'
    split at hs'
    · obtain ⟨s₁, -, rfl⟩ := Option.map_eq_some_iff.mp hs'
      simp [Slot.close, Slot.live] at hlive
    · exact h.live s s' hs hs' hlive

theorem Sound.fades_release (hr : r.Sound) (id k : ListenerId) : Fades id r (r.release k) := by
  have h := hr.fades_unregister id k
  have hslot : (r.release k).slot? id = if id = k then none else (r.unregister k).slot? id :=
    slot?_forget _ k id
  refine ⟨h.listener, fun s' hs => ?_, fun s s' hs hs' hlive => ?_⟩
  · rw [hslot] at hs
    split at hs
    · exact absurd hs nofun
    · exact h.content s' hs
  · rw [hslot] at hs'
    split at hs'
    · exact absurd hs' nofun
    · exact h.live s s' hs hs' hlive

theorem Sound.fades_clear (hr : r.Sound) (id : ListenerId) : Fades id r r.clear := by
  refine ⟨Or.inl rfl, fun s' hs => ?_, fun s s' hs hs' hlive => ?_⟩
  · rw [hr.slot?_clear] at hs
    obtain ⟨s, h, rfl⟩ := Option.map_eq_some_iff.mp hs
    refine ⟨s, h, ?_⟩
    split <;> rfl
  · rw [hr.slot?_clear, hs] at hs'
    obtain rfl := Option.some.inj hs'
    split at hlive
    · exact absurd hlive Bool.false_ne_true
    · next hnone => exact ⟨hlive, (Option.not_isSome_iff_eq_none.mp hnone).symm⟩

end

end Registry

namespace Session

def exchange? (s : Session) (id : TaskId) : Option Exchange := (s.task? id).bind Stage.exchange?

def Event.isEndOf (id : TaskId) : Event → Bool
  | .finished k _ => k == id
  | _ => false

def Besides (id : TaskId) (new : List Event) : Prop :=
  ∀ e ∈ new, e.command? = none ∧ e.isEndOf id = false

theorem besides_nil (id : TaskId) : Besides id [] := fun _ h => absurd h List.not_mem_nil

theorem besides_sent (id k : TaskId) (line : LineId) (writes : List (List UInt8)) :
    Besides id (writes.map (.sent k line)) := by
  intro e he
  obtain ⟨bytes, -, rfl⟩ := List.mem_map.mp he
  exact ⟨rfl, rfl⟩

section

variable {s s' : Session} {id : TaskId}

theorem exchange?_of_task? {t : Stage} (h : s.task? id = some t) :
    s.exchange? id = t.exchange? := by
  rw [exchange?, h]
  rfl

theorem exchange?_of_gone (h : s.task? id = none) : s.exchange? id = none := by
  rw [exchange?, h]
  rfl

theorem exchange?_suspend_self (h : s.task? id ≠ none) (t : Stage) :
    (s.suspend id t).exchange? id = t.exchange? :=
  exchange?_of_task? (task?_suspend_self h t)

theorem task?_sendNext_of_ne (s : Session) (e : Exchange) (frames : List Frame) {k : TaskId}
    (hk : k ≠ id) : (s.sendNext id e frames).task? k = s.task? k := by
  cases frames <;> exact (task?_suspend _ id _ k).trans (if_neg hk)

theorem exchange?_sendNext (h : s.task? id ≠ none) (e : Exchange) (frames : List Frame) :
    (s.sendNext id e frames).exchange? id = some e := by
  cases frames with
  | nil => exact exchange?_suspend_self h _
  | cons frame rest =>
    have hentered : (s.enterSend id e.line frame).task? id ≠ none := h
    exact exchange?_suspend_self hentered _

structure Apart (s s' : Session) : Prop where
  nextTask : s'.nextTask = s.nextTask
  current : s'.current = s.current
  generation : s'.generation = s.generation
  now : s'.agenda.now = s.agenda.now

theorem Apart.trans {s s' s'' : Session} (h : Apart s s') (h' : Apart s' s'') : Apart s s'' :=
  ⟨h'.nextTask.trans h.nextTask, h'.current.trans h.current, h'.generation.trans h.generation,
    h'.now.trans h.now⟩

structure Writes (id : TaskId) (s s' : Session) : Prop where
  apart : Apart s s'
  registry : s'.registry = s.registry
  blockingLock : s'.blockingLock = s.blockingLock
  log : ∃ (line : LineId) (writes : List (List UInt8)), s'.log = s.log ++ writes.map (.sent id line)

theorem Sends.writes {line : LineId} {result : Option (Except Fault Unit)}
    (h : Sends id line s s' result) : Writes id s s' := by
  cases h with
  | stray => exact ⟨⟨rfl, rfl, rfl, rfl⟩, rfl, rfl, line, [], (List.append_nil _).symm⟩
  | goes => exact ⟨⟨rfl, rfl, rfl, rfl⟩, rfl, rfl, line, _, rfl⟩

theorem apart_sendNext (s : Session) (id : TaskId) (e : Exchange) (frames : List Frame) :
    Apart s (s.sendNext id e frames) := by
  cases frames <;> exact ⟨rfl, rfl, rfl, rfl⟩

theorem registry_sendNext (s : Session) (id : TaskId) (e : Exchange) (frames : List Frame) :
    (s.sendNext id e frames).registry = s.registry := by
  cases frames <;> rfl

theorem blockingLock_sendNext (s : Session) (id : TaskId) (e : Exchange) (frames : List Frame) :
    (s.sendNext id e frames).blockingLock = s.blockingLock := by
  cases frames <;> rfl

theorem log_sendNext (s : Session) (id : TaskId) (e : Exchange) (frames : List Frame) :
    (s.sendNext id e frames).log = s.log := by
  cases frames <;> rfl

theorem Move.others (h : Move id s s') {k : TaskId} (hk : k ≠ id) : s'.task? k = s.task? k := by
  have hsuspend : ∀ (s : Session) t, (s.suspend id t).task? k = s.task? k := fun s t =>
    (task?_suspend s id t k).trans (if_neg hk)
  have hfinish : ∀ (s : Session) outcome, (s.finish id outcome).task? k = s.task? k := fun s o =>
    (task?_finish s id o k).trans (if_neg hk)
  cases h with
  | leave | receive | take => exact hfinish _ _
  | call => exact (task?_dropTask s id k).trans (if_neg hk)
  | rest | gate | enterReset => exact hsuspend _ _
  | issue | pass => exact task?_sendNext_of_ne _ _ _ hk
  | write _ _ hs => exact hs.task? k
  | next _ hs => exact (task?_sendNext_of_ne _ _ _ hk).trans (hs.task? k)
  | fail _ hs | endReset _ hs => exact (hfinish _ _).trans (hs.task? k)
  | passReset _ hs => exact (hsuspend _ _).trans (hs.task? k)

theorem Move.present (h : Move id s s') : s.task? id ≠ none := by
  cases h with
  | leave ht | call ht | rest ht | receive ht | pass ht | write ht | next ht | fail ht | take ht
  | passReset ht | endReset ht => exact ne_none_of_task? ht
  | issue _ ht | gate _ ht | enterReset _ ht => exact ne_none_of_task? ht

theorem Move.apart (h : Move id s s') : Apart s s' := by
  cases h with
  | leave | receive | take | call | rest | gate | enterReset => exact ⟨rfl, rfl, rfl, rfl⟩
  | pass => exact apart_sendNext s id _ _
  | @issue _ _ _ pattern =>
    have hregistered : Apart s { s with registry := (s.registry.await [pattern]).1 } :=
      ⟨rfl, rfl, rfl, rfl⟩
    exact hregistered.trans (apart_sendNext _ id _ _)
  | write _ _ hs => exact hs.writes.apart
  | next _ hs => exact hs.writes.apart.trans (apart_sendNext _ id _ _)
  | fail _ hs | endReset _ hs | passReset _ hs =>
    exact hs.writes.apart.trans ⟨rfl, rfl, rfl, rfl⟩

inductive Ends (id : TaskId) (e : Exchange) (s : Session) : Except Fault Command → Prop where
  | found {deadline : Nat} {result : Except Fault Command} :
    s.task? id = some (.answering e deadline) → Finds s e deadline result → Ends id e s result
  | unsent {unsent : List Frame} {s' : Session} {cause : Fault} :
    s.task? id = some (.sending e unsent) → Sends id e.line s s' (some (.error cause)) →
    Ends id e s (.error cause)

inductive Own (id : TaskId) (s s' : Session) : Prop where
  | without : s.exchange? id = none → s'.exchange? id = none →
    (s'.registry = s.registry ∨ ∃ t listener, s.task? id = some t ∧ t.waits? = some listener
      ∧ s'.registry = s.registry.release listener) →
    (∃ new, s'.log = s.log ++ new ∧ (∀ k ≠ id, Besides k new)
      ∧ (s'.task? id ≠ none → Besides id new)) → Own id s s'
  | begins {job : Job} {purpose : Purpose} {c pattern : Command} {line : LineId} {packet : Packet}
    (timeout : Nat) : s.task? id = some (.fresh job) → Asks job purpose c →
    s.prepare c = .ok (pattern, line, packet) →
    s'.exchange? id = some ⟨purpose, line, s.registry.nextId, timeout⟩ →
    s'.registry = (s.registry.await [pattern]).1 → s'.log = s.log → Own id s s'
  | goesOn {e : Exchange} : s.exchange? id = some e → s'.exchange? id = some e →
    s'.registry = s.registry → (∃ (line : LineId) (writes : List (List UInt8)), s'.log = s.log ++ writes.map (.sent id line)) →
    Own id s s'
  | ends {e : Exchange} {result : Except Fault Command} : s.exchange? id = some e →
    Ends id e s result → s'.task? id = none → s'.registry = s.registry.release e.listener →
    (∃ (line : LineId) (writes : List (List UInt8)), s'.log = s.log ++ writes.map (.sent id line)
      ++ [.finished id (e.purpose.outcome result)]) → Own id s s'

theorem besides_finished {k : TaskId} (hk : k ≠ id) (outcome : Outcome) :
    Besides k [.finished id outcome] := by
  intro e he
  rw [List.mem_singleton.mp he]
  exact ⟨rfl, beq_false_of_ne hk.symm⟩

theorem Besides.append {k : TaskId} {new more : List Event} (h : Besides k new)
    (h' : Besides k more) : Besides k (new ++ more) := by
  intro e he
  rcases List.mem_append.mp he with he | he
  · exact h e he
  · exact h' e he

/-- What a task puts on record says nothing of others, and nothing of itself unless it is gone. -/
def Reports (id : TaskId) (s s' : Session) : Prop :=
  ∃ new, s'.log = s.log ++ new ∧ (∀ k ≠ id, Besides k new) ∧ (s'.task? id ≠ none → Besides id new)

theorem reports_of_besides {new : List Event} (hlog : s'.log = s.log ++ new)
    (hnew : ∀ k, Besides k new) : Reports id s s' :=
  ⟨new, hlog, fun k _ => hnew k, fun _ => hnew id⟩

theorem reports_nothing (hlog : s'.log = s.log) : Reports id s s' :=
  reports_of_besides (hlog.trans (List.append_nil _).symm) besides_nil

theorem Writes.reports {s₁ : Session} (h : Writes id s s₁) (hlog' : s'.log = s₁.log) :
    Reports id s s' := by
  obtain ⟨line, writes, hlog⟩ := h.log
  exact reports_of_besides (hlog'.trans hlog) fun k => besides_sent k id line writes

theorem reports_finish {new : List Event} (hlog : s'.log = s.log ++ new)
    (hnew : ∀ k, Besides k new) (outcome : Outcome) : Reports id s (s'.finish id outcome) := by
  refine ⟨new ++ [.finished id outcome], ?_, fun k hk => (hnew k).append (besides_finished hk outcome),
    fun hn => absurd (task?_finish_self s' id outcome) hn⟩
  exact (congrArg (· ++ _) hlog).trans (List.append_assoc _ _ _)

theorem Writes.reports_finish (h : Writes id s s') (outcome : Outcome) :
    Reports id s (s'.finish id outcome) := by
  obtain ⟨line, writes, hlog⟩ := h.log
  exact Session.reports_finish hlog (fun k => besides_sent k id line writes) outcome

theorem Move.own (h : Move id s s') : Own id s s' := by
  have hnone : ∀ {t : Stage}, s.task? id = some t → t.Plain → s.exchange? id = none :=
    fun ht hp => (exchange?_of_task? ht).trans hp.1
  have hfinished : ∀ (s : Session) outcome, (s.finish id outcome).exchange? id = none :=
    fun s o => exchange?_of_gone (task?_finish_self s id o)
  -- one case for each move: only a request that registers its listener, goes on or ends is one
  cases h with
  | @leave t outcome ht hp =>
    exact .without (hnone ht hp) (hfinished s outcome) (Or.inl rfl)
      (reports_finish (List.append_nil _).symm besides_nil outcome)
  | @call t name text ht hp =>
    have hnote : ∀ k, Besides k [.callback name text] := fun k e he => by
      rw [List.mem_singleton.mp he]
      exact ⟨rfl, rfl⟩
    refine .without (hnone ht hp) (exchange?_of_gone ?_) (Or.inl rfl) (reports_of_besides rfl hnote)
    exact (task?_dropTask s id id).trans (if_pos rfl)
  | rest ht hp _ hp' =>
    refine .without (hnone ht hp) ?_ (Or.inl rfl) (reports_nothing rfl)
    exact (exchange?_suspend_self (ne_none_of_task? ht) _).trans hp'.1
  | @receive t listener outcome ht hw =>
    have hp : t.exchange? = none := by
      cases t <;> first | rfl | exact absurd hw nofun
    exact .without ((exchange?_of_task? ht).trans hp) (hfinished _ outcome)
      (Or.inr ⟨t, listener, ht, hw, rfl⟩)
      (reports_finish (List.append_nil _).symm besides_nil outcome)
  | @issue _ _ _ pattern _ _ timeout ht hasks hp =>
    let registered : Session := { s with registry := (s.registry.await [pattern]).1 }
    have hid : registered.task? id ≠ none := ne_none_of_task? ht
    exact .begins timeout ht hasks hp (exchange?_sendNext hid _ _)
      (registry_sendNext _ id _ _) (log_sendNext _ id _ _)
  | gate timeout ht hasks hp =>
    exact .begins timeout ht hasks hp (exchange?_suspend_self (ne_none_of_task? ht) _) rfl rfl
  | pass ht =>
    exact .goesOn (exchange?_of_task? ht) (exchange?_sendNext (ne_none_of_task? ht) _ _)
      (registry_sendNext _ id _ _) ⟨0, [], (log_sendNext _ id _ _).trans (List.append_nil _).symm⟩
  | @write t line _ ht hseat hs =>
    have hsame : ∀ {asked : Option Exchange}, t.exchange? = asked → s'.exchange? id = asked := by
      intro asked he
      rw [exchange?, hs.task?, ht]
      exact he
    cases he : t.exchange? with
    | some e =>
      exact .goesOn ((exchange?_of_task? ht).trans he) (hsame he) hs.writes.registry hs.writes.log
    | none =>
      exact .without ((exchange?_of_task? ht).trans he) (hsame he) (Or.inl hs.writes.registry)
        (hs.writes.reports rfl)
  | next ht hs =>
    have hw := hs.writes
    refine .goesOn (exchange?_of_task? ht) (exchange?_sendNext ?_ _ _)
      ((registry_sendNext _ id _ _).trans hw.registry) ?_
    · rw [hs.task?, ht]
      exact nofun
    · rw [log_sendNext]
      exact hw.log
  | fail ht hs =>
    obtain ⟨line, writes, hlog⟩ := hs.writes.log
    refine .ends (exchange?_of_task? ht) (.unsent ht hs) (task?_finish_self _ id _) ?_
      ⟨line, writes, congrArg (· ++ _) hlog⟩
    exact congrArg (Registry.release · _) hs.writes.registry
  | take ht hf =>
    exact .ends (exchange?_of_task? ht) (.found ht hf) (task?_finish_self _ id _) rfl
      ⟨0, [], congrArg (· ++ _) (List.append_nil _).symm⟩
  | enterReset wait ht hreset =>
    have hp : s.exchange? id = none := by
      rw [exchange?_of_task? ht]
      rcases hreset with ⟨_, rfl⟩ | rfl <;> rfl
    refine .without hp ?_ (Or.inl rfl) (reports_nothing rfl)
    exact exchange?_suspend_self (ne_none_of_task? ht) _
  | passReset ht hs hp =>
    refine .without (exchange?_of_task? ht) ?_ (Or.inl hs.writes.registry) (hs.writes.reports rfl)
    exact (exchange?_suspend_self (ne_none_of_task? ((hs.task? id).trans ht)) _).trans hp.1
  | endReset ht hs =>
    exact .without (exchange?_of_task? ht) (hfinished _ _) (Or.inl hs.writes.registry)
      (hs.writes.reports_finish _)

end

theorem Stage.listener?_cases {t : Stage} {listener : ListenerId} (h : t.listener? = some listener) :
    (∃ e, t.exchange? = some e ∧ e.listener = listener) ∨ t.waits? = some listener := by
  cases t with
  | gated e _ | sending e _ | answering e _ => exact Or.inl ⟨e, rfl, Option.some.inj h⟩
  | waiting => exact Or.inr h
  | fresh job => cases job <;> exact Or.inr h
  | resetGated | resetSending | resetWaiting | reconnecting | dozing => exact absurd h nofun

section

variable {s : Session} {id : TaskId}

theorem task?_spawn (hs : s.task? s.nextTask = none) (job : Job) (k : TaskId) :
    (s.spawn job).1.task? k = if k = s.nextTask then some (.fresh job) else s.task? k :=
  Keyed.lookup_concat s.tasks s.nextTask (.fresh job) k hs

theorem exchange?_spawn (hs : s.task? s.nextTask = none) (job : Job) (k : TaskId) :
    (s.spawn job).1.exchange? k = s.exchange? k := by
  rw [exchange?, task?_spawn hs, exchange?]
  split
  · next hk =>
    rw [hk, hs]
    rfl
  · rfl

structure Aborted (id : TaskId) (t : Stage) (s s' : Session) : Prop where
  apart : Apart s s'
  task? : ∀ k, s'.task? k = if k = id then none else s.task? k
  registry : s'.registry = match t.listener? with
    | some listener => s.registry.release listener
    | none => s.registry
  blockingLock : s'.blockingLock = s.blockingLock.leave id
  line? : ∀ line, s'.line? line = if t.line? = some line then
      (s.line? line).map fun l => { l with link := l.link.abort id }
    else s.line? line
  log : s'.log = s.log

theorem line?_modifyLine_of_ne (s : Session) {line line' : LineId} (h : line ≠ line')
    (f : Line → Line) : (s.modifyLine line' f).line? line = s.line? line :=
  (s.line?_modifyLine_at line' f line).trans (if_neg h)

theorem abort_spec {t : Stage} (h : s.task? id = some t) : Aborted id t s (s.abort id) := by
  unfold Session.abort
  rw [h]
  dsimp only
  refine ⟨?_, fun k => ?_, ?_, ?_, fun line => ?_, ?_⟩
  · cases t.listener? <;> cases t.line? <;> exact ⟨rfl, rfl, rfl, rfl⟩
  · rw [task?_dropTask]
    cases t.listener? <;> cases t.line? <;> rfl
  · cases t.listener? <;> cases t.line? <;> rfl
  · cases t.listener? <;> cases t.line? <;> rfl
  · have hline : ∀ l, (s.modifyLine l fun l => { l with link := l.link.abort id }).line? line
        = if some l = some line then (s.line? line).map fun l => { l with link := l.link.abort id }
          else s.line? line := by
      intro l
      by_cases hl : l = line
      · rw [if_pos (congrArg some hl), hl, line?_modifyLine]
      · rw [if_neg fun e => hl (Option.some.inj e), line?_modifyLine_of_ne s (Ne.symm hl)]
    cases t.listener? <;> cases hl : t.line? <;> first | exact hline _ | rfl
  · cases t.listener? <;> cases t.line? <;> rfl

theorem abort_cases (s : Session) (id : TaskId) : s.task? id = none ∧ s.abort id = s
    ∨ ∃ t, s.task? id = some t ∧ Aborted id t s (s.abort id) := by
  cases h : s.task? id with
  | none => exact Or.inl ⟨rfl, by rw [Session.abort, h]⟩
  | some t => exact Or.inr ⟨t, rfl, abort_spec h⟩

theorem apart_abort (s : Session) (id : TaskId) : Apart s (s.abort id) := by
  rcases s.abort_cases id with ⟨-, heq⟩ | ⟨t, -, ha⟩
  · rw [heq]
    exact ⟨rfl, rfl, rfl, rfl⟩
  · exact ha.apart

theorem task?_abort (s : Session) (id k : TaskId) :
    (s.abort id).task? k = if k = id then none else s.task? k := by
  rcases s.abort_cases id with ⟨hnone, heq⟩ | ⟨t, -, ha⟩
  · rw [heq]
    split
    · next hk => rw [hk, hnone]
    · rfl
  · exact ha.task? k

theorem log_abort (s : Session) (id : TaskId) : (s.abort id).log = s.log := by
  rcases s.abort_cases id with ⟨-, heq⟩ | ⟨t, -, ha⟩
  · rw [heq]
  · exact ha.log

end

structure Listening (s : Session) : Prop where
  sound : s.registry.Sound
  known : ∀ k, s.task? k ≠ none → k < s.nextTask
  given : ∀ k e, s.exchange? k = some e → e.listener < s.registry.nextId
  own : ∀ i j e e', s.exchange? i = some e → s.exchange? j = some e' → e.listener = e'.listener →
    i = j

theorem listening_new (config : Config) (catalog : Catalog) (deviceOpens : Bool) :
    (new config catalog deviceOpens).Listening :=
  ⟨Registry.sound_empty, fun _ h => absurd rfl h, fun _ _ h => absurd h nofun,
    fun _ _ _ _ h => absurd h nofun⟩

section

variable {s s' : Session} {act : Act} {id : TaskId}

theorem Listening.unused (h : s.Listening) : s.task? s.nextTask = none :=
  not_not.mp fun hn => Nat.lt_irrefl _ (h.known _ hn)

theorem Listening.of_fewer (h : s.Listening) (hsound : s'.registry.Sound)
    (hknown : ∀ k, s'.task? k ≠ none → k < s'.nextTask)
    (hnext : s.registry.nextId ≤ s'.registry.nextId)
    (hold : ∀ k e, s'.exchange? k = some e → s.exchange? k = some e) : s'.Listening :=
  ⟨hsound, hknown, fun k e he => Nat.lt_of_lt_of_le (h.given k e (hold k e he)) hnext,
    fun i j e e' hi hj => h.own i j e e' (hold i e hi) (hold j e' hj)⟩

theorem Listening.spawn (h : s.Listening) (job : Job) : (s.spawn job).1.Listening := by
  refine h.of_fewer h.sound (fun k hk => ?_) (Nat.le_refl _)
    fun k e he => (exchange?_spawn h.unused job k).symm.trans he
  rw [task?_spawn h.unused] at hk
  split at hk
  · next hkid => exact hkid ▸ Nat.lt_succ_self _
  · exact Nat.lt_succ_of_lt (h.known k hk)

theorem Listening.registry (h : s.Listening) {r : Registry Deed} (hr : r.Sound)
    (hnext : s.registry.nextId ≤ r.nextId) : ({ s with registry := r } : Session).Listening :=
  h.of_fewer hr h.known hnext fun _ _ he => he

theorem Listening.ripple (h : s.Listening) (hr : Ripple s s') : s'.Listening := by
  cases hr with
  | quiet hq =>
    refine h.of_fewer (hq.registry ▸ h.sound) (fun k hk => ?_) (Nat.le_of_eq ?_) fun k e he => ?_
    · rw [hq.nextTask]
      exact h.known k (hq.task? k ▸ hk)
    · rw [hq.registry]
    · rwa [exchange?, hq.task?] at he
  | note | upkeep => exact ⟨h.sound, h.known, h.given, h.own⟩
  | spawn => exact h.spawn _

theorem Stage.exchange?_noticeLoss (t : Stage) : t.noticeLoss.exchange? = t.exchange? := by
  cases t <;> rfl

theorem Listening.switch (h : s.Listening) (hs : Switch s s') : s'.Listening := by
  cases hs with
  | shut | stopWriting | addLine | unuse => exact ⟨h.sound, h.known, h.given, h.own⟩
  | noticeLoss =>
    refine h.of_fewer h.sound (fun k hk => h.known k ?_) (Nat.le_refl _) fun k e he => ?_
    · rw [task?_noticeLoss] at hk
      exact fun hn => hk (by rw [hn]; rfl)
    · rw [exchange?, task?_noticeLoss] at he
      rw [exchange?]
      cases ht : s.task? k with
      | none => rwa [ht] at he
      | some t =>
        rw [ht] at he
        exact (Stage.exchange?_noticeLoss t).symm.trans he
  | clear => exact h.registry h.sound.clear (Nat.le_refl _)

theorem nextId_release (r : Registry Deed) (listener : ListenerId) :
    (r.release listener).nextId = r.nextId :=
  Registry.nextId_unregister r listener

theorem Listening.of_new (h : s.Listening) {pattern : Command} {e : Exchange}
    (hr : s'.registry = (s.registry.await [pattern]).1)
    (hknown : ∀ k, s'.task? k ≠ none → k < s'.nextTask) (he : s'.exchange? id = some e)
    (hlistener : e.listener = s.registry.nextId)
    (hother : ∀ k ≠ id, ∀ e', s'.exchange? k = some e' → s.exchange? k = some e') :
    s'.Listening := by
  have hnext : s'.registry.nextId = s.registry.nextId + 1 := by
    rw [hr]
    rfl
  have howns : ∀ k e', s'.exchange? k = some e' → k = id ∧ e'.listener = s.registry.nextId
      ∨ k ≠ id ∧ s.exchange? k = some e' ∧ e'.listener < s.registry.nextId := by
    intro k e' he'
    by_cases hk : k = id
    · obtain rfl := Option.some.inj (he.symm.trans (hk ▸ he'))
      exact Or.inl ⟨hk, hlistener⟩
    · exact Or.inr ⟨hk, hother k hk e' he', h.given k e' (hother k hk e' he')⟩
  refine ⟨hr ▸ h.sound.register _, hknown, fun k e' he' => ?_, fun i j a b ha hb heq => ?_⟩
  · rw [hnext]
    rcases howns k e' he' with ⟨-, hnew⟩ | ⟨-, -, hlt⟩
    · exact hnew ▸ Nat.lt_succ_self _
    · exact Nat.lt_succ_of_lt hlt
  · rcases howns i a ha with ⟨hi, hnew⟩ | ⟨-, ha', hlt⟩
    · rcases howns j b hb with ⟨hj, -⟩ | ⟨-, -, hlt'⟩
      · exact hi.trans hj.symm
      · exact absurd (heq.symm.trans hnew) (Nat.ne_of_lt hlt')
    · rcases howns j b hb with ⟨-, hnew'⟩ | ⟨-, hb', -⟩
      · exact absurd (heq.trans hnew') (Nat.ne_of_lt hlt)
      · exact h.own i j a b ha' hb' heq

theorem Listening.move (h : s.Listening) (hm : Move id s s') : s'.Listening := by
  have hknown : ∀ k, s'.task? k ≠ none → k < s'.nextTask := by
    intro k hk
    rw [hm.apart.nextTask]
    by_cases hkid : k = id
    · exact hkid ▸ h.known id hm.present
    · exact h.known k (hm.others hkid ▸ hk)
  have hother : ∀ {k e}, k ≠ id → s'.exchange? k = some e → s.exchange? k = some e := by
    intro k e hk he
    rwa [exchange?, hm.others hk] at he
  cases hm.own with
  | without hnone hnone' hregistry =>
    have hold : ∀ k e, s'.exchange? k = some e → s.exchange? k = some e := by
      intro k e he
      by_cases hk : k = id
      · subst hk
        exact absurd (hnone'.symm.trans he) nofun
      · exact hother hk he
    rcases hregistry with hr | ⟨t, listener, -, -, hr⟩
    · exact h.of_fewer (hr ▸ h.sound) hknown (Nat.le_of_eq (hr ▸ rfl)) hold
    · refine h.of_fewer (hr ▸ h.sound.release _) hknown (Nat.le_of_eq ?_) hold
      rw [hr, nextId_release]
  | begins timeout ht hasks hp he hr =>
    exact h.of_new hr hknown he rfl fun k hk e' => hother hk
  | goesOn he he' hr =>
    refine h.of_fewer (hr ▸ h.sound) hknown (Nat.le_of_eq (hr ▸ rfl)) fun k e hk => ?_
    by_cases hkid : k = id
    · subst hkid
      exact he.trans (he'.symm.trans hk)
    · exact hother hkid hk
  | ends he _ hgone hr =>
    refine h.of_fewer (hr ▸ h.sound.release _) hknown (Nat.le_of_eq ?_) fun k e' hk => ?_
    · rw [hr, nextId_release]
    · by_cases hkid : k = id
      · subst hkid
        exact absurd ((exchange?_of_gone hgone).symm.trans hk) nofun
      · exact hother hkid hk

theorem Listening.abort (h : s.Listening) (id : TaskId) : (s.abort id).Listening := by
  rcases s.abort_cases id with ⟨-, heq⟩ | ⟨t, -, ha⟩
  · exact heq.symm ▸ h
  · have hsound : (s.abort id).registry.Sound ∧ (s.abort id).registry.nextId = s.registry.nextId := by
      rw [ha.registry]
      split
      · exact ⟨h.sound.release _, nextId_release _ _⟩
      · exact ⟨h.sound, rfl⟩
    refine h.of_fewer hsound.1 (fun k hk => ?_) (Nat.le_of_eq hsound.2.symm) fun k e he => ?_
    · rw [ha.apart.nextTask]
      rw [ha.task?] at hk
      split at hk
      · exact absurd rfl hk
      · exact h.known k hk
    · rw [exchange?, ha.task?] at he
      split at he
      · cases he
      · exact he

theorem Listening.step (h : s.Listening) (hs : Step act s s') : s'.Listening := by
  cases hs with
  | ripple hr => exact h.ripple hr
  | switch _ hs => exact h.switch hs
  | start job => exact h.spawn job
  | await | subscribe => exact h.registry (h.sound.register _) (Nat.le_succ _)
  | remove listener =>
    refine h.registry (h.sound.unregister listener) (Nat.le_of_eq (Eq.symm ?_))
    exact Registry.nextId_unregister _ _
  | cancel listener =>
    refine h.registry (h.sound.cancel listener) (Nat.le_of_eq (Eq.symm ?_))
    exact Registry.nextId_unregister _ _
  | release listener =>
    exact h.registry (h.sound.release listener) (Nat.le_of_eq (nextId_release _ _).symm)
  | move _ hm => exact h.move hm
  | abort id => exact h.abort id
  | offer line c =>
    have hoffered := h.registry (h.sound.dispatch c) (Nat.le_of_eq (h.sound.nextId_dispatch c).symm)
    exact ⟨hoffered.sound, hoffered.known, hoffered.given, hoffered.own⟩

end

def Act.handles (listener : ListenerId) : Act → Bool
  | .remove k => k == listener
  | .cancel k => k == listener
  | .release k => k == listener
  | _ => false

def offered (s : Session) (c : Command) : Session :=
  { s with registry := (s.registry.dispatch c).1 }.record (.dispatched c)

inductive Touch (act : Act) (id : TaskId) (e : Exchange) (s s' : Session) : Prop where
  | spares : s'.exchange? id = some e → Registry.Same e.listener s.registry s'.registry →
    (∃ new, s'.log = s.log ++ new ∧ Besides id new) → Touch act id e s s'
  | clears : MaySwitch act s → s.current = none → s'.exchange? id = some e →
    Registry.Fades e.listener s.registry s'.registry → s'.log = s.log → Touch act id e s s'
  | robs : act.handles e.listener = true
      ∨ (∃ k t, s.task? k = some t ∧ t.waits? = some e.listener) →
    s'.exchange? id = some e → Registry.Fades e.listener s.registry s'.registry →
    (∃ new, s'.log = s.log ++ new ∧ Besides id new) → Touch act id e s s'
  | aborts : act = .abort id → s'.task? id = none → s'.log = s.log → Touch act id e s s'
  | ends {result : Except Fault Command} : act = .turn (.task id) → Ends id e s result →
    s'.task? id = none → s'.registry = s.registry.release e.listener →
    (∃ (line : LineId) (writes : List (List UInt8)),
      s'.log = s.log ++ writes.map (.sent id line) ++ [.finished id (e.purpose.outcome result)]) →
    Touch act id e s s'

section

variable {s s' : Session} {act : Act} {id : TaskId} {e : Exchange}

theorem Listening.touch_ripple (h : s.Listening) (he : s.exchange? id = some e)
    (hr : Ripple s s') : Touch act id e s s' := by
  cases hr with
  | quiet hq =>
    refine .spares ?_ (hq.registry ▸ ⟨rfl, rfl⟩) ⟨[], hq.log.trans (List.append_nil _).symm,
      besides_nil id⟩
    rw [exchange?, hq.task?]
    exact he
  | @note ev hnote =>
    refine .spares he ⟨rfl, rfl⟩ ⟨[ev], rfl, fun x hx => ?_⟩
    rw [List.mem_singleton.mp hx]
    cases ev <;> first | exact ⟨rfl, rfl⟩ | exact absurd hnote nofun
  | spawn =>
    exact .spares ((exchange?_spawn h.unused _ id).trans he) ⟨rfl, rfl⟩
      ⟨[], (List.append_nil _).symm, besides_nil id⟩
  | upkeep => exact .spares he ⟨rfl, rfl⟩ ⟨[], (List.append_nil _).symm, besides_nil id⟩

theorem Listening.touch_switch (h : s.Listening) (hmay : MaySwitch act s)
    (he : s.exchange? id = some e) (hs : Switch s s') : Touch act id e s s' := by
  have hsame : s.log = s.log ++ [] := (List.append_nil _).symm
  cases hs with
  | shut | stopWriting | addLine | unuse =>
    exact .spares he ⟨rfl, rfl⟩ ⟨[], hsame, besides_nil id⟩
  | noticeLoss =>
    refine .spares ?_ ⟨rfl, rfl⟩ ⟨[], hsame, besides_nil id⟩
    obtain ⟨t, ht, hte⟩ := Option.bind_eq_some_iff.mp he
    rw [exchange?, task?_noticeLoss, ht]
    exact (Stage.exchange?_noticeLoss t).trans hte
  | clear hc => exact .clears hmay hc he (h.sound.fades_clear _) rfl

theorem Listening.touch_move {k : TaskId} (h : s.Listening) (he : s.exchange? id = some e)
    (hact : act = .turn (.task k)) (hm : Move k s s') : Touch act id e s s' := by
  -- it is the move of the request itself, or of another task
  by_cases hk : k = id
  · subst hk
    cases hm.own with
    | without hnone => exact absurd (hnone.symm.trans he) nofun
    | begins _ ht => exact absurd ((exchange?_of_task? ht).symm.trans he) nofun
    | goesOn hold hnew hr hlog =>
      obtain rfl := Option.some.inj (hold.symm.trans he)
      obtain ⟨line, writes, hlog⟩ := hlog
      exact .spares hnew (hr ▸ ⟨rfl, rfl⟩) ⟨_, hlog, besides_sent k k line writes⟩
    | ends hold hends hgone hr hlog =>
      obtain rfl := Option.some.inj (hold.symm.trans he)
      exact .ends hact hends hgone hr hlog
  · have he' : s'.exchange? id = some e := by
      rw [exchange?, hm.others (Ne.symm hk)]
      exact he
    cases hm.own with
    | without _ _ hregistry hlog =>
      obtain ⟨new, hlog, hnew, -⟩ := hlog
      rcases hregistry with hr | ⟨t, listener, ht, hw, hr⟩
      · exact .spares he' (hr ▸ ⟨rfl, rfl⟩) ⟨new, hlog, hnew id (Ne.symm hk)⟩
      · by_cases hl : e.listener = listener
        · exact .robs (Or.inr ⟨k, t, ht, hl ▸ hw⟩) he' (hr ▸ h.sound.fades_release _ _)
            ⟨new, hlog, hnew id (Ne.symm hk)⟩
        · exact .spares he' (hr ▸ h.sound.same_release hl) ⟨new, hlog, hnew id (Ne.symm hk)⟩
    | begins _ _ _ _ _ hr hlog =>
      exact .spares he' (hr ▸ h.sound.same_register _ (h.given id e he))
        ⟨[], hlog.trans (List.append_nil _).symm, besides_nil id⟩
    | goesOn _ _ hr hlog =>
      obtain ⟨line, writes, hlog⟩ := hlog
      exact .spares he' (hr ▸ ⟨rfl, rfl⟩) ⟨_, hlog, besides_sent id k line writes⟩
    | @ends e' result hold _ _ hr hlog =>
      obtain ⟨line, writes, hlog⟩ := hlog
      have hl : e.listener ≠ e'.listener := fun heq => hk (h.own id k e e' he hold heq).symm
      refine .spares he' (hr ▸ h.sound.same_release hl) ⟨_, hlog.trans (List.append_assoc _ _ _), ?_⟩
      exact (besides_sent id k line writes).append (besides_finished (Ne.symm hk) _)

theorem Listening.touch_abort {k : TaskId} (h : s.Listening) (he : s.exchange? id = some e)
    (hact : act = .abort k) : Touch act id e s (s.abort k) := by
  rcases s.abort_cases k with ⟨-, hsame⟩ | ⟨t, ht, ha⟩
  · rw [hsame]
    exact .spares he ⟨rfl, rfl⟩ ⟨[], (List.append_nil _).symm, besides_nil id⟩
  · by_cases hk : k = id
    · subst hk
      exact .aborts hact ((ha.task? k).trans (if_pos rfl)) ha.log
    · have he' : (s.abort k).exchange? id = some e := by
        rw [exchange?, ha.task?, if_neg (Ne.symm hk)]
        exact he
      have hlog : ∃ new, (s.abort k).log = s.log ++ new ∧ Besides id new :=
        ⟨[], ha.log.trans (List.append_nil _).symm, besides_nil id⟩
      cases hl : t.listener? with
      | none =>
        have hr := ha.registry
        rw [hl] at hr
        exact .spares he' (hr ▸ ⟨rfl, rfl⟩) hlog
      | some listener =>
        have hr := ha.registry
        rw [hl] at hr
        by_cases heq : e.listener = listener
        · refine .robs (Or.inr ⟨k, t, ht, ?_⟩) he' (hr ▸ h.sound.fades_release _ _) hlog
          -- a request of its own has a listener of its own
          rcases Stage.listener?_cases hl with ⟨e', hte, rfl⟩ | hw
          · exact absurd (h.own id k e e' he ((exchange?_of_task? ht).trans hte) heq).symm hk
          · exact heq ▸ hw
        · exact .spares he' (hr ▸ h.sound.same_release heq) hlog

theorem Listening.touch (h : s.Listening) (hs : Step act s s') :
    (∃ line c, act = .turn (.reader line) ∧ s' = s.offered c)
      ∨ ∀ id e, s.exchange? id = some e → Touch act id e s s' := by
  have hsame : ∀ id, ∃ new, s.log = s.log ++ new ∧ Besides id new :=
    fun id => ⟨[], (List.append_nil _).symm, besides_nil id⟩
  -- what is done to one listener from outside spares the requests that have another one
  have hhandled : ∀ {k : ListenerId} {r : Registry Deed}, act.handles k = true →
      (∀ id, Registry.Fades id s.registry r) →
      (∀ {id}, id ≠ k → Registry.Same id s.registry r) →
      ∀ id e, s.exchange? id = some e → Touch act id e s { s with registry := r } := by
    intro k r hhandles hfades hspared id e he
    by_cases hk : e.listener = k
    · exact .robs (Or.inl (hk ▸ hhandles)) he (hfades e.listener) (hsame id)
    · exact .spares he (hspared hk) (hsame id)
  cases hs with
  | ripple hr => exact Or.inr fun id e he => h.touch_ripple he hr
  | switch hmay hs => exact Or.inr fun id e he => h.touch_switch hmay he hs
  | start job =>
    exact Or.inr fun id e he =>
      .spares ((exchange?_spawn h.unused _ id).trans he) ⟨rfl, rfl⟩ (hsame id)
  | await | subscribe =>
    exact Or.inr fun id e he =>
      .spares he (h.sound.same_register _ (h.given id e he)) (hsame id)
  | remove k hact =>
    refine Or.inr (hhandled ?_ (h.sound.fades_unregister · k) h.sound.same_unregister)
    exact hact ▸ beq_self_eq_true k
  | cancel k hact =>
    refine Or.inr (hhandled ?_ (h.sound.fades_cancel · k) h.sound.same_cancel)
    exact hact ▸ beq_self_eq_true k
  | release k hact =>
    refine Or.inr (hhandled ?_ (h.sound.fades_release · k) h.sound.same_release)
    exact hact ▸ beq_self_eq_true k
  | move hact hm => exact Or.inr fun id e he => h.touch_move he hact hm
  | abort k hact => exact Or.inr fun id e he => h.touch_abort he hact
  | offer line c hact => exact Or.inl ⟨line, c, hact, rfl⟩

def Recorded (s s' : Session) : Prop :=
  ∃ new, s'.log = s.log ++ new
    ∧ ∀ k, s.task? k = none ∨ s'.task? k ≠ none → ∀ ev ∈ new, ev.isEndOf k = false

theorem recorded_of_besides {new : List Event} (hlog : s'.log = s.log ++ new)
    (hnew : ∀ k, Besides k new) : Recorded s s' :=
  ⟨new, hlog, fun k _ ev hev => (hnew k ev hev).2⟩

theorem recorded_of_eq (hlog : s'.log = s.log) : Recorded s s' :=
  recorded_of_besides (hlog.trans (List.append_nil _).symm) besides_nil

theorem Move.recorded (h : Move id s s') : Recorded s s' := by
  cases h.own with
  | without _ _ _ hlog =>
    obtain ⟨new, hlog, hothers, hself⟩ := hlog
    refine ⟨new, hlog, fun k hk ev hev => ?_⟩
    by_cases hkid : k = id
    · subst hkid
      rcases hk with hk | hk
      · exact absurd hk h.present
      · exact (hself hk ev hev).2
    · exact (hothers k hkid ev hev).2
  | begins _ _ _ _ _ _ hlog => exact recorded_of_eq hlog
  | goesOn _ _ _ hlog =>
    obtain ⟨line, writes, hlog⟩ := hlog
    exact recorded_of_besides hlog fun k => besides_sent k id line writes
  | ends _ _ hgone _ hlog =>
    obtain ⟨line, writes, hlog⟩ := hlog
    refine ⟨_, hlog.trans (List.append_assoc _ _ _), fun k hk => ?_⟩
    have hkid : k ≠ id := by
      rintro rfl
      rcases hk with hk | hk
      · exact h.present hk
      · exact hk hgone
    exact fun ev hev =>
      ((besides_sent k id line writes).append (besides_finished hkid _) ev hev).2

theorem Step.recorded (h : Step act s s') : Recorded s s' := by
  cases h with
  | ripple hr =>
    cases hr with
    | quiet hq => exact recorded_of_eq hq.log
    | @note ev hnote =>
      have hlog : (s.record ev).log = s.log ++ [ev] := rfl
      refine recorded_of_besides hlog fun k x hx => ?_
      rw [List.mem_singleton.mp hx]
      cases ev <;> first | exact ⟨rfl, rfl⟩ | exact absurd hnote nofun
    | spawn | upkeep => exact recorded_of_eq rfl
  | switch _ hs => cases hs <;> exact recorded_of_eq rfl
  | start | await | subscribe | remove | cancel | release => exact recorded_of_eq rfl
  | move _ hm => exact hm.recorded
  | abort k => exact recorded_of_eq (log_abort s k)
  | offer line c =>
    refine ⟨[.dispatched c], rfl, fun k _ ev hev => ?_⟩
    rw [List.mem_singleton.mp hev]
    rfl

end

end Session

end NcpHost
