import NcpHost.Proofs.Session.Seats

/-! The line at the blocking lock. A blocking request stands in it from the turn in which it registers
its listener to its end, so that listeners along the line get younger; only the first in line has
anything written. -/

namespace NcpHost

namespace Session

def Gated (s : Session) (id : TaskId) : Prop := ∃ e frames, s.task? id = some (.gated e frames)

def Stage.isEarly : Stage → Bool
  | fresh _ => true
  | gated _ _ => true
  | _ => false

inductive AtGate (id : TaskId) (s s' : Session) : Prop where
  | aside : s.exchange? id = none → s'.blockingLock = s.blockingLock → ¬s'.Gated id →
    AtGate id s s'
  | joins {e : Exchange} : s.exchange? id = none → s'.blockingLock = s.blockingLock.join id →
    s'.Gated id → s'.exchange? id = some e → e.listener = s.registry.nextId → AtGate id s s'
  | goesOn {e : Exchange} : s.exchange? id = some e → s'.exchange? id = some e →
    s'.blockingLock = s.blockingLock → (s.Gated id → s.blockingLock.holder = some id) →
    ¬s'.Gated id → AtGate id s s'
  | leaves : s.exchange? id ≠ none → s'.task? id = none →
    s'.blockingLock = s.blockingLock.leave id → AtGate id s s'

section

variable {s s' : Session} {act : Act} {id : TaskId}

theorem not_gated_of_task? {t : Stage} (h : s.task? id = some t)
    (ht : ∀ e frames, t ≠ .gated e frames) : ¬s.Gated id := by
  rintro ⟨e, frames, hg⟩
  exact ht e frames (Option.some.inj (h.symm.trans hg))

theorem not_gated_of_exchange? (h : s.exchange? id = none) : ¬s.Gated id := by
  rintro ⟨e, frames, hg⟩
  exact absurd (h.symm.trans (exchange?_of_task? hg)) nofun

theorem not_gated_of_seat? {t : Stage} {line : LineId} (h : s.task? id = some t)
    (hseat : t.seat? = some line) : ¬s.Gated id := by
  refine not_gated_of_task? h ?_
  rintro e frames rfl
  exact absurd hseat nofun

theorem not_early_sendNext (h : s.task? id ≠ none) (e : Exchange) (frames : List Frame) {t : Stage}
    (ht : (s.sendNext id e frames).task? id = some t) : t.isEarly = false := by
  cases frames with
  | nil =>
    obtain rfl := Option.some.inj ((task?_suspend_self h _).symm.trans ht)
    rfl
  | cons frame rest =>
    have hentered : (s.enterSend id e.line frame).task? id ≠ none := h
    obtain rfl := Option.some.inj ((task?_suspend_self hentered _).symm.trans ht)
    rfl

theorem not_gated_sendNext (h : s.task? id ≠ none) (e : Exchange) (frames : List Frame) :
    ¬(s.sendNext id e frames).Gated id := by
  rintro ⟨e', frames', hg⟩
  exact absurd (not_early_sendNext h e frames hg) nofun

theorem Move.atGate (h : Move id s s') : AtGate id s s' := by
  have hfinished : ∀ (s : Session) outcome, ¬(s.finish id outcome).Gated id :=
    fun s o => not_gated_of_exchange? (exchange?_of_gone (task?_finish_self s id o))
  have hplain : ∀ {t : Stage}, s.task? id = some t → t.Plain → s.exchange? id = none :=
    fun ht hp => (exchange?_of_task? ht).trans hp.1
  -- only a move that suspends at the lock joins its line, and only the end of a request leaves it
  cases h with
  | leave ht hp => exact .aside (hplain ht hp) rfl (hfinished s _)
  | call ht hp =>
    refine .aside (hplain ht hp) rfl (not_gated_of_exchange? (exchange?_of_gone ?_))
    exact (task?_dropTask s id id).trans (if_pos rfl)
  | rest ht hp _ hp' =>
    refine .aside (hplain ht hp) rfl (not_gated_of_exchange? ?_)
    exact (exchange?_suspend_self (ne_none_of_task? ht) _).trans hp'.1
  | @receive t listener outcome ht hw =>
    have hp : t.exchange? = none := by
      cases t <;> first | rfl | exact absurd hw nofun
    exact .aside ((exchange?_of_task? ht).trans hp) rfl (hfinished _ outcome)
  | @issue _ _ _ pattern _ _ _ ht =>
    have hid : ({ s with registry := (s.registry.await [pattern]).1 } : Session).task? id ≠ none :=
      ne_none_of_task? ht
    exact .aside (exchange?_of_task? ht) (blockingLock_sendNext _ id _ _)
      (not_gated_sendNext hid _ _)
  | gate _ ht =>
    have hgated := task?_suspend_self (ne_none_of_task? ht)
    exact .joins (exchange?_of_task? ht) rfl ⟨_, _, hgated _⟩ (exchange?_of_task? (hgated _)) rfl
  | pass ht hh =>
    exact .goesOn (exchange?_of_task? ht) (exchange?_sendNext (ne_none_of_task? ht) _ _)
      (blockingLock_sendNext _ id _ _) (fun _ => beq_iff_eq.mp hh)
      (not_gated_sendNext (ne_none_of_task? ht) _ _)
  | @write t line _ ht hseat hs =>
    have hlock := hs.writes.blockingLock
    have hnot := not_gated_of_seat? ht hseat
    have ht' : s'.task? id = some t := (hs.task? id).trans ht
    cases he : t.exchange? with
    | some e =>
      exact .goesOn ((exchange?_of_task? ht).trans he) ((exchange?_of_task? ht').trans he) hlock
        (absurd · hnot) (not_gated_of_seat? ht' hseat)
    | none =>
      exact .aside ((exchange?_of_task? ht).trans he) hlock (not_gated_of_seat? ht' hseat)
  | next ht hs =>
    have hid := hs.task? id ▸ ne_none_of_task? ht
    exact .goesOn (exchange?_of_task? ht) (exchange?_sendNext hid _ _)
      ((blockingLock_sendNext _ id _ _).trans hs.writes.blockingLock)
      (absurd · (not_gated_of_seat? ht rfl)) (not_gated_sendNext hid _ _)
  | fail ht hs =>
    refine .leaves ?_ (task?_finish_self _ id _) (congrArg (FairLock.leave · id) hs.writes.blockingLock)
    exact exchange?_of_task? ht ▸ nofun
  | take ht =>
    refine .leaves ?_ (task?_finish_self _ id _) rfl
    exact exchange?_of_task? ht ▸ nofun
  | @enterReset t line request wait ht hreset =>
    have hp : s.exchange? id = none := by
      rw [exchange?_of_task? ht]
      rcases hreset with ⟨_, rfl⟩ | rfl <;> rfl
    have hentered : (s.enterSend id line request).task? id ≠ none := ne_none_of_task? ht
    exact .aside hp rfl (not_gated_of_task? (task?_suspend_self hentered _) nofun)
  | passReset ht hs hp =>
    refine .aside (exchange?_of_task? ht) hs.writes.blockingLock (not_gated_of_exchange? ?_)
    exact (exchange?_suspend_self (ne_none_of_task? ((hs.task? id).trans ht)) _).trans hp.1
  | endReset ht hs =>
    exact .aside (exchange?_of_task? ht) hs.writes.blockingLock (hfinished _ _)

def Older (s : Session) (i j : TaskId) : Prop :=
  ∀ e e', s.exchange? i = some e → s.exchange? j = some e' → e.listener < e'.listener

structure Lined (s : Session) : Prop where
  fair : s.blockingLock.Fair
  nodup : s.blockingLock.line.Nodup
  asks : ∀ k ∈ s.blockingLock.line, s.exchange? k ≠ none
  gated : ∀ k, s.Gated k → k ∈ s.blockingLock.line
  waits : ∀ k ∈ s.blockingLock.line, s.blockingLock.holder = some k ∨ s.Gated k
  rising : s.blockingLock.line.Pairwise s.Older

theorem lined_new (config : Config) (catalog : Catalog) (deviceOpens : Bool) :
    (new config catalog deviceOpens).Lined :=
  ⟨fun _ => rfl, List.nodup_nil, fun _ h => absurd h List.not_mem_nil,
    fun _ h => by obtain ⟨_, _, h⟩ := h; exact absurd h nofun,
    fun _ h => absurd h List.not_mem_nil, List.Pairwise.nil⟩

theorem Lined.still (h : s.Lined) (hlock : s'.blockingLock = s.blockingLock)
    (hask : ∀ k ∈ s.blockingLock.line, s'.exchange? k = s.exchange? k)
    (hgated : ∀ k, s'.Gated k → s.Gated k)
    (hwaits : ∀ k, s.Gated k → s'.Gated k ∨ s.blockingLock.holder = some k) : s'.Lined := by
  refine ⟨hlock ▸ h.fair, hlock ▸ h.nodup, fun k hk => ?_, fun k hk => ?_, fun k hk => ?_, ?_⟩
  · rw [hlock] at hk
    rw [hask k hk]
    exact h.asks k hk
  · rw [hlock]
    exact h.gated k (hgated k hk)
  · rw [hlock] at hk ⊢
    rcases h.waits k hk with hh | hg
    · exact Or.inl hh
    · exact (hwaits k hg).symm
  · rw [hlock]
    refine h.rising.imp_of_mem fun {i j} hi hj hold e e' he he' => hold e e' ?_ ?_
    · exact (hask i hi).symm.trans he
    · exact (hask j hj).symm.trans he'

theorem Lined.join (h : s.Lined) (hl : s.Listening) {e : Exchange} (hnone : s.exchange? id = none)
    (hlock : s'.blockingLock = s.blockingLock.join id) (hgated : s'.Gated id)
    (he : s'.exchange? id = some e) (hlistener : e.listener = s.registry.nextId)
    (hothers : ∀ k ≠ id, s'.task? k = s.task? k) : s'.Lined := by
  have hout : id ∉ s.blockingLock.line := fun hm => h.asks id hm hnone
  have hask : ∀ k ≠ id, s'.exchange? k = s.exchange? k := fun k hk => by
    rw [exchange?, hothers k hk, exchange?]
  have hline : s'.blockingLock.line = s.blockingLock.line ++ [id] := by
    rw [hlock, FairLock.line_join _ _ h.fair]
  have hne : ∀ {k}, k ∈ s.blockingLock.line → k ≠ id := fun hk heq => hout (heq ▸ hk)
  refine ⟨hlock ▸ FairLock.fair_join _ _, hlock ▸ FairLock.nodup_join h.fair h.nodup hout,
    fun k hk => ?_, fun k hk => ?_, fun k hk => ?_, ?_⟩
  · rw [hline, List.mem_append, List.mem_singleton] at hk
    rcases hk with hk | rfl
    · rw [hask k (hne hk)]
      exact h.asks k hk
    · rw [he]
      exact Option.some_ne_none e
  · rw [hline, List.mem_append, List.mem_singleton]
    by_cases hkid : k = id
    · exact Or.inr hkid
    · obtain ⟨e', frames, hg⟩ := hk
      exact Or.inl (h.gated k ⟨e', frames, (hothers k hkid).symm.trans hg⟩)
  · rw [hline, List.mem_append, List.mem_singleton] at hk
    rcases hk with hk | rfl
    · rcases h.waits k hk with hh | ⟨e', frames, hg⟩
      · exact Or.inl (hlock ▸ FairLock.holder_join hh id)
      · exact Or.inr ⟨e', frames, (hothers k (hne hk)).trans hg⟩
    · exact Or.inr hgated
  · rw [hline, List.pairwise_append]
    refine ⟨?_, List.pairwise_singleton _ _, fun i hi j hj a b ha hb => ?_⟩
    · refine h.rising.imp_of_mem fun {i j} hi hj hold a b ha hb => hold a b ?_ ?_
      · exact (hask i (hne hi)).symm.trans ha
      · exact (hask j (hne hj)).symm.trans hb
    · -- the one that joins has the youngest listener
      rw [List.mem_singleton.mp hj, he] at hb
      obtain rfl := Option.some.inj hb
      rw [hlistener]
      exact hl.given i a ((hask i (hne hi)).symm.trans ha)

theorem Lined.leave (h : s.Lined) (hlock : s'.blockingLock = s.blockingLock.leave id)
    (hgone : s'.task? id = none) (hothers : ∀ k ≠ id, s'.task? k = s.task? k) : s'.Lined := by
  have hask : ∀ k ≠ id, s'.exchange? k = s.exchange? k := fun k hk => by
    rw [exchange?, hothers k hk, exchange?]
  have hmem : ∀ {k}, k ∈ s'.blockingLock.line ↔ k ∈ s.blockingLock.line ∧ k ≠ id := by
    intro k
    rw [hlock]
    exact FairLock.mem_line_leave h.nodup
  refine ⟨hlock ▸ h.fair.leave id, hlock ▸ FairLock.nodup_leave h.nodup id, fun k hk => ?_,
    fun k hk => ?_, fun k hk => ?_, ?_⟩
  · obtain ⟨hk, hne⟩ := hmem.mp hk
    rw [hask k hne]
    exact h.asks k hk
  · obtain ⟨e, frames, hg⟩ := hk
    have hne : k ≠ id := by
      rintro rfl
      cases hgone.symm.trans hg
    exact hmem.mpr ⟨h.gated k ⟨e, frames, (hothers k hne).symm.trans hg⟩, hne⟩
  · obtain ⟨hk, hne⟩ := hmem.mp hk
    rcases h.waits k hk with hh | ⟨e, frames, hg⟩
    · exact Or.inl (hlock ▸ FairLock.holder_leave hh hne)
    · exact Or.inr ⟨e, frames, (hothers k hne).trans hg⟩
  · rw [hlock, FairLock.line_leave _ _ h.nodup]
    refine (h.rising.sublist List.filter_sublist).imp_of_mem fun {i j} hi hj hold a b ha hb => ?_
    have hi' : i ≠ id := bne_iff_ne.mp (List.mem_filter.mp hi).2
    have hj' : j ≠ id := bne_iff_ne.mp (List.mem_filter.mp hj).2
    exact hold a b ((hask i hi').symm.trans ha) ((hask j hj').symm.trans hb)

theorem Lined.move (h : s.Lined) (hl : s.Listening) (hm : Move id s s') : s'.Lined := by
  have hothers : ∀ k ≠ id, s'.task? k = s.task? k := fun k hk => hm.others hk
  have hgated : ∀ {k}, k ≠ id → (s'.Gated k ↔ s.Gated k) := by
    intro k hk
    rw [Gated, hothers k hk, Gated]
  have hask : ∀ k ≠ id, s'.exchange? k = s.exchange? k := fun k hk => by
    rw [exchange?, hothers k hk, exchange?]
  cases hm.atGate with
  | aside hnone hlock hnot =>
    have hout : ¬s.Gated id := not_gated_of_exchange? hnone
    refine h.still hlock (fun k hk => ?_) (fun k hk => ?_) fun k hk => ?_
    · refine hask k ?_
      rintro rfl
      exact h.asks k hk hnone
    · exact (hgated fun heq => hnot (heq ▸ hk)).mp hk
    · exact Or.inl ((hgated fun heq => hout (heq ▸ hk)).mpr hk)
  | joins hnone hlock hg he hlistener => exact h.join hl hnone hlock hg he hlistener hothers
  | goesOn he he' hlock hheld hnot =>
    refine h.still hlock (fun k _ => ?_) (fun k hk => ?_) fun k hk => ?_
    · by_cases hkid : k = id
      · rw [hkid, he, he']
      · exact hask k hkid
    · exact (hgated fun heq => hnot (heq ▸ hk)).mp hk
    · by_cases hkid : k = id
      · exact Or.inr (hkid ▸ hheld (hkid ▸ hk))
      · exact Or.inl ((hgated hkid).mpr hk)
  | leaves _ hgone hlock => exact h.leave hlock hgone hothers

theorem gated_spawn (hs : s.task? s.nextTask = none) (job : Job) (k : TaskId) :
    (s.spawn job).1.Gated k ↔ s.Gated k := by
  rw [Gated, task?_spawn hs, Gated]
  split
  · next hk => simp [hk, hs]
  · rfl

theorem Lined.same (h : s.Lined) (hlock : s'.blockingLock = s.blockingLock)
    (htask : ∀ k, s'.task? k = s.task? k) : s'.Lined := by
  have hgated : ∀ k, s'.Gated k ↔ s.Gated k := fun k => by rw [Gated, htask, Gated]
  refine h.still hlock (fun k _ => ?_) (fun k => (hgated k).mp) fun k hk =>
    Or.inl ((hgated k).mpr hk)
  rw [exchange?, htask, exchange?]

theorem Lined.spawn (h : s.Lined) (hl : s.Listening) (job : Job) : (s.spawn job).1.Lined :=
  h.still rfl (fun k _ => exchange?_spawn hl.unused job k)
    (fun k => (gated_spawn hl.unused job k).mp)
    fun k hk => Or.inl ((gated_spawn hl.unused job k).mpr hk)

theorem Lined.told (h : s.Lined) (hlock : s'.blockingLock = s.blockingLock)
    (htask : ∀ k, s'.task? k = (s.task? k).map Stage.noticeLoss) : s'.Lined := by
  refine h.still hlock (fun k _ => ?_) (fun k => ?_) fun k => ?_
  · rw [exchange?, htask, exchange?]
    cases s.task? k with
    | none => rfl
    | some t => exact Stage.exchange?_noticeLoss t
  · rintro ⟨e, frames, hg⟩
    rw [htask] at hg
    obtain ⟨t, ht, hg⟩ := Option.map_eq_some_iff.mp hg
    refine ⟨e, frames, ht.trans (congrArg some ?_)⟩
    cases t <;> first | exact hg | cases hg
  · rintro ⟨e, frames, hg⟩
    refine Or.inl ⟨e, frames, ?_⟩
    rw [htask, hg]
    rfl

theorem Lined.step (h : s.Lined) (hl : s.Listening) (hs : Step act s s') : s'.Lined := by
  cases hs with
  | ripple hr =>
    cases hr with
    | quiet hq => exact h.same hq.blockingLock hq.task?
    | note | upkeep => exact h.same rfl fun _ => rfl
    | spawn => exact h.spawn hl _
  | switch _ hs =>
    cases hs with
    | shut | stopWriting | addLine | unuse | clear => exact h.same rfl fun _ => rfl
    | noticeLoss => exact h.told rfl (task?_noticeLoss s)
  | start job => exact h.spawn hl job
  | await | subscribe | remove | cancel | release | offer => exact h.same rfl fun _ => rfl
  | move _ hm => exact h.move hl hm
  | abort id =>
    rcases s.abort_cases id with ⟨-, heq⟩ | ⟨t, -, ha⟩
    · exact heq.symm ▸ h
    · exact h.leave ha.blockingLock ((ha.task? id).trans (if_pos rfl)) fun k hk =>
        (ha.task? k).trans (if_neg hk)

theorem Lined.older_of_holder (h : s.Lined) {j k : TaskId} (hj : s.blockingLock.holder = some j)
    (hk : k ∈ s.blockingLock.line) (hne : k ≠ j) : s.Older j k := by
  have hrising := h.rising
  have hline : s.blockingLock.line = j :: s.blockingLock.waiting := by
    rw [FairLock.line, hj]
    rfl
  rw [hline] at hk hrising
  rcases List.mem_cons.mp hk with heq | hk
  · exact absurd heq hne
  · exact (List.pairwise_cons.mp hrising).1 k hk

inductive AtLock (s s' : Session) : Prop where
  | same : s'.blockingLock = s.blockingLock → AtLock s s'
  | joins (k : TaskId) : s'.blockingLock = s.blockingLock.join k → AtLock s s'
  | leaves (k : TaskId) : s'.task? k = none → s'.blockingLock = s.blockingLock.leave k → AtLock s s'

theorem Step.atLock (h : Step act s s') : AtLock s s' := by
  cases h with
  | ripple hr =>
    cases hr with
    | quiet hq => exact .same hq.blockingLock
    | note | spawn | upkeep => exact .same rfl
  | switch _ hs => cases hs <;> exact .same rfl
  | start | await | subscribe | remove | cancel | release | offer => exact .same rfl
  | @move k _ _ hm =>
    cases hm.atGate with
    | aside _ hlock | goesOn _ _ hlock => exact .same hlock
    | joins _ hlock => exact .joins k hlock
    | leaves _ hgone hlock => exact .leaves k hgone hlock
  | abort k =>
    rcases s.abort_cases k with ⟨-, heq⟩ | ⟨t, -, ha⟩
    · exact .same (congrArg Session.blockingLock heq)
    · exact .leaves k ((ha.task? k).trans (if_pos rfl)) ha.blockingLock

theorem Step.mem_line (h : Step act s s') (hl : s.Lined) (hid : id ∈ s.blockingLock.line)
    (hpresent : s'.task? id ≠ none) : id ∈ s'.blockingLock.line := by
  cases h.atLock with
  | same hlock => exact hlock ▸ hid
  | joins k hlock => exact hlock ▸ (FairLock.mem_line_join hl.fair).mpr (Or.inl hid)
  | leaves k hgone hlock =>
    refine hlock ▸ (FairLock.mem_line_leave hl.nodup).mpr ⟨hid, ?_⟩
    rintro rfl
    exact hpresent hgone

theorem Stage.Plain.not_early {t : Stage} (hp : t.Plain) (hf : t.isFresh = false) :
    t.isEarly = false := by
  cases t <;> first
    | rfl
    | exact absurd hp.1 (Option.some_ne_none _)
    | exact absurd hf nofun

theorem Move.early (h : Move id s s') {t' : Stage} (ht' : s'.task? id = some t')
    (he : t'.isEarly = true) : ∃ t, s.task? id = some t ∧ t.isEarly = true := by
  have hgone : ∀ {s₀ : Session} {o : Outcome}, (s₀.finish id o).task? id ≠ some t' :=
    fun ht' => absurd ((task?_finish_self _ id _).symm.trans ht') nofun
  have hlate : t'.isEarly = false → ∃ t, s.task? id = some t ∧ t.isEarly = true :=
    fun hf => absurd (hf.symm.trans he) nofun
  cases h with
  | leave | receive | fail | take | endReset => exact absurd ht' hgone
  | call => exact absurd (((task?_dropTask s id id).trans (if_pos rfl)).symm.trans ht') nofun
  | rest ht _ _ hp hf =>
    obtain rfl := Option.some.inj ((task?_suspend_self (ne_none_of_task? ht) _).symm.trans ht')
    exact hlate (hp.not_early hf)
  | issue _ ht | gate _ ht => exact ⟨_, ht, rfl⟩
  | pass ht => exact ⟨_, ht, rfl⟩
  | write _ _ hsends => exact ⟨t', (hsends.task? id).symm.trans ht', he⟩
  | next ht hsends =>
    exact hlate (not_early_sendNext (hsends.task? id ▸ ne_none_of_task? ht) _ _ ht')
  | @enterReset _ line request _ ht =>
    have hentered : (s.enterSend id line request).task? id ≠ none := ne_none_of_task? ht
    obtain rfl := Option.some.inj ((task?_suspend_self hentered _).symm.trans ht')
    exact hlate rfl
  | passReset ht hsends hp hf =>
    have hid := ne_none_of_task? ((hsends.task? id).trans ht)
    obtain rfl := Option.some.inj ((task?_suspend_self hid _).symm.trans ht')
    exact hlate (hp.not_early hf)

theorem Step.early (h : Step act s s') {k : TaskId} {t' : Stage} (ht' : s'.task? k = some t')
    (he : t'.isEarly = true) : k = s.nextTask ∨ ∃ t, s.task? k = some t ∧ t.isEarly = true := by
  cases h.atTask k with
  | same hsame => exact Or.inr ⟨t', hsame.symm.trans ht', he⟩
  | starts _ hk => exact Or.inl hk
  | @told t ht htold =>
    obtain rfl := Option.some.inj (htold.symm.trans ht')
    refine Or.inr ⟨t, ht, ?_⟩
    cases t <;> first | rfl | exact absurd he nofun
  | moves hm => exact Or.inr (hm.early ht' he)
  | aborts _ hgone => exact absurd (hgone.symm.trans ht') nofun

structure MayWrite (act : Act) (s : Session) (id : TaskId) (line : LineId) : Prop where
  turn : act = .turn (.task id)
  seat : s.seat? id = some line
  up : ∃ l, s.line? line = some l ∧ l.link.closed = false

def WritesDuly (act : Act) (s s' : Session) : Prop :=
  ∃ new, s'.log = s.log ++ new ∧ ∀ k line bytes, .sent k line bytes ∈ new → MayWrite act s k line

theorem writesDuly_of_same (h : s'.log = s.log) : WritesDuly act s s' :=
  ⟨[], h.trans (List.append_nil _).symm, fun _ _ _ hm => absurd hm List.not_mem_nil⟩

theorem WritesDuly.concat {s₁ : Session} (h : WritesDuly act s s₁) {e : Event}
    (hlog : s'.log = s₁.log ++ [e]) (he : ∀ k line bytes, e ≠ .sent k line bytes) :
    WritesDuly act s s' := by
  obtain ⟨new, hnew, hduly⟩ := h
  refine ⟨new ++ [e], by rw [hlog, hnew, List.append_assoc], fun k line bytes hm => ?_⟩
  rcases List.mem_append.mp hm with hm | hm
  · exact hduly k line bytes hm
  · exact absurd (List.mem_singleton.mp hm).symm (he k line bytes)

theorem writesDuly_of_note {e : Event} (hlog : s'.log = s.log ++ [e])
    (he : ∀ k line bytes, e ≠ .sent k line bytes) : WritesDuly act s s' :=
  (writesDuly_of_same rfl).concat hlog he

theorem Sends.writesDuly {line : LineId} {s₁ : Session} {result : Option (Except Fault Unit)}
    (hs : Sends id line s s₁ result) (hact : act = .turn (.task id))
    (hseat : s.seat? id = some line) (hlog : s'.log = s₁.log) : WritesDuly act s s' := by
  cases hs with
  | stray => exact writesDuly_of_same hlog
  | @goes l link _ hl hp =>
    refine ⟨_, hlog, fun k line bytes hm => ?_⟩
    obtain ⟨written, hwritten, heq⟩ := List.mem_map.mp hm
    obtain ⟨rfl, rfl, -⟩ := Event.sent.inj heq
    refine ⟨hact, hseat, l, hl, Bool.eq_false_iff.mpr fun hc => ?_⟩
    rw [hp.silent hc, List.drop_length] at hwritten
    exact List.not_mem_nil hwritten

theorem Move.writesDuly (hm : Move id s s') (hact : act = .turn (.task id)) :
    WritesDuly act s s' := by
  cases hm with
  | leave | receive | take | call => exact writesDuly_of_note rfl nofun
  | rest | gate | enterReset => exact writesDuly_of_same rfl
  | issue | pass => exact writesDuly_of_same (log_sendNext _ id _ _)
  | write ht hseat hs => exact hs.writesDuly hact ((seat?_of_task? ht).trans hseat) rfl
  | next ht hs => exact hs.writesDuly hact (seat?_of_task? ht) (log_sendNext _ id _ _)
  | fail ht hs | endReset ht hs =>
    exact (hs.writesDuly hact (seat?_of_task? ht) rfl).concat rfl nofun
  | passReset ht hs => exact hs.writesDuly hact (seat?_of_task? ht) rfl

theorem Step.writesDuly (h : Step act s s') : WritesDuly act s s' := by
  cases h with
  | ripple hr =>
    cases hr with
    | quiet hq => exact writesDuly_of_same hq.log
    | note hnote =>
      refine writesDuly_of_note rfl ?_
      rintro k line bytes rfl
      exact absurd hnote nofun
    | spawn | upkeep => exact writesDuly_of_same rfl
  | switch _ hs => cases hs <;> exact writesDuly_of_same rfl
  | start | await | subscribe | remove | cancel | release => exact writesDuly_of_same rfl
  | move hact hm => exact hm.writesDuly hact
  | abort id => exact writesDuly_of_same (log_abort s id)
  | offer => exact writesDuly_of_note rfl nofun

def Begun (s : Session) : Prop :=
  ∀ k line bytes, .sent k line bytes ∈ s.log →
    k < s.nextTask ∧ ∀ t, s.task? k = some t → t.isEarly = false

theorem Begun.step (h : s.Begun) (hl : s.Listening) (hs : Step act s s') : s'.Begun := by
  intro k line bytes hm
  have hwas : k < s.nextTask ∧ ∀ t, s.task? k = some t → t.isEarly = false := by
    obtain ⟨new, hlog, hnew⟩ := hs.writesDuly
    rw [hlog] at hm
    rcases List.mem_append.mp hm with hm | hm
    · exact h k line bytes hm
    · obtain ⟨t, ht, hsits⟩ := Option.bind_eq_some_iff.mp (hnew k line bytes hm).seat
      refine ⟨hl.known k (ne_none_of_task? ht), fun t' ht' => ?_⟩
      obtain rfl := Option.some.inj (ht.symm.trans ht')
      cases t <;> first | rfl | exact absurd hsits nofun
  refine ⟨Nat.lt_of_lt_of_le hwas.1 hs.nextTask_le, fun t' ht' => ?_⟩
  by_contra he
  rcases hs.early ht' (Bool.not_eq_false _ ▸ he) with hk | ⟨t, ht, he⟩
  · exact absurd hwas.1 (hk ▸ Nat.lt_irrefl _)
  · exact absurd ((hwas.2 t ht).symm.trans he) nofun

structure Regular (s : Session) : Prop where
  orderly : s.Orderly
  linked : s.Linked
  lined : s.Lined
  begun : s.Begun

theorem regular_new (config : Config) (catalog : Catalog) (deviceOpens : Bool) :
    (new config catalog deviceOpens).Regular :=
  ⟨orderly_new config catalog deviceOpens, linked_new config catalog deviceOpens,
    lined_new config catalog deviceOpens, fun _ _ _ h => absurd h List.not_mem_nil⟩

theorem Regular.step (h : s.Regular) (hs : Step act s s') : s'.Regular :=
  ⟨h.orderly.step hs, h.linked.step h.orderly.listening hs, h.lined.step h.orderly.listening hs,
    h.begun.step h.orderly.listening hs⟩

theorem Regular.steps (h : s.Regular) (hs : Steps act s s') : s'.Regular := by
  induction hs with
  | refl => exact h
  | tail _ hstep ih => exact ih.step hstep

theorem Regular.run_keeps {p : Session → Prop}
    (hp : ∀ {act s s'}, s.Regular → Step act s s' → p s → p s') (h : s.Regular) (hs : p s)
    (acts : List Act) : (s.run acts).Regular ∧ p (s.run acts) := by
  have hsteps : ∀ {act s s'}, s.Regular → Steps act s s' → p s → p s' := by
    intro act s s' h hsteps hs
    induction hsteps with
    | refl => exact hs
    | tail hbefore hstep ih => exact hp (h.steps hbefore) hstep ih
  induction acts generalizing s with
  | nil => exact ⟨h, hs⟩
  | cons act rest ih =>
    have hact := perform_steps s act
    exact ih (h.steps hact) (hsteps h hact hs)

theorem Regular.run (h : s.Regular) (acts : List Act) : (s.run acts).Regular :=
  (h.run_keeps (fun _ _ _ => trivial) trivial acts).1

end

end Session

end NcpHost
