import NcpHost.Proofs.Session.Request

/-! What a step changes, seen from one task, from the listeners and from the blocking lock. Each of them
meets few kinds of steps, and what steps keep about it is said by cases on these. -/

namespace NcpHost.Session

section

variable {s s' : Session} {act : Act} {id k : TaskId} {listener : ListenerId}

inductive AtTask (act : Act) (k : TaskId) (s s' : Session) : Prop where
  | same : s'.task? k = s.task? k → AtTask act k s s'
  | starts (job : Job) : k = s.nextTask → s.task? k = none → s'.task? k = some (.fresh job) →
    act = .start job ∨ (∃ deed text, job = .callback deed text) → AtTask act k s s'
  | told {t : Stage} : s.task? k = some t → s'.task? k = some t.noticeLoss → AtTask act k s s'
  | moves : Move k s s' → act = .turn (.task k) → AtTask act k s s'
  | aborts : s.task? k ≠ none → s'.task? k = none → act = .abort k → s'.log = s.log →
    AtTask act k s s'

theorem atTask_spawn {job : Job} (hjob : act = .start job ∨ ∃ deed text, job = .callback deed text)
    (k : TaskId) : AtTask act k s (s.spawn job).1 := by
  have hlookup : (s.spawn job).1.task? k
      = (s.task? k).or (if k = s.nextTask then some (.fresh job) else none) := by
    rw [task?, spawn, List.lookup_append, task?]
    refine congrArg _ ?_
    split
    · next hk => simp [hk]
    · next hk => simp [List.lookup_cons, beq_false_of_ne hk]
  cases ht : s.task? k with
  | some t => exact .same (by rw [hlookup, ht]; rfl)
  | none =>
    rw [ht, Option.none_or] at hlookup
    by_cases hk : k = s.nextTask
    · exact .starts job hk ht (hlookup.trans (if_pos hk)) hjob
    · exact .same ((hlookup.trans (if_neg hk)).trans ht.symm)

theorem Step.atTask (h : Step act s s') (k : TaskId) : AtTask act k s s' := by
  cases h with
  | ripple hr =>
    cases hr with
    | quiet hq => exact .same (hq.task? k)
    | note | upkeep => exact .same rfl
    | spawn deed text => exact atTask_spawn (Or.inr ⟨deed, text, rfl⟩) k
  | switch _ hs =>
    cases hs with
    | shut | stopWriting | addLine | unuse | clear => exact .same rfl
    | noticeLoss =>
      have htold := task?_noticeLoss s k
      cases ht : s.task? k with
      | none => exact .same (htold.trans (by rw [ht]; rfl))
      | some t => exact .told ht (htold.trans (by rw [ht]; rfl))
  | start job hact => exact atTask_spawn (Or.inl hact) k
  | await | subscribe | remove | cancel | release | offer => exact .same rfl
  | @move id _ hact hm =>
    by_cases hk : k = id
    · exact .moves (hk ▸ hm) (hk ▸ hact)
    · exact .same (hm.others hk)
  | abort id hact =>
    rcases s.abort_cases id with ⟨-, heq⟩ | ⟨t, ht, ha⟩
    · exact .same (congrArg (task? · k) heq)
    · by_cases hk : k = id
      · exact .aborts (hk ▸ ne_none_of_task? ht) ((ha.task? k).trans (if_pos hk)) (hk ▸ hact) ha.log
      · exact .same ((ha.task? k).trans (if_neg hk))

theorem Stage.noticeLoss_noticeLoss (t : Stage) : t.noticeLoss.noticeLoss = t.noticeLoss := by
  cases t <;> rfl

theorem Step.notices (h : Step act s s') (hown : act ≠ .turn (.task k)) (hkept : act ≠ .abort k)
    {t : Stage} (ht : s.task? k = some t) :
    s'.task? k = some t ∨ s'.task? k = some t.noticeLoss := by
  cases h.atTask k with
  | same hsame => exact Or.inl (hsame.trans ht)
  | starts _ _ hnone => exact absurd ht (ne_of_gone hnone)
  | told ht' htold => exact Or.inr (Option.some.inj (ht'.symm.trans ht) ▸ htold)
  | moves _ hact => exact absurd hact hown
  | aborts _ _ hact => exact absurd hact hkept

theorem Steps.notices (h : Steps act s s') (hown : act ≠ .turn (.task k)) (hkept : act ≠ .abort k)
    {t : Stage} (ht : s.task? k = some t) :
    s'.task? k = some t ∨ s'.task? k = some t.noticeLoss := by
  induction h with
  | refl => exact Or.inl ht
  | tail _ hstep ih =>
    rcases ih with hsame | htold
    · exact hstep.notices hown hkept hsame
    · have hstill := hstep.notices hown hkept htold
      rw [Stage.noticeLoss_noticeLoss, or_self] at hstill
      exact Or.inr hstill

theorem Steps.stays (h : Steps act s s') (hown : act ≠ .turn (.task k)) (hkept : act ≠ .abort k)
    (hthere : s.task? k ≠ none) : s'.task? k ≠ none := by
  obtain ⟨t, ht⟩ := Option.ne_none_iff_exists'.mp hthere
  rcases h.notices hown hkept ht with hsame | htold
  · exact ne_none_of_task? hsame
  · exact ne_none_of_task? htold

theorem Step.nextTask_le (h : Step act s s') : s.nextTask ≤ s'.nextTask := by
  cases h with
  | ripple hr =>
    cases hr with
    | quiet hq => exact Nat.le_of_eq hq.nextTask.symm
    | note | upkeep => exact Nat.le_refl _
    | spawn => exact Nat.le_succ _
  | switch _ hs => cases hs <;> exact Nat.le_refl _
  | start => exact Nat.le_succ _
  | await | subscribe | remove | cancel | release | offer => exact Nat.le_refl _
  | move _ hm => exact Nat.le_of_eq hm.apart.nextTask.symm
  | abort id => exact Nat.le_of_eq (apart_abort s id).nextTask.symm

theorem Step.gone (h : Step act s s') (hk : k < s.nextTask) (hgone : s.task? k = none) :
    k < s'.nextTask ∧ s'.task? k = none := by
  refine ⟨Nat.lt_of_lt_of_le hk h.nextTask_le, ?_⟩
  cases h.atTask k with
  | same hsame => exact hsame.trans hgone
  | starts _ hnew => exact absurd hk (hnew ▸ Nat.lt_irrefl _)
  | told ht => exact absurd hgone (ne_none_of_task? ht)
  | moves hm => exact absurd hgone hm.present
  | aborts hpresent => exact absurd hgone hpresent

theorem Steps.nextTask_le (h : Steps act s s') : s.nextTask ≤ s'.nextTask := by
  induction h with
  | refl => exact Nat.le_refl _
  | tail _ hstep ih => exact Nat.le_trans ih hstep.nextTask_le

theorem Steps.gone (h : Steps act s s') (hk : k < s.nextTask) (hgone : s.task? k = none) :
    k < s'.nextTask ∧ s'.task? k = none := by
  induction h with
  | refl => exact ⟨hk, hgone⟩
  | tail _ hstep ih => exact hstep.gone ih.1 ih.2

inductive AtRegistry (act : Act) (s s' : Session) : Prop where
  | same : s'.registry = s.registry → AtRegistry act s s'
  | registers (l : Listener Deed) : (∀ line, act ≠ .turn (.reader line)) →
    s'.registry = (s.registry.register l).1 → AtRegistry act s s'
  | fades : (∀ k, Registry.Fades k s.registry s'.registry) →
    s'.registry.nextId = s.registry.nextId → AtRegistry act s s'
  | offers (c : Command) : s'.registry = (s.registry.dispatch c).1 → AtRegistry act s s'

theorem Step.atRegistry (h : Step act s s') (hl : s.Listening) : AtRegistry act s s' := by
  cases h with
  | ripple hr =>
    cases hr with
    | quiet hq => exact .same hq.registry
    | note | upkeep | spawn => exact .same rfl
  | switch _ hs =>
    cases hs with
    | shut | stopWriting | addLine | unuse | noticeLoss => exact .same rfl
    | clear => exact .fades hl.sound.fades_clear rfl
  | start => exact .same rfl
  | await patterns hact | subscribe patterns _ hact =>
    exact .registers _ (fun _ heq => absurd (hact.symm.trans heq) nofun) rfl
  | remove k => exact .fades (hl.sound.fades_unregister · k) (Registry.nextId_unregister _ k)
  | cancel k => exact .fades (hl.sound.fades_cancel · k) (Registry.nextId_unregister _ k)
  | release k => exact .fades (hl.sound.fades_release · k) (nextId_release _ k)
  | move hact hm =>
    have hreleased : ∀ k, s'.registry = s.registry.release k → AtRegistry act s s' := fun k hr =>
      .fades (fun _ => hr ▸ hl.sound.fades_release _ k) (hr ▸ nextId_release _ k)
    cases hm.own with
    | without _ _ hr =>
      rcases hr with hr | ⟨_, listener, _, _, hr⟩
      · exact .same hr
      · exact hreleased listener hr
    | begins _ _ _ _ _ hr =>
      exact .registers _ (fun _ heq => absurd (hact.symm.trans heq) nofun) hr
    | goesOn _ _ hr => exact .same hr
    | @ends e _ _ _ _ hr => exact hreleased e.listener hr
  | abort id =>
    rcases s.abort_cases id with ⟨-, heq⟩ | ⟨t, -, ha⟩
    · exact .same (congrArg Session.registry heq)
    · have hr := ha.registry
      split at hr
      · next k _ => exact .fades (fun _ => hr ▸ hl.sound.fades_release _ k) (hr ▸ nextId_release _ k)
      · exact .same hr
  | offer _ c => exact .offers c rfl

theorem Step.nextId_le (h : Step act s s') (hl : s.Listening) :
    s.registry.nextId ≤ s'.registry.nextId := by
  cases h.atRegistry hl with
  | same hr => exact Nat.le_of_eq (hr ▸ rfl)
  | registers _ _ hr => exact hr ▸ Nat.le_succ _
  | fades _ hnext => exact Nat.le_of_eq hnext.symm
  | offers c hr => exact Nat.le_of_eq (hr ▸ (hl.sound.nextId_dispatch c).symm)

theorem Step.unlistened (h : Step act s s') (hl : s.Listening)
    (hgiven : listener < s.registry.nextId) (hnone : s.registry.listener? listener = none) :
    s'.registry.listener? listener = none := by
  cases h.atRegistry hl with
  | same hr => exact hr ▸ hnone
  | registers l _ hr => exact hr ▸ (hl.sound.same_register l hgiven).listener.trans hnone
  | fades hf =>
    rcases (hf listener).listener with hgone | hsame
    · exact hgone
    · exact hsame.trans hnone
  | offers c hr =>
    rw [hr]
    cases hl.sound.dispatch_offered c listener with
    | passed _ hsame => exact hsame.listener.trans hnone
    | spent _ _ _ _ hsame => exact hsame.trans hnone
    | won _ _ _ _ hgone => exact hgone

theorem Step.listened {line : LineId} {l : Listener Deed} (h : Step (.turn (.reader line)) s s')
    (hl : s.Listening) (hnew : s'.registry.listener? listener = some l) :
    s.registry.listener? listener = some l := by
  cases h.atRegistry hl with
  | same hr => exact hr ▸ hnew
  | registers _ hact => exact absurd rfl (hact line)
  | fades hf =>
    rcases (hf listener).listener with hgone | hsame
    · exact absurd (hgone.symm.trans hnew) nofun
    · exact hsame.symm.trans hnew
  | offers c hr =>
    rw [hr] at hnew
    cases hl.sound.dispatch_offered c listener with
    | passed _ hsame => exact hsame.listener.symm.trans hnew
    | spent _ _ _ _ hsame => exact hsame.symm.trans hnew
    | won _ _ _ _ hgone => exact absurd (hgone.symm.trans hnew) nofun

theorem Step.now (h : Step act s s') : s.agenda.now ≤ s'.agenda.now := by
  cases h with
  | ripple hr =>
    cases hr with
    | quiet hq => exact hq.now
    | note | spawn | upkeep => exact Nat.le_refl _
  | switch _ hs => cases hs <;> exact Nat.le_refl _
  | start | await | subscribe | remove | cancel | release | offer => exact Nat.le_refl _
  | move _ hm => exact Nat.le_of_eq hm.apart.now.symm
  | abort id => exact Nat.le_of_eq (apart_abort s id).now.symm

theorem Steps.now (h : Steps act s s') : s.agenda.now ≤ s'.agenda.now := by
  induction h with
  | refl => exact Nat.le_refl _
  | tail _ hstep ih => exact Nat.le_trans ih hstep.now

end

end NcpHost.Session
