import NcpHost.Proofs.Link.History

/-! Stop and wait, in every run of a link with its senders. Once it is settled how a send ends, by an
acknowledgement or because the link is closed, nobody can change it, and its end comes when those in
front of it have had their turns. -/

namespace NcpHost.Senders

variable {s : Senders} {id : TaskId}

/-- It is settled what a send ends with: it has been told, or it stands in line at a closed link. -/
inductive Fated (l : Link) (id : TaskId) : Except Fault Unit → Prop where
  | told {deadline : Nat} {verdict : Verdict} :
    l.stage? id = some (.outstanding deadline (some verdict)) → Fated l id verdict.result
  | refused {frame : Frame} : l.closed = true → l.stage? id = some (.queued frame) →
    Fated l id (.error .notConnected)

section

variable {ackTimeout : Nat} {given : List Frame} {past : List Incident}
  {result : Except Fault Unit}

theorem Fated.live {l : Link} (h : Fated l id result) : l.stage? id ≠ none := by
  cases h with
  | told hs => simp [hs]
  | refused _ hs => simp [hs]

theorem Fated.congr {l l' : Link} (h : Fated l id result) (hs : l'.stage? id = l.stage? id)
    (hc : l'.closed = l.closed) : Fated l' id result := by
  cases h with
  | told h => exact .told (hs.trans h)
  | refused hcl h => exact .refused (hc.trans hcl) (hs.trans h)

theorem Fated.tell {l l' : Link} (h : Fated l id result)
    (hs : l'.stage? id = l.stage? id
      ∨ ∃ verdict : Verdict, l'.stage? id = verdict.tell (l.stage? id))
    (hc : l.closed = true → l'.closed = true) : Fated l' id result := by
  have hsame : l'.stage? id = l.stage? id := by
    rcases hs with hs | ⟨verdict, hs⟩
    · exact hs
    · rw [hs]
      refine Verdict.tell_of_not_waiting fun d hd => ?_
      cases h with
      | told h => exact absurd (h.symm.trans hd) (by simp)
      | refused _ h => exact absurd (h.symm.trans hd) nofun
  cases h with
  | told h => exact .told (hsame.trans h)
  | refused hcl h => exact .refused (hc hcl) (hsame.trans h)

theorem Fated.perform (h : Fated s.link id result) (hk : Kept ackTimeout given past s) {act : Act}
    (hturn : act ≠ .turn id) (habort : act ≠ .abort id) :
    Fated (s.perform act).link id result := by
  cases act with
  | send frame =>
    have hne : id ≠ s.nextId := Nat.ne_of_lt (hk.known id h.live)
    exact h.congr ((Link.stage?_setStage s.link s.nextId _ id).trans (if_neg hne)) rfl
  | turn k =>
    obtain ⟨result, hp, -⟩ := s.turn_cases k
    obtain ⟨hc, -, hothers⟩ := hp.keeps
    exact h.congr (hothers id fun e => hturn (e ▸ rfl)) hc
  | abort k =>
    have hne : id ≠ k := fun e => habort (e ▸ rfl)
    exact h.congr ((Link.stage?_abort s.link k id).trans (if_neg hne)) rfl
  | arrive bytes =>
    obtain ⟨n, -, -, hstage, -, hc, -⟩ := arrive_cases hk.sound bytes
    refine h.tell ?_ fun hcl => hc.trans hcl
    rw [hstage]
    split
    · exact Or.inl rfl
    · exact Or.inr ⟨_, rfl⟩
  | lose | close => exact h.tell (Or.inr ⟨_, hk.sound.close_stage? id⟩) fun _ => rfl
  | dropOutlet | elapse | wake | look => exact h.congr rfl rfl

theorem Fated.turn (h : Fated s.link id result) (hk : Kept ackTimeout given past s) :
    s.link.sendLock.holds id = true ∧ s.incidents (.turn id) = [.ended id result]
        ∧ (s.perform (.turn id)).link = s.link.abort id
      ∨ s.link.sendLock.holds id = false ∧ s.incidents (.turn id) = []
        ∧ (s.perform (.turn id)).link = s.link := by
  obtain ⟨r, hp, hseen⟩ := s.turn_cases id
  generalize (s.perform (.turn id)).link = l' at hp hseen
  cases hh : s.link.sendLock.holds id with
  | false =>
    obtain ⟨rfl, rfl⟩ := hk.sound.behind hh hp
    exact Or.inr ⟨rfl, by simpa using hseen, rfl⟩
  | true =>
    refine Or.inl ⟨rfl, ?_⟩
    cases h with
    | told hs =>
      cases hp with
      | settled hs' =>
        obtain ⟨rfl, hv⟩ := SendStage.outstanding.inj (Option.some.inj (hs.symm.trans hs'))
        obtain rfl := Option.some.inj hv
        exact ⟨by simpa [Link.abort] using hseen, rfl⟩
      | _ => simp_all
    | refused hc hs =>
      cases hp with
      | refused => exact ⟨by simpa [Link.abort] using hseen, rfl⟩
      | _ => simp_all

theorem eq_turn_of_ended {act : Act} (hm : .ended id result ∈ s.incidents act) :
    act = .turn id ∧ s.link.stage? id ≠ none := by
  cases act with
  | turn k =>
    obtain ⟨r, hp, hseen⟩ := s.turn_cases k
    generalize (s.perform (.turn k)).link = l' at hp hseen
    rw [hseen] at hm
    rcases List.mem_append.mp hm with hm | hm
    · obtain ⟨_, -, hw⟩ := List.mem_map.mp hm
      cases hw
    · obtain ⟨r', hr, he⟩ := List.mem_map.mp hm
      obtain ⟨rfl, rfl⟩ := Incident.ended.inj he
      refine ⟨rfl, fun hnone => ?_⟩
      cases hp with
      | gone => exact absurd hr (by simp)
      | _ => simp_all
  | abort k =>
    rw [incidents] at hm
    split at hm <;> simp at hm
  | arrive bytes =>
    obtain ⟨n, hn⟩ : ∃ n, s.incidents (.arrive bytes) = List.replicate n .matched := ⟨_, rfl⟩
    rw [hn] at hm
    cases List.eq_of_mem_replicate hm
  | lose | close => cases List.mem_singleton.mp hm
  | send | dropOutlet | elapse | wake | look => exact absurd hm List.not_mem_nil

theorem Kept.not_ended (hk : Kept ackTimeout given past s) (hover : ∃ e ∈ past, e.isEndOf id = true)
    (more : List Act) : .ended id result ∉ s.trace more := by
  induction more generalizing s given past with
  | nil => exact List.not_mem_nil
  | cons act rest ih =>
    obtain ⟨e, he, hend⟩ := hover
    intro hm
    rcases List.mem_append.mp hm with hm | hm
    · exact (eq_turn_of_ended hm).2 ((hk.ended id).mp ⟨e, he, hend⟩).2
    · exact ih (hk.perform act) ⟨e, List.mem_append_left _ he, hend⟩ hm

theorem Fated.only (h : Fated s.link id result) (hk : Kept ackTimeout given past s)
    {more : List Act} {other : Except Fault Unit} (hm : .ended id other ∈ s.trace more) :
    other = result := by
  induction more generalizing s given past with
  | nil => exact absurd hm List.not_mem_nil
  | cons act rest ih =>
    have hnext := hk.perform act
    -- after its end nothing more is seen of it
    have hover : ∀ e ∈ s.incidents act, e.isEndOf id = true →
        .ended id other ∉ (s.perform act).trace rest := fun e he hend =>
      hnext.not_ended ⟨e, List.mem_append_right _ he, hend⟩ rest
    by_cases habort : act = .abort id
    · subst habort
      have hseen : s.incidents (.abort id) = [.abandoned id] := by
        rw [incidents, if_pos (Option.isSome_iff_ne_none.mpr h.live)]
      rcases List.mem_append.mp hm with hm | hm
      · rw [hseen] at hm
        cases List.mem_singleton.mp hm
      · exact absurd hm (hover (.abandoned id) (by simp [hseen]) (by simp [Incident.isEndOf]))
    by_cases hturn : act = .turn id
    · subst hturn
      rcases h.turn hk with ⟨-, hseen, -⟩ | ⟨-, hseen, hlink⟩
      · rcases List.mem_append.mp hm with hm | hm
        · rw [hseen] at hm
          exact (Incident.ended.inj (List.mem_singleton.mp hm)).2
        · exact absurd hm (hover (.ended id result) (by simp [hseen]) (by simp [Incident.isEndOf]))
      · rw [trace, hseen] at hm
        exact ih (hlink ▸ h) hnext hm
    · rcases List.mem_append.mp hm with hm | hm
      · exact absurd (eq_turn_of_ended hm).1 hturn
      · exact ih (h.perform hk hturn habort) hnext hm

structure FatedBehind (l : Link) (before : List TaskId) (id : TaskId)
    (result : Except Fault Unit) : Prop where
  fated : Fated l id result
  front : ∀ k ∈ before, ∃ r, Fated l k r
  line : ∃ after, l.sendLock.line = before ++ id :: after

section

variable {before : List TaskId}

theorem FatedBehind.head? {l : Link} (h : FatedBehind l before id result) :
    l.sendLock.line.head? = (before ++ [id]).head? := by
  obtain ⟨after, hline⟩ := h.line
  rw [hline]
  cases before <;> rfl

theorem FatedBehind.perform (h : FatedBehind s.link before id result)
    (hk : Kept ackTimeout given past s) {act : Act} (hturn : ∀ k, act ≠ .turn k)
    (habort : ∀ k, act ≠ .abort k) : FatedBehind (s.perform act).link before id result := by
  refine ⟨h.fated.perform hk (hturn id) (habort id), fun k hm => ?_, ?_⟩
  · obtain ⟨r, hr⟩ := h.front k hm
    exact ⟨r, hr.perform hk (hturn k) (habort k)⟩
  · obtain ⟨after, hline⟩ := h.line
    cases act with
    | turn k => exact absurd rfl (hturn k)
    | abort k => exact absurd rfl (habort k)
    | send frame =>
      refine ⟨after ++ [s.nextId], (FairLock.line_join s.link.sendLock _ hk.sound.fair).trans ?_⟩
      rw [hline, List.append_assoc, List.cons_append]
    | arrive bytes =>
      obtain ⟨n, -, -, -, hlock, -⟩ := arrive_cases hk.sound bytes
      exact ⟨after, hlock ▸ hline⟩
    | lose | close => exact ⟨after, s.link.close_frame.1 ▸ hline⟩
    | dropOutlet | elapse | wake | look => exact ⟨after, hline⟩

theorem FatedBehind.abort (h : FatedBehind s.link before id result)
    (hk : Kept ackTimeout given past s) {k : TaskId} (hne : id ≠ k) :
    FatedBehind (s.perform (.abort k)).link (before.filter (· != k)) id result := by
  refine ⟨h.fated.perform hk nofun fun e => hne (Act.abort.inj e).symm, fun j hj => ?_, ?_⟩
  · obtain ⟨hj, hjk⟩ := List.mem_filter.mp hj
    obtain ⟨r, hr⟩ := h.front j hj
    exact ⟨r, hr.perform hk nofun fun e => bne_iff_ne.mp hjk (Act.abort.inj e).symm⟩
  · obtain ⟨after, hline⟩ := h.line
    have hleave := FairLock.line_leave s.link.sendLock k hk.sound.nodup
    rw [hline, List.filter_append, List.filter_cons_of_pos (by simpa using hne)] at hleave
    exact ⟨_, hleave⟩

theorem FatedBehind.turn {b : TaskId} (h : FatedBehind s.link (b :: before) id result)
    (hk : Kept ackTimeout given past s) :
    FatedBehind (s.perform (.turn b)).link before id result := by
  obtain ⟨after, hline⟩ := h.line
  obtain ⟨r, hr⟩ := h.front b List.mem_cons_self
  have hholds : s.link.sendLock.holds b = true := hk.sound.fair.holds_iff.mpr h.head?
  have hlink : (s.perform (.turn b)).link = s.link.abort b := by
    rcases hr.turn hk with ⟨-, -, hlink⟩ | ⟨hbehind, -⟩
    · exact hlink
    · exact absurd (hbehind.symm.trans hholds) Bool.false_ne_true
  have hnodup := hk.sound.nodup
  rw [hline, List.cons_append, List.nodup_cons] at hnodup
  have hne : ∀ j ∈ before ++ id :: after, j ≠ b := fun j hj e => hnodup.1 (e ▸ hj)
  refine ⟨h.fated.perform hk (fun e => hne id (by simp) (Act.turn.inj e).symm) nofun,
    fun j hj => ?_, after, ?_⟩
  · obtain ⟨r', hr'⟩ := h.front j (List.mem_cons_of_mem _ hj)
    have hj' : j ≠ b := hne j (List.mem_append_left _ hj)
    exact ⟨r', hr'.perform hk (fun e => hj' (Act.turn.inj e).symm) nofun⟩
  · have hleave := FairLock.line_leave s.link.sendLock b hk.sound.nodup
    rw [hline, List.cons_append, List.filter_cons_of_neg (by simp),
      List.filter_eq_self.mpr fun j hj => bne_iff_ne.mpr (hne j hj)] at hleave
    rw [hlink]
    exact hleave

theorem FatedBehind.surely (h : FatedBehind s.link before id result)
    (hk : Kept ackTimeout given past s) {more : List Act} (habort : .abort id ∉ more)
    (hturns : (before ++ [id]).Sublist (turnsOf more)) : .ended id result ∈ s.trace more := by
  induction more generalizing s given past before with
  | nil => exact absurd (List.sublist_nil.mp hturns) (by simp)
  | cons act rest ih =>
    have hnext := hk.perform act
    have hrest : .abort id ∉ rest := fun hm => habort (List.mem_cons_of_mem _ hm)
    cases act with
    | abort k =>
      have hne : id ≠ k := fun e => habort (e ▸ List.mem_cons_self)
      refine List.mem_append_right _ (ih (h.abort hk hne) hnext hrest ?_)
      exact (List.filter_sublist.append_right [id]).trans hturns
    | turn k =>
      cases hholds : s.link.sendLock.holds k with
      | false =>
        -- it is not the turn of the first in line
        obtain ⟨r, hp, -⟩ := s.turn_cases k
        obtain ⟨hlink, -⟩ := hk.sound.behind hholds hp
        refine List.mem_append_right _ (ih (hlink ▸ h) hnext hrest ?_)
        cases hsplit : before ++ [id] with
        | nil => exact List.nil_sublist _
        | cons first others =>
          rw [hsplit] at hturns
          refine List.Sublist.of_cons_of_ne (fun e => ?_) hturns
          have hfirst := hk.sound.fair.holds_iff.mpr (h.head?.trans (e ▸ congrArg List.head? hsplit))
          exact Bool.false_ne_true (hholds.symm.trans hfirst)
      | true =>
        have hhead := h.head?.symm.trans (hk.sound.fair.holds_iff.mp hholds)
        cases before with
        | nil =>
          obtain rfl : id = k := Option.some.inj hhead
          rcases h.fated.turn hk with ⟨-, hseen, -⟩ | ⟨hbehind, -⟩
          · exact List.mem_append_left _ (by simp [hseen])
          · exact absurd (hbehind.symm.trans hholds) Bool.false_ne_true
        | cons b before =>
          obtain rfl : b = k := Option.some.inj hhead
          refine List.mem_append_right _ (ih (h.turn hk) hnext hrest ?_)
          exact List.cons_sublist_cons.mp hturns
    | send | arrive | lose | close | dropOutlet | elapse | wake | look =>
      exact List.mem_append_right _ (ih (h.perform hk nofun nofun) hnext hrest hturns)

end

end

/-- A send ends with a result, whatever comes, unless it is given up: with nothing else, and surely
once everybody up to it in line has a turn, in order. -/
structure EndsWith (s : Senders) (id : TaskId) (result : Except Fault Unit) : Prop where
  only : ∀ more other, .ended id other ∈ s.trace more → other = result
  surely : ∃ before after, s.link.sendLock.line = before ++ id :: after
    ∧ ∀ more, .abort id ∉ more → (before ++ [id]).Sublist (turnsOf more) →
      .ended id result ∈ s.trace more

section

variable {ackTimeout : Nat} {given : List Frame} {past : List Incident}

theorem Kept.endsWith_told (hk : Kept ackTimeout given past s) {deadline : Nat} {verdict : Verdict}
    (hs : s.link.stage? id = some (.outstanding deadline (some verdict))) :
    EndsWith s id verdict.result := by
  have hfated : Fated s.link id verdict.result := .told hs
  have hline : s.link.sendLock.line = [] ++ id :: s.link.sendLock.waiting := by
    rw [FairLock.line, hk.sound.holder id deadline _ hs]
    rfl
  have hbehind : FatedBehind s.link [] id verdict.result :=
    ⟨hfated, fun k hm => absurd hm List.not_mem_nil, _, hline⟩
  exact ⟨fun more other hm => hfated.only hk hm, [], _, hline,
    fun more habort hturns => hbehind.surely hk habort hturns⟩

theorem Kept.fated_of_closed (hk : Kept ackTimeout given past s) (hc : s.link.closed = true)
    (hlive : s.link.stage? id ≠ none) : ∃ result, Fated s.link id result := by
  cases hs : s.link.stage? id with
  | none => exact absurd hs hlive
  | some stage =>
    cases stage with
    | queued frame => exact ⟨_, .refused hc hs⟩
    | outstanding deadline verdict =>
      cases verdict with
      | some v => exact ⟨_, .told hs⟩
      | none =>
        have hwaiter := (hk.sound.waiter id deadline hs).symm.trans (hk.sound.settled hc)
        exact absurd hwaiter nofun

theorem Kept.endsWith_closed (hk : Kept ackTimeout given past s) (hc : s.link.closed = true)
    {result : Except Fault Unit} (h : Fated s.link id result) : EndsWith s id result := by
  obtain ⟨before, after, hline⟩ := List.append_of_mem ((hk.sound.standing id).mpr h.live)
  have hbehind : FatedBehind s.link before id result :=
    ⟨h, fun k hm => hk.fated_of_closed hc
      ((hk.sound.standing k).mp (hline ▸ List.mem_append_left _ hm)), after, hline⟩
  exact ⟨fun more other hm => h.only hk hm, before, after, hline,
    fun more habort hturns => hbehind.surely hk habort hturns⟩

end

def Answered (seen : List Incident) (id : TaskId) : Prop :=
  ∃ before time bytes after, seen = before ++ .wrote id time bytes :: after ∧ .matched ∈ after

theorem Answered.append {past : List Incident} (h : Answered past id) (new : List Incident) :
    Answered (past ++ new) id := by
  obtain ⟨before, time, bytes, after, rfl, hm⟩ := h
  exact ⟨before, time, bytes, after ++ new, by simp, List.mem_append_left _ hm⟩

section

variable {ackTimeout : Nat} {given : List Frame} {past : List Incident}

theorem Kept.answered_perform (h : Kept ackTimeout given past s)
    (ha : ∀ id deadline, s.link.stage? id = some (.outstanding deadline (some .acknowledged)) →
      Answered past id) (act : Act) {deadline : Nat}
    (hs : (s.perform act).link.stage? id = some (.outstanding deadline (some .acknowledged))) :
    Answered (past ++ s.incidents act) id := by
  have hbefore : s.link.stage? id = some (.outstanding deadline (some .acknowledged)) →
      Answered (past ++ s.incidents act) id := fun hs => (ha id deadline hs).append _
  cases act with
  | send frame =>
    rw [show (s.perform (.send frame)).link.stage? id = _ from
      Link.stage?_setStage s.link s.nextId (.queued frame) id] at hs
    split at hs
    · exact absurd hs nofun
    · exact hbefore hs
  | turn k =>
    obtain ⟨result, hp, -⟩ := s.turn_cases k
    by_cases hk : id = k
    · -- a turn leaves nobody so that has its own
      subst hk
      generalize (s.perform (.turn id)).link = l' at hp hs
      cases hp with
      | gone hnone => exact absurd (hnone.symm.trans hs) nofun
      | behind hq => exact absurd (hq.symm.trans hs) nofun
      | refused | unheard | passes | settled | expired =>
        rw [Link.stage?_abort, if_pos rfl] at hs
        exact absurd hs nofun
      | writes | waits =>
        rw [Link.stage?_setStage, if_pos rfl] at hs
        exact absurd hs (by simp)
    · exact hbefore ((hp.keeps.2.2 id hk).symm.trans hs)
  | abort k =>
    rw [show (s.perform (.abort k)).link.stage? id = _ from Link.stage?_abort s.link k id] at hs
    split at hs
    · exact absurd hs nofun
    · exact hbefore hs
  | arrive bytes =>
    obtain ⟨n, hseen, -, hstage, -⟩ := arrive_cases h.sound bytes
    rw [hstage] at hs
    split at hs
    · exact hbefore hs
    · next hn =>
      -- it had been told before, or it waits and hears of the acknowledgement that is seen now
      rcases (Verdict.tell_eq_outstanding hs).2 with hs | ⟨-, hs⟩
      · exact hbefore hs
      · obtain ⟨time, x, hm⟩ := h.outstanding id deadline none hs
        obtain ⟨before, after, rfl⟩ := List.append_of_mem hm
        refine ⟨before, time, x, after ++ s.incidents (.arrive bytes), by simp, ?_⟩
        rw [hseen]
        exact List.mem_append_right _ (List.mem_replicate.mpr ⟨hn, rfl⟩)
  | lose | close =>
    have htold := (h.sound.close_stage? id).symm.trans hs
    rcases (Verdict.tell_eq_outstanding htold).2 with hs | ⟨hverdict, -⟩
    · exact hbefore hs
    · exact absurd hverdict (by simp)
  | dropOutlet | elapse | wake | look => exact hbefore hs

theorem answered_run (ackTimeout : Nat) (acts : List Act) {deadline : Nat}
    (hs : ((new ackTimeout).run acts).link.stage? id
      = some (.outstanding deadline (some .acknowledged))) :
    Answered ((new ackTimeout).trace acts) id := by
  induction acts using List.reverseRecOn generalizing id deadline with
  | nil => exact absurd hs nofun
  | append_singleton acts act ih =>
    rw [run_append] at hs
    have hstep := (kept_run ackTimeout acts).answered_perform (fun _ _ h => ih h) act hs
    rw [trace_append]
    simpa [trace] using hstep

theorem Kept.earned (h : Kept ackTimeout given past s)
    (ha : ∀ id deadline, s.link.stage? id = some (.outstanding deadline (some .acknowledged)) →
      Answered past id) {act : Act} (hm : .ended id (.ok ()) ∈ s.incidents act) :
    ∃ before time bytes after, past ++ s.incidents act = before ++ .wrote id time bytes :: after
      ∧ (.matched ∈ after ∨ time + ackTimeout ≤ s.agenda.now) := by
  obtain ⟨rfl, -⟩ := eq_turn_of_ended hm
  obtain ⟨result, hp, hseen⟩ := s.turn_cases id
  -- of the turn of a send one sees what it writes and, once, how it ends
  have hresult : result = some (.ok ()) := by
    rw [hseen] at hm
    rcases List.mem_append.mp hm with hm | hm
    · obtain ⟨_, -, hw⟩ := List.mem_map.mp hm
      cases hw
    · obtain ⟨r, hr, he⟩ := List.mem_map.mp hm
      obtain ⟨-, rfl⟩ := Incident.ended.inj he
      simpa using hr
  generalize (s.perform (.turn id)).link = l' at hp hseen
  have hwrote : ∀ {time bytes}, .wrote id time bytes ∈ past ++ s.incidents (.turn id) →
      time + ackTimeout ≤ s.agenda.now →
      ∃ before time bytes after,
        past ++ s.incidents (.turn id) = before ++ .wrote id time bytes :: after
          ∧ (.matched ∈ after ∨ time + ackTimeout ≤ s.agenda.now) := by
    intro time bytes hm hlate
    obtain ⟨before, after, heq⟩ := List.append_of_mem hm
    exact ⟨before, time, bytes, after, heq, Or.inr hlate⟩
  cases hp with
  | gone | behind | writes | waits => exact absurd hresult nofun
  | refused | unheard => exact absurd hresult (by simp)
  | @passes frame _ _ _ _ hzero =>
    -- it writes and ends in one turn
    have hm : .wrote id s.agenda.now (frame.stamp s.link.packetSeq).encode
        ∈ s.incidents (.turn id) := by
      rw [hseen]
      simp [Link.abort, Link.writing]
    refine hwrote (List.mem_append_right _ hm) ?_
    rw [← h.timeout, hzero, Nat.add_zero]
  | @settled deadline verdict hs =>
    obtain rfl : verdict = .acknowledged := by
      cases verdict with
      | acknowledged => rfl
      | abandoned => exact absurd hresult (by simp [Verdict.result])
    obtain ⟨before, time, bytes, after, heq, hm⟩ := (ha id deadline hs).append (s.incidents (.turn id))
    exact ⟨before, time, bytes, after, heq, Or.inl hm⟩
  | expired hs hlate =>
    obtain ⟨time, bytes, hm⟩ := h.outstanding id _ none hs
    refine hwrote (List.mem_append_left _ hm) ?_
    exact (h.wrote id time bytes hm).2.2 _ none hs ▸ hlate

end

/-- Stop and wait: after some frames were given to a link, and some things were seen of it. -/
structure StopAndWait (ackTimeout : Nat) (given : List Frame) (seen : List Incident)
    (s : Senders) : Prop where
  writes : ∀ before id time bytes after, seen = before ++ .wrote id time bytes :: after →
    Rightful given before id bytes
  queued : ∀ id, (∃ frame, s.link.stage? id = some (.queued frame)) ↔ id < given.length
    ∧ (∀ time bytes, .wrote id time bytes ∉ seen) ∧ ∀ e ∈ seen, e.isEndOf id = false
  outstanding : ∀ id deadline, (∃ verdict, s.link.stage? id = some (.outstanding deadline verdict))
    ↔ (∃ time bytes, .wrote id time bytes ∈ seen ∧ deadline = time + ackTimeout)
      ∧ ∀ e ∈ seen, e.isEndOf id = false
  acknowledged : ∀ id deadline bytes, s.link.stage? id = some (.outstanding deadline none) →
    .matched ∈ s.incidents (.arrive bytes) →
    EndsWith (s.perform (.arrive bytes)) id (.ok ())
      ∧ ∀ k ≠ id, (s.perform (.arrive bytes)).link.stage? k = s.link.stage? k
  /-- Whoever has waited long enough ends as if acknowledged, and its number is not used up. -/
  expired : ∀ id deadline, s.link.stage? id = some (.outstanding deadline none) →
    deadline ≤ s.agenda.now →
    s.incidents (.turn id) = [.ended id (.ok ())]
      ∧ (s.perform (.turn id)).link.packetSeq = s.link.packetSeq
  /-- Where there is no time to wait, this is at once. -/
  instant : ackTimeout = 0 → ∀ id time bytes, .wrote id time bytes ∈ s.incidents (.turn id) →
    s.incidents (.turn id) = [.wrote id time bytes, .ended id (.ok ())]
      ∧ (s.perform (.turn id)).link.packetSeq = s.link.packetSeq
  closed : ∀ act, (act = .close ∨ ∃ cause, act = .lose cause) → ∀ id,
    ((∃ frame, s.link.stage? id = some (.queued frame))
      ∨ ∃ deadline, s.link.stage? id = some (.outstanding deadline none)) →
    EndsWith (s.perform act) id (.error .notConnected)
  earned : ∀ act id, .ended id (.ok ()) ∈ s.incidents act →
    ∃ before time bytes after, seen ++ s.incidents act = before ++ .wrote id time bytes :: after
      ∧ (.matched ∈ after ∨ time + ackTimeout ≤ s.agenda.now)
  told : ∀ id deadline verdict, s.link.stage? id = some (.outstanding deadline (some verdict)) →
    EndsWith s id verdict.result

section

variable {ackTimeout : Nat} {given : List Frame} {past : List Incident}

theorem Kept.queued_iff (h : Kept ackTimeout given past s) (id : TaskId) :
    (∃ frame, s.link.stage? id = some (.queued frame)) ↔ id < given.length
      ∧ (∀ time bytes, .wrote id time bytes ∉ past) ∧ ∀ e ∈ past, e.isEndOf id = false := by
  have hover := h.ended id
  rw [h.count] at hover
  constructor
  · rintro ⟨frame, hs⟩
    refine ⟨h.count ▸ h.known id (by simp [hs]), fun t x hm => (h.wrote id t x hm).2.1 frame hs,
      fun e he => Bool.eq_false_iff.mpr fun hend => ?_⟩
    exact absurd (hs.symm.trans (hover.mp ⟨e, he, hend⟩).2) nofun
  · rintro ⟨hlt, hwrote, hend⟩
    cases hs : s.link.stage? id with
    | none =>
      obtain ⟨e, he, he'⟩ := hover.mpr ⟨hlt, hs⟩
      exact absurd ((hend e he).symm.trans he') Bool.false_ne_true
    | some stage =>
      cases stage with
      | queued frame => exact ⟨frame, rfl⟩
      | outstanding d v =>
        obtain ⟨t, x, hm⟩ := h.outstanding id d v hs
        exact absurd hm (hwrote t x)

theorem Kept.outstanding_iff (h : Kept ackTimeout given past s) (id : TaskId) (deadline : Nat) :
    (∃ verdict, s.link.stage? id = some (.outstanding deadline verdict))
      ↔ (∃ time bytes, .wrote id time bytes ∈ past ∧ deadline = time + ackTimeout)
        ∧ ∀ e ∈ past, e.isEndOf id = false := by
  constructor
  · rintro ⟨verdict, hs⟩
    obtain ⟨t, x, hm⟩ := h.outstanding id deadline verdict hs
    refine ⟨⟨t, x, hm, (h.wrote id t x hm).2.2 deadline verdict hs⟩,
      fun e he => Bool.eq_false_iff.mpr fun hend => ?_⟩
    exact absurd (hs.symm.trans ((h.ended id).mp ⟨e, he, hend⟩).2) nofun
  · rintro ⟨⟨t, x, hm, rfl⟩, hend⟩
    obtain ⟨hlt, hqueued, hdeadline⟩ := h.wrote id t x hm
    cases hs : s.link.stage? id with
    | none =>
      obtain ⟨e, he, he'⟩ := (h.ended id).mpr ⟨hlt, hs⟩
      exact absurd ((hend e he).symm.trans he') Bool.false_ne_true
    | some stage =>
      cases stage with
      | queued frame => exact absurd hs (hqueued frame)
      | outstanding d v => exact ⟨v, hdeadline d v hs ▸ rfl⟩

theorem Kept.acknowledged (h : Kept ackTimeout given past s) {deadline : Nat} {bytes : List UInt8}
    (hs : s.link.stage? id = some (.outstanding deadline none))
    (hm : .matched ∈ s.incidents (.arrive bytes)) :
    EndsWith (s.perform (.arrive bytes)) id (.ok ())
      ∧ ∀ k ≠ id, (s.perform (.arrive bytes)).link.stage? k = s.link.stage? k := by
  obtain ⟨n, hseen, -, hstage, -⟩ := arrive_cases h.sound bytes
  have hn : n ≠ 0 := by
    rintro rfl
    exact absurd (hseen ▸ hm) List.not_mem_nil
  have htold : (s.perform (.arrive bytes)).link.stage? id
      = some (.outstanding deadline (some .acknowledged)) := by
    rw [hstage, if_neg hn, hs]
    rfl
  refine ⟨(h.perform (.arrive bytes)).endsWith_told htold, fun k hk => ?_⟩
  rw [hstage, if_neg hn, Verdict.tell_of_not_waiting]
  exact fun d hd => hk (h.sound.outstanding_unique hd hs)

theorem expired_turn {deadline : Nat}
    (hs : s.link.stage? id = some (.outstanding deadline none)) (hd : deadline ≤ s.agenda.now) :
    s.incidents (.turn id) = [.ended id (.ok ())]
      ∧ (s.perform (.turn id)).link.packetSeq = s.link.packetSeq := by
  obtain ⟨r, hp, hseen⟩ := s.turn_cases id
  generalize (s.perform (.turn id)).link = l' at hp hseen
  cases hp with
  | expired => exact ⟨by simpa [Link.abort] using hseen, rfl⟩
  | waits hs' hd' =>
    obtain ⟨rfl, -⟩ := SendStage.outstanding.inj (Option.some.inj (hs.symm.trans hs'))
    exact absurd hd (Nat.not_le.mpr hd')
  | _ => simp_all

theorem Kept.instant (h : Kept 0 given past s) {time : Nat} {bytes : List UInt8}
    (hm : .wrote id time bytes ∈ s.incidents (.turn id)) :
    s.incidents (.turn id) = [.wrote id time bytes, .ended id (.ok ())]
      ∧ (s.perform (.turn id)).link.packetSeq = s.link.packetSeq := by
  obtain ⟨frame, rest, -, -, -, -, hseen, -, hzero⟩ := wrote_of_mem_incidents hm
  obtain ⟨r, hp, -⟩ := s.turn_cases id
  exact ⟨hseen.trans (congrArg _ (hzero h.timeout)), hp.keeps.2.1⟩

theorem Kept.closed (h : Kept ackTimeout given past s) {act : Act}
    (hact : act = .close ∨ ∃ cause, act = .lose cause)
    (hs : (∃ frame, s.link.stage? id = some (.queued frame))
      ∨ ∃ deadline, s.link.stage? id = some (.outstanding deadline none)) :
    EndsWith (s.perform act) id (.error .notConnected) := by
  have hlink : (s.perform act).link = s.link.close := by
    rcases hact with rfl | ⟨cause, rfl⟩ <;> rfl
  have hclosed : (s.perform act).link.closed = true := hlink ▸ rfl
  refine (h.perform act).endsWith_closed hclosed ?_
  have hstage := h.sound.close_stage? id
  rw [hlink]
  rcases hs with ⟨frame, hs⟩ | ⟨deadline, hs⟩
  · exact .refused rfl (hstage.trans (Verdict.tell_eq_queued.mpr hs))
  · have htold : s.link.close.stage? id = some (.outstanding deadline (some .abandoned)) := by
      rw [hstage, hs]
      rfl
    exact .told htold

end

/-- Stop and wait, for any acts in any order. -/
theorem stop_and_wait (ackTimeout : Nat) (acts : List Act) :
    StopAndWait ackTimeout (given acts) ((new ackTimeout).trace acts)
      ((new ackTimeout).run acts) := by
  have hkept := kept_run ackTimeout acts
  exact {
    writes := fun before id time bytes after h => rightful_run ackTimeout acts h
    queued := hkept.queued_iff
    outstanding := hkept.outstanding_iff
    acknowledged := fun id deadline bytes hs hm => hkept.acknowledged hs hm
    expired := fun id deadline hs hd => expired_turn hs hd
    instant := fun ht id time bytes hm => by
      subst ht
      exact hkept.instant hm
    closed := fun act hact id hs => hkept.closed hact hs
    earned := fun act id hm => hkept.earned (fun _ _ hs => answered_run ackTimeout acts hs) hm
    told := fun id deadline verdict hs => hkept.endsWith_told hs }

end NcpHost.Senders
