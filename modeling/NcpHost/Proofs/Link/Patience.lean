import NcpHost.Proofs.Link.Traffic

/-! A link whose sends wait until they are told. Where nobody stops waiting and nobody is given up, a
send that does not wait any more has had its acknowledgement, so there is one between any two frames
and tallies grow from frame to frame. Once no tally is left out either, the frames are numbered through. -/

namespace NcpHost.Senders

/-- Every send that has written waits, or an acknowledgement has counted since; and whoever has ended
has written. -/
structure Patient (seen : List Incident) (s : Senders) : Prop where
  answered : ∀ before id time bytes after, seen = before ++ .wrote id time bytes :: after →
    (∃ deadline, s.link.stage? id = some (.outstanding deadline none)) ∨ .matched ∈ after
  rising : (tallies 0 seen).Pairwise (· < ·)
  ended : ∀ id result, .ended id result ∈ seen → ∃ time bytes, .wrote id time bytes ∈ seen

theorem patient_new (ackTimeout : Nat) : Patient [] (new ackTimeout) :=
  ⟨fun _ _ _ _ _ h => absurd h (by simp), List.Pairwise.nil, fun _ _ h => absurd h List.not_mem_nil⟩

section

variable {ackTimeout : Nat} {given : List Frame} {past new : List Incident} {s s' : Senders}

theorem Patient.told (h : Patient past s)
    (hnew : ∀ e ∈ new, e = .matched ∨ ∃ id result, e = .ended id result
      ∧ ∃ time bytes, .wrote id time bytes ∈ past)
    (hstage : .matched ∈ new ∨ ∀ k deadline, s.link.stage? k = some (.outstanding deadline none) →
      s'.link.stage? k = some (.outstanding deadline none)) :
    Patient (past ++ new) s' := by
  have hwrote : ∀ {k t x}, Incident.wrote k t x ∉ new := by
    intro k t x hm
    rcases hnew _ hm with he | ⟨i, r, he, -⟩ <;> exact absurd he nofun
  refine ⟨fun before id time bytes after heq => ?_, ?_, fun id result hm => ?_⟩
  · obtain ⟨rest, hpast, rfl⟩ := split_of_not_mem heq hwrote
    rcases h.answered before id time bytes rest hpast with ⟨deadline, hs⟩ | hm
    · rcases hstage with hm | hstage
      · exact Or.inr (List.mem_append_right _ hm)
      · exact Or.inl ⟨deadline, hstage id deadline hs⟩
    · exact Or.inr (List.mem_append_left _ hm)
  · have hnone : tallies (0 + past.countP Incident.isMatch) new = [] := by
      refine List.eq_nil_iff_forall_not_mem.mpr fun m hm => ?_
      obtain ⟨before, id, time, bytes, after, hsplit, -⟩ := mem_tallies.mp hm
      exact absurd (hsplit ▸ List.mem_append_right _ List.mem_cons_self) hwrote
    rw [tallies_append, hnone, List.append_nil]
    exact h.rising
  · rcases List.mem_append.mp hm with hm | hm
    · obtain ⟨t, x, hw⟩ := h.ended id result hm
      exact ⟨t, x, List.mem_append_left _ hw⟩
    · rcases hnew _ hm with he | ⟨k, r, he, t, x, hw⟩
      · exact absurd he nofun
      · obtain ⟨rfl, -⟩ := Incident.ended.inj he
        exact ⟨t, x, List.mem_append_left _ hw⟩

theorem Patient.still (h : Patient past s) (hnil : new = [])
    (hstage : ∀ k deadline, s.link.stage? k = some (.outstanding deadline none) →
      s'.link.stage? k = some (.outstanding deadline none)) :
    Patient (past ++ new) s' := by
  subst hnil
  exact h.told (fun e he => absurd he List.not_mem_nil) (Or.inr hstage)

theorem lt_of_matched_mem {seen before after : List Incident} {e : Incident}
    (hseen : seen = before ++ e :: after) (hm : .matched ∈ after) :
    before.countP Incident.isMatch < seen.countP Incident.isMatch := by
  have hpos : 0 < after.countP Incident.isMatch := List.countP_pos_iff.mpr ⟨_, hm, rfl⟩
  rw [hseen, List.countP_append, List.countP_cons]
  omega

theorem Patient.write (h : Patient past s) {id : TaskId} {time : Nat} {bytes : List UInt8}
    (hnobody : ∀ k deadline, s.link.stage? k ≠ some (.outstanding deadline none))
    (hwaits : ∃ deadline, s'.link.stage? id = some (.outstanding deadline none)) :
    Patient (past ++ [.wrote id time bytes]) s' := by
  have hmatched : ∀ before k t x after, past = before ++ .wrote k t x :: after → .matched ∈ after := by
    intro before k t x after hpast
    rcases h.answered before k t x after hpast with ⟨d, hs⟩ | hm
    · exact absurd hs (hnobody k d)
    · exact hm
  refine ⟨fun before k t x after heq => ?_, ?_, fun k result hm => ?_⟩
  · rcases append_eq_split heq with ⟨rest, hpast, rfl⟩ | ⟨front, -, hfront⟩
    · exact Or.inr (List.mem_append_left _ (hmatched before k t x rest hpast))
    · have hm : Incident.wrote k t x ∈ [Incident.wrote id time bytes] :=
        hfront ▸ List.mem_append_right _ List.mem_cons_self
      obtain ⟨rfl, -, -⟩ := Incident.wrote.inj (List.mem_singleton.mp hm)
      exact Or.inl hwaits
  · rw [tallies_append]
    refine List.pairwise_append.mpr ⟨h.rising, List.pairwise_singleton _ _, fun m hm n hn => ?_⟩
    obtain ⟨before, k, t, x, after, hpast, rfl⟩ := mem_tallies.mp hm
    have hlt := lt_of_matched_mem hpast (hmatched before k t x after hpast)
    rw [List.mem_singleton.mp hn, Nat.zero_add, Nat.zero_add]
    exact hlt
  · rcases List.mem_append.mp hm with hm | hm
    · obtain ⟨t, x, hw⟩ := h.ended k result hm
      exact ⟨t, x, List.mem_append_left _ hw⟩
    · exact absurd (List.mem_singleton.mp hm) nofun

theorem Patient.turn (h : Patient past s) (hk : Kept ackTimeout given past s) (hup : s.link.Up)
    {id : TaskId} (hwait : s.unansweredBy (.turn id) = []) :
    Patient (past ++ s.incidents (.turn id)) (s.perform (.turn id)) := by
  have hp := s.link.proceeds id s.agenda.now
  have hlink := (s.perform_turn id).1
  have hseen := s.incidents_turn id
  rw [unansweredBy] at hwait
  generalize s.link.proceed id s.agenda.now = outcome at hp hlink hseen hwait
  obtain ⟨l', result⟩ := outcome
  dsimp only at hp hlink hseen hwait
  -- an end that nobody acknowledged is excluded, so whoever ends has been told
  cases hp with
  | gone | behind => exact h.still (by simpa using hseen) fun k d hs => hlink ▸ hs
  | @waits deadline hs _ =>
    refine h.still (by simpa [Link.setStage] using hseen) fun k d hk' => ?_
    rw [hlink, Link.stage?_setStage]
    split
    · next he => exact hs.symm.trans (he ▸ hk')
    · exact hk'
  | refused _ _ hc => exact absurd (hup.opened.symm.trans hc) Bool.false_ne_true
  | unheard _ _ _ ho => exact absurd (ho.symm.trans hup.outlet) Bool.false_ne_true
  | passes hs | expired hs => simp [hs] at hwait
  | @settled deadline verdict hs =>
    have hone : s.incidents (.turn id) = [.ended id verdict.result] := by
      simpa [Link.abort] using hseen
    rw [hone]
    refine h.told (fun e he => Or.inr ⟨id, _, List.mem_singleton.mp he, hk.outstanding id deadline _ hs⟩)
      (Or.inr fun k d hk' => ?_)
    have hne : k ≠ id := by
      rintro rfl
      exact absurd (hs.symm.trans hk') (by simp)
    rw [hlink]
    exact (Link.stage?_abort s.link id k).trans ((if_neg hne).trans hk')
  | @writes frame hs hh _ _ _ =>
    have hone : s.incidents (.turn id)
        = [.wrote id s.agenda.now (frame.stamp s.link.packetSeq).encode] := by
      simpa [Link.setStage, Link.writing] using hseen
    rw [hone]
    have hwaits : (s.perform (.turn id)).link.stage? id
        = some (.outstanding (s.agenda.now + s.link.ackTimeout) none) := by
      rw [hlink, Link.stage?_setStage, if_pos rfl]
    exact h.write (fun k d => hk.sound.not_outstanding hs hh k d none) ⟨_, hwaits⟩

theorem Patient.perform (h : Patient past s) (hk : Kept ackTimeout given past s) (hup : s.link.Up)
    {act : Act} (hm : act.isMild = true) (hwait : s.unansweredBy act = [])
    (hstay : ∀ id, .abandoned id ∉ s.incidents act) :
    Patient (past ++ s.incidents act) (s.perform act) := by
  cases act with
  | send frame =>
    refine h.still rfl fun k d hs => ?_
    have hne : k ≠ s.nextId := Nat.ne_of_lt (hk.known k (by simp [hs]))
    exact (Link.stage?_setStage s.link s.nextId _ k).trans ((if_neg hne).trans hs)
  | abort id =>
    cases hid : s.link.stage? id with
    | some stage =>
      refine absurd ?_ (hstay id)
      rw [incidents, hid]
      exact List.mem_cons_self
    | none =>
      refine h.still (by rw [incidents, hid]; rfl) fun k d hs => ?_
      have hne : k ≠ id := by
        rintro rfl
        simp [hid] at hs
      exact (Link.stage?_abort s.link id k).trans ((if_neg hne).trans hs)
  | arrive bytes =>
    obtain ⟨n, hseen, -, hstage, -⟩ := arrive_cases hk.sound bytes
    cases n with
    | zero => exact h.still hseen fun k d hs => (hstage k).trans hs
    | succ n =>
      rw [hseen]
      exact h.told (fun e he => Or.inl (List.eq_of_mem_replicate he))
        (Or.inl (List.mem_replicate.mpr ⟨Nat.succ_ne_zero n, rfl⟩))
  | turn id => exact h.turn hk hup hwait
  | lose | close | dropOutlet => exact absurd hm Bool.false_ne_true
  | elapse | wake | look => exact h.still rfl fun k d hs => hs

end

section

variable {ackTimeout : Nat} {acts : List Act}

theorem up_run (hm : ∀ act ∈ acts, act.isMild = true) : ((new ackTimeout).run acts).link.Up := by
  induction acts using List.reverseRecOn with
  | nil => exact Link.up_new ackTimeout
  | append_singleton acts act ih =>
    rw [run_append]
    exact up_perform (ih fun a ha => hm a (List.mem_append_left _ ha)) (hm act (by simp))

theorem patient_run (hm : ∀ act ∈ acts, act.isMild = true)
    (hwait : (new ackTimeout).collect unansweredBy acts = [])
    (hstay : ∀ id, .abandoned id ∉ (new ackTimeout).trace acts) :
    Patient ((new ackTimeout).trace acts) ((new ackTimeout).run acts) := by
  induction acts using List.reverseRecOn with
  | nil => exact patient_new ackTimeout
  | append_singleton acts act ih =>
    have hbefore : ∀ a ∈ acts, a.isMild = true := fun a ha => hm a (List.mem_append_left _ ha)
    rw [collect_append, List.append_eq_nil_iff] at hwait
    rw [trace_append] at hstay
    have hpatient := ih hbefore hwait.1 fun id ha => hstay id (List.mem_append_left _ ha)
    rw [trace_append, run_append, trace, trace, List.append_nil]
    refine hpatient.perform (kept_run ackTimeout acts) (up_run hbefore) (hm act (by simp)) ?_ ?_
    · simpa [collect] using hwait.2
    · exact fun id ha => hstay id (List.mem_append_right _ (by simpa [trace] using ha))

end

theorem eq_range_of_rising {ms : List Nat} (hms : ms.Pairwise (· < ·))
    (hdown : ∀ m ∈ ms, ∀ i < m, i ∈ ms) : ms = List.range ms.length := by
  induction ms using List.reverseRecOn with
  | nil => rfl
  | append_singleton ks m ih =>
    obtain ⟨hks, -, hlast⟩ := List.pairwise_append.mp hms
    have hbelow : ∀ k ∈ ks, k < m := fun k hk => hlast k hk m (List.mem_singleton.mpr rfl)
    -- all below the last one are in front of it
    have hin : ∀ i < m, i ∈ ks := by
      intro i hi
      rcases List.mem_append.mp (hdown m (by simp) i hi) with hm | hm
      · exact hm
      · exact absurd (List.mem_singleton.mp hm) (Nat.ne_of_lt hi)
    have hrange := ih hks fun k hk i hi => hin i (hi.trans (hbelow k hk))
    have hlow : m ≤ ks.length := by
      refine Nat.le_of_not_lt fun hlt => ?_
      have hm := hin ks.length hlt
      rw [hrange] at hm
      simp at hm
    have hhigh : ks.length ≤ m := by
      rcases Nat.eq_zero_or_pos ks.length with hzero | hpos
      · omega
      · have hm : ks.length - 1 ∈ ks := by
          rw [hrange, List.mem_range, List.length_range]
          omega
        have := hbelow _ hm
        omega
    obtain rfl : m = ks.length := Nat.le_antisymm hlow hhigh
    rw [List.length_append, List.length_singleton, List.range_succ, ← hrange]

theorem length_tallies (n : Nat) (seen : List Incident) :
    (tallies n seen).length = (writtenSeqs seen).length := by
  induction seen generalizing n with
  | nil => rfl
  | cons e rest ih => cases e <;> simp [tallies, writtenSeqs, ih]

section

variable {ackTimeout : Nat} {given : List Frame} {seen : List Incident} {s : Senders}

theorem Patient.tallies_eq (h : Patient seen s)
    (hall : ∀ i < seen.countP Incident.isMatch, i ∈ tallies 0 seen) :
    tallies 0 seen = List.range (tallies 0 seen).length :=
  eq_range_of_rising h.rising fun _ hm i hi => hall i (hi.trans_le (le_of_mem_tallies hm))

theorem Patient.written_of_ended (h : Patient seen s) (hk : Kept ackTimeout given seen s)
    (hstamped : Stamped given seen)
    (hall : ∀ i < seen.countP Incident.isMatch, i ∈ tallies 0 seen) {id : TaskId}
    {result : Except Fault Unit} (hended : .ended id result ∈ seen) :
    ∃ i f, (writes given seen)[i]? = some (id, f) ∧ i < seen.countP Incident.isMatch := by
  obtain ⟨time, bytes, hwrote⟩ := h.ended id result hended
  obtain ⟨frame, hgiven, -⟩ := hstamped id time bytes hwrote
  obtain ⟨before, after, rfl⟩ := List.append_of_mem hwrote
  have hgone : s.link.stage? id = none :=
    ((hk.ended id).mp ⟨_, hended, by simp [Incident.isEndOf]⟩).2
  have hmatched : .matched ∈ after := by
    rcases h.answered before id time bytes after rfl with ⟨d, hs⟩ | hm
    · simp [hgone] at hs
    · exact hm
  have hlength : (writes given before).length = (tallies 0 before).length := by
    have hbefore := hstamped.mono (List.subset_append_left before _)
    rw [length_tallies, ← hbefore.seqs_writes, List.length_map]
  have hplace : (tallies 0 before).length = before.countP Incident.isMatch := by
    have hsplit : tallies 0 (before ++ .wrote id time bytes :: after) = tallies 0 before
        ++ before.countP Incident.isMatch :: tallies (before.countP Incident.isMatch) after := by
      rw [tallies_append, Nat.zero_add]
      rfl
    have heq := congrArg (·[(tallies 0 before).length]?) (h.tallies_eq hall)
    simpa [hsplit] using heq.symm
  refine ⟨(writes given before).length, frame.stamp (carried bytes), ?_, ?_⟩
  · rw [writes, List.filterMap_append, List.filterMap_cons]
    simp [hgiven, writes]
  · rw [hlength, hplace]
    exact lt_of_matched_mem rfl hmatched

end

end NcpHost.Senders
