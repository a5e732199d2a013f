import NcpHost.Proofs.Link.Queue

/-! The sends at a link, at any time of its life: open or closed, with sends that were given up. Whoever
has written a frame holds the send lock, and the acknowledgement that the link waits for is the one
that this send waits for. Going on with a send is one of a few things, and each keeps this. -/

namespace NcpHost

namespace FairLock

theorem mem_line_join {l : FairLock} (h : l.Fair) {id k : TaskId} :
    k ∈ (l.join id).line ↔ k ∈ l.line ∨ k = id := by
  rw [line_join l id h, List.mem_append, List.mem_singleton]

theorem mem_line_leave {l : FairLock} (h : l.line.Nodup) {id k : TaskId} :
    k ∈ (l.leave id).line ↔ k ∈ l.line ∧ k ≠ id := by
  rw [line_leave l id h, List.mem_filter, bne_iff_ne]

theorem nodup_join {l : FairLock} (hf : l.Fair) (h : l.line.Nodup) {id : TaskId}
    (hid : id ∉ l.line) : (l.join id).line.Nodup := by
  rw [line_join l id hf]
  exact Session.Wire.nodup_concat h hid

theorem nodup_leave {l : FairLock} (h : l.line.Nodup) (id : TaskId) : (l.leave id).line.Nodup := by
  rw [line_leave l id h]
  exact h.filter _

theorem holder_join {l : FairLock} {k : TaskId} (h : l.holder = some k) (id : TaskId) :
    (l.join id).holder = some k := by
  unfold join
  rw [h]

theorem holder_leave {l : FairLock} {id k : TaskId} (h : l.holder = some k) (hk : k ≠ id) :
    (l.leave id).holder = some k := by
  unfold leave
  rw [h, if_neg fun e => hk (Option.some.inj e)]

theorem mem_line_of_holder {l : FairLock} {id : TaskId} (h : l.holder = some id) : id ∈ l.line := by
  rw [line, h]
  exact List.mem_cons_self

theorem Fair.holds_iff {l : FairLock} (h : l.Fair) {id : TaskId} :
    l.holds id = true ↔ l.line.head? = some id := by
  rw [holds, h.holder_eq, beq_iff_eq]

end FairLock

namespace Verdict

def result : Verdict → Except Fault Unit
  | acknowledged => .ok ()
  | abandoned => .error .notConnected

def tell (verdict : Verdict) : Option SendStage → Option SendStage
  | some (.outstanding deadline none) => some (.outstanding deadline (some verdict))
  | stage => stage

theorem tell_of_not_waiting {verdict : Verdict} {stage : Option SendStage}
    (h : ∀ deadline, stage ≠ some (.outstanding deadline none)) : verdict.tell stage = stage := by
  unfold tell
  split
  · next deadline => exact absurd rfl (h deadline)
  · rfl

theorem tell_eq_none {verdict : Verdict} {stage : Option SendStage} :
    verdict.tell stage = none ↔ stage = none := by
  unfold tell
  split <;> simp

theorem tell_eq_queued {verdict : Verdict} {stage : Option SendStage} {frame : Frame} :
    verdict.tell stage = some (.queued frame) ↔ stage = some (.queued frame) := by
  unfold tell
  split <;> simp

theorem tell_eq_outstanding {verdict : Verdict} {stage : Option SendStage} {deadline : Nat}
    {told : Option Verdict} (h : verdict.tell stage = some (.outstanding deadline told)) :
    told ≠ none ∧ (stage = some (.outstanding deadline told)
      ∨ told = some verdict ∧ stage = some (.outstanding deadline none)) := by
  unfold tell at h
  split at h
  · obtain ⟨rfl, rfl⟩ := SendStage.outstanding.inj (Option.some.inj h)
    exact ⟨nofun, Or.inr ⟨rfl, rfl⟩⟩
  · next hne =>
    refine ⟨?_, Or.inl h⟩
    rintro rfl
    exact hne deadline h

end Verdict

namespace Link

def writing (l : Link) (id : TaskId) (frame : Frame) : Link :=
  { l with waiter := some id, outgoing := l.outgoing ++ [(frame.stamp l.packetSeq).encode] }

/-- Going on with a send: it is behind others, it cannot write, it writes and waits, or the wait is
over. -/
inductive Proceeds (l : Link) (id : TaskId) (now : Nat) :
    Link → Option (Except Fault Unit) → Prop where
  | gone : l.stage? id = none → Proceeds l id now l none
  | behind {frame : Frame} : l.stage? id = some (.queued frame) → l.sendLock.holds id = false →
    Proceeds l id now l none
  | refused {frame : Frame} : l.stage? id = some (.queued frame) → l.sendLock.holds id = true →
    l.closed = true → Proceeds l id now (l.abort id) (some (.error .notConnected))
  | unheard {frame : Frame} : l.stage? id = some (.queued frame) → l.sendLock.holds id = true →
    l.closed = false → l.outlet = false →
    Proceeds l id now ({ l with waiter := some id }.abort id) (some (.error .notConnected))
  | writes {frame : Frame} : l.stage? id = some (.queued frame) → l.sendLock.holds id = true →
    l.closed = false → l.outlet = true → 0 < l.ackTimeout →
    Proceeds l id now
      ((l.writing id frame).setStage id (.outstanding (now + l.ackTimeout) none)) none
  | passes {frame : Frame} : l.stage? id = some (.queued frame) → l.sendLock.holds id = true →
    l.closed = false → l.outlet = true → l.ackTimeout = 0 →
    Proceeds l id now ({ l.writing id frame with waiter := none }.abort id) (some (.ok ()))
  | settled {deadline : Nat} {verdict : Verdict} :
    l.stage? id = some (.outstanding deadline (some verdict)) →
    Proceeds l id now (l.abort id) (some verdict.result)
  | expired {deadline : Nat} : l.stage? id = some (.outstanding deadline none) → deadline ≤ now →
    Proceeds l id now ({ l with waiter := none }.abort id) (some (.ok ()))
  | waits {deadline : Nat} : l.stage? id = some (.outstanding deadline none) → now < deadline →
    Proceeds l id now (l.setStage id (.outstanding deadline none)) none

theorem proceeds_transmit {l : Link} {id : TaskId} {frame : Frame}
    (hs : l.stage? id = some (.queued frame)) (hh : l.sendLock.holds id = true)
    (hc : l.closed = false) (now : Nat) :
    l.Proceeds id now (l.transmit id now frame).1 (l.transmit id now frame).2 := by
  cases ho : l.outlet with
  | false =>
    have hfails : l.transmit id now frame
        = ({ l with waiter := some id }.abort id, some (.error .notConnected)) := by
      simp [transmit, write, ho]
    rw [hfails]
    exact .unheard hs hh hc ho
  | true =>
    have hwrites : l.transmit id now frame
        = (l.writing id frame).proceedOutstanding id now (now + l.ackTimeout) none := by
      simp [transmit, write, writing, ho]
    rw [hwrites, proceedOutstanding]
    by_cases ht : l.ackTimeout = 0
    · rw [if_pos (by omega)]
      exact .passes hs hh hc ho ht
    · rw [if_neg (by omega)]
      exact .writes hs hh hc ho (Nat.pos_of_ne_zero ht)

theorem proceeds (l : Link) (id : TaskId) (now : Nat) :
    l.Proceeds id now (l.proceed id now).1 (l.proceed id now).2 := by
  unfold proceed
  cases hs : l.stage? id with
  | none => exact .gone hs
  | some stage =>
    cases stage with
    | queued frame =>
      dsimp only
      cases hh : l.sendLock.holds id with
      | false => exact .behind hs hh
      | true =>
        cases hc : l.closed with
        | true => exact .refused hs hh hc
        | false => exact proceeds_transmit hs hh hc now
    | outstanding deadline verdict =>
      dsimp only
      cases verdict with
      | some v => cases v <;> exact .settled hs
      | none =>
        rw [proceedOutstanding]
        by_cases hd : deadline ≤ now
        · rw [if_pos hd]
          exact .expired hs hd
        · rw [if_neg hd]
          exact .waits hs (by omega)

theorem Proceeds.keeps {l l' : Link} {id : TaskId} {now : Nat}
    {result : Option (Except Fault Unit)} (h : l.Proceeds id now l' result) :
    l'.closed = l.closed ∧ l'.packetSeq = l.packetSeq ∧ ∀ k ≠ id, l'.stage? k = l.stage? k := by
  cases h with
  | gone | behind => exact ⟨rfl, rfl, fun _ _ => rfl⟩
  | refused | settled =>
    exact ⟨rfl, rfl, fun k hk => (stage?_abort l id k).trans (if_neg hk)⟩
  | unheard | passes | expired =>
    exact ⟨rfl, rfl, fun k hk => (stage?_abort _ id k).trans (if_neg hk)⟩
  | writes | waits =>
    exact ⟨rfl, rfl, fun k hk => (stage?_setStage _ id _ k).trans (if_neg hk)⟩

theorem Proceeds.stays {l l' : Link} {id : TaskId} {now : Nat} (h : l.Proceeds id now l' none) :
    l'.sendLock = l.sendLock := by
  cases h <;> rfl

theorem Proceeds.leaves {l l' : Link} {id : TaskId} {now : Nat} {result : Except Fault Unit}
    (h : l.Proceeds id now l' (some result)) : l'.sendLock = l.sendLock.leave id := by
  cases h <;> rfl

theorem Proceeds.outlet {l l' : Link} {id : TaskId} {now : Nat}
    {result : Option (Except Fault Unit)} (h : l.Proceeds id now l' result) :
    l'.outlet = l.outlet := by
  cases h <;> rfl

theorem Proceeds.silent {l l' : Link} {id : TaskId} {now : Nat}
    {result : Option (Except Fault Unit)} (h : l.Proceeds id now l' result)
    (hc : l.closed = true) : l'.outgoing = l.outgoing := by
  cases h with
  | gone | behind | refused | settled | expired | waits => rfl
  | unheard _ _ hopen | writes _ _ hopen | passes _ _ hopen => exact absurd (hc.symm.trans hopen) nofun

theorem Proceeds.error {l l' : Link} {id : TaskId} {now : Nat} {cause : Fault}
    (h : l.Proceeds id now l' (some (.error cause))) : cause = .notConnected := by
  generalize hresult : some (Except.error cause) = result at h
  cases h with
  | gone | behind | writes | passes | expired | waits => exact absurd hresult nofun
  | refused | unheard => exact Except.error.inj (Option.some.inj hresult)
  | @settled _ verdict =>
    cases verdict with
    | acknowledged => exact absurd hresult nofun
    | abandoned => exact Except.error.inj (Option.some.inj hresult)

/-- Everybody who sends stands in line, whoever has written holds the lock, and an acknowledgement
ends the send that waits for it. The sends at a closed link know that it is closed. -/
structure Sound (l : Link) : Prop where
  fair : l.sendLock.Fair
  nodup : l.sendLock.line.Nodup
  standing : ∀ id, id ∈ l.sendLock.line ↔ l.stage? id ≠ none
  holder : ∀ id deadline verdict, l.stage? id = some (.outstanding deadline verdict) →
    l.sendLock.holder = some id
  waiter : ∀ id deadline, l.stage? id = some (.outstanding deadline none) → l.waiter = some id
  settled : l.closed = true → l.waiter = none
  awaited : l.closed = false → ∀ id deadline,
    l.stage? id ≠ some (.outstanding deadline (some .abandoned))

theorem sound_new (ackTimeout : Nat) : (new ackTimeout).Sound :=
  ⟨fun _ => rfl, List.nodup_nil, fun _ => ⟨fun h => absurd h List.not_mem_nil, fun h => absurd rfl h⟩,
    fun _ _ _ h => absurd h nofun, fun _ _ h => absurd h nofun, fun h => absurd h nofun,
    fun _ _ _ => nofun⟩

section

variable {l l' : Link}

theorem Sound.congr (h : l.Sound) (hs : l'.sends = l.sends) (hk : l'.sendLock = l.sendLock)
    (hw : l'.waiter = l.waiter) (hc : l'.closed = l.closed) : l'.Sound := by
  have hstage : ∀ id, l'.stage? id = l.stage? id := fun id => by rw [stage?, hs, stage?]
  refine ⟨hk ▸ h.fair, hk ▸ h.nodup, fun id => ?_, fun id d v hid => ?_, fun id d hid => ?_,
    fun hcl => ?_, fun hcl id d hid => ?_⟩
  · rw [hk, hstage]
    exact h.standing id
  · rw [hk]
    exact h.holder id d v (hstage id ▸ hid)
  · rw [hw]
    exact h.waiter id d (hstage id ▸ hid)
  · rw [hw]
    exact h.settled (hc ▸ hcl)
  · exact h.awaited (hc ▸ hcl) id d (hstage id ▸ hid)

theorem Sound.outstanding_unique (h : l.Sound) {i j : TaskId} {d d' : Nat} {v v' : Option Verdict}
    (hi : l.stage? i = some (.outstanding d v)) (hj : l.stage? j = some (.outstanding d' v')) :
    i = j :=
  Option.some.inj ((h.holder i d v hi).symm.trans (h.holder j d' v' hj))

theorem Sound.not_outstanding (h : l.Sound) {id : TaskId} {frame : Frame}
    (hs : l.stage? id = some (.queued frame)) (hh : l.sendLock.holds id = true) (k : TaskId)
    (d : Nat) (v : Option Verdict) : l.stage? k ≠ some (.outstanding d v) := by
  intro hk
  obtain rfl : k = id := Option.some.inj ((h.holder k d v hk).symm.trans (beq_iff_eq.mp hh))
  exact absurd (hs.symm.trans hk) nofun

theorem Sound.behind (h : l.Sound) {id : TaskId} (hh : l.sendLock.holds id = false) {now : Nat}
    {l' : Link} {result : Option (Except Fault Unit)} (hp : l.Proceeds id now l' result) :
    l' = l ∧ result = none := by
  have hout : ∀ d v, l.stage? id ≠ some (.outstanding d v) := fun d v hs =>
    absurd (hh.symm.trans (beq_iff_eq.mpr (h.holder id d v hs))) Bool.false_ne_true
  cases hp with
  | gone | behind => exact ⟨rfl, rfl⟩
  | refused _ hheld | unheard _ hheld | writes _ hheld | passes _ hheld =>
    exact absurd (hh.symm.trans hheld) Bool.false_ne_true
  | settled hs | expired hs | waits hs => exact absurd hs (hout _ _)

theorem Sound.enter (h : l.Sound) {id : TaskId} (hid : id ∉ l.sendLock.line) (frame : Frame) :
    (l.enter id frame).Sound := by
  have hstage : ∀ k, (l.enter id frame).stage? k
      = if k = id then some (.queued frame) else l.stage? k :=
    fun k => stage?_setStage l id (.queued frame) k
  have hold : ∀ {k d v}, (l.enter id frame).stage? k = some (.outstanding d v) →
      l.stage? k = some (.outstanding d v) := by
    intro k d v hk
    rw [hstage] at hk
    split at hk
    · exact absurd hk nofun
    · exact hk
  refine ⟨FairLock.fair_join _ _, FairLock.nodup_join h.fair h.nodup hid, fun k => ?_,
    fun k d v hk => FairLock.holder_join (h.holder k d v (hold hk)) id,
    fun k d hk => h.waiter k d (hold hk), h.settled, fun hc k d hk => h.awaited hc k d (hold hk)⟩
  rw [hstage]
  refine (FairLock.mem_line_join h.fair).trans ?_
  by_cases hk : k = id
  · simp [hk]
  · simp [hk, h.standing]

theorem Sound.abort (h : l.Sound) (id : TaskId) : (l.abort id).Sound := by
  have hold : ∀ {k s}, (l.abort id).stage? k = some s → k ≠ id ∧ l.stage? k = some s := by
    intro k s hk
    rw [stage?_abort] at hk
    split at hk
    · exact absurd hk nofun
    · next hne => exact ⟨hne, hk⟩
  refine ⟨h.fair.leave id, FairLock.nodup_leave h.nodup id, fun k => ?_,
    fun k d v hk => FairLock.holder_leave (h.holder k d v (hold hk).2) (hold hk).1,
    fun k d hk => h.waiter k d (hold hk).2, h.settled,
    fun hc k d hk => h.awaited hc k d (hold hk).2⟩
  rw [stage?_abort]
  refine (FairLock.mem_line_leave h.nodup).trans ?_
  by_cases hk : k = id
  · simp [hk]
  · simp [hk, h.standing]

theorem Sound.abort_waiter (h : l.Sound) {id : TaskId}
    (hothers : ∀ k ≠ id, ∀ d, l.stage? k ≠ some (.outstanding d none)) (waiter : Option TaskId)
    (hc : l.closed = true → waiter = none) : ({ l with waiter := waiter }.abort id).Sound := by
  have habort := h.abort id
  refine ⟨habort.fair, habort.nodup, habort.standing, habort.holder, fun k d hk => ?_, hc,
    habort.awaited⟩
  have hne : k ≠ id := by
    rintro rfl
    exact absurd ((stage?_abort { l with waiter := waiter } k k).symm.trans hk) (by simp)
  rw [stage?_abort, if_neg hne] at hk
  exact absurd hk (hothers k hne d)

theorem Sound.outstanding (h : l.Sound) {id : TaskId} (hh : l.sendLock.holds id = true)
    (hothers : ∀ k ≠ id, ∀ d v, l.stage? k ≠ some (.outstanding d v)) (hc : l.closed = false)
    (deadline : Nat) (outgoing : List (List UInt8)) :
    ({ l with waiter := some id, outgoing := outgoing }.setStage id
      (.outstanding deadline none)).Sound := by
  have hholder : l.sendLock.holder = some id := beq_iff_eq.mp hh
  have hstage : ∀ k, ({ l with waiter := some id, outgoing := outgoing }.setStage id
      (.outstanding deadline none)).stage? k
      = if k = id then some (.outstanding deadline none) else l.stage? k :=
    fun k => stage?_setStage _ id _ k
  have hold : ∀ {k d v}, ({ l with waiter := some id, outgoing := outgoing }.setStage id
      (.outstanding deadline none)).stage? k = some (.outstanding d v) → k = id ∧ v = none := by
    intro k d v hk
    rw [hstage] at hk
    split at hk
    · next hid => exact ⟨hid, (SendStage.outstanding.inj (Option.some.inj hk)).2.symm⟩
    · next hid => exact absurd hk (hothers k hid d v)
  refine ⟨h.fair, h.nodup, fun k => ?_, fun k d v hk => ?_, fun k d hk => ?_,
    fun hcl => absurd (hc.symm.trans hcl) nofun, fun _ k d hk => absurd (hold hk).2 nofun⟩
  · rw [hstage]
    refine (h.standing k).trans ?_
    by_cases hk : k = id
    · subst hk
      simpa using (h.standing k).mp (FairLock.mem_line_of_holder hholder)
    · rw [if_neg hk]
  · exact (hold hk).1 ▸ hholder
  · exact (hold hk).1 ▸ rfl

theorem Proceeds.sound {id : TaskId} {now : Nat} {result : Option (Except Fault Unit)}
    (hp : l.Proceeds id now l' result) (h : l.Sound) : l'.Sound := by
  cases hp with
  | gone | behind => exact h
  | refused | settled => exact h.abort id
  | unheard hs hh hc _ =>
    exact h.abort_waiter (fun k _ d => h.not_outstanding hs hh k d none) _
      fun hcl => absurd (hc.symm.trans hcl) nofun
  | writes hs hh hc _ _ =>
    exact h.outstanding hh (fun k _ d v => h.not_outstanding hs hh k d v) hc _ _
  | @passes frame hs hh hc _ _ =>
    have hwritten : ({ l with
        outgoing := l.outgoing ++ [(frame.stamp l.packetSeq).encode] } : Link).Sound :=
      h.congr rfl rfl rfl rfl
    exact hwritten.abort_waiter (fun k _ d => h.not_outstanding hs hh k d none) none fun _ => rfl
  | expired hs _ =>
    refine h.abort_waiter (fun k hk d hd => hk ?_) none fun _ => rfl
    exact h.outstanding_unique hd hs
  | @waits deadline hs _ =>
    have hstage : ∀ k, (l.setStage id (.outstanding deadline none)).stage? k = l.stage? k := by
      intro k
      rw [stage?_setStage]
      split
      · next hk => exact hk ▸ hs.symm
      · rfl
    refine ⟨h.fair, h.nodup, fun k => ?_, fun k d v hk => h.holder k d v (hstage k ▸ hk),
      fun k d hk => h.waiter k d (hstage k ▸ hk), h.settled,
      fun hc k d hk => h.awaited hc k d (hstage k ▸ hk)⟩
    rw [hstage]
    exact h.standing k

theorem Sound.proceed (h : l.Sound) (id : TaskId) (now : Nat) : (l.proceed id now).1.Sound :=
  (l.proceeds id now).sound h

theorem stage?_settleSend (l : Link) (id : TaskId) (verdict : Verdict) (k : TaskId) :
    (l.settleSend id verdict).stage? k = l.stage? k
      ∨ k = id ∧ ∃ deadline, l.stage? k = some (.outstanding deadline none)
        ∧ (l.settleSend id verdict).stage? k = some (.outstanding deadline (some verdict)) := by
  unfold settleSend
  split
  · next deadline hs =>
    rw [stage?_setStage]
    by_cases hk : k = id
    · subst hk
      exact Or.inr ⟨rfl, deadline, hs, if_pos rfl⟩
    · exact Or.inl (if_neg hk)
  · exact Or.inl rfl

theorem Sound.settleWaiter_stage? (h : l.Sound) (verdict : Verdict) (k : TaskId) :
    (l.settleWaiter verdict).stage? k = verdict.tell (l.stage? k) := by
  unfold settleWaiter
  split
  · next id hw =>
    have hsame : ({ l.settleSend id verdict with waiter := none } : Link).stage? k
        = (l.settleSend id verdict).stage? k := rfl
    rw [hsame]
    rcases stage?_settleSend l id verdict k with hs | ⟨rfl, d, hd, hs⟩
    · rw [hs, Verdict.tell_of_not_waiting]
      intro d hd
      obtain rfl : k = id := Option.some.inj ((h.waiter k d hd).symm.trans hw)
      rw [settleSend, hd] at hs
      dsimp only at hs
      rw [stage?_setStage, if_pos rfl] at hs
      exact absurd hs (by simp)
    · rw [hs, hd, Verdict.tell]
  · next hw =>
    rw [Verdict.tell_of_not_waiting fun d hd => absurd ((h.waiter k d hd).symm.trans hw) nofun]

theorem settleWaiter_frame (l : Link) (verdict : Verdict) :
    (l.settleWaiter verdict).sendLock = l.sendLock ∧ (l.settleWaiter verdict).waiter = none
      ∧ (l.settleWaiter verdict).closed = l.closed
      ∧ (l.settleWaiter verdict).packetSeq = l.packetSeq
      ∧ (l.settleWaiter verdict).ackTimeout = l.ackTimeout := by
  unfold settleWaiter settleSend
  split
  · split <;> exact ⟨rfl, rfl, rfl, rfl, rfl⟩
  · next hw => exact ⟨rfl, hw, rfl, rfl, rfl⟩

theorem Sound.settleWaiter (h : l.Sound) {verdict : Verdict}
    (hv : l.closed = false → verdict = .acknowledged) : (l.settleWaiter verdict).Sound := by
  obtain ⟨hk, hw, hc, -, -⟩ := l.settleWaiter_frame verdict
  have hstage := h.settleWaiter_stage? verdict
  refine ⟨hk ▸ h.fair, hk ▸ h.nodup, fun id => ?_, fun id d v hs => ?_, fun id d hs => ?_,
    fun _ => hw, fun hcl id d hs => ?_⟩
  · rw [hk, h.standing id, hstage, Ne, Ne, Verdict.tell_eq_none]
  · rw [hstage] at hs
    rw [hk]
    rcases (Verdict.tell_eq_outstanding hs).2 with hs | ⟨-, hs⟩
    · exact h.holder id d v hs
    · exact h.holder id d none hs
  · rw [hstage] at hs
    exact absurd rfl (Verdict.tell_eq_outstanding hs).1
  · rw [hstage] at hs
    rw [hc] at hcl
    rcases (Verdict.tell_eq_outstanding hs).2 with hs | ⟨hverdict, -⟩
    · exact h.awaited hcl id d hs
    · rw [hv hcl] at hverdict
      exact absurd hverdict nofun

theorem Sound.acknowledge (h : l.Sound) (seq : UInt8) : (l.acknowledge seq).Sound := by
  unfold Link.acknowledge
  split
  · exact h
  · have hnext : ({ l with packetSeq := nextSeq l.packetSeq } : Link).Sound :=
      h.congr rfl rfl rfl rfl
    exact hnext.settleWaiter fun _ => rfl

theorem Sound.accept (h : l.Sound) (frame : Frame) : (l.accept frame).1.Sound := by
  unfold Link.accept
  split
  · exact h.acknowledge _
  · dsimp only [Link.write]
    split
    · exact h.congr rfl rfl rfl rfl
    · exact h.congr rfl rfl rfl rfl

theorem close_frame (l : Link) :
    l.close.sendLock = l.sendLock ∧ l.close.waiter = none ∧ l.close.ackTimeout = l.ackTimeout := by
  obtain ⟨hk, hw, -, -, ht⟩ := l.settleWaiter_frame .abandoned
  exact ⟨hk, hw, ht⟩

theorem Sound.close_stage? (h : l.Sound) (k : TaskId) :
    l.close.stage? k = Verdict.abandoned.tell (l.stage? k) :=
  h.settleWaiter_stage? .abandoned k

theorem Sound.close (h : l.Sound) : l.close.Sound := by
  obtain ⟨hk, hw, -⟩ := l.close_frame
  have hstage := h.close_stage?
  refine ⟨hk ▸ h.fair, hk ▸ h.nodup, fun id => ?_, fun id d v hs => ?_, fun id d hs => ?_,
    fun _ => hw, fun hcl => absurd hcl nofun⟩
  · rw [hk, h.standing id, hstage, Ne, Ne, Verdict.tell_eq_none]
  · rw [hstage] at hs
    rw [hk]
    rcases (Verdict.tell_eq_outstanding hs).2 with hs | ⟨-, hs⟩
    · exact h.holder id d v hs
    · exact h.holder id d none hs
  · rw [hstage] at hs
    exact absurd rfl (Verdict.tell_eq_outstanding hs).1

theorem Sound.told_of_closed (h : l.Sound) (hc : l.closed = true) (id : TaskId) (deadline : Nat) :
    l.stage? id ≠ some (.outstanding deadline none) :=
  fun hs => absurd ((h.waiter id deadline hs).symm.trans (h.settled hc)) nofun

theorem Sound.canProceed_iff (h : l.Sound) (hc : l.closed = true) {id : TaskId} :
    l.canProceed id = true ↔ l.sendLock.holder = some id := by
  unfold canProceed
  split
  · next hs =>
    refine iff_of_false Bool.false_ne_true fun hh => ?_
    exact (h.standing id).mp (FairLock.mem_line_of_holder hh) hs
  · exact beq_iff_eq
  · next deadline verdict hs =>
    refine iff_of_true ?_ (h.holder id deadline verdict hs)
    cases verdict with
    | none => exact absurd hs (h.told_of_closed hc id deadline)
    | some v => rfl

end

end Link

end NcpHost
