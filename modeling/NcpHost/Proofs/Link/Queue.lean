import NcpHost.Link.Basic
import NcpHost.Proofs.Keyed
import NcpHost.Proofs.Session.Schedule

/-! The line at an open link. A send that enters gets in line behind all others; going on with a send
is one of four things: nothing, writing its frame, leaving the line, or both of these where there is
no time to wait for an acknowledgement. -/

namespace NcpHost

namespace FairLock

def Fair (l : FairLock) : Prop := l.holder = none → l.waiting = []

theorem Fair.holder_eq {l : FairLock} (h : l.Fair) : l.holder = l.line.head? := by
  unfold line
  cases hh : l.holder with
  | none => simp [h hh]
  | some id => rfl

theorem fair_join (l : FairLock) (id : TaskId) : (l.join id).Fair := by
  intro h
  unfold join at h
  split at h
  · exact absurd h (Option.some_ne_none id)
  · next hh => exact absurd (hh.symm.trans h) (Option.some_ne_none _)

theorem Fair.leave {l : FairLock} (h : l.Fair) (id : TaskId) : (l.leave id).Fair := by
  unfold FairLock.leave
  split
  · split
    · exact fun _ => rfl
    · exact fun hn => absurd hn (Option.some_ne_none _)
  · intro hn
    simp [h hn]

end FairLock

namespace Link

theorem stage?_setStage (l : Link) (id : TaskId) (stage : SendStage) (k : TaskId) :
    (l.setStage id stage).stage? k = if k = id then some stage else l.stage? k := by
  have h := Keyed.lookup_filter_ne l.sends id k
  rw [stage?, setStage, List.lookup_cons]
  by_cases hk : k = id
  · simp [hk]
  · rw [if_neg hk] at h ⊢
    rw [beq_false_of_ne hk]
    exact h

theorem stage?_abort (l : Link) (id k : TaskId) :
    (l.abort id).stage? k = if k = id then none else l.stage? k :=
  Keyed.lookup_filter_ne l.sends id k

def Standing (w : Session.Wire) (id : TaskId) : Option SendStage → Prop
  | none => id ∉ w.line
  | some (.queued f) => id ∈ w.line ∧ w.writing id = false ∧ (w.owed id).head? = some f
  | some (.outstanding _ verdict) => w.writing id = true ∧ verdict ≠ some .abandoned

theorem Standing.congr {w w' : Session.Wire} {id : TaskId} (h : Session.Wire.SamePlace id w w')
    {stage : Option SendStage} (hs : Standing w id stage) : Standing w' id stage := by
  have hline := h.line
  have howed := h.owed
  have hwriting := h.writing
  unfold Standing at hs ⊢
  split <;> simp_all

structure Queue (l : Link) (w : Session.Wire) : Prop where
  outlet : l.outlet = true
  closed : l.closed = false
  fair : l.sendLock.Fair
  line : l.sendLock.line = w.line
  standing : ∀ id, Standing w id (l.stage? id)

theorem Queue.holds {l : Link} {w : Session.Wire} (h : l.Queue w) (id : TaskId) :
    l.sendLock.holds id = true ↔ w.line.head? = some id := by
  rw [FairLock.holds, h.fair.holder_eq, h.line, beq_iff_eq]

theorem Queue.lock_eq {l : Link} {w : Session.Wire} (h : l.Queue w) {id : TaskId}
    {rest : List TaskId} (hline : w.line = id :: rest) :
    l.sendLock.holds id = true ∧ l.sendLock.waiting = rest := by
  have hholds := (h.holds id).mpr (by rw [hline]; rfl)
  have hholder : l.sendLock.holder = some id := beq_iff_eq.mp hholds
  have hlock := h.line
  rw [hline, FairLock.line, hholder] at hlock
  exact ⟨hholds, (List.cons.inj hlock).2⟩

theorem Queue.congr {l l' : Link} {w : Session.Wire} (h : l.Queue w) (ho : l'.outlet = l.outlet)
    (hc : l'.closed = l.closed) (hs : l'.sendLock = l.sendLock)
    (hst : ∀ id, Standing w id (l.stage? id) → Standing w id (l'.stage? id)) : l'.Queue w :=
  ⟨ho.trans h.outlet, hc.trans h.closed, hs ▸ h.fair, hs ▸ h.line,
    fun id => hst id (h.standing id)⟩

/-- A move of one request leaves the sends of all others as they are. -/
theorem Queue.move {l l' : Link} {w w' : Session.Wire} (h : l.Queue w) (hw : w.Sound) {id : TaskId}
    (hmove : Session.Wire.Move id w w') (ho : l'.outlet = l.outlet) (hc : l'.closed = l.closed)
    (hfair : l'.sendLock.Fair) (hline : l'.sendLock.line = w'.line)
    (hothers : ∀ k, k ≠ id → l'.stage? k = l.stage? k) (hown : Standing w' id (l'.stage? id)) :
    l'.Queue w' := by
  refine ⟨ho.trans h.outlet, hc.trans h.closed, hfair, hline, fun k => ?_⟩
  by_cases hk : k = id
  · exact hk ▸ hown
  · rw [hothers k hk]
    exact (h.standing k).congr (hmove.samePlace hw hk)

theorem Queue.stage?_eq_none {l : Link} {w : Session.Wire} (h : l.Queue w) {id : TaskId}
    (hid : id ∉ w.line) : l.stage? id = none := by
  have hstanding := h.standing id
  cases hs : l.stage? id with
  | none => rfl
  | some stage =>
    rw [hs] at hstanding
    cases stage with
    | queued f => exact absurd hstanding.1 hid
    | outstanding deadline verdict =>
      exact absurd (Session.Wire.mem_line_of_writing hstanding.1) hid

theorem Queue.enlist {l : Link} {w : Session.Wire} (h : l.Queue w) (hw : w.Sound) {id : TaskId}
    (hids : id ∉ w.ids) (hid : id ∉ w.line) (p : Packet) : l.Queue (w.enlist id p) := by
  refine h.move hw (.enlist p hids) rfl rfl h.fair h.line (fun _ _ => rfl) ?_
  rw [h.stage?_eq_none hid]
  exact hid

theorem Queue.enter {l : Link} {w : Session.Wire} (h : l.Queue w) (hw : w.Sound) {id : TaskId}
    (hid : id ∉ w.line) {f : Frame} (hf : (w.owed id).head? = some f) :
    (l.enter id f).Queue (w.join id) := by
  have hstage : ∀ k, (l.enter id f).stage? k = if k = id then some (.queued f) else l.stage? k :=
    fun k => stage?_setStage l id (.queued f) k
  refine h.move hw (.join hid) rfl rfl (FairLock.fair_join _ _) ?_ (fun k hk => ?_) ?_
  · exact (FairLock.line_join l.sendLock id h.fair).trans (congrArg (· ++ [id]) h.line)
  · rw [hstage, if_neg hk]
  · rw [hstage, if_pos rfl]
    exact ⟨List.mem_append_right _ List.mem_cons_self, Session.Wire.writing_join hw hid, hf⟩

theorem Queue.abort {l : Link} {w : Session.Wire} (h : l.Queue w) (hw : w.Sound) {id : TaskId}
    (hwriting : w.writing id = true) : (l.abort id).Queue w.leave := by
  obtain ⟨hwrote, rest, hline⟩ := Session.Wire.line_of_writing hwriting
  have hnodup := hw.line
  rw [hline, List.nodup_cons] at hnodup
  have hfilter : w.line.filter (· != id) = w.line.tail := by
    rw [hline, List.filter_cons_of_neg (by simp), List.tail_cons, List.filter_eq_self]
    exact fun k hk => bne_iff_ne.mpr fun e => hnodup.1 (e ▸ hk)
  have hhead : w.line.head? = some id := by rw [hline]; rfl
  refine h.move hw (.leave hhead hwrote) rfl rfl (h.fair.leave id) ?_ (fun k hk => ?_) ?_
  · have hleave := FairLock.line_leave l.sendLock id (h.line ▸ hw.line)
    rw [h.line, hfilter] at hleave
    exact hleave
  · rw [stage?_abort, if_neg hk]
  · rw [stage?_abort, if_pos rfl]
    exact fun hm => hnodup.1 (by simpa [Session.Wire.leave, hline] using hm)

theorem Queue.outstanding {l : Link} {w : Session.Wire} (h : l.Queue w) {id : TaskId}
    (hwriting : w.writing id = true) (deadline : Nat) {verdict : Option Verdict}
    (hverdict : verdict ≠ some .abandoned) :
    (l.setStage id (.outstanding deadline verdict)).Queue w := by
  refine h.congr rfl rfl rfl fun k hk => ?_
  rw [stage?_setStage]
  by_cases hkid : k = id
  · rw [if_pos hkid, hkid]
    exact ⟨hwriting, hverdict⟩
  · rw [if_neg hkid]
    exact hk

theorem Queue.write {l : Link} {w : Session.Wire} (h : l.Queue w) (hw : w.Sound) {id : TaskId}
    (hhead : w.line.head? = some id) (hwrote : w.wrote = false) {f : Frame} {left : List Frame}
    (howed : w.owed id = f :: left) {bytes : List UInt8} (hbytes : Session.Written f bytes)
    (deadline : Nat) (waiter : Option TaskId) (outgoing : List (List UInt8)) :
    ({ l with waiter := waiter, outgoing := outgoing }.setStage id
      (.outstanding deadline none)).Queue (w.write id bytes left) := by
  refine h.move hw (.write hhead hwrote howed hbytes) rfl rfl h.fair h.line (fun k hk => ?_) ?_
  · rw [stage?_setStage, if_neg hk]
    rfl
  · rw [stage?_setStage, if_pos rfl]
    exact ⟨Session.Wire.writing_write hhead bytes left, nofun⟩

/-- What going on with a send does to the line: it stays in line, or, having been first, it is done
with its fragment. -/
structure Proceeded (id : TaskId) (w w' : Session.Wire) (result : Option (Except Fault Unit)) :
    Prop where
  moves : Relation.ReflTransGen (Session.Wire.Move id) w w'
  schedule : w'.schedule = w.schedule
  requests : w'.requests = w.requests
  result : (result = none ∧ w'.line = w.line ∧ w'.behind id = w.behind id)
    ∨ (result = some (.ok ()) ∧ w.line = id :: w'.line ∧ w'.owed id = w.behind id)

theorem proceeded_refl (w : Session.Wire) (id : TaskId) : Proceeded id w w none :=
  ⟨.refl, rfl, rfl, Or.inl ⟨rfl, rfl, rfl⟩⟩

theorem proceeded_leave {w : Session.Wire} {id : TaskId} (hwriting : w.writing id = true) :
    Proceeded id w w.leave (some (.ok ())) := by
  obtain ⟨hwrote, rest, hline⟩ := Session.Wire.line_of_writing hwriting
  have hhead : w.line.head? = some id := by rw [hline]; rfl
  refine ⟨.single (.leave hhead hwrote), Session.Wire.schedule_leave hwrote, rfl,
    Or.inr ⟨rfl, ?_, ?_⟩⟩
  · rw [Session.Wire.leave, hline, List.tail_cons]
  · rw [Session.Wire.behind, hwriting]
    rfl

theorem Proceeded.trans {w w' w'' : Session.Wire} {id : TaskId} (h : Proceeded id w w' none)
    {result : Option (Except Fault Unit)} (h' : Proceeded id w' w'' result) :
    Proceeded id w w'' result := by
  refine ⟨h.moves.trans h'.moves, h'.schedule.trans h.schedule, h'.requests.trans h.requests, ?_⟩
  rcases h.result with ⟨-, hline, hbehind⟩ | ⟨hok, -⟩
  · rw [← hline, ← hbehind]
    exact h'.result
  · exact absurd hok nofun

theorem proceeded_write {w : Session.Wire} {id : TaskId} (hhead : w.line.head? = some id)
    (hwrote : w.wrote = false) {f : Frame} {left : List Frame} (howed : w.owed id = f :: left)
    {bytes : List UInt8} (hbytes : Session.Written f bytes) :
    Proceeded id w (w.write id bytes left) none := by
  refine ⟨.single (.write hhead hwrote howed hbytes), Session.Wire.schedule_write hhead hwrote _ _,
    rfl, Or.inl ⟨rfl, rfl, ?_⟩⟩
  have hidle : w.writing id = false := by simp [Session.Wire.writing, hwrote]
  rw [Session.Wire.behind, Session.Wire.writing_write hhead, Session.Wire.owed_write,
    Session.Wire.behind, hidle, howed]
  rfl

theorem Queue.proceedOutstanding {l : Link} {w : Session.Wire} (h : l.Queue w) (hw : w.Sound)
    {id : TaskId} (hwriting : w.writing id = true) (now deadline : Nat) {verdict : Option Verdict}
    (hverdict : verdict ≠ some .abandoned) :
    ∃ w', Proceeded id w w' (l.proceedOutstanding id now deadline verdict).2
      ∧ (l.proceedOutstanding id now deadline verdict).1.Queue w'
      ∧ (l.proceedOutstanding id now deadline verdict).1.outgoing = l.outgoing
      ∧ w'.sent = w.sent := by
  have hleave := proceeded_leave hwriting
  cases verdict with
  | some v =>
    cases v with
    | acknowledged => exact ⟨_, hleave, h.abort hw hwriting, rfl, rfl⟩
    | abandoned => exact absurd rfl hverdict
  | none =>
    unfold Link.proceedOutstanding
    by_cases hdue : deadline ≤ now
    · have hfree : ({ l with waiter := none } : Link).Queue w :=
        h.congr rfl rfl rfl fun _ hk => hk
      rw [if_pos hdue]
      exact ⟨_, hleave, hfree.abort hw hwriting, rfl, rfl⟩
    · rw [if_neg hdue]
      exact ⟨w, proceeded_refl w id, h.outstanding hwriting deadline hverdict, rfl, rfl⟩

theorem proceedOutstanding_setStage (l : Link) (id : TaskId) (stage : SendStage)
    (now deadline : Nat) :
    (l.setStage id stage).proceedOutstanding id now deadline none
      = l.proceedOutstanding id now deadline none := by
  simp [proceedOutstanding, abort, setStage, List.filter_filter]

theorem Queue.transmit {l : Link} {w : Session.Wire} (h : l.Queue w) (hw : w.Sound) {id : TaskId}
    (hhead : w.line.head? = some id) (hwrote : w.wrote = false) {f : Frame}
    (hf : (w.owed id).head? = some f) (now : Nat) :
    ∃ w' bytes, Proceeded id w w' (l.transmit id now f).2 ∧ (l.transmit id now f).1.Queue w'
      ∧ (l.transmit id now f).1.outgoing = l.outgoing ++ [bytes]
      ∧ w'.sent = w.sent ++ [(id, bytes)] := by
  obtain ⟨left, howed⟩ := List.head?_eq_some_iff.mp hf
  have hbytes : Session.Written f (f.stamp l.packetSeq).encode := ⟨l.packetSeq, rfl⟩
  have hwritten := h.write hw hhead hwrote howed hbytes (now + l.ackTimeout) (some id)
    (l.outgoing ++ [(f.stamp l.packetSeq).encode])
  obtain ⟨w', hproceeded, hqueue, houtgoing, hsent⟩ :=
    hwritten.proceedOutstanding (hw.write hhead howed hbytes)
      (Session.Wire.writing_write hhead _ left) now (now + l.ackTimeout)
      (Option.some_ne_none _).symm
  rw [proceedOutstanding_setStage] at hproceeded hqueue houtgoing
  have htransmit : l.transmit id now f =
      { l with
        waiter := some id
        outgoing := l.outgoing ++ [(f.stamp l.packetSeq).encode] }.proceedOutstanding id now
          (now + l.ackTimeout) none := by
    simp [Link.transmit, Link.write, h.outlet]
  rw [htransmit]
  exact ⟨w', _, (proceeded_write hhead hwrote howed hbytes).trans hproceeded, hqueue, houtgoing,
    hsent⟩

theorem Queue.proceed {l : Link} {w : Session.Wire} (h : l.Queue w) (hw : w.Sound) {id : TaskId}
    (hid : id ∈ w.line) (now : Nat) :
    ∃ (w' : Session.Wire) (written : List (List UInt8)), Proceeded id w w' (l.proceed id now).2
      ∧ (l.proceed id now).1.Queue w'
      ∧ (l.proceed id now).1.outgoing = l.outgoing ++ written
      ∧ w'.sent = w.sent ++ written.map fun bytes => (id, bytes) := by
  have hstanding := h.standing id
  unfold Link.proceed
  cases hs : l.stage? id with
  | none =>
    rw [hs] at hstanding
    exact absurd hid hstanding
  | some stage =>
    rw [hs] at hstanding
    cases stage with
    | queued f =>
      obtain ⟨-, hidle, hf⟩ := hstanding
      dsimp only
      cases hholds : l.sendLock.holds id with
      | false =>
        exact ⟨w, [], proceeded_refl w id, h, (List.append_nil _).symm, (List.append_nil _).symm⟩
      | true =>
        have hhead := (h.holds id).mp hholds
        have hwrote : w.wrote = false := by simpa [Session.Wire.writing, hhead] using hidle
        obtain ⟨w', bytes, hproceeded, hqueue, houtgoing, hsent⟩ :=
          h.transmit hw hhead hwrote hf now
        rw [h.closed]
        exact ⟨w', [bytes], hproceeded, hqueue, houtgoing, hsent⟩
    | outstanding deadline verdict =>
      obtain ⟨w', hproceeded, hqueue, houtgoing, hsent⟩ :=
        h.proceedOutstanding hw hstanding.1 now deadline hstanding.2
      exact ⟨w', [], hproceeded, hqueue, houtgoing.trans (List.append_nil _).symm,
        hsent.trans (List.append_nil _).symm⟩

theorem Queue.settleSend {l : Link} {w : Session.Wire} (h : l.Queue w) (id : TaskId) :
    (l.settleSend id .acknowledged).Queue w := by
  unfold Link.settleSend
  split
  · next deadline hstage =>
    have hstanding := h.standing id
    rw [hstage] at hstanding
    exact h.outstanding hstanding.1 deadline nofun
  · exact h

theorem Queue.settleWaiter {l : Link} {w : Session.Wire} (h : l.Queue w) :
    (l.settleWaiter .acknowledged).Queue w := by
  unfold Link.settleWaiter
  split
  · next id _ => exact (h.settleSend id).congr rfl rfl rfl fun _ hk => hk
  · exact h

theorem Queue.acknowledge {l : Link} {w : Session.Wire} (h : l.Queue w) (seq : UInt8) :
    (l.acknowledge seq).Queue w := by
  unfold Link.acknowledge
  split
  · exact h
  · have hnext : ({ l with packetSeq := nextSeq l.packetSeq } : Link).Queue w :=
      h.congr rfl rfl rfl fun _ hk => hk
    exact hnext.settleWaiter

theorem Queue.accept {l : Link} {w : Session.Wire} (h : l.Queue w) (frame : Frame) :
    (l.accept frame).1.Queue w := by
  unfold Link.accept
  split
  · exact h.acknowledge _
  · dsimp only [Link.write]
    split
    · exact h.congr rfl rfl rfl fun _ hk => hk
    · exact h.congr rfl rfl rfl fun _ hk => hk

end Link

end NcpHost
