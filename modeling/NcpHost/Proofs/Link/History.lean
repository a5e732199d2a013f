import Mathlib.Data.List.Induction
import Mathlib.Logic.Function.Iterate
import NcpHost.Link.Act
import NcpHost.Proofs.Link.Sends

/-! What was seen of a link, and what that says of its sends. What one act does to the sends, and what
is to be seen of it, are said once; by induction over the acts, a frame is written only when everybody
who wrote before is over, and with the number that the acknowledgements so far call for. -/

namespace NcpHost

namespace Link

variable {l : Link}

theorem accept_cases (l : Link) (frame : Frame) :
    l.expects frame = true
        ∧ (l.accept frame).1
          = { l with packetSeq := nextSeq l.packetSeq }.settleWaiter .acknowledged
      ∨ l.expects frame = false ∧ (l.accept frame).1.sends = l.sends
        ∧ (l.accept frame).1.sendLock = l.sendLock ∧ (l.accept frame).1.closed = l.closed
        ∧ (l.accept frame).1.ackTimeout = l.ackTimeout
        ∧ (l.accept frame).1.packetSeq = l.packetSeq := by
  cases ha : frame.isAck with
  | false =>
    refine Or.inr ⟨by simp [expects, ha], ?_⟩
    simp only [accept, ha, Bool.false_eq_true, if_false, write]
    split <;> exact ⟨rfl, rfl, rfl, rfl, rfl⟩
  | true =>
    by_cases hseq : frame.header.flags.ackSeq = l.packetSeq
    · exact Or.inl ⟨by simp [expects, ha, hseq], by simp [accept, ha, acknowledge, hseq]⟩
    · exact Or.inr ⟨by simp [expects, ha, hseq], by simp [accept, ha, acknowledge, hseq]⟩

theorem Sound.accept_stage? (h : l.Sound) (frame : Frame) (k : TaskId) :
    (l.accept frame).1.stage? k
      = if l.expects frame then Verdict.acknowledged.tell (l.stage? k) else l.stage? k := by
  rcases l.accept_cases frame with ⟨he, heq⟩ | ⟨he, hs, -⟩
  · have hnext : ({ l with packetSeq := nextSeq l.packetSeq } : Link).Sound :=
      h.congr rfl rfl rfl rfl
    rw [he, heq, if_pos rfl, hnext.settleWaiter_stage?]
    rfl
  · rw [he, if_neg Bool.false_ne_true, stage?, hs, stage?]

theorem accept_keeps (l : Link) (frame : Frame) :
    (l.accept frame).1.sendLock = l.sendLock ∧ (l.accept frame).1.closed = l.closed
      ∧ (l.accept frame).1.ackTimeout = l.ackTimeout
      ∧ (l.accept frame).1.packetSeq
        = nextSeq^[if l.expects frame then 1 else 0] l.packetSeq := by
  rcases l.accept_cases frame with ⟨he, heq⟩ | ⟨he, -, hk, hc, ht, hp⟩
  · obtain ⟨hk, -, hc, hp, ht⟩ :=
      { l with packetSeq := nextSeq l.packetSeq }.settleWaiter_frame .acknowledged
    rw [he, heq]
    exact ⟨hk, hc, ht, hp⟩
  · rw [he]
    exact ⟨hk, hc, ht, hp⟩

theorem Sound.acceptAll (h : l.Sound) (frames : List Frame) : (l.acceptAll frames).1.Sound := by
  induction frames generalizing l with
  | nil => exact h
  | cons frame rest ih => exact ih (h.accept frame)

theorem Sound.acceptAll_stage? (h : l.Sound) (frames : List Frame) (k : TaskId) :
    (l.acceptAll frames).1.stage? k
      = if l.expected frames = 0 then l.stage? k
        else Verdict.acknowledged.tell (l.stage? k) := by
  induction frames generalizing l with
  | nil => rfl
  | cons frame rest ih =>
    have hrest := ih (h.accept frame)
    rw [h.accept_stage? frame k] at hrest
    rw [Link.acceptAll, expected]
    refine hrest.trans ?_
    cases l.expects frame with
    | false => simp
    | true =>
      have htwice : Verdict.acknowledged.tell (Verdict.acknowledged.tell (l.stage? k))
          = Verdict.acknowledged.tell (l.stage? k) :=
        Verdict.tell_of_not_waiting fun d hd => (Verdict.tell_eq_outstanding hd).1 rfl
      simp [htwice]

theorem acceptAll_keeps (l : Link) (frames : List Frame) :
    (l.acceptAll frames).1.sendLock = l.sendLock ∧ (l.acceptAll frames).1.closed = l.closed
      ∧ (l.acceptAll frames).1.ackTimeout = l.ackTimeout
      ∧ (l.acceptAll frames).1.packetSeq = nextSeq^[l.expected frames] l.packetSeq := by
  induction frames generalizing l with
  | nil => exact ⟨rfl, rfl, rfl, rfl⟩
  | cons frame rest ih =>
    obtain ⟨hk, hc, ht, hp⟩ := l.accept_keeps frame
    obtain ⟨hk', hc', ht', hp'⟩ := ih (l.accept frame).1
    rw [hp, ← Function.iterate_add_apply, Nat.add_comm] at hp'
    exact ⟨hk'.trans hk, hc'.trans hc, ht'.trans ht, hp'⟩

end Link

namespace Senders

/-- The numbers of frames, by the count of acknowledgements before: 0, 1, 2, 3, 1, 2, 3 and so on. -/
def number (n : Nat) : UInt8 := if n = 0 then 0 else ((n - 1) % 3 + 1).toUInt8

theorem number_succ (n : Nat) : number (n + 1) = Link.nextSeq (number n) := by
  cases n with
  | zero => rfl
  | succ n =>
    have hm : n % 3 < 3 := Nat.mod_lt n (by decide)
    have hs : (n + 1) % 3 = if n % 3 = 2 then 0 else n % 3 + 1 := by
      split <;> omega
    simp only [number, Nat.add_one_ne_zero, if_false, Nat.add_sub_cancel, hs]
    have hcases : n % 3 = 0 ∨ n % 3 = 1 ∨ n % 3 = 2 := by omega
    rcases hcases with h | h | h <;> rw [h] <;> rfl

theorem number_add (m n : Nat) : Link.nextSeq^[n] (number m) = number (m + n) := by
  induction n with
  | zero => rfl
  | succ n ih => rw [Function.iterate_succ_apply', ih, ← Nat.add_assoc, number_succ]

example : (List.range 8).map number = [0, 1, 2, 3, 1, 2, 3, 1] := by decide

theorem number_and_three (n : Nat) : number n &&& 3 = number n := by
  cases n with
  | zero => rfl
  | succ n =>
    have hcases : n % 3 = 0 ∨ n % 3 = 1 ∨ n % 3 = 2 := by omega
    simp only [number, Nat.add_one_ne_zero, if_false, Nat.add_sub_cancel]
    rcases hcases with h | h | h <;> rw [h] <;> rfl

variable {s : Senders} {id : TaskId}

theorem perform_turn (s : Senders) (id : TaskId) :
    (s.perform (.turn id)).link = (s.link.proceed id s.agenda.now).1
      ∧ (s.perform (.turn id)).nextId = s.nextId := by
  simp only [perform, turn]
  split
  · exact ⟨rfl, rfl⟩
  · split <;> exact ⟨rfl, rfl⟩
  · exact ⟨rfl, rfl⟩

theorem incidents_turn (s : Senders) (id : TaskId) :
    s.incidents (.turn id) =
      ((s.link.proceed id s.agenda.now).1.outgoing.drop s.link.outgoing.length).map
          (.wrote id s.agenda.now)
        ++ (s.link.proceed id s.agenda.now).2.toList.map (.ended id) := by
  have hlog : (s.perform (.turn id)).log = s.log
      ++ (s.link.proceed id s.agenda.now).2.toList.map (.finished id) := by
    simp only [perform, turn]
    split
    · next hr => simp [record, hr]
    · next hr _ => split <;> simp [hr]
    · next hr _ => simp [hr]
  rw [incidents, incidentsOfTurn, (s.perform_turn id).1, hlog, List.drop_left]
  congr 1
  cases (s.link.proceed id s.agenda.now).2 <;> rfl

theorem turn_cases (s : Senders) (id : TaskId) :
    ∃ result, s.link.Proceeds id s.agenda.now (s.perform (.turn id)).link result
      ∧ s.incidents (.turn id) =
        ((s.perform (.turn id)).link.outgoing.drop s.link.outgoing.length).map
            (.wrote id s.agenda.now) ++ result.toList.map (.ended id) := by
  have hlink := (s.perform_turn id).1
  refine ⟨(s.link.proceed id s.agenda.now).2, ?_, ?_⟩
  · rw [hlink]
    exact s.link.proceeds id s.agenda.now
  · rw [hlink]
    exact s.incidents_turn id

theorem arrive_cases (h : s.link.Sound) (bytes : List UInt8) :
    ∃ n, s.incidents (.arrive bytes) = List.replicate n .matched
      ∧ (s.perform (.arrive bytes)).link.Sound
      ∧ (∀ k, (s.perform (.arrive bytes)).link.stage? k
        = if n = 0 then s.link.stage? k else Verdict.acknowledged.tell (s.link.stage? k))
      ∧ (s.perform (.arrive bytes)).link.sendLock = s.link.sendLock
      ∧ (s.perform (.arrive bytes)).link.closed = s.link.closed
      ∧ (s.perform (.arrive bytes)).link.ackTimeout = s.link.ackTimeout
      ∧ (s.perform (.arrive bytes)).link.packetSeq = Link.nextSeq^[n] s.link.packetSeq := by
  have hextracted : (s.link.extract bytes).1.Sound := h.congr rfl rfl rfl rfl
  exact ⟨_, rfl, hextracted.acceptAll _, hextracted.acceptAll_stage? _,
    (s.link.extract bytes).1.acceptAll_keeps _⟩

theorem append_eq_split {α : Type} {past new before after : List α} {e : α}
    (h : past ++ new = before ++ e :: after) :
    (∃ rest, past = before ++ e :: rest ∧ after = rest ++ new)
      ∨ ∃ front, before = past ++ front ∧ new = front ++ e :: after := by
  rcases List.append_eq_append_iff.mp h with ⟨front, rfl, hnew⟩ | ⟨rest, hpast, hrest⟩
  · exact Or.inr ⟨front, rfl, hnew⟩
  · cases rest with
    | nil => exact Or.inr ⟨[], by simpa using hpast.symm, by simpa using hrest.symm⟩
    | cons x rest =>
      obtain ⟨rfl, rfl⟩ := List.cons.inj hrest
      exact Or.inl ⟨rest, hpast, rfl⟩

theorem split_of_not_mem {α : Type} {past new before after : List α} {e : α}
    (h : past ++ new = before ++ e :: after) (he : e ∉ new) :
    ∃ rest, past = before ++ e :: rest ∧ after = rest ++ new := by
  rcases append_eq_split h with hpast | ⟨front, -, hnew⟩
  · exact hpast
  · exact absurd (hnew ▸ List.mem_append_right _ List.mem_cons_self) he

theorem exists_isEndOf_append {past new : List Incident} {id : TaskId}
    (h : ∀ e ∈ new, e.isEndOf id = false) :
    (∃ e ∈ past ++ new, e.isEndOf id = true) ↔ ∃ e ∈ past, e.isEndOf id = true := by
  constructor
  · rintro ⟨e, he, hend⟩
    rcases List.mem_append.mp he with he | he
    · exact ⟨e, he, hend⟩
    · exact absurd ((h e he).symm.trans hend) Bool.false_ne_true
  · exact fun ⟨e, he, hend⟩ => ⟨e, List.mem_append_left _ he, hend⟩

theorem Incident.isEndOf_unique {e : Incident} {i j : TaskId} (hi : e.isEndOf i = true)
    (hj : e.isEndOf j = true) : i = j := by
  cases e <;> simp_all [Incident.isEndOf]

structure Kept (ackTimeout : Nat) (given : List Frame) (past : List Incident) (s : Senders) :
    Prop where
  sound : s.link.Sound
  timeout : s.link.ackTimeout = ackTimeout
  count : s.nextId = given.length
  known : ∀ id, s.link.stage? id ≠ none → id < s.nextId
  queued : ∀ id frame, s.link.stage? id = some (.queued frame) → given[id]? = some frame
  outstanding : ∀ id deadline verdict, s.link.stage? id = some (.outstanding deadline verdict) →
    ∃ time bytes, .wrote id time bytes ∈ past
  wrote : ∀ id time bytes, .wrote id time bytes ∈ past → id < s.nextId
    ∧ (∀ frame, s.link.stage? id ≠ some (.queued frame))
    ∧ ∀ deadline verdict, s.link.stage? id = some (.outstanding deadline verdict) →
      deadline = time + ackTimeout
  ended : ∀ id, (∃ e ∈ past, e.isEndOf id = true) ↔ id < s.nextId ∧ s.link.stage? id = none
  since : ∀ before id time bytes after, past = before ++ .wrote id time bytes :: after →
    s.link.stage? id = none → ∃ e ∈ after, e.isEndOf id = true
  down : .down ∈ past ↔ s.link.closed = true
  number : s.link.closed = false → s.link.packetSeq = number (past.countP Incident.isMatch)

theorem kept_new (ackTimeout : Nat) : Kept ackTimeout [] [] (new ackTimeout) :=
  ⟨Link.sound_new ackTimeout, rfl, rfl, fun _ h => absurd rfl h, fun _ _ h => absurd h nofun,
    fun _ _ _ h => absurd h nofun, fun _ _ _ h => absurd h List.not_mem_nil,
    fun _ => ⟨fun ⟨_, h, _⟩ => absurd h List.not_mem_nil, fun ⟨h, _⟩ => absurd h (Nat.not_lt_zero _)⟩,
    fun _ _ _ _ _ h => absurd h (by simp), ⟨fun h => absurd h List.not_mem_nil, nofun⟩,
    fun _ => rfl⟩

section

variable {ackTimeout : Nat} {given : List Frame} {past : List Incident} {s' : Senders}

theorem Kept.since_append (h : Kept ackTimeout given past s) {before after new : List Incident}
    {time : Nat} {bytes : List UInt8} (hgone : s.link.stage? id = none)
    (hnew : .wrote id time bytes ∉ new)
    (heq : past ++ new = before ++ .wrote id time bytes :: after) :
    ∃ e ∈ after, e.isEndOf id = true := by
  obtain ⟨rest, hpast, rfl⟩ := split_of_not_mem heq hnew
  obtain ⟨e, he, hend⟩ := h.since before id time bytes rest hpast hgone
  exact ⟨e, List.mem_append_left _ he, hend⟩

theorem Kept.told (h : Kept ackTimeout given past s) {new : List Incident}
    (hnew : ∀ e ∈ new, e = .matched ∨ e = .down) (hsound : s'.link.Sound)
    (ht : s'.link.ackTimeout = s.link.ackTimeout) (hn : s'.nextId = s.nextId)
    (hstage : ∀ k, s'.link.stage? k = s.link.stage? k
      ∨ ∃ verdict : Verdict, s'.link.stage? k = verdict.tell (s.link.stage? k))
    (hdown : .down ∈ past ++ new ↔ s'.link.closed = true)
    (hnumber : s'.link.closed = false →
      s'.link.packetSeq = Senders.number ((past ++ new).countP Incident.isMatch)) :
    Kept ackTimeout given (past ++ new) s' := by
  -- being told changes no place in line, and nobody comes or goes
  have hnone : ∀ k, s'.link.stage? k = none ↔ s.link.stage? k = none := by
    intro k
    rcases hstage k with hk | ⟨v, hk⟩
    · rw [hk]
    · rw [hk, Verdict.tell_eq_none]
  have hqueued : ∀ k frame, s'.link.stage? k = some (.queued frame) ↔
      s.link.stage? k = some (.queued frame) := by
    intro k frame
    rcases hstage k with hk | ⟨v, hk⟩
    · rw [hk]
    · rw [hk, Verdict.tell_eq_queued]
  have hout : ∀ {k d v}, s'.link.stage? k = some (.outstanding d v) →
      ∃ v', s.link.stage? k = some (.outstanding d v') := by
    intro k d v hs
    rcases hstage k with hk | ⟨w, hk⟩
    · exact ⟨v, hk ▸ hs⟩
    · rcases (Verdict.tell_eq_outstanding (hk ▸ hs)).2 with hs | ⟨-, hs⟩
      · exact ⟨v, hs⟩
      · exact ⟨none, hs⟩
  have hwrote : ∀ {k t x}, Incident.wrote k t x ∉ new := by
    intro k t x hm
    rcases hnew _ hm with he | he <;> exact absurd he nofun
  have hend : ∀ e ∈ new, ∀ k, e.isEndOf k = false := by
    intro e he k
    rcases hnew e he with rfl | rfl <;> rfl
  refine ⟨hsound, ht.trans h.timeout, hn.trans h.count, fun id hid => ?_,
    fun id frame hid => h.queued id frame ((hqueued id frame).mp hid), fun id d v hid => ?_,
    fun id t x hm => ?_, fun id => ?_, fun before id t x after heq hid => ?_, hdown, hnumber⟩
  · exact hn ▸ h.known id fun hs => hid ((hnone id).mpr hs)
  · obtain ⟨v', hv'⟩ := hout hid
    obtain ⟨t, x, hm⟩ := h.outstanding id d v' hv'
    exact ⟨t, x, List.mem_append_left _ hm⟩
  · rcases List.mem_append.mp hm with hm | hm
    · obtain ⟨hlt, hq, hd⟩ := h.wrote id t x hm
      refine ⟨hn ▸ hlt, fun frame hs => hq frame ((hqueued id frame).mp hs), fun d v hs => ?_⟩
      obtain ⟨v', hv'⟩ := hout hs
      exact hd d v' hv'
    · exact absurd hm hwrote
  · rw [exists_isEndOf_append fun e he => hend e he id, h.ended id, hn, hnone]
  · exact h.since_append ((hnone id).mp hid) hwrote heq

theorem Kept.same (h : Kept ackTimeout given past s) (hsound : s'.link.Sound)
    (ht : s'.link.ackTimeout = s.link.ackTimeout) (hn : s'.nextId = s.nextId)
    (hstage : ∀ k, s'.link.stage? k = s.link.stage? k) (hc : s'.link.closed = s.link.closed)
    (hp : s'.link.packetSeq = s.link.packetSeq) : Kept ackTimeout given past s' := by
  rw [← List.append_nil past]
  refine h.told (fun e he => absurd he List.not_mem_nil) hsound ht hn
    (fun k => Or.inl (hstage k)) ?_ ?_
  · rw [List.append_nil, hc]
    exact h.down
  · rw [List.append_nil, hc, hp]
    exact h.number

theorem Kept.send (h : Kept ackTimeout given past s) (frame : Frame) :
    Kept ackTimeout (given ++ [frame]) past (s.perform (.send frame)) := by
  have hfresh : s.link.stage? s.nextId = none :=
    not_not.mp fun hs => absurd (h.known _ hs) (Nat.lt_irrefl _)
  have hline : s.nextId ∉ s.link.sendLock.line :=
    fun hm => (h.sound.standing s.nextId).mp hm hfresh
  have hstage : ∀ k, (s.perform (.send frame)).link.stage? k
      = if k = s.nextId then some (.queued frame) else s.link.stage? k :=
    fun k => Link.stage?_setStage s.link s.nextId (.queued frame) k
  have hnext : (s.perform (.send frame)).nextId = s.nextId + 1 := rfl
  have hold : ∀ {k}, k < s.nextId →
      (s.perform (.send frame)).link.stage? k = s.link.stage? k :=
    fun hk => (hstage _).trans (if_neg (Nat.ne_of_lt hk))
  have hout : ∀ {k d v}, (s.perform (.send frame)).link.stage? k = some (.outstanding d v) →
      s.link.stage? k = some (.outstanding d v) := by
    intro k d v hs
    rw [hstage] at hs
    split at hs
    · exact absurd hs nofun
    · exact hs
  refine ⟨h.sound.enter hline frame, h.timeout, ?_, fun id hid => ?_, fun id f hid => ?_,
    fun id d v hid => h.outstanding id d v (hout hid), fun id t x hm => ?_, fun id => ?_,
    fun before id t x after heq hid => ?_, h.down, h.number⟩
  · rw [hnext, h.count, List.length_append, List.length_singleton]
  · rw [hstage] at hid
    split at hid
    · next hk => exact hk ▸ Nat.lt_succ_self _
    · exact Nat.lt_succ_of_lt (h.known id hid)
  · rw [hstage] at hid
    split at hid
    · next hk =>
      obtain rfl := SendStage.queued.inj (Option.some.inj hid)
      rw [hk, h.count, List.getElem?_append_right (Nat.le_refl _), Nat.sub_self]
      rfl
    · have hid' := h.queued id f hid
      rwa [List.getElem?_append_left (List.getElem?_eq_some_iff.mp hid').1]
  · obtain ⟨hlt, hq, hd⟩ := h.wrote id t x hm
    rw [hold hlt]
    exact ⟨Nat.lt_succ_of_lt hlt, hq, hd⟩
  · rw [h.ended id, hnext, hstage]
    by_cases hk : id = s.nextId
    · simp [hk]
    · have hlt : id < s.nextId ↔ id < s.nextId + 1 :=
        (Nat.lt_succ_iff_lt_or_eq.trans (or_iff_left hk)).symm
      rw [if_neg hk, hlt]
  · refine h.since before id t x after heq ?_
    have hlt := (h.wrote id t x (heq ▸ List.mem_append_right _ List.mem_cons_self)).1
    exact (hold hlt).symm.trans hid

theorem Kept.write (h : Kept ackTimeout given past s) {frame : Frame}
    (hq : s.link.stage? id = some (.queued frame)) (time : Nat) (bytes : List UInt8)
    (hsound : s'.link.Sound) (ht : s'.link.ackTimeout = s.link.ackTimeout)
    (hn : s'.nextId = s.nextId)
    (hstage : ∀ k, s'.link.stage? k
      = if k = id then some (.outstanding (time + ackTimeout) none) else s.link.stage? k)
    (hc : s'.link.closed = s.link.closed) (hp : s'.link.packetSeq = s.link.packetSeq) :
    Kept ackTimeout given (past ++ [.wrote id time bytes]) s' := by
  have hlive : s.link.stage? id ≠ none := fun hs => absurd (hq.symm.trans hs) nofun
  have hcount : (past ++ [Incident.wrote id time bytes]).countP Incident.isMatch
      = past.countP Incident.isMatch := by
    rw [List.countP_append]
    rfl
  refine ⟨hsound, ht.trans h.timeout, hn.trans h.count, fun k hk => ?_, fun k f hk => ?_,
    fun k d v hk => ?_, fun k t x hm => ?_, fun k => ?_, fun before k t x after heq hk => ?_, ?_,
    fun hcl => ?_⟩
  · rw [hstage] at hk
    rw [hn]
    split at hk
    · next hid => exact hid ▸ h.known id hlive
    · exact h.known k hk
  · rw [hstage] at hk
    split at hk
    · exact absurd hk nofun
    · exact h.queued k f hk
  · rw [hstage] at hk
    split at hk
    · next hid => exact ⟨time, bytes, by simp [hid]⟩
    · obtain ⟨t, x, hm⟩ := h.outstanding k d v hk
      exact ⟨t, x, List.mem_append_left _ hm⟩
  · rw [hstage, hn]
    rcases List.mem_append.mp hm with hpast | hnew
    · -- whoever wrote before does not stand in line with a frame
      have hne : k ≠ id := by
        rintro rfl
        exact (h.wrote k t x hpast).2.1 frame hq
      rw [if_neg hne]
      exact h.wrote k t x hpast
    · obtain ⟨rfl, rfl, rfl⟩ := Incident.wrote.inj (List.mem_singleton.mp hnew)
      rw [if_pos rfl]
      refine ⟨h.known k hlive, fun f => nofun, fun d v hs => ?_⟩
      exact (SendStage.outstanding.inj (Option.some.inj hs)).1.symm
  · have hends : ∀ e ∈ [Incident.wrote id time bytes], e.isEndOf k = false :=
      fun e he => List.mem_singleton.mp he ▸ rfl
    rw [exists_isEndOf_append hends, h.ended k, hn, hstage]
    refine and_congr_right fun _ => ?_
    split
    · next hid => exact iff_of_false (hid ▸ hlive) nofun
    · exact Iff.rfl
  · rw [hstage] at hk
    split at hk
    · exact absurd hk nofun
    · next hne =>
      refine h.since_append hk (fun hm => hne ?_) heq
      exact (Incident.wrote.inj (List.mem_singleton.mp hm)).1
  · rw [hc, ← h.down]
    simp
  · rw [hcount, hp]
    exact h.number (hc ▸ hcl)

theorem Kept.leave (h : Kept ackTimeout given past s) (hlive : s.link.stage? id ≠ none)
    {e : Incident} (he : e.isEndOf id = true) (hsound : s'.link.Sound)
    (ht : s'.link.ackTimeout = s.link.ackTimeout) (hn : s'.nextId = s.nextId)
    (hstage : ∀ k, s'.link.stage? k = if k = id then none else s.link.stage? k)
    (hc : s'.link.closed = s.link.closed) (hp : s'.link.packetSeq = s.link.packetSeq) :
    Kept ackTimeout given (past ++ [e]) s' := by
  -- the event is an end and nothing else
  have hmark : e.isMatch = false ∧ e ≠ .down ∧ ∀ k t x, e ≠ .wrote k t x := by
    cases e <;> simp_all [Incident.isEndOf, Incident.isMatch]
  have hold : ∀ {k stage}, s'.link.stage? k = some stage → s.link.stage? k = some stage := by
    intro k stage hk
    rw [hstage] at hk
    split at hk
    · exact absurd hk nofun
    · exact hk
  refine ⟨hsound, ht.trans h.timeout, hn.trans h.count, fun k hk => ?_,
    fun k f hk => h.queued k f (hold hk), fun k d v hk => ?_, fun k t x hm => ?_, fun k => ?_,
    fun before k t x after heq hk => ?_, ?_, fun hcl => ?_⟩
  · rw [hn]
    obtain ⟨stage, hs⟩ := Option.ne_none_iff_exists'.mp hk
    exact h.known k (Option.ne_none_iff_exists'.mpr ⟨stage, hold hs⟩)
  · obtain ⟨t, x, hm⟩ := h.outstanding k d v (hold hk)
    exact ⟨t, x, List.mem_append_left _ hm⟩
  · rcases List.mem_append.mp hm with hm | hm
    · obtain ⟨hlt, hq, hd⟩ := h.wrote k t x hm
      exact ⟨hn ▸ hlt, fun f hs => hq f (hold hs), fun d v hs => hd d v (hold hs)⟩
    · exact absurd (List.mem_singleton.mp hm).symm (hmark.2.2 k t x)
  · rw [hn, hstage]
    by_cases hid : k = id
    · subst hid
      rw [if_pos rfl]
      exact ⟨fun _ => ⟨h.known k hlive, rfl⟩, fun _ => ⟨e, by simp, he⟩⟩
    · have hother : ∀ x ∈ [e], x.isEndOf k = false := fun x hx => Bool.eq_false_iff.mpr fun hxk =>
        hid (Incident.isEndOf_unique hxk (List.mem_singleton.mp hx ▸ he))
      rw [if_neg hid, ← h.ended k, exists_isEndOf_append hother]
  · have hnew : Incident.wrote k t x ∉ [e] := fun hm =>
      hmark.2.2 k t x (List.mem_singleton.mp hm).symm
    by_cases hid : k = id
    · obtain ⟨rest, -, rfl⟩ := split_of_not_mem heq hnew
      exact ⟨e, by simp, hid ▸ he⟩
    · rw [hstage, if_neg hid] at hk
      exact h.since_append hk hnew heq
  · rw [hc, ← h.down]
    simp [hmark.2.1.symm]
  · rw [List.countP_append, List.countP_singleton, hmark.1, hp]
    exact h.number (hc ▸ hcl)

theorem Kept.pass (h : Kept ackTimeout given past s) {frame : Frame}
    (hq : s.link.stage? id = some (.queued frame)) (hholds : s.link.sendLock.holds id = true)
    (hopen : s.link.closed = false) (time : Nat) (bytes : List UInt8)
    (result : Except Fault Unit) (hsound : s'.link.Sound)
    (ht : s'.link.ackTimeout = s.link.ackTimeout) (hn : s'.nextId = s.nextId)
    (hstage : ∀ k, s'.link.stage? k = if k = id then none else s.link.stage? k)
    (hc : s'.link.closed = s.link.closed) (hp : s'.link.packetSeq = s.link.packetSeq) :
    Kept ackTimeout given (past ++ [.wrote id time bytes, .ended id result]) s' := by
  -- between the two it waits
  let s₁ : Senders := { s with
    link := (s.link.writing id frame).setStage id (.outstanding (time + ackTimeout) none) }
  have hstage₁ : ∀ k, s₁.link.stage? k
      = if k = id then some (.outstanding (time + ackTimeout) none) else s.link.stage? k :=
    fun k => Link.stage?_setStage _ id _ k
  have hwritten : Kept ackTimeout given (past ++ [.wrote id time bytes]) s₁ :=
    h.write hq _ _ (h.sound.outstanding hholds
      (fun k _ d v => h.sound.not_outstanding hq hholds k d v) hopen _ _) rfl rfl hstage₁ rfl rfl
  have hlive : s₁.link.stage? id ≠ none := by simp [hstage₁]
  have hend : (Incident.ended id result).isEndOf id = true := by simp [Incident.isEndOf]
  rw [List.append_cons]
  refine hwritten.leave hlive hend hsound ht hn (fun k => ?_) hc hp
  rw [hstage, hstage₁]
  split <;> rfl

theorem Kept.turn (h : Kept ackTimeout given past s) (id : TaskId) :
    Kept ackTimeout given (past ++ s.incidents (.turn id)) (s.perform (.turn id)) := by
  have hsound : (s.perform (.turn id)).link.Sound := by
    rw [(s.perform_turn id).1]
    exact h.sound.proceed id s.agenda.now
  have hn := (s.perform_turn id).2
  obtain ⟨result, hp, hseen⟩ := s.turn_cases id
  generalize hlink : (s.perform (.turn id)).link = l' at hp hseen
  -- a turn that changes no stage shows nothing
  have hstill : s.incidents (.turn id) = [] → l'.closed = s.link.closed →
      l'.packetSeq = s.link.packetSeq → l'.ackTimeout = s.link.ackTimeout →
      (∀ k, l'.stage? k = s.link.stage? k) →
      Kept ackTimeout given (past ++ s.incidents (.turn id)) (s.perform (.turn id)) := by
    intro hnil hc hseq ht hstage
    rw [hnil, List.append_nil]
    exact h.same hsound (hlink ▸ ht) hn (fun k => hlink ▸ hstage k) (hlink ▸ hc) (hlink ▸ hseq)
  -- a send that is over is seen to end
  have hends : ∀ r, s.incidents (.turn id) = [.ended id r] → s.link.stage? id ≠ none →
      (∀ k, l'.stage? k = if k = id then none else s.link.stage? k) →
      l'.closed = s.link.closed → l'.packetSeq = s.link.packetSeq →
      l'.ackTimeout = s.link.ackTimeout →
      Kept ackTimeout given (past ++ s.incidents (.turn id)) (s.perform (.turn id)) := by
    intro r hone hlive hstage hc hseq ht
    rw [hone]
    exact h.leave hlive (by simp [Incident.isEndOf]) hsound (hlink ▸ ht) hn
      (fun k => hlink ▸ hstage k) (hlink ▸ hc) (hlink ▸ hseq)
  cases hp with
  | gone | behind =>
    exact hstill (by simpa using hseen) rfl rfl rfl fun _ => rfl
  | @waits deadline hs _ =>
    refine hstill (by simpa [Link.setStage] using hseen) rfl rfl rfl fun k => ?_
    rw [Link.stage?_setStage]
    split
    · next hk => exact hk ▸ hs.symm
    · rfl
  | refused hs | settled hs =>
    exact hends _ (by simpa [Link.abort] using hseen) (by simp [hs])
      (fun k => Link.stage?_abort s.link id k) rfl rfl rfl
  | unheard hs | expired hs =>
    exact hends _ (by simpa [Link.abort] using hseen) (by simp [hs])
      (fun k => Link.stage?_abort _ id k) rfl rfl rfl
  | @writes frame hs hh hc ho ht =>
    have hone : s.incidents (.turn id)
        = [.wrote id s.agenda.now (frame.stamp s.link.packetSeq).encode] := by
      simpa [Link.setStage, Link.writing] using hseen
    rw [hone]
    refine h.write hs _ _ hsound (hlink ▸ rfl) hn (fun k => ?_) (hlink ▸ rfl) (hlink ▸ rfl)
    rw [hlink, Link.stage?_setStage, h.timeout]
    rfl
  | @passes frame hs hh hc ho ht =>
    have htwo : s.incidents (.turn id)
        = [.wrote id s.agenda.now (frame.stamp s.link.packetSeq).encode, .ended id (.ok ())] := by
      simpa [Link.abort, Link.writing] using hseen
    rw [htwo]
    refine h.pass hs hh hc _ _ _ hsound (hlink ▸ rfl) hn (fun k => ?_) (hlink ▸ rfl) (hlink ▸ rfl)
    rw [hlink]
    exact Link.stage?_abort _ id k

theorem Kept.arrive (h : Kept ackTimeout given past s) (bytes : List UInt8) :
    Kept ackTimeout given (past ++ s.incidents (.arrive bytes)) (s.perform (.arrive bytes)) := by
  obtain ⟨n, hseen, hsound, hstage, -, hc, ht, hp⟩ := arrive_cases h.sound bytes
  rw [hseen]
  refine h.told (fun e he => Or.inl (List.eq_of_mem_replicate he)) hsound ht rfl (fun k => ?_) ?_
    fun hcl => ?_
  · rw [hstage]
    split
    · exact Or.inl rfl
    · exact Or.inr ⟨_, rfl⟩
  · rw [hc, ← h.down]
    simp [List.mem_replicate]
  · rw [hp, h.number (hc ▸ hcl), List.countP_append, List.countP_replicate]
    have hmatch : Incident.matched.isMatch = true := rfl
    rw [if_pos hmatch, number_add]

theorem Kept.down_of_close (h : Kept ackTimeout given past s) (hlink : s'.link = s.link.close)
    (hn : s'.nextId = s.nextId) : Kept ackTimeout given (past ++ [.down]) s' := by
  refine h.told (fun e he => Or.inr (List.mem_singleton.mp he)) (hlink ▸ h.sound.close)
    (hlink ▸ s.link.close_frame.2.2) hn
    (fun k => Or.inr ⟨.abandoned, hlink ▸ h.sound.close_stage? k⟩) ?_ fun hcl => ?_
  · simp [hlink, Link.close]
  · rw [hlink] at hcl
    exact absurd hcl nofun

theorem Kept.still (h : Kept ackTimeout given past s) (hn : s'.nextId = s.nextId)
    (hs : s'.link.sends = s.link.sends) (hk : s'.link.sendLock = s.link.sendLock)
    (hw : s'.link.waiter = s.link.waiter) (hc : s'.link.closed = s.link.closed)
    (ht : s'.link.ackTimeout = s.link.ackTimeout) (hp : s'.link.packetSeq = s.link.packetSeq) :
    Kept ackTimeout given past s' := by
  have hstage : ∀ k, s'.link.stage? k = s.link.stage? k :=
    fun k => by rw [Link.stage?, hs, Link.stage?]
  exact h.same (h.sound.congr hs hk hw hc) ht hn hstage hc hp

theorem Kept.abort (h : Kept ackTimeout given past s) (id : TaskId) :
    Kept ackTimeout given (past ++ s.incidents (.abort id)) (s.perform (.abort id)) := by
  have hstage : ∀ k, (s.perform (.abort id)).link.stage? k
      = if k = id then none else s.link.stage? k := fun k => Link.stage?_abort s.link id k
  rw [incidents]
  cases hs : s.link.stage? id with
  | some stage =>
    exact h.leave (by simp [hs]) (by simp [Incident.isEndOf]) (h.sound.abort id) rfl rfl hstage
      rfl rfl
  | none =>
    have hnothing : past ++ (if (none : Option SendStage).isSome then [.abandoned id] else [])
        = past := List.append_nil past
    rw [hnothing]
    refine h.same (h.sound.abort id) rfl rfl (fun k => ?_) rfl rfl
    rw [hstage]
    split
    · next hk => exact hk ▸ hs.symm
    · rfl

theorem Kept.perform (h : Kept ackTimeout given past s) (act : Act) :
    Kept ackTimeout (given ++ Senders.given [act]) (past ++ s.incidents act) (s.perform act) := by
  cases act with
  | send frame =>
    rw [incidents, List.append_nil]
    exact h.send frame
  | turn id => exact (List.append_nil given).symm ▸ h.turn id
  | abort id => exact (List.append_nil given).symm ▸ h.abort id
  | arrive bytes => exact (List.append_nil given).symm ▸ h.arrive bytes
  | lose cause => exact (List.append_nil given).symm ▸ h.down_of_close rfl rfl
  | close => exact (List.append_nil given).symm ▸ h.down_of_close rfl rfl
  | dropOutlet | elapse | wake | look =>
    rw [incidents, List.append_nil]
    exact (List.append_nil given).symm ▸ h.still rfl rfl rfl rfl rfl rfl rfl

end

theorem given_append (before after : List Act) :
    given (before ++ after) = given before ++ given after := List.filterMap_append

theorem kept_run (ackTimeout : Nat) (acts : List Act) :
    Kept ackTimeout (given acts) ((new ackTimeout).trace acts) ((new ackTimeout).run acts) := by
  induction acts using List.reverseRecOn with
  | nil => exact kept_new ackTimeout
  | append_singleton acts act ih =>
    have hstep := ih.perform act
    rw [given_append, trace_append, run_append]
    simpa [trace] using hstep

/-- The frame that a send may write after all that was seen: its own, once, while the link is up and
everybody who wrote before is over. -/
structure Rightful (given : List Frame) (past : List Incident) (id : TaskId)
    (bytes : List UInt8) : Prop where
  once : ∀ time other, .wrote id time other ∉ past
  alone : ∀ before k time other after, past = before ++ .wrote k time other :: after →
    ∃ e ∈ after, e.isEndOf k = true
  up : .down ∉ past
  numbered : ∃ frame written, given[id]? = some frame
    ∧ written = frame.stamp (number (past.countP Incident.isMatch)) ∧ bytes = written.encode
    ∧ written.header.crc8 = written.header.expectedCrc8
    ∧ written.header.flags.packetSeq = number (past.countP Incident.isMatch)

section

variable {ackTimeout : Nat} {given : List Frame} {past : List Incident}

theorem wrote_of_mem_incidents {act : Act} {time : Nat} {bytes : List UInt8}
    (hm : .wrote id time bytes ∈ s.incidents act) :
    ∃ frame rest, s.link.stage? id = some (.queued frame) ∧ s.link.sendLock.holds id = true
      ∧ s.link.closed = false ∧ bytes = (frame.stamp s.link.packetSeq).encode
      ∧ s.incidents act = .wrote id time bytes :: rest ∧ (∀ k t x, .wrote k t x ∉ rest)
      ∧ (s.link.ackTimeout = 0 → rest = [.ended id (.ok ())]) := by
  cases act with
  | turn k =>
    obtain ⟨result, hp, hseen⟩ := s.turn_cases k
    generalize (s.perform (.turn k)).link = l' at hp hseen
    -- of all ways to go on only two write
    cases hp with
    | gone | behind | refused | unheard | settled | expired | waits =>
      rw [hseen] at hm
      simp [Link.abort, Link.setStage] at hm
    | @writes frame hs hh hc _ ht =>
      have hone : s.incidents (.turn k)
          = [.wrote k s.agenda.now (frame.stamp s.link.packetSeq).encode] := by
        simpa [Link.setStage, Link.writing] using hseen
      rw [hone] at hm ⊢
      obtain ⟨rfl, rfl, rfl⟩ := Incident.wrote.inj (List.mem_singleton.mp hm)
      exact ⟨frame, [], hs, hh, hc, rfl, rfl, fun _ _ _ => List.not_mem_nil,
        fun hzero => absurd hzero (Nat.ne_of_gt ht)⟩
    | @passes frame hs hh hc _ _ =>
      have htwo : s.incidents (.turn k)
          = [.wrote k s.agenda.now (frame.stamp s.link.packetSeq).encode, .ended k (.ok ())] := by
        simpa [Link.abort, Link.writing] using hseen
      rw [htwo] at hm ⊢
      obtain ⟨rfl, rfl, rfl⟩ : id = k ∧ time = s.agenda.now
          ∧ bytes = (frame.stamp s.link.packetSeq).encode := by simpa using hm
      exact ⟨frame, _, hs, hh, hc, rfl, rfl, by simp, fun _ => rfl⟩
  | arrive bytes' =>
    obtain ⟨n, hn⟩ : ∃ n, s.incidents (.arrive bytes') = List.replicate n .matched := ⟨_, rfl⟩
    rw [hn] at hm
    cases List.eq_of_mem_replicate hm
  | abort k =>
    rw [incidents] at hm
    split at hm <;> simp at hm
  | lose | close => cases List.mem_singleton.mp hm
  | send | dropOutlet | elapse | wake | look => exact absurd hm List.not_mem_nil

theorem Kept.rightful (h : Kept ackTimeout given past s) {act : Act} {before after : List Incident}
    {time : Nat} {bytes : List UInt8}
    (hseen : s.incidents act = before ++ .wrote id time bytes :: after) :
    Rightful given (past ++ before) id bytes := by
  have hm : Incident.wrote id time bytes ∈ s.incidents act :=
    hseen ▸ List.mem_append_right _ List.mem_cons_self
  obtain ⟨frame, rest, hs, hh, hc, hbytes, hfirst, hrest, -⟩ := wrote_of_mem_incidents hm
  -- nothing is seen of the act before the write
  have hnil : before = [] := by
    cases before with
    | nil => rfl
    | cons e before =>
      obtain ⟨-, hrest'⟩ := List.cons.inj (hfirst.symm.trans hseen)
      exact absurd (hrest' ▸ List.mem_append_right _ List.mem_cons_self) (hrest id time bytes)
  rw [hnil, List.append_nil]
  refine ⟨fun t x hx => (h.wrote id t x hx).2.1 frame hs, fun b k t x a hpast => ?_,
    fun hdown => ?_, frame, frame.stamp s.link.packetSeq, h.queued id frame hs, ?_, hbytes, rfl, ?_⟩
  · have hk := h.wrote k t x (hpast ▸ List.mem_append_right _ List.mem_cons_self)
    refine h.since b k t x a hpast ?_
    cases hstage : s.link.stage? k with
    | none => rfl
    | some stage =>
      cases stage with
      | queued f => exact absurd hstage (hk.2.1 f)
      | outstanding d v => exact absurd hstage (h.sound.not_outstanding hs hh k d v)
  · exact absurd (hc.symm.trans (h.down.mp hdown)) nofun
  · rw [h.number hc]
  · rw [← h.number hc, Frame.stamp, FrameHeader.sealed, Flags.packetSeq_withPacketSeq, h.number hc,
      number_and_three]

theorem Rightful.append {bytes : List UInt8} (h : Rightful given past id bytes)
    (more : List Frame) : Rightful (given ++ more) past id bytes := by
  obtain ⟨frame, written, hframe, hwritten⟩ := h.numbered
  refine ⟨h.once, h.alone, h.up, frame, written, ?_, hwritten⟩
  rwa [List.getElem?_append_left (List.getElem?_eq_some_iff.mp hframe).1]

theorem rightful_run (ackTimeout : Nat) (acts : List Act) {before after : List Incident}
    {time : Nat} {bytes : List UInt8}
    (h : (new ackTimeout).trace acts = before ++ .wrote id time bytes :: after) :
    Rightful (Senders.given acts) before id bytes := by
  induction acts using List.reverseRecOn generalizing after with
  | nil => exact absurd h (by simp [trace])
  | append_singleton acts act ih =>
    rw [given_append]
    rw [trace_append] at h
    refine Rightful.append ?_ _
    rcases append_eq_split h with ⟨rest, hpast, -⟩ | ⟨front, rfl, hnew⟩
    · exact ih hpast
    · exact (kept_run ackTimeout acts).rightful (by simpa [trace] using hnew)

end

end Senders

end NcpHost
