import Mathlib.Data.List.Chain
import Mathlib.Data.List.Sort
import NcpHost.Proofs.Link.History

/-! Acknowledgements, and the frames that they are for. The link compares numbers and does not ask
whether a frame is out, so whoever sends it the number of its next frame makes it go on. How many
acknowledgements had counted when a frame was written is the tally of that frame: tallies never fall,
and the number of a frame is that of its tally. Hence only frames that are out are acknowledged if,
and only if, the acknowledgements that count are, in order, for some of the frames written; and so it
is with a peer that acknowledges frames in order and none of them twice. -/

namespace NcpHost

def Frame.ackSeqs (frames : List Frame) : List UInt8 :=
  (frames.filter (·.isAck)).map (·.header.flags.ackSeq)

theorem Frame.ackSeqs_append (before after : List Frame) :
    ackSeqs (before ++ after) = ackSeqs before ++ ackSeqs after := by
  rw [ackSeqs, List.filter_append, List.map_append]
  rfl

theorem Link.expected_sublist (frames : List Frame) {l : Link} {n : Nat}
    (hl : l.packetSeq = Senders.number n) :
    ((List.range' n (l.expected frames)).map Senders.number).Sublist (Frame.ackSeqs frames) := by
  induction frames generalizing l n with
  | nil => exact List.Sublist.refl _
  | cons frame rest ih =>
    have hnext := (l.accept_keeps frame).2.2.2
    rw [expected]
    cases he : l.expects frame with
    | true =>
      obtain ⟨hack, hseq⟩ : frame.isAck = true ∧ frame.header.flags.ackSeq = l.packetSeq := by
        simpa [expects] using he
      have hrest := ih (n := n + 1) (by rw [hnext, he, hl, Senders.number_succ]; rfl)
      have hfirst : Frame.ackSeqs (frame :: rest) = Senders.number n :: Frame.ackSeqs rest := by
        simp [Frame.ackSeqs, hack, hseq, hl]
      rw [if_pos rfl, Nat.add_comm, List.range'_succ, hfirst]
      exact hrest.cons_cons _
    | false =>
      have hrest := ih (n := n) (by rw [hnext, he, hl]; rfl)
      rw [if_neg Bool.false_ne_true, Nat.zero_add]
      exact hrest.trans (((List.sublist_cons_self frame rest).filter _).map _)

namespace Senders

def carried (bytes : List UInt8) : UInt8 := (Flags.mk (bytes.getD 5 0)).packetSeq

def writtenSeqs (seen : List Incident) : List UInt8 := seen.filterMap fun
  | .wrote _ _ bytes => some (carried bytes)
  | _ => none

/-- The numbers of the acknowledgements that count. -/
def countedSeqs (seen : List Incident) : List UInt8 :=
  (List.range (seen.countP Incident.isMatch)).map number

/-- A frame of this number is written, and no acknowledgement has counted since. -/
def Outstanding (seen : List Incident) (seq : UInt8) : Prop :=
  ∃ before id time bytes after, seen = before ++ .wrote id time bytes :: after
    ∧ carried bytes = seq ∧ .matched ∉ after

/-- Only frames that are out are acknowledged, each of them once, and so no number is left out. -/
structure Faithful (seen : List Incident) : Prop where
  outstanding : ∀ before after, seen = before ++ .matched :: after →
    Outstanding before (number (before.countP Incident.isMatch))
  once : seen.countP Incident.isMatch ≤ (writtenSeqs seen).length
  successive : (writtenSeqs seen).IsChain fun a b => b = a ∨ b = Link.nextSeq a

theorem carried_encode (f : Frame) : carried f.encode = f.header.flags.packetSeq := by
  cases hp : f.packet <;>
    simp [carried, Frame.encode, FrameHeader.encode, FrameHeader.checked, LittleEndian.bytes, hp]

/-- How many acknowledgements had counted when each frame was written, with `n` of them before. -/
def tallies (n : Nat) : List Incident → List Nat
  | [] => []
  | .wrote .. :: rest => n :: tallies n rest
  | .matched :: rest => tallies (n + 1) rest
  | _ :: rest => tallies n rest

theorem tallies_append (n : Nat) (before after : List Incident) :
    tallies n (before ++ after)
      = tallies n before ++ tallies (n + before.countP Incident.isMatch) after := by
  induction before generalizing n with
  | nil => rfl
  | cons e rest ih =>
    have hcount : (e :: rest).countP Incident.isMatch
        = [e].countP Incident.isMatch + rest.countP Incident.isMatch := by
      rw [← List.singleton_append, List.countP_append]
    rw [hcount, ← Nat.add_assoc]
    cases e <;> simp [tallies, ih, Incident.isMatch]

theorem mem_tallies {n m : Nat} {seen : List Incident} :
    m ∈ tallies n seen ↔ ∃ before id time bytes after,
      seen = before ++ .wrote id time bytes :: after ∧ m = n + before.countP Incident.isMatch := by
  constructor
  · intro hm
    induction seen generalizing n with
    | nil => exact absurd hm List.not_mem_nil
    | cons e rest ih =>
      rw [← List.singleton_append, tallies_append] at hm
      rcases List.mem_append.mp hm with hm | hm
      · cases e with
        | wrote id time bytes =>
          exact ⟨[], id, time, bytes, rest, rfl, List.mem_singleton.mp hm⟩
        | _ => exact absurd hm List.not_mem_nil
      · obtain ⟨before, id, time, bytes, after, rfl, rfl⟩ := ih hm
        refine ⟨e :: before, id, time, bytes, after, rfl, ?_⟩
        rw [Nat.add_assoc, ← List.countP_append, List.singleton_append]
  · rintro ⟨before, id, time, bytes, after, rfl, rfl⟩
    rw [tallies_append]
    exact List.mem_append_right _ List.mem_cons_self

theorem tallies_pairwise (n : Nat) (seen : List Incident) :
    (tallies n seen).Pairwise (· ≤ ·) := by
  induction seen generalizing n with
  | nil => exact List.Pairwise.nil
  | cons e rest ih =>
    cases e with
    | wrote id time bytes =>
      refine List.Pairwise.cons (fun m hm => ?_) (ih n)
      obtain ⟨-, -, -, -, -, -, rfl⟩ := mem_tallies.mp hm
      exact Nat.le_add_right _ _
    | matched => exact ih (n + 1)
    | _ => exact ih n

theorem le_of_mem_tallies {m : Nat} {seen : List Incident} (h : m ∈ tallies 0 seen) :
    m ≤ seen.countP Incident.isMatch := by
  obtain ⟨before, id, time, bytes, after, rfl, rfl⟩ := mem_tallies.mp h
  rw [List.countP_append, Nat.zero_add]
  exact Nat.le_add_right _ _

def Numbered (seen : List Incident) : Prop :=
  ∀ before id time bytes after, seen = before ++ .wrote id time bytes :: after →
    carried bytes = number (before.countP Incident.isMatch)

theorem Numbered.writtenSeqs_eq {seen : List Incident} (h : Numbered seen) :
    writtenSeqs seen = (tallies 0 seen).map number := by
  induction seen using List.reverseRecOn with
  | nil => rfl
  | append_singleton past e ih =>
    have hpast : Numbered past := by
      rintro before id time bytes after rfl
      exact h before id time bytes (after ++ [e]) (by simp)
    have hsplit : writtenSeqs (past ++ [e]) = writtenSeqs past ++ writtenSeqs [e] :=
      List.filterMap_append
    rw [hsplit, tallies_append, ih hpast, List.map_append]
    congr 1
    cases e with
    | wrote id time bytes =>
      have hlast := h past id time bytes [] rfl
      simp [writtenSeqs, tallies, hlast]
    | _ => rfl

theorem countP_matched (before after : List Incident) :
    (before ++ .matched :: after).countP Incident.isMatch
      = before.countP Incident.isMatch + 1 + after.countP Incident.isMatch := by
  have hone : Incident.matched.isMatch = true := rfl
  rw [List.countP_append, List.countP_cons, if_pos hone]
  omega

theorem Numbered.outstanding_iff {seen before after : List Incident} (h : Numbered seen)
    (hseen : seen = before ++ .matched :: after) :
    Outstanding before (number (before.countP Incident.isMatch))
      ↔ before.countP Incident.isMatch ∈ tallies 0 seen := by
  rw [mem_tallies]
  constructor
  · rintro ⟨earlier, id, time, bytes, since, rfl, -, hnone⟩
    refine ⟨earlier, id, time, bytes, since ++ .matched :: after, by simp [hseen], ?_⟩
    have hsince : since.countP Incident.isMatch = 0 := by
      refine List.countP_eq_zero.mpr fun e he hm => ?_
      cases e with
      | matched => exact hnone he
      | _ => exact Bool.false_ne_true hm
    simp [Incident.isMatch, hsince]
  · rintro ⟨earlier, id, time, bytes, rest, hsplit, hcount⟩
    have hnumber := h earlier id time bytes rest hsplit
    rw [Nat.zero_add] at hcount
    rcases append_eq_split (hseen.symm.trans hsplit) with ⟨since, rfl, -⟩ | ⟨front, rfl, hfront⟩
    · refine ⟨earlier, id, time, bytes, since, rfl, hnumber.trans (congrArg number hcount.symm), ?_⟩
      intro hm
      have hpos : 0 < since.countP Incident.isMatch := List.countP_pos_iff.mpr ⟨_, hm, rfl⟩
      rw [List.countP_append, List.countP_cons] at hcount
      omega
    · -- a frame behind the acknowledgement has a higher tally
      cases front with
      | nil => simp at hfront
      | cons e front =>
        obtain ⟨rfl, -⟩ := List.cons.inj hfront
        rw [countP_matched] at hcount
        omega

theorem toNat_number (n : Nat) : (number n).toNat = if n = 0 then 0 else (n - 1) % 3 + 1 := by
  unfold number
  split
  · rfl
  · rw [Nat.toUInt8_eq, UInt8.toNat_ofNat']
    omega

theorem eq_or_apart_of_number_eq {m n : Nat} (h : number m = number n) :
    m = n ∨ m + 3 ≤ n ∨ n + 3 ≤ m := by
  have hnat := congrArg UInt8.toNat h
  rw [toNat_number, toNat_number] at hnat
  split at hnat <;> split at hnat <;> omega

theorem rising_of_numbers {ks : List Nat} (hks : ks.Pairwise (· ≤ ·))
    (h : ∀ i (hi : i < ks.length), number ks[i] = number i) : ks.Pairwise (· < ·) := by
  rw [← List.isChain_iff_pairwise, List.isChain_iff_getElem]
  intro i hi
  have hstep := List.pairwise_iff_getElem.mp hks i (i + 1) (by omega) hi (by omega)
  refine Nat.lt_of_le_of_ne hstep fun heq => ?_
  have hsame := (h i (by omega)).symm.trans ((congrArg number heq).trans (h (i + 1) hi))
  have := eq_or_apart_of_number_eq hsame
  omega

theorem le_getElem_of_rising {ks : List Nat} (hks : ks.Pairwise (· < ·)) {i : Nat}
    (hi : i < ks.length) : i ≤ ks[i] := by
  induction i with
  | zero => exact Nat.zero_le _
  | succ i ih =>
    have := ih (by omega)
    have := List.pairwise_iff_getElem.mp hks i (i + 1) (by omega) hi (by omega)
    omega

theorem getElem_le_of_rising {ks : List Nat} {n : Nat} (hks : ks.Pairwise (· < ·))
    (hle : ∀ k ∈ ks, k ≤ n) {d i : Nat} (hd : i + d + 1 = ks.length) : ks[i] + d ≤ n := by
  induction d generalizing i with
  | zero => exact hle _ (List.getElem_mem _)
  | succ d ih =>
    have := ih (i := i + 1) (by omega)
    have := List.pairwise_iff_getElem.mp hks i (i + 1) (by omega) (by omega) (by omega)
    omega

theorem eq_range_of_numbers {ks : List Nat} (hks : ks.Pairwise (· ≤ ·))
    (hle : ∀ k ∈ ks, k ≤ ks.length) (h : ks.map number = (List.range ks.length).map number) :
    ks = List.range ks.length := by
  have hnumber : ∀ i (hi : i < ks.length), number ks[i] = number i := by
    intro i hi
    simpa [hi] using congrArg (·[i]?) h
  have hrising := rising_of_numbers hks hnumber
  refine List.ext_getElem (by simp) fun i hi _ => ?_
  rw [List.getElem_range]
  -- between `i` and the tally behind it, only `i` has the number
  have := le_getElem_of_rising hrising hi
  have := getElem_le_of_rising (d := ks.length - 1 - i) hrising hle (i := i) (by omega)
  have := eq_or_apart_of_number_eq (hnumber i hi)
  omega

theorem numbers_sublist_iff {ms : List Nat} {n : Nat} (hms : ms.Pairwise (· ≤ ·))
    (hle : ∀ m ∈ ms, m ≤ n) :
    ((List.range n).map number).Sublist (ms.map number) ↔ ∀ i < n, i ∈ ms := by
  constructor
  · intro hsub
    obtain ⟨ks, hks, heq⟩ := List.sublist_map_iff.mp hsub
    obtain rfl : n = ks.length := by simpa using congrArg List.length heq
    have hall := eq_range_of_numbers (hms.sublist hks) (fun k hk => hle k (hks.subset hk)) heq.symm
    intro i hi
    refine hks.subset ?_
    rw [hall]
    exact List.mem_range.mpr hi
  · intro hall
    refine List.Sublist.map number ?_
    refine List.sublist_of_subperm_of_pairwise ?_ ?_ hms
    · exact List.subperm_of_subset List.nodup_range fun i hi => hall i (List.mem_range.mp hi)
    · exact List.pairwise_lt_range.imp Nat.le_of_lt

theorem isChain_of_none_left_out {ms : List Nat} {n : Nat} (hms : ms.Pairwise (· ≤ ·))
    (hle : ∀ m ∈ ms, m ≤ n) (hall : ∀ i < n, i ∈ ms) :
    ms.IsChain fun a b => b = a ∨ b = a + 1 := by
  rw [List.isChain_iff_forall_rel_of_append_cons_cons]
  rintro a b before after rfl
  by_contra hne
  obtain ⟨-, hback, hbefore⟩ := List.pairwise_append.mp hms
  obtain ⟨ha, hb⟩ := List.pairwise_cons.mp hback
  have hab := ha b List.mem_cons_self
  have hbn := hle b (by simp)
  -- the tally behind that of `a` is in front of `a` and so below it, or behind `b` and so above it
  rcases List.mem_append.mp (hall (a + 1) (by omega)) with hm | hm
  · have := hbefore _ hm a List.mem_cons_self
    omega
  · rcases List.mem_cons.mp hm with hm | hm
    · omega
    · rcases List.mem_cons.mp hm with hm | hm
      · omega
      · have := (List.pairwise_cons.mp hb).1 _ hm
        omega

theorem exists_match_of_lt {seen : List Incident} {i : Nat}
    (hi : i < seen.countP Incident.isMatch) :
    ∃ before after, seen = before ++ .matched :: after ∧ before.countP Incident.isMatch = i := by
  induction seen using List.reverseRecOn with
  | nil => exact absurd hi (Nat.not_lt_zero _)
  | append_singleton past e ih =>
    by_cases hpast : i < past.countP Incident.isMatch
    · obtain ⟨before, after, rfl, hcount⟩ := ih hpast
      exact ⟨before, after ++ [e], by simp, hcount⟩
    · rw [List.countP_append, List.countP_singleton] at hi
      cases e with
      | matched =>
        refine ⟨past, [], rfl, ?_⟩
        have hone : Incident.matched.isMatch = true := rfl
        rw [if_pos hone] at hi
        omega
      | _ => exact absurd hi hpast

theorem Numbered.sublist_iff {seen : List Incident} (h : Numbered seen) :
    (countedSeqs seen).Sublist (writtenSeqs seen)
      ↔ ∀ i < seen.countP Incident.isMatch, i ∈ tallies 0 seen := by
  rw [h.writtenSeqs_eq]
  exact numbers_sublist_iff (tallies_pairwise 0 seen) fun m => le_of_mem_tallies

theorem Numbered.faithful_iff {seen : List Incident} (h : Numbered seen) :
    Faithful seen ↔ (countedSeqs seen).Sublist (writtenSeqs seen) := by
  constructor
  · refine fun hfaithful => h.sublist_iff.mpr fun i hi => ?_
    obtain ⟨before, after, hseen, rfl⟩ := exists_match_of_lt hi
    exact (h.outstanding_iff hseen).mp (hfaithful.outstanding before after hseen)
  · intro hsub
    have hall := h.sublist_iff.mp hsub
    refine ⟨fun before after hseen => ?_, ?_, ?_⟩
    · refine (h.outstanding_iff hseen).mpr (hall _ ?_)
      rw [hseen, countP_matched]
      omega
    · simpa [countedSeqs] using hsub.length_le
    · rw [h.writtenSeqs_eq, List.isChain_map]
      refine (isChain_of_none_left_out (tallies_pairwise 0 seen) (fun m => le_of_mem_tallies)
        hall).imp fun a b hab => ?_
      rcases hab with rfl | rfl
      · exact Or.inl rfl
      · exact Or.inr (number_succ a)

section

variable {ackTimeout : Nat} {acts : List Act}

theorem numbered_trace (ackTimeout : Nat) (acts : List Act) :
    Numbered ((new ackTimeout).trace acts) := by
  intro before id time bytes after hseen
  obtain ⟨frame, written, -, -, rfl, -, hseq⟩ := (rightful_run ackTimeout acts hseen).numbered
  rw [carried_encode, hseq]

theorem closed_of_append {acts' : List Act}
    (hopen : ((new ackTimeout).run (acts ++ acts')).link.closed = false) :
    ((new ackTimeout).run acts).link.closed = false := by
  refine Bool.eq_false_iff.mpr fun hclosed => ?_
  have hdown := (kept_run ackTimeout acts).down.mpr hclosed
  have hlater := (kept_run ackTimeout (acts ++ acts')).down.mp
    (by rw [trace_append]; exact List.mem_append_left _ hdown)
  exact Bool.false_ne_true (hopen.symm.trans hlater)

theorem expected_sublist_takenBy {s : Senders} {n : Nat} (hs : s.link.packetSeq = number n)
    (act : Act) :
    ((List.range' n ((s.incidents act).countP Incident.isMatch)).map number).Sublist
      (Frame.ackSeqs (s.takenBy act)) := by
  cases act with
  | arrive bytes =>
    have hmatch : Incident.matched.isMatch = true := rfl
    rw [incidents, List.countP_replicate, if_pos hmatch]
    exact Link.expected_sublist (l := (s.link.extract bytes).1) _ hs
  | turn id =>
    have hnone : (s.incidents (.turn id)).countP Incident.isMatch = 0 := by
      rw [incidents_turn, List.countP_append, List.countP_map, List.countP_map]
      simp [Function.comp_def, Incident.isMatch]
    rw [hnone]
    exact List.nil_sublist _
  | abort id =>
    have hnone : (s.incidents (.abort id)).countP Incident.isMatch = 0 := by
      rw [incidents]
      split <;> rfl
    rw [hnone]
    exact List.nil_sublist _
  | _ => exact List.nil_sublist _

theorem countedSeqs_sublist (hopen : ((new ackTimeout).run acts).link.closed = false) :
    (countedSeqs ((new ackTimeout).trace acts)).Sublist
      (Frame.ackSeqs ((new ackTimeout).collect takenBy acts)) := by
  induction acts using List.reverseRecOn with
  | nil => exact List.Sublist.refl _
  | append_singleton acts act ih =>
    have hbefore := closed_of_append hopen
    have hseq := (kept_run ackTimeout acts).number hbefore
    have hlast := expected_sublist_takenBy hseq act
    rw [List.range'_eq_map_range] at hlast
    rw [countedSeqs, trace_append, collect_append, List.countP_append, List.range_add, List.map_append,
      Frame.ackSeqs_append]
    refine (ih hbefore).append ?_
    simpa [trace, collect] using hlast

/-- Whatever acknowledgements arrive at an open link, each one of its number makes it go on, and the
next frame carries the number of all that have. For all of them a frame was out, exactly if they are
for some of the frames written, in order; as they are for a peer that acknowledges frames in order and
none twice. -/
theorem faithful_iff_countedSeqs (ackTimeout : Nat) (acts : List Act)
    (hopen : ((new ackTimeout).run acts).link.closed = false) :
    let seen := (new ackTimeout).trace acts
    ((new ackTimeout).run acts).link.packetSeq = number (seen.countP Incident.isMatch)
      ∧ Numbered seen
      ∧ (Faithful seen ↔ (countedSeqs seen).Sublist (writtenSeqs seen))
      ∧ ((Frame.ackSeqs ((new ackTimeout).collect takenBy acts)).Sublist (writtenSeqs seen) →
        Faithful seen) := by
  intro seen
  have hnumbered : Numbered seen := numbered_trace ackTimeout acts
  have hiff := hnumbered.faithful_iff
  exact ⟨(kept_run ackTimeout acts).number hopen, hnumbered, hiff,
    fun h => hiff.mpr ((countedSeqs_sublist hopen).trans h)⟩

/-- A peer that repeats itself, and is late for a frame that nobody waits for any more, does no harm.
One that acknowledges frame 1 before there is any makes the link leave that number out. -/
theorem faithful_iff_countedSeqs_two_peers :
    let f : Frame := .single (.ofHeader (.of .request 1) [1])
    let ack := fun seq => Act.arrive (Frame.ack seq false).encode
    let seen := (new 1000).trace
    let late := [.send f, .turn 0, ack 0, .turn 0, .send f, .turn 1, ack 0, .elapse 1000, .turn 1,
      ack 1, .send f, .turn 2]
    let early := [.send f, .turn 0, ack 0, .turn 0, ack 1, .send f, .turn 1]
    Faithful (seen late) ∧ writtenSeqs (seen late) = [0, 1, 2]
      ∧ ¬Faithful (seen early) ∧ writtenSeqs (seen early) = [0, 2] := by
  intro f ack seen late early
  have hlate := faithful_iff_countedSeqs 1000 late (by decide +kernel)
  have hearly := faithful_iff_countedSeqs 1000 early (by decide +kernel)
  have hwritten : writtenSeqs (seen late) = [0, 1, 2] := by decide +kernel
  have hskipped : writtenSeqs (seen early) = [0, 2] := by decide +kernel
  have hcounted : countedSeqs (seen late) = [0, 1] := by decide +kernel
  have hcounted' : countedSeqs (seen early) = [0, 1] := by decide +kernel
  refine ⟨hlate.2.2.1.mpr ?_, hwritten, fun h => ?_, hskipped⟩
  · show (countedSeqs (seen late)).Sublist (writtenSeqs (seen late))
    rw [hcounted, hwritten]
    decide
  · have hsub := hearly.2.2.1.mp h
    change (countedSeqs (seen early)).Sublist (writtenSeqs (seen early)) at hsub
    rw [hcounted', hskipped] at hsub
    exact absurd hsub (by decide)

end

end Senders

end NcpHost
