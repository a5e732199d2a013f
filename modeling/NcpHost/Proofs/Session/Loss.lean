import NcpHost.Proofs.Session.Reception

/-! Packets over a line that loses frames. Collecting goes by the marks alone, so a fragment that is
missing is not missed. A packet that arrives whole is completed as it was sent, whatever was lost
before, and one without its last fragment is not completed. Where a last fragment arrives without all
the others, what it completes is a run of frames as they arrived, and need not have been sent. -/

namespace NcpHost.Session

theorem collect_suffix (fragments : List Frame) (frame : Frame) :
    (collect fragments frame).1 <:+ fragments ++ [frame]
      ∧ ∀ q, (collect fragments frame).2 = some q →
        ∃ kept, kept <:+ fragments ++ [frame] ∧ Fragment.joined? kept = some q.body := by
  obtain ⟨earlier, hearlier⟩ :
      ∃ earlier, (if frame.header.flags.isFirst then [] else fragments) = earlier := ⟨_, rfl⟩
  have hall : earlier ++ [frame] <:+ fragments ++ [frame] := by
    rw [← hearlier]
    split
    · exact List.suffix_append fragments [frame]
    · exact List.suffix_refl _
  simp only [collect, hearlier]
  split
  · exact ⟨hall, fun q hq => absurd hq (by simp)⟩
  · split
    · refine ⟨List.nil_suffix, fun q hq => ⟨[frame], List.suffix_append fragments [frame], ?_⟩⟩
      simp only [Fragment.joined?, show frame.packet = some q from hq, List.append_nil]
    · refine ⟨List.nil_suffix, fun q hq => ⟨earlier ++ [frame], hall, ?_⟩⟩
      cases hmerge : Fragment.merge (earlier ++ [frame]) with
      | error fault => simp [hmerge, Except.toOption] at hq
      | ok merged =>
        rw [hmerge] at hq
        obtain rfl : merged = q := Option.some.inj hq
        exact Fragment.joined?_of_merge hmerge

theorem collectAll_suffix (fragments frames : List Frame) :
    (collectAll fragments frames).1 <:+ fragments ++ frames := by
  induction frames generalizing fragments with
  | nil => simp [collectAll]
  | cons frame rest ih =>
    obtain ⟨dropped, hd⟩ := (collect_suffix fragments frame).1
    have hrest : (collect fragments frame).1 ++ rest <:+ fragments ++ [frame] ++ rest :=
      ⟨dropped, by rw [← List.append_assoc, hd]⟩
    rw [List.append_assoc, List.singleton_append] at hrest
    exact (ih (collect fragments frame).1).trans hrest

theorem mem_collectAll {fragments frames : List Frame} {q : Packet}
    (h : q ∈ (collectAll fragments frames).2) :
    ∃ kept, kept <:+: fragments ++ frames ∧ Fragment.joined? kept = some q.body := by
  induction frames generalizing fragments with
  | nil => exact absurd h List.not_mem_nil
  | cons frame rest ih =>
    obtain ⟨hleft, hcompleted⟩ := collect_suffix fragments frame
    rw [← List.singleton_append, ← List.append_assoc]
    rcases List.mem_append.mp h with hnow | hlater
    · obtain ⟨kept, hk, hj⟩ := hcompleted q (Option.mem_toList.mp hnow)
      exact ⟨kept, hk.isInfix.trans (List.prefix_append _ _).isInfix, hj⟩
    · obtain ⟨kept, hk, hj⟩ := ih hlater
      obtain ⟨dropped, hd⟩ := hleft
      have hrest : (collect fragments frame).1 ++ rest <:+ fragments ++ [frame] ++ rest :=
        ⟨dropped, by rw [← List.append_assoc, hd]⟩
      exact ⟨kept, hk.trans hrest.isInfix, hj⟩

theorem collectAll_of_not_last {frames : List Frame}
    (h : ∀ f ∈ frames, f.header.flags.isLast = false) (fragments : List Frame) :
    (collectAll fragments frames).2 = [] := by
  induction frames generalizing fragments with
  | nil => rfl
  | cons frame rest ih =>
    simp only [collectAll, collect_of_not_last fragments (h frame List.mem_cons_self),
      ih (fun f hf => h f (List.mem_cons_of_mem _ hf)), Option.toList_none, List.append_nil]

/-- A packet on its way over the line: its fragments, under some numbers, and those that arrive. -/
structure Passage where
  packet : Packet
  maxBody : Nat
  frames : List Frame
  arrived : List Frame
  opens : packet.header.isSome = true
  stamped : List.Forall₂ Frame.StampOf (Fragment.split packet maxBody) frames
  survived : arrived.Sublist frames

namespace Passage

def whole (t : Passage) : Bool := t.arrived == t.frames

def ended (t : Passage) : Bool := t.arrived.any (·.header.flags.isLast)

/-- What may be completed while the fragments arrive. -/
def Yields (t : Passage) (outcome : Option Packet) : Prop :=
  (t.whole = true → outcome = some t.packet) ∧ (t.ended = false → outcome = none)

theorem arrived_cases (t : Passage) :
    ∃ before last, t.arrived = before ++ last ∧ last.length ≤ 1
      ∧ ∀ f ∈ before, f.header.flags.isLast = false := by
  have hlast := completeLast_split t.stamped
  rw [CompleteLast] at hlast
  have hsub := t.survived
  rcases List.eq_nil_or_concat t.frames with hnil | ⟨init, f, hcat⟩
  · rw [hnil, List.sublist_nil] at hsub
    exact ⟨[], [], hsub, Nat.zero_le 1, fun f hf => absurd hf List.not_mem_nil⟩
  · rw [List.concat_eq_append] at hcat
    rw [hcat] at hsub hlast
    rw [List.dropLast_concat] at hlast
    obtain ⟨before, last, hcut, hbefore, hone⟩ := List.sublist_append_iff.mp hsub
    exact ⟨before, last, hcut, hone.length_le, fun g hg => hlast g (hbefore.subset hg)⟩

theorem collectAll_arrived (fragments : List Frame) (t : Passage) :
    ∃ outcome, t.Yields outcome ∧ (collectAll fragments t.arrived).2 = outcome.toList := by
  obtain ⟨outcome, ho⟩ : ∃ outcome : Option Packet,
      (collectAll fragments t.arrived).2 = outcome.toList := by
    obtain ⟨before, last, hcut, hone, hbefore⟩ := t.arrived_cases
    rw [hcut, collectAll_append, collectAll_of_not_last hbefore, List.nil_append]
    match last, hone with
    | [], _ => exact ⟨none, rfl⟩
    | [f], _ => exact ⟨_, List.append_nil _⟩
  refine ⟨outcome, ⟨fun hwhole => ?_, fun hended => ?_⟩, ho⟩
  · rw [beq_iff_eq.mp hwhole, collectAll_split t.opens t.stamped] at ho
    cases outcome with
    | none => simp at ho
    | some q => simpa using ho.symm
  · have hnone : ∀ f ∈ t.arrived, f.header.flags.isLast = false := by
      simpa [ended] using hended
    rw [collectAll_of_not_last hnone] at ho
    cases outcome with
    | none => rfl
    | some q => simp at ho

theorem collectAll_flatMap (fragments : List Frame) (passages : List Passage) :
    ∃ outcomes, List.Forall₂ Yields passages outcomes
      ∧ (collectAll fragments (passages.flatMap (·.arrived))).2
        = outcomes.flatMap Option.toList := by
  induction passages generalizing fragments with
  | nil => exact ⟨[], .nil, rfl⟩
  | cons t rest ih =>
    obtain ⟨outcome, hyields, hone⟩ := collectAll_arrived fragments t
    obtain ⟨outcomes, hothers, hrest⟩ := ih (collectAll fragments t.arrived).1
    refine ⟨outcome :: outcomes, .cons hyields hothers, ?_⟩
    rw [List.flatMap_cons, collectAll_append, hone, hrest, List.flatMap_cons]

theorem outcomes_eq {passages : List Passage} {outcomes : List (Option Packet)}
    (h : List.Forall₂ Yields passages outcomes)
    (hended : ∀ t ∈ passages, t.ended = true → t.whole = true) :
    outcomes.flatMap Option.toList = (passages.filter (·.whole)).map (·.packet) := by
  induction h with
  | nil => rfl
  | @cons t outcome passages outcomes hyields _ ih =>
    rw [List.flatMap_cons, ih fun u hu => hended u (List.mem_cons_of_mem _ hu)]
    cases hwhole : t.whole with
    | true => rw [hyields.1 hwhole, List.filter_cons_of_pos hwhole]; rfl
    | false =>
      have hnot : t.ended = false := by
        rw [Bool.eq_false_iff]
        intro he
        rw [hended t List.mem_cons_self he] at hwhole
        exact Bool.noConfusion hwhole
      rw [hyields.2 hnot, List.filter_cons_of_neg (by simp [hwhole])]
      rfl

end Passage

/-- Packets over a line that loses frames, whatever was left of others before. At most one packet is
completed for each: the packet itself where all of its fragments arrive, none where the last one is
lost. What is completed is always a run of frames as they arrived; and where no last fragment
arrives without all the others, it is the packets that arrive whole, in order. -/
theorem collectAll_passages (fragments : List Frame) (passages : List Passage) :
    let arrived := passages.flatMap (·.arrived)
    let completed := (collectAll fragments arrived).2
    (∃ outcomes, List.Forall₂ Passage.Yields passages outcomes
        ∧ completed = outcomes.flatMap Option.toList)
      ∧ (∀ q ∈ completed, ∃ kept, kept <:+: fragments ++ arrived
        ∧ Fragment.joined? kept = some q.body)
      ∧ ((∀ t ∈ passages, t.ended = true → t.whole = true) →
        completed = (passages.filter (·.whole)).map (·.packet)) := by
  intro arrived completed
  obtain ⟨outcomes, hyields, hcompleted⟩ := Passage.collectAll_flatMap fragments passages
  refine ⟨⟨outcomes, hyields, hcompleted⟩, fun q hq => mem_collectAll hq, fun hended => ?_⟩
  exact hcompleted.trans (Passage.outcomes_eq hyields hended)

/-- Of two packets in two fragments each, the end of the first one is lost. -/
theorem collectAll_passages_end_lost :
    let first := Packet.ofHeader (.of .indication 0x77) (List.replicate 10 0xAA)
    let second := Packet.ofHeader (.of .indication 0x77) (List.replicate 10 0xBB)
    let fragments := fun p => List.zipWith Frame.stamp (Fragment.split p 8)
    let a : Passage := ⟨first, 8, fragments first [1, 2], (fragments first [1, 2]).take 1, rfl,
      Frame.stampOf_zipWith (by decide +kernel), List.take_sublist 1 _⟩
    let b : Passage := ⟨second, 8, fragments second [3, 1], fragments second [3, 1], rfl,
      Frame.stampOf_zipWith (by decide +kernel), List.Sublist.refl _⟩
    (∀ t ∈ [a, b], t.ended = true → t.whole = true)
      ∧ (collectAll [] ([a, b].flatMap (·.arrived))).2 = [second] := by
  intro first second fragments a b
  have hended : ∀ t ∈ [a, b], t.ended = true → t.whole = true := by decide +kernel
  obtain ⟨-, -, hcompleted⟩ := collectAll_passages [] [a, b]
  exact ⟨hended, (hcompleted hended).trans (by decide +kernel)⟩

/-- Of two packets in two fragments each, the end of the first and the start of the second are lost.
What is left is completed to a packet that is neither. -/
theorem collectAll_splices :
    let a := Packet.ofHeader (.of .indication 0x77) (List.replicate 10 0xAA)
    let b := Packet.ofHeader (.of .indication 0x77) (List.replicate 10 0xBB)
    let front := (List.zipWith Frame.stamp (Fragment.split a 8) [1, 2]).take 1
    let back := (List.zipWith Frame.stamp (Fragment.split b 8) [3, 1]).drop 1
    ∃ q, (collectAll [] (front ++ back)).2 = [q] ∧ q ≠ a ∧ q ≠ b := by
  refine ⟨.ofHeader (.of .indication 0x77) (List.replicate 2 0xAA ++ List.replicate 8 0xBB), ?_⟩
  decide +kernel

end NcpHost.Session
