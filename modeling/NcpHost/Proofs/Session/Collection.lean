import NcpHost.Proofs.Frame.Fragment
import NcpHost.Session.Reception

/-! Fragments are collected one by one. Those of one packet, in order and with nothing in between,
complete exactly this packet with the last of them, whatever was left of another one before. -/

namespace NcpHost

namespace Fragment

theorem isLast_of_mem_dropLast {p : Packet} {maxBody : Nat} {f : Frame}
    (h : f ∈ (split p maxBody).dropLast) : f.header.flags.isLast = false := by
  obtain ⟨n, -, hlast⟩ := whole_split p maxBody
  have hmem : f.header.flags.isLast ∈ (((split p maxBody).map Frame.marks).map (·.2)).dropLast := by
    rw [← List.map_dropLast, ← List.map_dropLast, List.map_map]
    exact List.mem_map_of_mem h
  rw [hlast, List.dropLast_concat] at hmem
  exact List.eq_of_mem_replicate hmem

end Fragment

namespace Session

def collectAll (fragments : List Frame) : List Frame → List Frame × List Packet
  | [] => (fragments, [])
  | frame :: rest =>
    let (fragments, packet) := collect fragments frame
    let (fragments, packets) := collectAll fragments rest
    (fragments, packet.toList ++ packets)

theorem collectAll_append (fragments before after : List Frame) :
    collectAll fragments (before ++ after) =
      ((collectAll (collectAll fragments before).1 after).1,
        (collectAll fragments before).2 ++ (collectAll (collectAll fragments before).1 after).2) := by
  induction before generalizing fragments with
  | nil => rfl
  | cons frame rest ih => simp [collectAll, ih]

theorem collectAll_singleton (fragments : List Frame) (frame : Frame) :
    collectAll fragments [frame]
      = ((collect fragments frame).1, (collect fragments frame).2.toList) := by
  simp [collectAll]

theorem collect_of_not_last (fragments : List Frame) {frame : Frame}
    (h : frame.header.flags.isLast = false) : (collect fragments frame).2 = none := by
  simp [collect, h]

theorem collectAll_cons_of_not_last (fragments : List Frame) {frame : Frame}
    (h : frame.header.flags.isLast = false) (rest : List Frame) :
    collectAll fragments (frame :: rest) = collectAll (collect fragments frame).1 rest := by
  simp [collectAll, collect_of_not_last fragments h]

theorem collectAll_followers {chunks : List (List UInt8)} (hc : chunks ≠ [])
    {stamped : List Frame} (h : List.Forall₂ Frame.StampOf (Fragment.followers chunks) stamped)
    (earlier : List Frame) (he : earlier ≠ []) :
    collectAll earlier stamped
      = ([], (Fragment.merge (earlier ++ stamped)).toOption.toList) := by
  fun_induction Fragment.followers chunks generalizing stamped earlier with
  | case1 => exact absurd rfl hc
  | case2 chunk =>
    obtain ⟨g, rfl, hg⟩ : ∃ g, stamped = [g]
        ∧ (Frame.ofPacket (.continuation chunk) ⟨Flags.lastMask⟩).StampOf g := by
      cases h with
      | cons hg hrest =>
        cases hrest
        exact ⟨_, rfl, hg⟩
    have hfirst : g.header.flags.isFirst = false := hg.flags.1.trans rfl
    have hlast : g.header.flags.isLast = true := hg.flags.2.trans rfl
    simp [collectAll, collect, hfirst, hlast, he]
  | case3 chunk rest hne ih =>
    cases h with
    | @cons _ g _ stamped hg hrest =>
      have hfirst : g.header.flags.isFirst = false := hg.flags.1.trans rfl
      have hlast : g.header.flags.isLast = false := hg.flags.2.trans rfl
      have hnext := ih hne hrest (earlier ++ [g]) (by simp)
      simp [collectAll, collect, hfirst, hlast, hnext]

theorem collectAll_split {p : Packet} (hp : p.header.isSome = true) {maxBody : Nat}
    {stamped : List Frame} (h : List.Forall₂ Frame.StampOf (Fragment.split p maxBody) stamped)
    (fragments : List Frame) : collectAll fragments stamped = ([], [p]) := by
  have hmerge := Fragment.merge_split hp h
  rcases Fragment.split_cases p maxBody with ⟨hs, -⟩ | ⟨first, chunks, hs, hne, -⟩
  · rw [hs] at h
    obtain ⟨g, rfl, hg⟩ : ∃ g, stamped = [g] ∧ (Frame.ofPacket p .single).StampOf g := by
      cases h with
      | cons hg hrest =>
        cases hrest
        exact ⟨_, rfl, hg⟩
    have hfirst : g.header.flags.isFirst = true := hg.flags.1.trans rfl
    have hlast : g.header.flags.isLast = true := hg.flags.2.trans rfl
    have hpacket : g.packet = some p := hg.packet
    simp [collectAll, collect, hfirst, hlast, hpacket]
  · rw [hs] at h
    cases h with
    | @cons _ g _ stamped hg hrest =>
      rw [Fragment.lead_eq] at hg
      have hfirst : g.header.flags.isFirst = true := hg.flags.1.trans rfl
      have hlast : g.header.flags.isLast = false := hg.flags.2.trans rfl
      have hnext := collectAll_followers hne hrest [g] (by simp)
      rw [List.singleton_append, hmerge] at hnext
      simp [collectAll, collect, hfirst, hlast, hnext, Except.toOption]

end Session

end NcpHost
