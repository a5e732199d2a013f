import Mathlib.Data.List.Forall2
import Mathlib.Logic.Relation
import NcpHost.FairLock
import NcpHost.Frame.Fragment

/-! How requests share one link. Each has fragments to write and stands in line for every single one
of them; whoever is first in line writes one and leaves. The schedule is the order in which they
write: what was written, and behind it the line. It only grows at its end, so that a request which
gets in line again behind another one has lost its place for good. -/

namespace NcpHost.Session

/-- The requests over a link, as the link sees them. -/
structure Wire where
  requests : List (TaskId × Packet)
  sent : List (TaskId × List UInt8)
  line : List TaskId
  wrote : Bool
  /-- The fragments that a request has still to write. -/
  owed : TaskId → List Frame

def Written (f : Frame) (bytes : List UInt8) : Prop := ∃ seq, bytes = (f.stamp seq).encode

namespace Wire

def idle : Wire := ⟨[], [], [], false, fun _ => []⟩

def ids (w : Wire) : List TaskId := w.requests.map (·.1)

def sentBy (w : Wire) (id : TaskId) : List (List UInt8) :=
  (w.sent.filter fun e => e.1 == id).map (·.2)

def unwritten (w : Wire) : List TaskId := if w.wrote then w.line.tail else w.line

def schedule (w : Wire) : List TaskId := w.sent.map (·.1) ++ w.unwritten

def writing (w : Wire) (id : TaskId) : Bool := w.wrote && w.line.head? == some id

def behind (w : Wire) (id : TaskId) : List Frame :=
  if w.writing id then w.owed id else (w.owed id).tail

/-- The first in line will have to get in line again, behind somebody else. -/
def Crowded (w : Wire) : Prop := ∃ i j rest, w.line = i :: j :: rest ∧ w.behind i ≠ []

def enlist (w : Wire) (id : TaskId) (p : Packet) : Wire :=
  { w with
    requests := w.requests ++ [(id, p)]
    owed := Function.update w.owed id (Fragment.split p Frame.bodyLimit) }

def enroll (w : Wire) (id : TaskId) : Option Packet → Wire
  | some p => w.enlist id p
  | none => w

def join (w : Wire) (id : TaskId) : Wire := { w with line := w.line ++ [id] }

def write (w : Wire) (id : TaskId) (bytes : List UInt8) (left : List Frame) : Wire :=
  { w with
    sent := w.sent ++ [(id, bytes)]
    wrote := true
    owed := Function.update w.owed id left }

def leave (w : Wire) : Wire := { w with line := w.line.tail, wrote := false }

inductive Move (id : TaskId) : Wire → Wire → Prop where
  | enlist {w : Wire} (p : Packet) : id ∉ w.ids → Move id w (w.enlist id p)
  | join {w : Wire} : id ∉ w.line → Move id w (w.join id)
  | write {w : Wire} {f : Frame} {left : List Frame} {bytes : List UInt8} :
    w.line.head? = some id → w.wrote = false → w.owed id = f :: left → Written f bytes →
    Move id w (w.write id bytes left)
  | leave {w : Wire} : w.line.head? = some id → w.wrote = true → Move id w w.leave

abbrev Moves : Wire → Wire → Prop := Relation.ReflTransGen fun w w' => ∃ id, Move id w w'

theorem Moves.of_own {id : TaskId} {w w' : Wire} (h : Relation.ReflTransGen (Move id) w w') :
    Moves w w' :=
  Relation.ReflTransGen.mono (fun _ _ hmove => ⟨id, hmove⟩) _ _ h

/-- What holds of every line: everybody is in it once, the last fragment is of the one that has
written, and each request has written the fragments that it does not owe any more. -/
structure Sound (w : Wire) : Prop where
  line : w.line.Nodup
  wrote : w.wrote = true → ∃ id, w.line.head? = some id ∧ (w.sent.map (·.1)).getLast? = some id
  ids : w.ids.Nodup
  owing : ∀ id, w.owed id ≠ [] → id ∈ w.ids
  known : ∀ id ∈ w.sent.map (·.1), id ∈ w.ids
  fragments : ∀ id p, (id, p) ∈ w.requests → ∃ done,
    Fragment.split p Frame.bodyLimit = done ++ w.owed id
      ∧ List.Forall₂ Written done (w.sentBy id)

theorem sound_idle : Sound idle :=
  ⟨List.nodup_nil, fun h => absurd h Bool.false_ne_true, List.nodup_nil,
    fun _ h => absurd rfl h, fun _ h => absurd h List.not_mem_nil,
    fun _ _ h => absurd h List.not_mem_nil⟩

theorem sentBy_eq_nil {w : Wire} {id : TaskId} (h : id ∉ w.sent.map (·.1)) : w.sentBy id = [] := by
  rw [sentBy, List.map_eq_nil_iff, List.filter_eq_nil_iff]
  intro e he hid
  exact h (List.mem_map.mpr ⟨e, he, by simpa using hid⟩)

theorem owed_enlist (w : Wire) (id : TaskId) (p : Packet) :
    (w.enlist id p).owed id = Fragment.split p Frame.bodyLimit :=
  Function.update_self ..

theorem owed_enlist_of_ne (w : Wire) {id k : TaskId} (h : k ≠ id) (p : Packet) :
    (w.enlist id p).owed k = w.owed k :=
  Function.update_of_ne h ..

theorem owed_write (w : Wire) (id : TaskId) (bytes : List UInt8) (left : List Frame) :
    (w.write id bytes left).owed id = left :=
  Function.update_self ..

theorem owed_write_of_ne (w : Wire) {id k : TaskId} (h : k ≠ id) (bytes : List UInt8)
    (left : List Frame) : (w.write id bytes left).owed k = w.owed k :=
  Function.update_of_ne h ..

theorem nodup_concat {ids : List TaskId} {id : TaskId} (h : ids.Nodup) (hid : id ∉ ids) :
    (ids ++ [id]).Nodup := by
  refine List.nodup_append.mpr ⟨h, by simp, fun a ha b hb e => ?_⟩
  rw [List.mem_singleton.mp hb] at e
  exact hid (e ▸ ha)

theorem sentBy_write (w : Wire) (id : TaskId) (bytes : List UInt8) (left : List Frame)
    (k : TaskId) :
    (w.write id bytes left).sentBy k = w.sentBy k ++ if k = id then [bytes] else [] := by
  by_cases h : k = id
  · simp [sentBy, write, h]
  · simp [sentBy, write, h, Ne.symm h]

theorem Sound.enlist {w : Wire} (hw : w.Sound) {id : TaskId} (hid : id ∉ w.ids) (p : Packet) :
    (w.enlist id p).Sound := by
  have hids : (w.enlist id p).ids = w.ids ++ [id] := List.map_append
  constructor
  case line => exact hw.line
  case wrote => exact hw.wrote
  case ids =>
    rw [hids]
    exact nodup_concat hw.ids hid
  case owing =>
    intro k hk
    rw [hids]
    by_cases hkid : k = id
    · exact List.mem_append_right _ (List.mem_singleton.mpr hkid)
    · rw [owed_enlist_of_ne w hkid] at hk
      exact List.mem_append_left _ (hw.owing k hk)
  case known =>
    intro k hk
    rw [hids]
    exact List.mem_append_left _ (hw.known k hk)
  case fragments =>
    intro k q hk
    rcases List.mem_append.mp hk with hold | hlast
    · have hkid : k ≠ id := fun e => hid (e ▸ List.mem_map_of_mem hold)
      rw [owed_enlist_of_ne w hkid]
      exact hw.fragments k q hold
    · obtain ⟨rfl, rfl⟩ := Prod.mk.inj (List.mem_singleton.mp hlast)
      have hsent : (w.enlist k q).sentBy k = [] := sentBy_eq_nil fun hm => hid (hw.known k hm)
      rw [hsent, owed_enlist]
      exact ⟨[], rfl, List.Forall₂.nil⟩

theorem Sound.join {w : Wire} (hw : w.Sound) {id : TaskId} (hline : id ∉ w.line) :
    (w.join id).Sound := by
  refine ⟨nodup_concat hw.line hline, ?_, hw.ids, hw.owing, hw.known, hw.fragments⟩
  intro hwrote
  obtain ⟨k, hk, hlast⟩ := hw.wrote hwrote
  exact ⟨k, by simp [Wire.join, List.head?_append, hk], hlast⟩

theorem Sound.write {w : Wire} (hw : w.Sound) {id : TaskId} (hhead : w.line.head? = some id)
    {f : Frame} {left : List Frame} (howed : w.owed id = f :: left) {bytes : List UInt8}
    (hbytes : Written f bytes) : (w.write id bytes left).Sound := by
  have hid : id ∈ w.ids := hw.owing id (howed ▸ List.cons_ne_nil f left)
  constructor
  case line => exact hw.line
  case wrote => exact fun _ => ⟨id, hhead, by simp [Wire.write]⟩
  case ids => exact hw.ids
  case owing =>
    intro k hk
    by_cases hkid : k = id
    · exact hkid ▸ hid
    · rw [owed_write_of_ne w hkid] at hk
      exact hw.owing k hk
  case known =>
    intro k hk
    rcases List.mem_append.mp (List.map_append ▸ hk) with hold | hlast
    · exact hw.known k hold
    · rw [List.mem_singleton.mp hlast]
      exact hid
  case fragments =>
    intro k q hk
    obtain ⟨done, hsplit, hdone⟩ := hw.fragments k q hk
    rw [sentBy_write]
    by_cases hkid : k = id
    · subst hkid
      refine ⟨done ++ [f], ?_, ?_⟩
      · rw [hsplit, howed, owed_write, List.append_assoc, List.singleton_append]
      · rw [if_pos rfl]
        exact List.rel_append hdone (List.Forall₂.cons hbytes List.Forall₂.nil)
    · refine ⟨done, ?_, ?_⟩
      · rw [owed_write_of_ne w hkid, hsplit]
      · rw [if_neg hkid, List.append_nil]
        exact hdone

theorem Sound.leave {w : Wire} (hw : w.Sound) : w.leave.Sound :=
  ⟨hw.line.tail, fun h => absurd h Bool.false_ne_true, hw.ids, hw.owing, hw.known, hw.fragments⟩

theorem Move.sound {id : TaskId} {w w' : Wire} (h : Move id w w') (hw : w.Sound) : w'.Sound := by
  cases h with
  | enlist p hid => exact hw.enlist hid p
  | join hline => exact hw.join hline
  | write hhead hwrote howed hbytes => exact hw.write hhead howed hbytes
  | leave hhead hwrote => exact hw.leave

theorem Moves.sound {w w' : Wire} (h : Moves w w') (hw : w.Sound) : w'.Sound := by
  induction h with
  | refl => exact hw
  | tail _ hmove ih =>
    obtain ⟨id, hmove⟩ := hmove
    exact hmove.sound ih

theorem line_of_writing {w : Wire} {id : TaskId} (h : w.writing id = true) :
    w.wrote = true ∧ ∃ rest, w.line = id :: rest := by
  obtain ⟨hwrote, hhead⟩ := Bool.and_eq_true_iff.mp h
  exact ⟨hwrote, List.head?_eq_some_iff.mp (beq_iff_eq.mp hhead)⟩

theorem mem_line_of_writing {w : Wire} {id : TaskId} (h : w.writing id = true) : id ∈ w.line := by
  obtain ⟨-, rest, hline⟩ := line_of_writing h
  exact hline ▸ List.mem_cons_self

theorem writing_write {w : Wire} {id : TaskId} (hhead : w.line.head? = some id)
    (bytes : List UInt8) (left : List Frame) : (w.write id bytes left).writing id = true := by
  simp [writing, write, hhead]

theorem writing_join {w : Wire} (hw : w.Sound) {id : TaskId} (hid : id ∉ w.line) :
    (w.join id).writing id = false := by
  cases hwrote : w.wrote with
  | false => simp [writing, join, hwrote]
  | true =>
    obtain ⟨k, hk, -⟩ := hw.wrote hwrote
    have hne : k ≠ id := fun e => hid (e ▸ List.mem_of_mem_head? hk)
    simp [writing, join, List.head?_append, hk, hne]

theorem schedule_join {w : Wire} (hw : w.Sound) (id : TaskId) :
    (w.join id).schedule = w.schedule ++ [id] := by
  cases hwrote : w.wrote with
  | false => simp [schedule, unwritten, join, hwrote]
  | true =>
    obtain ⟨k, hk, -⟩ := hw.wrote hwrote
    have hne : w.line ≠ [] := by
      intro hnil
      simp [hnil] at hk
    simp [schedule, unwritten, join, hwrote, List.tail_append_of_ne_nil hne]

theorem schedule_write {w : Wire} {id : TaskId} (hhead : w.line.head? = some id)
    (hwrote : w.wrote = false) (bytes : List UInt8) (left : List Frame) :
    (w.write id bytes left).schedule = w.schedule := by
  obtain ⟨rest, hline⟩ := List.head?_eq_some_iff.mp hhead
  simp [schedule, unwritten, write, hwrote, hline]

theorem schedule_leave {w : Wire} (hwrote : w.wrote = true) : w.leave.schedule = w.schedule := by
  simp [schedule, unwritten, leave, hwrote]

theorem Move.schedule_prefix {id : TaskId} {w w' : Wire} (h : Move id w w') (hw : w.Sound) :
    w.schedule <+: w'.schedule := by
  cases h with
  | enlist => exact List.prefix_rfl
  | join => exact schedule_join hw _ ▸ List.prefix_append _ _
  | write hhead hwrote => exact schedule_write hhead hwrote _ _ ▸ List.prefix_rfl
  | leave _ hwrote => exact schedule_leave hwrote ▸ List.prefix_rfl

theorem Moves.schedule_prefix {w w' : Wire} (h : Moves w w') (hw : w.Sound) :
    w.schedule <+: w'.schedule := by
  induction h with
  | refl => exact List.prefix_rfl
  | tail hmoves hmove ih =>
    obtain ⟨id, hmove⟩ := hmove
    exact ih.trans (hmove.schedule_prefix (Moves.sound hmoves hw))

theorem Move.requests_prefix {id : TaskId} {w w' : Wire} (h : Move id w w') :
    w.requests <+: w'.requests := by
  cases h with
  | enlist => exact List.prefix_append _ _
  | join => exact List.prefix_rfl
  | write => exact List.prefix_rfl
  | leave => exact List.prefix_rfl

theorem Moves.requests_prefix {w w' : Wire} (h : Moves w w') : w.requests <+: w'.requests := by
  induction h with
  | refl => exact List.prefix_rfl
  | tail _ hmove ih =>
    obtain ⟨id, hmove⟩ := hmove
    exact ih.trans hmove.requests_prefix

theorem mem_schedule {w : Wire} (hw : w.Sound) {id : TaskId} (h : id ∈ w.line) :
    id ∈ w.schedule := by
  cases hwrote : w.wrote with
  | false =>
    have hlater : w.unwritten = w.line := by simp [unwritten, hwrote]
    exact List.mem_append_right _ (hlater ▸ h)
  | true =>
    obtain ⟨k, hk, hlast⟩ := hw.wrote hwrote
    obtain ⟨rest, hline⟩ := List.head?_eq_some_iff.mp hk
    have hlater : w.unwritten = rest := by simp [unwritten, hwrote, hline]
    rw [hline] at h
    rcases List.mem_cons.mp h with rfl | hrest
    · exact List.mem_append_left _ (List.mem_of_getLast? hlast)
    · exact List.mem_append_right _ (hlater ▸ hrest)

theorem not_mem_schedule {w : Wire} (hw : w.Sound) {id : TaskId} (hids : id ∉ w.ids)
    (hline : id ∉ w.line) : id ∉ w.schedule := by
  intro hm
  rcases List.mem_append.mp hm with hsent | hlater
  · exact hids (hw.known id hsent)
  · refine hline ?_
    unfold unwritten at hlater
    split at hlater
    · exact List.mem_of_mem_tail hlater
    · exact hlater

theorem owed_eq_nil {w : Wire} (hw : w.Sound) {id : TaskId} (hids : id ∉ w.ids) :
    w.owed id = [] :=
  not_not.mp fun h => hids (hw.owing id h)

theorem behind_join {w : Wire} (hw : w.Sound) {id : TaskId} (hid : id ∉ w.line) :
    (w.join id).behind id = (w.owed id).tail := by
  rw [behind, writing_join hw hid]
  rfl

theorem getLast?_schedule {w : Wire} (hw : w.Sound) {id : TaskId} (h : w.line = [id]) :
    w.schedule.getLast? = some id := by
  cases hwrote : w.wrote with
  | false => simp [schedule, unwritten, hwrote, h]
  | true =>
    obtain ⟨k, hk, hlast⟩ := hw.wrote hwrote
    obtain rfl : id = k := by simpa [h] using hk
    simpa [schedule, unwritten, hwrote, h] using hlast

structure SamePlace (k : TaskId) (w w' : Wire) : Prop where
  ids : k ∈ w'.ids ↔ k ∈ w.ids
  line : k ∈ w'.line ↔ k ∈ w.line
  schedule : k ∈ w'.schedule ↔ k ∈ w.schedule
  owed : w'.owed k = w.owed k
  writing : w'.writing k = w.writing k

theorem SamePlace.behind {k : TaskId} {w w' : Wire} (h : SamePlace k w w') :
    w'.behind k = w.behind k := by
  rw [Wire.behind, Wire.behind, h.writing, h.owed]

theorem SamePlace.trans {k : TaskId} {w w' w'' : Wire} (h : SamePlace k w w')
    (h' : SamePlace k w' w'') : SamePlace k w w'' :=
  ⟨h'.ids.trans h.ids, h'.line.trans h.line, h'.schedule.trans h.schedule, h'.owed.trans h.owed,
    h'.writing.trans h.writing⟩

theorem Move.samePlace {id k : TaskId} {w w' : Wire} (h : Move id w w') (hw : w.Sound)
    (hk : k ≠ id) : SamePlace k w w' := by
  cases h with
  | enlist p hid =>
    exact ⟨by simp [ids, Wire.enlist, hk], Iff.rfl, Iff.rfl, owed_enlist_of_ne w hk p, rfl⟩
  | join hid =>
    refine ⟨Iff.rfl, by simp [Wire.join, hk], by simp [schedule_join hw, hk], rfl, ?_⟩
    cases hwrote : w.wrote with
    | false => simp [writing, Wire.join, hwrote]
    | true =>
      obtain ⟨j, hj, -⟩ := hw.wrote hwrote
      simp [writing, Wire.join, List.head?_append, hj]
  | @write f left bytes hhead hwrote howed hbytes =>
    refine ⟨Iff.rfl, Iff.rfl, by rw [schedule_write hhead hwrote], owed_write_of_ne w hk bytes left,
      ?_⟩
    simp [writing, Wire.write, hhead, hwrote, Ne.symm hk]
  | leave hhead hwrote =>
    obtain ⟨rest, hline⟩ := List.head?_eq_some_iff.mp hhead
    refine ⟨Iff.rfl, by simp [Wire.leave, hline, hk], by rw [schedule_leave hwrote], rfl, ?_⟩
    simp [writing, Wire.leave, hline, Ne.symm hk]

theorem samePlace_of_moves {id k : TaskId} {w w' : Wire}
    (h : Relation.ReflTransGen (Move id) w w') (hw : w.Sound) (hk : k ≠ id) : SamePlace k w w' := by
  induction h with
  | refl => exact ⟨Iff.rfl, Iff.rfl, Iff.rfl, rfl, rfl⟩
  | tail hmoves hmove ih =>
    exact ih.trans (hmove.samePlace (Moves.sound (Moves.of_own hmoves) hw) hk)

/-- Nobody comes back behind somebody else. -/
def Gathered (ids : List TaskId) : Prop := ∀ i j, [i, j, i].Sublist ids → j = i

theorem Gathered.of_sublist {ids ids' : List TaskId} (h : Gathered ids') (hs : ids.Sublist ids') :
    Gathered ids :=
  fun i j hij => h i j (hij.trans hs)

theorem Gathered.concat {ids : List TaskId} (h : Gathered ids) {id : TaskId}
    (hid : id ∉ ids ∨ ids.getLast? = some id) : Gathered (ids ++ [id]) := by
  intro i j hs
  obtain ⟨before, after, heq, hbefore, hafter⟩ := List.sublist_append_iff.mp hs
  rcases List.sublist_singleton.mp hafter with rfl | rfl
  · rw [List.append_nil] at heq
    exact h i j (heq ▸ hbefore)
  · have hsplit : [i, j] ++ [i] = before ++ [id] := heq
    obtain ⟨rfl, hi⟩ := List.append_inj' hsplit rfl
    obtain rfl : i = id := List.head_eq_of_cons_eq hi
    rcases hid with hnew | hlast
    · exact absurd (hbefore.subset List.mem_cons_self) hnew
    · obtain ⟨init, rfl⟩ := List.getLast?_eq_some_iff.mp hlast
      obtain ⟨b, a, heq', hb, ha⟩ := List.sublist_append_iff.mp hbefore
      rcases List.sublist_singleton.mp ha with rfl | rfl
      · rw [List.append_nil] at heq'
        have hinit : [i, j].Sublist init := heq' ▸ hb
        exact h i j (hinit.append (List.Sublist.refl [i]))
      · have hpair : [i] ++ [j] = b ++ [i] := heq'
        exact List.head_eq_of_cons_eq (List.append_inj' hpair rfl).2

theorem count_sent (w : Wire) (id : TaskId) :
    (w.sent.map (·.1)).count id = (w.sentBy id).length := by
  rw [List.count, List.countP_map, List.countP_eq_length_filter, sentBy, List.length_map]
  rfl

theorem count_schedule_lt {w w' : Wire} (hw : w.Sound) {id : TaskId} {rest : List TaskId}
    (hline : w.line = id :: rest) (hbehind : w.behind id ≠ []) (h : Moves w w')
    (howed : ∀ id, w'.owed id = []) :
    w.schedule.count id < (w'.sent.map (·.1)).count id := by
  have hnodup := hw.line
  rw [hline, List.nodup_cons] at hnodup
  have howes : w.owed id ≠ [] := by
    intro hnil
    simp [behind, hnil] at hbehind
  obtain ⟨⟨k, p⟩, hp, hk⟩ := List.mem_map.mp (hw.owing id howes)
  obtain rfl : k = id := hk
  obtain ⟨done, hsplit, hdone⟩ := hw.fragments k p hp
  obtain ⟨all, hsplit', hall⟩ := (Moves.sound h hw).fragments k p (h.requests_prefix.subset hp)
  have hlength : done.length + (w.owed k).length = all.length := by
    have := congrArg List.length (hsplit.symm.trans hsplit')
    simpa [howed] using this
  rw [count_sent, ← hall.length_eq, schedule, List.count_append, count_sent, ← hdone.length_eq]
  cases hwrote : w.wrote with
  | true =>
    have hlater : w.unwritten = rest := by simp [unwritten, hwrote, hline]
    have hpos := List.length_pos_of_ne_nil howes
    rw [hlater, List.count_eq_zero_of_not_mem hnodup.1]
    omega
  | false =>
    have hlater : w.unwritten = k :: rest := by simp [unwritten, hwrote, hline]
    have htail : (w.owed k).tail ≠ [] := by simpa [behind, writing, hwrote] using hbehind
    have hpos := List.length_pos_of_ne_nil htail
    rw [List.length_tail] at hpos
    rw [hlater, List.count_cons_self, List.count_eq_zero_of_not_mem hnodup.1]
    omega

/-- Where the first in line has to come back behind another one, the fragments do not stay together
in any run that is completed from there. -/
theorem not_gathered_of_crowded {w w' : Wire} (hw : w.Sound) (hc : w.Crowded) (h : Moves w w')
    (hline : w'.line = []) (howed : ∀ id, w'.owed id = []) : ¬Gathered (w'.sent.map (·.1)) := by
  intro hg
  obtain ⟨i, j, rest, hij, hbehind⟩ := hc
  have hnodup := hw.line
  rw [hij, List.nodup_cons] at hnodup
  have hschedule : w'.schedule = w'.sent.map (·.1) := by
    simp [schedule, unwritten, hline]
  obtain ⟨more, hmore⟩ := h.schedule_prefix hw
  rw [hschedule] at hmore
  have hbefore : [i, j].Sublist w.schedule := by
    cases hwrote : w.wrote with
    | true =>
      have hlater : w.unwritten = j :: rest := by simp [unwritten, hwrote, hij]
      obtain ⟨k, hk, hlast⟩ := hw.wrote hwrote
      obtain rfl : i = k := by simpa [hij] using hk
      rw [schedule, hlater]
      exact (List.singleton_sublist.mpr (List.mem_of_getLast? hlast)).append
        (List.singleton_sublist.mpr List.mem_cons_self)
    | false =>
      have hlater : w.unwritten = i :: j :: rest := by simp [unwritten, hwrote, hij]
      rw [schedule, hlater]
      exact List.sublist_append_of_sublist_right (by simp)
  have hcount := count_schedule_lt hw hij hbehind h howed
  rw [← hmore, List.count_append] at hcount
  have hagain : i ∈ more := List.count_pos_iff.mp (by omega)
  have hall : [i, j, i].Sublist (w'.sent.map (·.1)) :=
    hmore ▸ hbefore.append (List.singleton_sublist.mpr hagain)
  exact hnodup.1 (hg i j hall ▸ List.mem_cons_self)

end Wire

end NcpHost.Session
