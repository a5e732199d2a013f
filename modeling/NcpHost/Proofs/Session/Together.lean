import Mathlib.Data.List.Perm.Basic
import NcpHost.Proofs.Frame.Acknowledgement
import NcpHost.Proofs.Session.Collection
import NcpHost.Proofs.Session.Schedule

/-! When the fragments of each request stay together. What was written can be cut into the complete
fragments of one request after the other if and only if nobody wrote behind somebody else and came
back; and a far end that collects what it gets finds the packets of the requests then, each once. -/

namespace NcpHost.Session

/-- The fragments of a packet, all of them and in order, under some numbers. -/
def CompleteRun (p : Packet) (run : List Frame) : Prop :=
  List.Forall₂ Frame.StampOf (Fragment.split p Frame.bodyLimit) run

/-- What was written can be cut into the complete fragments of the packets, one after the other in
some order. -/
def Together (packets : List Packet) (written : List (List UInt8)) : Prop :=
  ∃ (order : List Packet) (runs : List (List Frame)), order.Perm packets
    ∧ List.Forall₂ CompleteRun order runs ∧ written = runs.flatten.map Frame.encode

theorem collectAll_runs {order : List Packet} {runs : List (List Frame)}
    (hp : ∀ p ∈ order, p.header.isSome = true)
    (h : List.Forall₂ CompleteRun order runs) : collectAll [] runs.flatten = ([], order) := by
  induction h with
  | nil => rfl
  | @cons p run order runs hrun _ ih =>
    have hfirst := collectAll_split (hp p List.mem_cons_self) hrun []
    rw [List.flatten_cons, collectAll_append, hfirst,
      ih fun q hq => hp q (List.mem_cons_of_mem _ hq)]
    rfl

theorem Together.collected {packets : List Packet} {written : List (List UInt8)}
    (h : Together packets written) (hp : ∀ p ∈ packets, p.header.isSome = true)
    {stream : List UInt8} (hcarries : Frame.Carries written stream) {chunks : List (List UInt8)}
    (hc : chunks.flatten = stream) :
    ∃ order, order.Perm packets
      ∧ collectAll [] ((Stream.feed [] chunks).1.filter (!·.isAck)) = ([], order) := by
  obtain ⟨order, runs, hperm, hruns, rfl⟩ := h
  have hheaders : ∀ p ∈ order, p.header.isSome = true := fun p hm => hp p (hperm.mem_iff.mp hm)
  have hfeed : (Stream.feed [] chunks).1.filter (!·.isAck) = runs.flatten := by
    refine hcarries.feed (fun g hg => ?_) hc
    obtain ⟨run, hrun, hmem⟩ := List.mem_flatten.mp hg
    obtain ⟨p, hm, hstamped⟩ := exists_of_mem_right hruns hrun
    obtain ⟨f, hf, hs⟩ := exists_of_mem_right hstamped hmem
    exact Fragment.wellFormed_of_mem_split (hheaders p hm) hf hs
  rw [hfeed]
  exact ⟨order, hperm, collectAll_runs hheaders hruns⟩

namespace Wire

section

variable {α : Type} {id : TaskId}

def own (id : TaskId) (events : List (TaskId × α)) : List (TaskId × α) :=
  events.filter fun e => e.1 == id

theorem own_append (as bs : List (TaskId × α)) : own id (as ++ bs) = own id as ++ own id bs :=
  List.filter_append ..

theorem own_cons_self (e : TaskId × α) (rest : List (TaskId × α)) :
    own e.1 (e :: rest) = e :: own e.1 rest :=
  List.filter_cons_of_pos (beq_self_eq_true e.1)

theorem own_cons_of_ne {e : TaskId × α} (h : e.1 ≠ id) (rest : List (TaskId × α)) :
    own id (e :: rest) = own id rest :=
  List.filter_cons_of_neg (by simpa using h)

theorem own_eq_nil {events : List (TaskId × α)} : own id events = [] ↔ id ∉ events.map (·.1) := by
  rw [own, List.filter_eq_nil_iff, List.mem_map]
  constructor
  · intro h ⟨e, he, hid⟩
    exact h e he (beq_iff_eq.mpr hid)
  · intro h e he hid
    exact h ⟨e, he, beq_iff_eq.mp hid⟩

theorem own_eq_self {events : List (TaskId × α)} (h : ∀ e ∈ events, e.1 = id) :
    own id events = events :=
  List.filter_eq_self.mpr fun e he => beq_iff_eq.mpr (h e he)

theorem of_mem_own {events : List (TaskId × α)} {e : TaskId × α} (h : e ∈ own id events) :
    e ∈ events ∧ e.1 = id :=
  ⟨(List.mem_filter.mp h).1, beq_iff_eq.mp (List.mem_filter.mp h).2⟩

theorem Gathered.resumes {e : TaskId × α} {rest : List (TaskId × α)}
    (h : Gathered ((e :: rest).map (·.1))) (hagain : e.1 ∈ rest.map (·.1)) {order : List TaskId}
    (hmem : ∀ id, id ∈ order ↔ id ∈ rest.map (·.1))
    (hrest : rest = order.flatMap fun id => own id rest) : ∃ others, order = e.1 :: others := by
  obtain ⟨k, others, rfl⟩ :=
    List.exists_cons_of_ne_nil (List.ne_nil_of_mem ((hmem e.1).mpr hagain))
  have hk : own k rest ≠ [] := fun hnil => own_eq_nil.mp hnil ((hmem k).mp List.mem_cons_self)
  obtain ⟨y, ys, hy⟩ := List.exists_cons_of_ne_nil hk
  obtain ⟨-, rfl⟩ := of_mem_own (hy ▸ List.mem_cons_self)
  rw [List.flatMap_cons, hy, List.cons_append] at hrest
  rw [hrest, List.map_cons, List.map_cons] at h
  rw [hrest, List.map_cons] at hagain
  rcases List.mem_cons.mp hagain with heq | hlater
  · exact ⟨others, by rw [heq]⟩
  · have hback : y.1 = e.1 :=
      h e.1 y.1 (((List.singleton_sublist.mpr hlater).cons_cons y.1).cons_cons e.1)
    exact ⟨others, by rw [hback]⟩

/-- Where nobody comes back, what each one wrote stands in one piece. -/
theorem Gathered.cut {events : List (TaskId × α)} (h : Gathered (events.map (·.1))) :
    ∃ order : List TaskId, order.Nodup ∧ (∀ id, id ∈ order ↔ id ∈ events.map (·.1))
      ∧ events = order.flatMap fun id => own id events := by
  induction events with
  | nil => exact ⟨[], List.nodup_nil, fun _ => Iff.rfl, rfl⟩
  | cons e rest ih =>
    obtain ⟨order, hnodup, hmem, hrest⟩ := ih (h.of_sublist (List.sublist_cons_self _ _))
    have hothers : ∀ ids : List TaskId, e.1 ∉ ids →
        (ids.flatMap fun id => own id (e :: rest)) = ids.flatMap fun id => own id rest :=
      fun ids hids => List.flatMap_congr fun id hid => own_cons_of_ne (fun he => hids (he ▸ hid)) rest
    by_cases hagain : e.1 ∈ rest.map (·.1)
    · obtain ⟨others, rfl⟩ := h.resumes hagain hmem hrest
      have hnew := (List.nodup_cons.mp hnodup).1
      refine ⟨e.1 :: others, hnodup, fun id => ?_, ?_⟩
      · rw [hmem, List.map_cons, List.mem_cons]
        exact ⟨Or.inr, fun hid => hid.elim (fun he => he ▸ hagain) fun hm => hm⟩
      · rw [List.flatMap_cons, hothers others hnew, own_cons_self, List.cons_append]
        exact congrArg (List.cons e) hrest
    · have hnew : e.1 ∉ order := fun hm => hagain ((hmem e.1).mp hm)
      refine ⟨e.1 :: order, List.nodup_cons.mpr ⟨hnew, hnodup⟩, fun id => ?_, ?_⟩
      · rw [List.map_cons, List.mem_cons, List.mem_cons, hmem]
      · rw [List.flatMap_cons, hothers order hnew, ← hrest, own_cons_self,
          own_eq_nil.mpr hagain]
        rfl

end

theorem run_of_written {fs : List Frame} {written : List (List UInt8)}
    (h : List.Forall₂ Written fs written) :
    ∃ run, List.Forall₂ Frame.StampOf fs run ∧ written = run.map Frame.encode := by
  induction h with
  | nil => exact ⟨[], List.Forall₂.nil, rfl⟩
  | @cons f bytes _ _ hf _ ih =>
    obtain ⟨seq, rfl⟩ := hf
    obtain ⟨run, hrun, rfl⟩ := ih
    exact ⟨f.stamp seq :: run, List.Forall₂.cons ⟨seq, rfl⟩ hrun, rfl⟩

theorem Sound.all_written {w : Wire} (hw : w.Sound) (howed : ∀ id, w.owed id = [])
    {id : TaskId} {p : Packet} (hp : (id, p) ∈ w.requests) :
    List.Forall₂ Written (Fragment.split p Frame.bodyLimit) (w.sentBy id) := by
  obtain ⟨done, hsplit, hdone⟩ := hw.fragments id p hp
  rw [howed, List.append_nil] at hsplit
  rwa [hsplit]

theorem Sound.mem_sent {w : Wire} (hw : w.Sound) (howed : ∀ id, w.owed id = []) (id : TaskId) :
    id ∈ w.sent.map (·.1) ↔ id ∈ w.ids := by
  refine ⟨hw.known id, fun hid => ?_⟩
  obtain ⟨⟨k, p⟩, hp, hk⟩ := List.mem_map.mp hid
  obtain rfl : k = id := hk
  by_contra hnot
  have hall := hw.all_written howed hp
  rw [sentBy_eq_nil hnot] at hall
  exact Fragment.split_ne_nil p _ (List.forall₂_nil_right_iff.mp hall)

theorem together_of_gathered {w : Wire} (hw : w.Sound) (howed : ∀ id, w.owed id = [])
    (hg : Gathered (w.sent.map (·.1))) :
    Together (w.requests.map (·.2)) (w.sent.map (·.2)) := by
  obtain ⟨order, hnodup, hmem, hcut⟩ := hg.cut
  have hids : order.Perm w.ids :=
    (List.perm_ext_iff_of_nodup hnodup hw.ids).mpr fun id => by rw [hmem, hw.mem_sent howed]
  have hpairs : List.Forall₂ (fun id e => id = e.1) w.ids w.requests := by
    rw [Wire.ids, List.forall₂_map_left_iff]
    exact List.forall₂_same.mpr fun _ _ => rfl
  obtain ⟨requests, hrequests, hperm⟩ := List.perm_comp_forall₂ hids hpairs
  have hmembers : ∀ e ∈ requests, e ∈ w.requests := fun e he => hperm.mem_iff.mp he
  have hwritten : w.sent.map (·.2) = order.flatMap w.sentBy := by
    conv_lhs => rw [hcut, List.map_flatMap]
    rfl
  rw [hwritten]
  obtain ⟨runs, hruns, hbytes⟩ : ∃ runs : List (List Frame),
      List.Forall₂ CompleteRun (requests.map (·.2)) runs
        ∧ order.flatMap w.sentBy = runs.flatten.map Frame.encode := by
    -- the induction is on the order alone
    clear hperm hids hmem hnodup hcut hwritten
    induction hrequests with
    | nil => exact ⟨[], List.Forall₂.nil, rfl⟩
    | @cons id e order requests he _ ih =>
      obtain ⟨runs, hruns, hbytes⟩ := ih fun e he => hmembers e (List.mem_cons_of_mem _ he)
      obtain ⟨run, hrun, hsent⟩ :=
        run_of_written (hw.all_written howed (hmembers e List.mem_cons_self))
      refine ⟨run :: runs, List.Forall₂.cons hrun hruns, ?_⟩
      rw [List.flatMap_cons, hbytes, he, hsent, List.flatten_cons, List.map_append]
  exact ⟨_, runs, hperm.map _, hruns, hbytes⟩

theorem gathered_append {as bs : List TaskId} {i : TaskId} (ha : ∀ x ∈ as, x = i) (hi : i ∉ bs)
    (hb : Gathered bs) : Gathered (as ++ bs) := by
  intro x y hs
  obtain ⟨before, after, heq, hbefore, hafter⟩ := List.sublist_append_iff.mp hs
  match before, heq with
  | [], heq => exact hb x y (heq ▸ hafter)
  | [x'], heq =>
    simp only [List.cons_append, List.nil_append, List.cons.injEq] at heq
    have hx : x' = i := ha x' (hbefore.subset List.mem_cons_self)
    have hmem : x ∈ bs := hafter.subset (by simp [← heq.2])
    exact absurd (heq.1.trans hx ▸ hmem) hi
  | x' :: y' :: more, heq =>
    simp only [List.cons_append, List.cons.injEq] at heq
    rw [heq.1, heq.2.1, ha x' (hbefore.subset (by simp)), ha y' (hbefore.subset (by simp))]

theorem same_writer {here later : List (TaskId × Bool × Bool)} (hwhole : Fragment.Whole (here.map (·.2)))
    (hown : ∀ id, own id (here ++ later) = [] ∨ Fragment.Whole ((own id (here ++ later)).map (·.2))) :
    ∃ id, id ∈ here.map (·.1) ∧ ∀ e ∈ here, e.1 = id := by
  obtain ⟨n, hfirst, -⟩ := hwhole
  cases here with
  | nil => exact absurd hfirst.symm (List.cons_ne_nil _ _)
  | cons e others =>
    refine ⟨e.1, List.mem_cons_self, fun e' hm => ?_⟩
    rcases List.mem_cons.mp hm with rfl | hm
    · rfl
    · by_contra hne
      have hmine : own e'.1 others ≠ [] :=
        fun hnil => own_eq_nil.mp hnil (List.mem_map_of_mem hm)
      obtain ⟨y, ys, hy⟩ := List.exists_cons_of_ne_nil hmine
      have hmem : y ∈ others := (of_mem_own (hy ▸ List.mem_cons_self)).1
      have hlate : y.2.1 = false := by
        rw [List.map_cons, List.map_cons, List.cons.injEq] at hfirst
        exact List.eq_of_mem_replicate
          (hfirst.2 ▸ List.mem_map_of_mem (List.mem_map_of_mem hmem))
      have hskip : own e'.1 ((e :: others) ++ later) = y :: (ys ++ own e'.1 later) := by
        rw [own_append, own_cons_of_ne (Ne.symm hne), hy, List.cons_append]
      rcases hown e'.1 with hnone | ⟨m, hstart, -⟩
      · exact absurd (hskip.symm.trans hnone) (List.cons_ne_nil _ _)
      · rw [hskip, List.map_cons, List.map_cons, hlate, List.cons.injEq] at hstart
        exact Bool.false_ne_true hstart.1

theorem gathered_of_whole (runs : List (List (Bool × Bool))) {events : List (TaskId × Bool × Bool)}
    (hruns : ∀ run ∈ runs, Fragment.Whole run) (hcut : events.map (·.2) = runs.flatten)
    (hown : ∀ id, own id events = [] ∨ Fragment.Whole ((own id events).map (·.2))) :
    Gathered (events.map (·.1)) := by
  induction runs generalizing events with
  | nil =>
    rw [List.flatten_nil, List.map_eq_nil_iff] at hcut
    rw [hcut]
    exact fun i j hs => absurd (List.sublist_nil.mp hs) (List.cons_ne_nil _ _)
  | cons run runs ih =>
    rw [List.flatten_cons] at hcut
    obtain ⟨here, later, rfl, rfl, hlater⟩ := List.map_eq_append_iff.mp hcut
    have hwhole := hruns _ List.mem_cons_self
    obtain ⟨id, hid, hsame⟩ := same_writer hwhole hown
    -- its events so far are a whole packet, and a whole packet has no more behind it
    have hdone : id ∉ later.map (·.1) := by
      rcases hown id with hnone | hall
      · rw [own_append, List.append_eq_nil_iff, own_eq_self hsame] at hnone
        rw [hnone.1] at hid
        exact absurd hid List.not_mem_nil
      · rw [own_append, List.map_append, own_eq_self hsame] at hall
        exact own_eq_nil.mp (List.map_eq_nil_iff.mp (hwhole.prefix_eq hall))
    rw [List.map_append]
    refine gathered_append ?_ hdone (ih ?_ hlater ?_)
    · intro x hx
      obtain ⟨e, hm, rfl⟩ := List.mem_map.mp hx
      exact hsame e hm
    · exact fun run hm => hruns run (List.mem_cons_of_mem _ hm)
    · intro k
      by_cases hk : k = id
      · exact Or.inl (hk ▸ own_eq_nil.mpr hdone)
      · have hskip : own k here = [] := by
          refine own_eq_nil.mpr fun hm => ?_
          obtain ⟨e, he, rfl⟩ := List.mem_map.mp hm
          exact hk (hsame e he)
        have hk' := hown k
        rw [own_append, hskip, List.nil_append] at hk'
        exact hk'

def marksOf (bytes : List UInt8) : Bool × Bool :=
  match Frame.decode bytes with
  | .ok (f, _) => f.marks
  | .error _ => (false, false)

theorem marksOf_encode {f : Frame} (hf : f.WellFormed) : marksOf f.encode = f.marks := by
  have hd := Frame.decode_complete hf []
  rw [List.append_nil] at hd
  rw [marksOf, hd]

theorem marksOf_stamped {fragments run : List Frame} (h : List.Forall₂ Frame.StampOf fragments run)
    (hformed : ∀ g ∈ run, g.WellFormed) :
    (run.map Frame.encode).map marksOf = fragments.map Frame.marks := by
  induction h with
  | nil => rfl
  | @cons f g fragments run hs _ ih =>
    rw [List.map_cons, List.map_cons, List.map_cons, marksOf_encode (hformed g List.mem_cons_self),
      hs.marks, ih fun g hg => hformed g (List.mem_cons_of_mem _ hg)]

theorem marksOf_run {p : Packet} (hp : p.header.isSome = true) {run : List Frame}
    (h : CompleteRun p run) : Fragment.Whole ((run.map Frame.encode).map marksOf) := by
  have hformed : ∀ g ∈ run, g.WellFormed := by
    intro g hg
    obtain ⟨f, hf, hs⟩ := exists_of_mem_right h hg
    exact (Fragment.wellFormed_of_mem_split hp hf hs).1
  rw [marksOf_stamped h hformed]
  exact Fragment.whole_split p _

theorem gathered_of_together {w : Wire} (hw : w.Sound) (howed : ∀ id, w.owed id = [])
    (hp : ∀ e ∈ w.requests, e.2.header.isSome = true)
    (h : Together (w.requests.map (·.2)) (w.sent.map (·.2))) : Gathered (w.sent.map (·.1)) := by
  obtain ⟨order, runs, hperm, hruns, hbytes⟩ := h
  have hevents : (w.sent.map fun e => (e.1, marksOf e.2)).map (·.1) = w.sent.map (·.1) := by
    rw [List.map_map]
    rfl
  rw [← hevents]
  -- the marks of the frames, each with who wrote it
  refine gathered_of_whole (runs.map fun run => (run.map Frame.encode).map marksOf) ?_ ?_ ?_
  · intro run' hm
    obtain ⟨run, hrun, rfl⟩ := List.mem_map.mp hm
    obtain ⟨p, hmem, hstamped⟩ := exists_of_mem_right hruns hrun
    obtain ⟨e, he, rfl⟩ := List.mem_map.mp (hperm.mem_iff.mp hmem)
    exact marksOf_run (hp e he) hstamped
  · have hmarks : (w.sent.map fun e => (e.1, marksOf e.2)).map (·.2)
        = (w.sent.map (·.2)).map marksOf := by
      rw [List.map_map, List.map_map]
      rfl
    rw [hmarks, hbytes, List.map_flatten, List.map_flatten, List.map_map]
    rfl
  · intro id
    have hown : own id (w.sent.map fun e => (e.1, marksOf e.2))
        = (own id w.sent).map fun e => (e.1, marksOf e.2) := by
      rw [own, List.filter_map]
      rfl
    rw [hown]
    by_cases hid : id ∈ w.sent.map (·.1)
    · obtain ⟨⟨k, p⟩, hreq, hk⟩ := List.mem_map.mp (hw.known id hid)
      obtain rfl : k = id := hk
      obtain ⟨run, hrun, hsent⟩ := run_of_written (hw.all_written howed hreq)
      right
      have hmarks : ((own k w.sent).map fun e => (e.1, marksOf e.2)).map (·.2)
          = (w.sentBy k).map marksOf := by
        rw [sentBy, List.map_map, List.map_map]
        rfl
      rw [hmarks, hsent]
      exact marksOf_run (hp _ hreq) hrun
    · left
      rw [List.map_eq_nil_iff]
      exact own_eq_nil.mpr hid

theorem together_iff {w : Wire} (hw : w.Sound) (howed : ∀ id, w.owed id = [])
    (hp : ∀ e ∈ w.requests, e.2.header.isSome = true) :
    Together (w.requests.map (·.2)) (w.sent.map (·.2)) ↔ Gathered (w.sent.map (·.1)) :=
  ⟨gathered_of_together hw howed hp, together_of_gathered hw howed⟩

end Wire

end NcpHost.Session
