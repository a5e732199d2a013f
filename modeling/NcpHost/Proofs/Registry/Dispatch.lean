import Mathlib.Data.List.Find
import NcpHost.Proofs.Registry.Buckets

/-! Who gets a command. Of the listeners that it is for, in the order in which they were registered,
every indication has its callback run, and the first one-shot listener that can still be completed is
completed and removed. Nobody else is completed, and nobody behind it is touched. -/

namespace NcpHost.Registry

variable {κ : Type} {r r' : Registry κ} {c : Command} {given : List (Listener κ)}

/-- The registered listeners to whom a command is for: they stand under its header, and some pattern
of theirs matches it. -/
def audience (r : Registry κ) (c : Command) : List (ListenerId × Listener κ) :=
  r.listeners.filter fun (_, l) => decide (c.header ∈ l.headers) && l.hears c

/-- The first of them that waits for one command and would still receive it. -/
def winner? (r : Registry κ) (c : Command) : Option ListenerId :=
  ((r.audience c).find? fun (id, l) => l.isOneShot && (r.slot id).live).map (·.1)

def takes (r : Registry κ) (c : Command) (id : ListenerId) : Bool :=
  (r.listener? id).any (fun l => l.isOneShot && l.hears c) && (r.slot id).live

theorem takes_eq_true {id : ListenerId} :
    r.takes c id = true ↔ r.Awaits c id ∧ (r.slot id).live = true := by
  cases hl : r.listener? id <;> simp [takes, Awaits, hl]

theorem slot_eq (r : Registry κ) (id : ListenerId) :
    r.slot id = (r.slot? id).getD ⟨none, false, false⟩ := rfl

theorem Same.slot_eq {id : ListenerId} (h : Same id r r') : r'.slot id = r.slot id := by
  rw [Registry.slot_eq, h.slot, Registry.slot_eq]

theorem Same.takes_eq {id : ListenerId} (h : Same id r r') : r'.takes c id = r.takes c id := by
  rw [takes, takes, h.listener, h.slot_eq]

theorem offerAll_append (c : Command) (r : Registry κ) (before after : List ListenerId)
    (d : Dispatch κ) :
    offerAll c r (before ++ after) d
      = offerAll c (offerAll c r before d).1 after (offerAll c r before d).2 := by
  induction before generalizing r d with
  | nil => rfl
  | cons id rest ih =>
    rw [List.cons_append]
    rcases offerAll_cons c r id rest d with ⟨heq, hno⟩ | ⟨hnone, hawaits, -, heq⟩
    · rcases offerAll_cons c r id (rest ++ after) d with ⟨heq', -⟩ | ⟨hnone, hawaits, -⟩
      · rw [heq', ih, heq]
      · exact absurd hawaits (hno hnone)
    · rcases offerAll_cons c r id (rest ++ after) d with ⟨-, hno⟩ | ⟨-, -, -, heq'⟩
      · exact absurd hawaits (hno hnone)
      · rw [heq', ih, heq]

theorem offerAll_callbacks (c : Command) (r : Registry κ) (ids : List ListenerId)
    (d : Dispatch κ) :
    (offerAll c r ids d).2.callbacks = d.callbacks ++ ids.filterMap (r.call? c) := by
  induction ids generalizing r d with
  | nil => simp [offerAll]
  | cons id rest ih =>
    rw [List.filterMap_cons]
    rcases offerAll_cons c r id rest d with ⟨heq, -⟩ | ⟨-, -, hsilent, heq⟩
    · rw [heq, ih]
      cases r.call? c id <;> simp
    · rw [heq, ih, hsilent]
      rfl

theorem offerAll_completed (c : Command) (r : Registry κ) {ids : List ListenerId} (hn : ids.Nodup)
    (d : Dispatch κ) :
    (offerAll c r ids d).2.completed = d.completed.or (ids.find? (r.takes c)) := by
  induction ids generalizing r d with
  | nil => simp [offerAll]
  | cons id rest ih =>
    rw [List.nodup_cons] at hn
    rcases offerAll_cons c r id rest d with ⟨heq, hno⟩ | ⟨hnone, hawaits, -, heq⟩
    · rw [heq, ih r hn.2]
      cases hd : d.completed with
      | some w => rfl
      | none =>
        have hpassed : ¬r.takes c id = true := fun ht => hno hd (takes_eq_true.mp ht).1
        rw [List.find?_cons_of_neg hpassed]
    · rw [heq, ih _ hn.2, hnone]
      cases hlive : (r.slot id).live with
      | true =>
        rw [List.find?_cons_of_pos (takes_eq_true.mpr ⟨hawaits, hlive⟩)]
        rfl
      | false =>
        have hpassed : ¬r.takes c id = true := by simp [takes_eq_true, hlive]
        rw [List.find?_cons_of_neg hpassed]
        -- asking this listener changes nothing for those behind it
        refine List.find?_congr fun k hk => Same.takes_eq ⟨rfl, ?_⟩
        have hne : k ≠ id := fun e => hn.1 (e ▸ hk)
        exact (slot?_modifySlot r id _ k).trans (if_neg hne)

theorem offerAll_behind {ids : List ListenerId} (hs : ids.Pairwise (· < ·)) {w k : ListenerId}
    (hw : ids.find? (r.takes c) = some w) (hk : w < k) :
    (offerAll c r ids .nothing).1.slot? k = r.slot? k := by
  have hnodup : ids.Nodup := hs.imp Nat.ne_of_lt
  obtain ⟨htakes, before, after, rfl, hbefore⟩ := List.find?_eq_some_iff_append.mp hw
  rw [List.append_cons] at hnodup hs ⊢
  have hupto := (List.nodup_append.mp hnodup).1
  have hcompleted : (offerAll c r (before ++ [w]) .nothing).2.completed = some w := by
    have hnone : before.find? (r.takes c) = none := List.find?_eq_none.mpr fun j hj => by
      simpa using hbefore j hj
    rw [offerAll_completed c r hupto, List.find?_append, hnone, List.find?_cons_of_pos htakes]
    rfl
  obtain ⟨-, -, -, -, hout, -⟩ := offerAll_asked c r hupto Dispatch.nothing
  obtain ⟨-, -, -, hdone, -⟩ := offerAll_asked c (offerAll c r (before ++ [w]) .nothing).1
    (List.nodup_append.mp hnodup).2.1 (offerAll c r (before ++ [w]) .nothing).2
  have hlater : k ∉ before ++ [w] := by
    intro hm
    rcases List.mem_append.mp hm with hm | hm
    · have hlt := (List.pairwise_append.mp (List.pairwise_append.mp hs).1).2.2 k hm w (by simp)
      exact Nat.lt_irrefl _ (Nat.lt_trans hk hlt)
    · exact Nat.lt_irrefl _ (List.mem_singleton.mp hm ▸ hk)
  rw [offerAll_append, slot?, (hdone (by simp [hcompleted])).1]
  exact hout k hlater

theorem Numbered.mem_audience (h : Numbered given r) {id : ListenerId} {l : Listener κ} :
    (id, l) ∈ r.audience c
      ↔ r.listener? id = some l ∧ c.header ∈ l.headers ∧ l.hears c = true := by
  rw [audience, List.mem_filter, h.listener?_eq]
  simp

theorem Numbered.audience_ids (h : Numbered given r) (c : Command) :
    (r.audience c).map (·.1)
      = (r.bucket c.header).filter fun id => (r.listener? id).any (·.hears c) := by
  refine List.Pairwise.eq_of_mem_iff (h.inOrder.sublist (List.filter_sublist.map _))
    ((h.sound.ordered c.header).filter _) fun id => ?_
  rw [List.mem_filter, h.sound.enlisted]
  constructor
  · intro hlisted
    obtain ⟨⟨k, l⟩, hm, rfl⟩ := List.mem_map.mp hlisted
    obtain ⟨hl, hheader, hhears⟩ := h.mem_audience.mp hm
    exact ⟨⟨l, hl, hheader⟩, by simp [hl, hhears]⟩
  · rintro ⟨⟨l, hl, hheader⟩, hhears⟩
    exact List.mem_map.mpr ⟨(id, l), h.mem_audience.mpr ⟨hl, hheader, by simpa [hl] using hhears⟩, rfl⟩

theorem Numbered.calls (h : Numbered given r) (c : Command) :
    (r.bucket c.header).filterMap (r.call? c) = (r.audience c).filterMap (·.2.callback?) := by
  have hdeaf : ∀ id, (if (r.listener? id).any (·.hears c) = true then r.call? c id else none)
      = r.call? c id := by
    intro id
    cases hl : r.listener? id with
    | none => simp [call?, hl]
    | some l => cases hh : l.hears c <;> simp [call?, hl, hh]
  calc (r.bucket c.header).filterMap (r.call? c)
      = ((r.bucket c.header).filter fun id => (r.listener? id).any (·.hears c)).filterMap
          (r.call? c) := by rw [List.filterMap_filter]; simp only [hdeaf]
    _ = (r.audience c).filterMap (r.call? c ∘ (·.1)) := by
          rw [← h.audience_ids, List.filterMap_map]
    _ = (r.audience c).filterMap (·.2.callback?) := by
          refine List.filterMap_congr fun e hm => ?_
          obtain ⟨id, l⟩ := e
          obtain ⟨hl, -, hhears⟩ := h.mem_audience.mp hm
          simp [call?, hl, hhears]

theorem Numbered.find?_takes (h : Numbered given r) (c : Command) :
    (r.bucket c.header).find? (r.takes c) = r.winner? c := by
  have hdeaf : ∀ id, decide ((r.listener? id).any (·.hears c) = true ∧ r.takes c id = true)
      = r.takes c id := by
    intro id
    cases hl : r.listener? id with
    | none => simp [takes, hl]
    | some l => cases hh : l.hears c <;> simp [takes, hl, hh]
  calc (r.bucket c.header).find? (r.takes c)
      = ((r.bucket c.header).filter fun id => (r.listener? id).any (·.hears c)).find?
          (r.takes c) := by rw [List.find?_filter]; simp only [hdeaf]
    _ = ((r.audience c).find? (r.takes c ∘ (·.1))).map (·.1) := by
          rw [← h.audience_ids, List.find?_map]
    _ = r.winner? c := by
          rw [winner?]
          refine congrArg _ (List.find?_congr fun ⟨id, l⟩ hm => ?_)
          obtain ⟨hl, -, hhears⟩ := h.mem_audience.mp hm
          simp [takes, hl, hhears]

theorem dispatch_snd (r : Registry κ) (c : Command) :
    (r.dispatch c).2 = (offerAll c r (r.bucket c.header) .nothing).2 := by
  unfold dispatch
  dsimp only
  split <;> rfl

theorem Numbered.completed (h : Numbered given r) (c : Command) :
    (r.dispatch c).2.completed = r.winner? c := by
  rw [dispatch_snd, offerAll_completed c r (h.sound.nodup_bucket c.header), h.find?_takes]
  rfl

theorem Numbered.callbacks (h : Numbered given r) (c : Command) :
    (r.dispatch c).2.callbacks = (r.audience c).filterMap (·.2.callback?) := by
  rw [dispatch_snd, offerAll_callbacks, h.calls]
  rfl

theorem Numbered.bucket_dispatch (h : Numbered given r) (c : Command) (header : CommandHeader) :
    (r.dispatch c).1.bucket header
      = (r.bucket header).filter fun id => r.winner? c != some id := by
  obtain ⟨hs, -, hb, -⟩ := h.sound.offered_frame c
  have hlast := r.dispatch_cases c
  rw [h.completed] at hlast
  have hbucket : (r.offered c).bucket header = r.bucket header := by rw [bucket, hb, bucket]
  rcases hlast with ⟨hnone, heq⟩ | ⟨w, hw, heq⟩
  · rw [heq, hbucket, hnone]
    exact (List.filter_eq_self.mpr fun _ _ => rfl).symm
  · rw [heq, (hs.unregister_eq w).2.2.1, hbucket, hw]
    refine List.filter_congr fun id _ => ?_
    rw [Bool.eq_iff_iff, bne_iff_ne, bne_iff_ne, ne_eq, ne_eq, Option.some.injEq, eq_comm]

theorem Numbered.untouched (h : Numbered given r) {id : ListenerId}
    (hid : ∀ l, (id, l) ∈ r.audience c → l.isOneShot = true → ∃ w, r.winner? c = some w ∧ w < id) :
    Same id r (r.dispatch c).1 := by
  have hlater : id ∈ r.bucket c.header → r.Awaits c id → ∃ w, r.winner? c = some w ∧ w < id := by
    rintro hm ⟨l, hl, hone, hhears⟩
    obtain ⟨l', hl', hheader⟩ := (h.sound.enlisted c.header id).mp hm
    obtain rfl := Option.some.inj (hl.symm.trans hl')
    exact hid l (h.mem_audience.mpr ⟨hl, hheader, hhears⟩) hone
  cases h.sound.dispatch_offered c id with
  | passed _ hsame => exact hsame
  | won hm hawaits _ hcompleted _ _ =>
    obtain ⟨w, hw, hlt⟩ := hlater hm hawaits
    rw [h.completed, hw] at hcompleted
    exact absurd hlt (Option.some.inj hcompleted ▸ Nat.lt_irrefl _)
  | spent _ hm hawaits _ hl _ =>
    obtain ⟨w, hw, hlt⟩ := hlater hm hawaits
    have hbehind : (r.offered c).slot? id = r.slot? id :=
      offerAll_behind (h.sound.ordered c.header) ((h.find?_takes c).trans hw) hlt
    refine ⟨hl, Eq.trans ?_ hbehind⟩
    obtain ⟨hs, -⟩ := h.sound.offered_frame c
    rcases r.dispatch_cases c with ⟨-, heq⟩ | ⟨v, hv, heq⟩
    · rw [heq]
    · rw [h.completed, hw] at hv
      rw [heq, (hs.same_unregister (Option.some.inj hv ▸ Nat.ne_of_gt hlt)).slot]

theorem peek_eq (r : Registry κ) (id : ListenerId) :
    r.peek id = ((r.slot? id).getD ⟨none, false, false⟩).peek := rfl

theorem Same.peek_eq {id : ListenerId} (h : Same id r r') : r'.peek id = r.peek id := by
  rw [Registry.peek_eq, h.slot, Registry.peek_eq]

theorem peek_disarm {s : Slot} (h : s.live = false) : s.disarm.peek = s.peek := by
  obtain ⟨content, armed, receiving⟩ := s
  cases content with
  | some c => rfl
  | none =>
    cases receiving with
    | false => simp [Slot.disarm, Slot.peek, Slot.live]
    | true => simp_all [Slot.disarm, Slot.peek, Slot.live]

theorem Numbered.others (h : Numbered given r) {id : ListenerId} (hid : r.winner? c ≠ some id) :
    (r.dispatch c).1.listener? id = r.listener? id ∧ (r.dispatch c).1.peek id = r.peek id := by
  cases h.sound.dispatch_offered c id with
  | passed _ hsame => exact ⟨hsame.listener, hsame.peek_eq⟩
  | won _ _ _ hcompleted _ _ => exact absurd ((h.completed c).symm.trans hcompleted) hid
  | spent _ _ _ hdead hl hs =>
    refine ⟨hl, ?_⟩
    rw [peek_eq, hs, peek_eq]
    cases hslot : r.slot? id with
    | none => rfl
    | some s => exact peek_disarm (slot_of_slot? hslot ▸ hdead)

theorem Numbered.winner (h : Numbered given r) {id : ListenerId} (hid : r.winner? c = some id) :
    (r.dispatch c).1.listener? id = none ∧ (r.dispatch c).1.peek id = .delivered c := by
  have hcompleted := (h.completed c).trans hid
  cases h.sound.dispatch_offered c id with
  | passed hno _ | spent hno _ _ _ _ _ => exact absurd hcompleted hno
  | won _ _ hlive _ hl hs =>
    refine ⟨hl, ?_⟩
    rw [peek_eq, hs]
    cases hslot : r.slot? id with
    | none =>
      rw [slot_eq, hslot] at hlive
      exact absurd hlive Bool.false_ne_true
    | some s => rfl

structure Served (r : Registry κ) (c : Command) : Prop where
  inOrder : ((r.audience c).map (·.1)).Pairwise (· < ·)
  callbacks : (r.dispatch c).2.callbacks = (r.audience c).filterMap (·.2.callback?)
  completed : (r.dispatch c).2.completed = r.winner? c
  matched : (r.dispatch c).2.matched = true
    ↔ (∃ e ∈ r.audience c, e.2.isOneShot = false) ∨ (r.winner? c).isSome = true
  received : ∀ id, r.winner? c = some id →
    (r.dispatch c).1.listener? id = none ∧ (r.dispatch c).1.peek id = .delivered c
  bucket : ∀ header, (r.dispatch c).1.bucket header
    = (r.bucket header).filter fun id => r.winner? c != some id
  /-- All others, those that can not be completed any more included, stay and receive nothing. -/
  others : ∀ id, r.winner? c ≠ some id →
    (r.dispatch c).1.listener? id = r.listener? id ∧ (r.dispatch c).1.peek id = r.peek id
  /-- Nothing at all is done to the one-shot listeners behind it, to indications, and to those whom
  the command is not for. -/
  untouched : ∀ id, (∀ l, (id, l) ∈ r.audience c → l.isOneShot = true →
    ∃ w, r.winner? c = some w ∧ w < id) → Same id r (r.dispatch c).1

theorem matched_iff {d : Dispatch κ} {entries : List (ListenerId × Listener κ)}
    (h : d.callbacks = entries.filterMap (·.2.callback?)) :
    d.matched = true ↔ (∃ e ∈ entries, e.2.isOneShot = false) ∨ d.completed.isSome = true := by
  have hspoken : ∀ e : ListenerId × Listener κ, e.2.callback? = none ↔ e.2.isOneShot = true := by
    intro e
    cases hr : e.2.role <;> simp [Listener.callback?, Listener.isOneShot, hr]
  have hsilent : d.callbacks = [] ↔ ∀ e ∈ entries, e.2.isOneShot = true := by
    rw [h, List.filterMap_eq_nil_iff]
    exact forall₂_congr fun e _ => hspoken e
  rw [Dispatch.matched, Bool.or_eq_true, Bool.not_eq_true', List.isEmpty_eq_false_iff, ne_eq, hsilent,
    or_comm]
  simp

theorem dispatch_served (acts : List (Act κ)) (c : Command) : Served (empty.run acts) c := by
  have h := numbered_run acts
  refine ⟨h.inOrder.sublist (List.filter_sublist.map _), h.callbacks c, h.completed c, ?_,
    fun _ => h.winner, h.bucket_dispatch c, fun _ => h.others, fun _ => h.untouched⟩
  rw [← h.completed]
  exact matched_iff (h.callbacks c)

end NcpHost.Registry
