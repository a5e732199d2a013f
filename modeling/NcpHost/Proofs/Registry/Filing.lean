import NcpHost.Proofs.Registry.Dispatch

/-! Who is in a registry after any acts. A listener is there from when it is registered until it is
removed: by its number, with all others, or because a command completed it. Numbers are given out once,
so whoever is gone is gone for good, from every bucket. -/

namespace NcpHost.Registry

variable {κ : Type} {r : Registry κ} {given : List (Listener κ)} {acts : List (Act κ)} {act : Act κ}
  {id : ListenerId}

/-- The act takes a listener out: it is removed by its number or with all others, or it is the one that
the command completes. -/
def Act.Removes (r : Registry κ) (id : ListenerId) : Act κ → Prop
  | .unregister k => k = id
  | .dispatch c => r.winner? c = some id
  | .clear => True
  | .register _ | .receive _ | .closeSlot _ | .forget _ => False

theorem Numbered.listener?_removed (h : Numbered given r) (hr : act.Removes r id) :
    (r.perform act).listener? id = none := by
  cases act with
  | unregister k =>
    obtain rfl : k = id := hr
    exact h.sound.listener?_unregister k
  | dispatch c => exact (h.winner hr).1
  | clear => rfl
  | register | receive | closeSlot | forget => exact hr.elim

theorem Numbered.listener?_spared (h : Numbered given r) (hid : id < r.nextId)
    (hs : ¬act.Removes r id) : (r.perform act).listener? id = r.listener? id := by
  cases act with
  | register l => exact (h.sound.same_register l hid).listener
  | unregister k => exact (h.sound.same_unregister (Ne.symm hs)).listener
  | dispatch c => exact (h.others hs).1
  | clear => exact absurd trivial hs
  | receive | closeSlot | forget => rfl

theorem Numbered.gone (h : Numbered given r) (hid : id < r.nextId) (hgone : r.listener? id = none)
    (act : Act κ) : id < (r.perform act).nextId ∧ (r.perform act).listener? id = none := by
  have hcount := (h.perform act).count
  rw [List.length_append, ← h.count] at hcount
  refine ⟨hcount ▸ Nat.lt_add_right _ hid, ?_⟩
  by_cases hr : act.Removes r id
  · exact h.listener?_removed hr
  · exact (h.listener?_spared hid hr).trans hgone

theorem Numbered.gone_run (h : Numbered given r) (hid : id < r.nextId)
    (hgone : r.listener? id = none) (more : List (Act κ)) : (r.run more).listener? id = none := by
  induction more generalizing given r with
  | nil => exact hgone
  | cons act rest ih =>
    obtain ⟨hid', hgone'⟩ := h.gone hid hgone act
    exact ih (h.perform act) hid' hgone'

def Removed (acts : List (Act κ)) (id : ListenerId) : Prop :=
  ∃ before act after, acts = before ++ act :: after ∧ id < (registered before).length
    ∧ act.Removes (empty.run before) id

theorem Removed.registered (h : Removed acts id) : id < (registered acts).length := by
  obtain ⟨before, act, after, rfl, hid, -⟩ := h
  rw [registered_append, List.length_append]
  exact Nat.lt_add_right _ hid

theorem removed_concat : Removed (acts ++ [act]) id
    ↔ Removed acts id ∨ id < (registered acts).length ∧ act.Removes (empty.run acts) id := by
  constructor
  · rintro ⟨before, a, after, heq, hid, hr⟩
    rcases List.eq_nil_or_concat after with rfl | ⟨after, last, rfl⟩
    · obtain ⟨rfl, hlast⟩ := List.append_inj' heq rfl
      obtain rfl := List.singleton_inj.mp hlast
      exact Or.inr ⟨hid, hr⟩
    · rw [List.concat_eq_append, ← List.cons_append, ← List.append_assoc] at heq
      obtain ⟨rfl, -⟩ := List.append_inj' heq rfl
      exact Or.inl ⟨before, a, after, rfl, hid, hr⟩
  · rintro (⟨before, a, after, rfl, hid, hr⟩ | ⟨hid, hr⟩)
    · exact ⟨before, a, after ++ [act], by simp, hid, hr⟩
    · exact ⟨acts, act, [], rfl, hid, hr⟩

/-- A listener is found exactly from when it is registered until it is removed. -/
theorem listener?_run (acts : List (Act κ)) (id : ListenerId) (l : Listener κ) :
    (empty.run acts).listener? id = some l
      ↔ (registered acts)[id]? = some l ∧ ¬Removed acts id := by
  induction acts using List.reverseRecOn with
  | nil => exact iff_of_false nofun fun h => absurd h.1 (by simp [registered])
  | append_singleton acts act ih =>
    have h := numbered_run acts
    rw [registered_append, removed_concat, run_append, run_cons, run_nil]
    by_cases hid : id < (registered acts).length
    · rw [List.getElem?_append_left hid]
      by_cases hr : act.Removes (empty.run acts) id
      · rw [h.listener?_removed hr]
        exact iff_of_false nofun fun hm => hm.2 (Or.inr ⟨hid, hr⟩)
      · rw [h.listener?_spared (h.count ▸ hid) hr, ih]
        exact and_congr_right fun _ => not_congr (or_iff_left fun hm => hr hm.2).symm
    · -- this number is given out by the last act or not yet
      have hnew : ¬(Removed acts id
          ∨ id < (registered acts).length ∧ act.Removes (empty.run acts) id) := by
        rintro (hm | ⟨hm, -⟩)
        · exact hid hm.registered
        · exact hid hm
      refine ⟨fun hl => ⟨(h.perform act).known id l hl, hnew⟩, fun ⟨hl, _⟩ => ?_⟩
      rw [List.getElem?_append_right (Nat.le_of_not_lt hid)] at hl
      cases act with
      | register l' =>
        obtain ⟨hlast, rfl⟩ : id - (registered acts).length = 0 ∧ l' = l := by
          simpa [registered, List.getElem?_singleton] using hl
        have hnext : id = (empty.run acts).nextId :=
          (Nat.le_antisymm (Nat.sub_eq_zero_iff_le.mp hlast) (Nat.le_of_not_lt hid)).trans
            h.count.symm
        exact (h.sound.listener?_register l' id).trans (if_pos hnext)
      | unregister | dispatch | clear | receive | closeSlot | forget => exact absurd hl nofun

/-- After some acts on an empty registry, a listener that was registered and not removed is found by its
number, and stands in the bucket of each of its headers; nobody else stands in any bucket. -/
structure Filed (acts : List (Act κ)) (r : Registry κ) : Prop where
  next : ∀ l, (r.register l).2 = (registered acts).length
  listener : ∀ id l, r.listener? id = some l
    ↔ (registered acts)[id]? = some l ∧ ¬Removed acts id
  stored : ∀ l id, (r.register l).1.listener? id
    = if id = (registered acts).length then some l else r.listener? id
  completed : ∀ c, (r.dispatch c).2.completed = r.winner? c
  removed : ∀ act id, act.Removes r id → (r.perform act).listener? id = none
  spared : ∀ act id, id < (registered acts).length → ¬act.Removes r id →
    (r.perform act).listener? id = r.listener? id
  enlisted : ∀ header id, id ∈ r.bucket header ↔ ∃ l, r.listener? id = some l ∧ header ∈ l.headers
  bucket : ∀ header, r.bucket header = ((registered acts).zipIdx.filter fun (l, id) =>
    (r.listener? id).isSome && decide (header ∈ l.headers)).map (·.2)
  distinct : (r.buckets.map (·.1)).Nodup
  entries : ∀ header ids, (header, ids) ∈ r.buckets → ids = r.bucket header ∧ ids ≠ [] ∧ ids.Nodup
  gone : ∀ id, id < (registered acts).length → r.listener? id = none → ∀ more,
    (∀ e ∈ (r.run more).buckets, id ∉ e.2) ∧ (r.run more).unregister id = r.run more

theorem filed (acts : List (Act κ)) : Filed acts (empty.run acts) := by
  have hrun := numbered_run acts
  refine {
    next := fun _ => hrun.count
    listener := listener?_run acts
    stored := fun l id => hrun.count ▸ hrun.sound.listener?_register l id
    completed := hrun.completed
    removed := fun _ _ hr => hrun.listener?_removed hr
    spared := fun _ _ hid hs => hrun.listener?_spared (hrun.count ▸ hid) hs
    enlisted := hrun.sound.enlisted
    bucket := hrun.bucket_eq
    distinct := hrun.sound.distinct
    entries := fun header ids he => ?_
    gone := fun id hid hgone more => ?_ }
  · have hbucket := hrun.entry he
    exact ⟨hbucket.symm, hrun.occupied _ he, hbucket ▸ hrun.sound.nodup_bucket header⟩
  · have hmore := hrun.gone_run (hrun.count ▸ hid) hgone more
    have hlater := numbered_run (acts ++ more)
    rw [run_append] at hlater
    refine ⟨fun ⟨header, ids⟩ he hm => ?_, ?_⟩
    · obtain ⟨l, hl, -⟩ := (hlater.sound.enlisted header id).mp (hlater.entry he ▸ hm)
      exact absurd (hmore.symm.trans hl) nofun
    · rw [Registry.unregister, hmore]

/-- A listener with patterns of two headers, one of them twice, stands once under each, and nowhere once a
command has completed it. -/
example :
    let version : Definition := ⟨"Version.Rsp", .of .response 0x01, [], false, none⟩
    let reset : Definition := ⟨"Reset.Ind", .of .indication 0x2b, [], false, none⟩
    let listening : List (Act Nat) :=
      [.register ⟨[.anyOf version, .anyOf reset, .anyOf reset], .oneShot⟩]
    let buckets : List (Act Nat) → List (List ListenerId) := fun acts =>
      [version, reset].map fun d => (empty.run acts).bucket d.header
    buckets listening = [[0], [0]]
      ∧ buckets (listening ++ [.dispatch ⟨reset, [], false⟩]) = [[], []] := by
  decide +kernel

end NcpHost.Registry
