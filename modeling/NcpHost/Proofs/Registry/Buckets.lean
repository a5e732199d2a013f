import Mathlib.Data.List.Induction
import Mathlib.Data.List.Sort
import NcpHost.Proofs.Registry
import NcpHost.Registry.Act

/-! The buckets of a registry after any acts. Under a header stand those listeners that have a pattern
with it and are registered, in the order in which they were registered, and nobody else; there is no
bucket for nobody. -/

namespace NcpHost

namespace Registry

variable {κ : Type} {r r' : Registry κ} {given : List (Listener κ)}

theorem occupied_enlist {id : ListenerId} {h : CommandHeader}
    {buckets : List (CommandHeader × List ListenerId)} (ho : ∀ e ∈ buckets, e.2 ≠ []) :
    ∀ e ∈ enlist id h buckets, e.2 ≠ [] := by
  induction buckets with
  | nil => simp [enlist]
  | cons e rest ih =>
    obtain ⟨k, ids⟩ := e
    rw [List.forall_mem_cons] at ho
    rw [enlist]
    split
    · exact List.forall_mem_cons.mpr ⟨by simp, ho.2⟩
    · exact List.forall_mem_cons.mpr ⟨ho.1, ih ho.2⟩

theorem occupied_enlistAll {id : ListenerId} {headers : List CommandHeader}
    {buckets : List (CommandHeader × List ListenerId)} (ho : ∀ e ∈ buckets, e.2 ≠ []) :
    ∀ e ∈ headers.foldl (fun buckets h => enlist id h buckets) buckets, e.2 ≠ [] := by
  induction headers generalizing buckets with
  | nil => exact ho
  | cons h rest ih => exact ih (occupied_enlist ho)

theorem occupied_delist {id : ListenerId} {h : CommandHeader}
    {buckets : List (CommandHeader × List ListenerId)} (ho : ∀ e ∈ buckets, e.2 ≠ []) :
    ∀ e ∈ delist id h buckets, e.2 ≠ [] := by
  induction buckets with
  | nil => exact ho
  | cons e rest ih =>
    obtain ⟨k, ids⟩ := e
    rw [List.forall_mem_cons] at ho
    rw [delist]
    dsimp only
    split
    · split
      · exact ho.2
      · next hne => exact List.forall_mem_cons.mpr ⟨by simpa using hne, ho.2⟩
    · exact List.forall_mem_cons.mpr ⟨ho.1, ih ho.2⟩

theorem occupied_delistAll {id : ListenerId} {headers : List CommandHeader}
    {buckets : List (CommandHeader × List ListenerId)} (ho : ∀ e ∈ buckets, e.2 ≠ []) :
    ∀ e ∈ headers.foldl (fun buckets h => delist id h buckets) buckets, e.2 ≠ [] := by
  induction headers generalizing buckets with
  | nil => exact ho
  | cons h rest ih => exact ih (occupied_delist ho)

structure Numbered (given : List (Listener κ)) (r : Registry κ) : Prop where
  sound : r.Sound
  count : r.nextId = given.length
  known : ∀ id l, r.listener? id = some l → given[id]? = some l
  inOrder : (r.listeners.map (·.1)).Pairwise (· < ·)
  occupied : ∀ e ∈ r.buckets, e.2 ≠ []

theorem numbered_empty : Numbered [] (empty : Registry κ) :=
  ⟨sound_empty, rfl, fun _ _ h => absurd h nofun, .nil, fun _ h => absurd h List.not_mem_nil⟩

theorem Numbered.listener?_eq (h : Numbered given r) {id : ListenerId} {l : Listener κ} :
    r.listener? id = some l ↔ (id, l) ∈ r.listeners :=
  ⟨Keyed.mem_of_lookup, Keyed.lookup_of_mem (h.inOrder.imp Nat.ne_of_lt)⟩

theorem Numbered.register (h : Numbered given r) (l : Listener κ) :
    Numbered (given ++ [l]) (r.register l).1 := by
  refine ⟨h.sound.register l, ?_, fun id l' hid => ?_, ?_, occupied_enlistAll h.occupied⟩
  · rw [List.length_append, List.length_singleton, ← h.count]
    rfl
  · rw [h.sound.listener?_register] at hid
    split at hid
    · next he => simpa [he, h.count] using hid
    · have hold := h.known id l' hid
      rwa [List.getElem?_append_left (List.getElem?_eq_some_iff.mp hold).1]
  · have hkeys : (r.register l).1.listeners.map (·.1) = r.listeners.map (·.1) ++ [r.nextId] := by
      simp [Registry.register]
    rw [hkeys, List.pairwise_append]
    refine ⟨h.inOrder, List.pairwise_singleton _ _, fun id hid k hk => ?_⟩
    obtain ⟨⟨i, l'⟩, hmem, rfl⟩ := List.mem_map.mp hid
    rw [List.mem_singleton.mp hk]
    exact h.sound.known i (by rw [h.listener?_eq.mpr hmem]; exact nofun)

theorem Numbered.fewer (h : Numbered given r) (hs : r'.Sound) (hn : r'.nextId = r.nextId)
    (hl : r'.listeners.Sublist r.listeners) (ho : ∀ e ∈ r'.buckets, e.2 ≠ []) :
    Numbered given r' :=
  ⟨hs, hn.trans h.count,
    fun id l hid => h.known id l (h.listener?_eq.mpr (hl.subset (Keyed.mem_of_lookup hid))),
    h.inOrder.sublist (hl.map _), ho⟩

theorem Numbered.unregister (h : Numbered given r) (id : ListenerId) :
    Numbered given (r.unregister id) := by
  refine h.fewer (h.sound.unregister id) (nextId_unregister r id) ?_ ?_
  · rw [listeners_unregister]
    exact List.filter_sublist
  · unfold Registry.unregister
    split
    · exact h.occupied
    · exact occupied_delistAll h.occupied

/-- The registry when a command has been offered to its bucket and nobody is removed yet. -/
def offered (r : Registry κ) (c : Command) : Registry κ :=
  (offerAll c r (r.bucket c.header) .nothing).1

theorem dispatch_cases (r : Registry κ) (c : Command) :
    (r.dispatch c).2.completed = none ∧ (r.dispatch c).1 = r.offered c
      ∨ ∃ id, (r.dispatch c).2.completed = some id
        ∧ (r.dispatch c).1 = (r.offered c).unregister id := by
  unfold Registry.dispatch
  dsimp only
  split
  · next id hid => exact Or.inr ⟨id, hid, rfl⟩
  · next hnone => exact Or.inl ⟨hnone, rfl⟩

theorem Sound.offered_frame (hr : r.Sound) (c : Command) :
    (r.offered c).Sound ∧ (r.offered c).listeners = r.listeners
      ∧ (r.offered c).buckets = r.buckets ∧ (r.offered c).nextId = r.nextId := by
  obtain ⟨hl, hb, hn, -⟩ := offerAll_asked c r (hr.nodup_bucket c.header) Dispatch.nothing
  exact ⟨sound_offerAll hr c (hr.nodup_bucket c.header) _, hl, hb, hn⟩

theorem Numbered.dispatch (h : Numbered given r) (c : Command) :
    Numbered given (r.dispatch c).1 := by
  obtain ⟨hs, hl, hb, hn⟩ := h.sound.offered_frame c
  have hoffered : Numbered given (r.offered c) :=
    h.fewer hs hn (hl ▸ List.Sublist.refl _) (hb ▸ h.occupied)
  rcases r.dispatch_cases c with ⟨-, heq⟩ | ⟨id, -, heq⟩
  · exact heq ▸ hoffered
  · exact heq ▸ hoffered.unregister id

theorem Numbered.modifySlot (h : Numbered given r) (id : ListenerId) (f : Slot → Slot) :
    Numbered given (r.modifySlot id f) :=
  h.fewer (h.sound.modifySlot id f) rfl (List.Sublist.refl _) h.occupied

theorem Numbered.perform (h : Numbered given r) (act : Act κ) :
    Numbered (given ++ registered [act]) (r.perform act) := by
  have hnobody : given ++ [] = given := List.append_nil given
  cases act with
  | register l => exact h.register l
  | unregister id => exact hnobody.symm ▸ h.unregister id
  | dispatch c => exact hnobody.symm ▸ h.dispatch c
  | clear =>
    exact hnobody.symm ▸ h.fewer h.sound.clear rfl (List.nil_sublist _) fun _ he =>
      absurd he List.not_mem_nil
  | receive id => exact hnobody.symm ▸ h.modifySlot id fun s => s.take.1
  | closeSlot id => exact hnobody.symm ▸ h.modifySlot id Slot.close
  | forget id =>
    exact hnobody.symm ▸ h.fewer (h.sound.forget id) rfl (List.Sublist.refl _) h.occupied

theorem registered_append (before after : List (Act κ)) :
    registered (before ++ after) = registered before ++ registered after := List.filterMap_append

theorem numbered_run (acts : List (Act κ)) : Numbered (registered acts) (empty.run acts) := by
  induction acts using List.reverseRecOn with
  | nil => exact numbered_empty
  | append_singleton acts act ih =>
    rw [registered_append, run_append]
    exact ih.perform act

theorem Numbered.bucket_eq (h : Numbered given r) (header : CommandHeader) :
    r.bucket header = (given.zipIdx.filter fun (l, id) =>
      (r.listener? id).isSome && decide (header ∈ l.headers)).map (·.2) := by
  have hindices : (given.zipIdx.map (·.2)).Pairwise (· < ·) := by
    rw [List.zipIdx_map_snd]
    exact List.pairwise_lt_range'
  refine List.Pairwise.eq_of_mem_iff (h.sound.ordered header)
    (hindices.sublist (List.filter_sublist.map _)) fun id => ?_
  rw [h.sound.enlisted]
  constructor
  · rintro ⟨l, hl, hm⟩
    refine List.mem_map.mpr ⟨(l, id), List.mem_filter.mpr ⟨?_, by simp [hl, hm]⟩, rfl⟩
    rw [List.mem_zipIdx_iff_getElem?]
    exact h.known id l hl
  · intro hlisted
    obtain ⟨⟨l, k⟩, hkept, rfl⟩ := List.mem_map.mp hlisted
    obtain ⟨hm, hkept⟩ := List.mem_filter.mp hkept
    rw [List.mem_zipIdx_iff_getElem?] at hm
    obtain ⟨hsome, hheader⟩ : (r.listener? k).isSome = true ∧ header ∈ l.headers := by
      simpa using hkept
    obtain ⟨l', hl'⟩ := Option.isSome_iff_exists.mp hsome
    obtain rfl := Option.some.inj (hm.symm.trans (h.known k l' hl'))
    exact ⟨l, hl', hheader⟩

theorem Numbered.entry (h : Numbered given r) {header : CommandHeader} {ids : List ListenerId}
    (he : (header, ids) ∈ r.buckets) : r.bucket header = ids := by
  rw [bucket, Keyed.lookup_of_mem h.sound.distinct he]
  rfl

end Registry

end NcpHost
