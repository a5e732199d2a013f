import Mathlib.Data.List.Nodup
import NcpHost.Proofs.Keyed
import NcpHost.Registry

/-! What the registry does for one listener. Listeners are numbered in order and stand in every bucket
of theirs in that order. A command goes to the first one-shot listener under its header that waits for
it, and does nothing to any other one that is held. -/

namespace NcpHost

namespace Listener

variable {κ : Type}

theorem mem_headers (l : Listener κ) {h : CommandHeader} :
    h ∈ l.headers ↔ ∃ p ∈ l.patterns, p.header = h := by
  have hfold : ∀ (patterns : List Command) (seen : List CommandHeader),
      h ∈ patterns.foldl (fun seen p => if p.header ∈ seen then seen else seen ++ [p.header]) seen
        ↔ h ∈ seen ∨ ∃ p ∈ patterns, p.header = h := by
    intro patterns
    induction patterns with
    | nil => simp
    | cons p rest ih =>
      intro seen
      rw [List.foldl_cons, ih]
      by_cases hp : p.header ∈ seen
      · rw [if_pos hp]
        constructor
        · rintro (hs | ⟨q, hq, rfl⟩)
          · exact Or.inl hs
          · exact Or.inr ⟨q, List.mem_cons_of_mem _ hq, rfl⟩
        · rintro (hs | ⟨q, hq, rfl⟩)
          · exact Or.inl hs
          · rcases List.mem_cons.mp hq with rfl | hq
            · exact Or.inl hp
            · exact Or.inr ⟨q, hq, rfl⟩
      · rw [if_neg hp]
        simp [or_assoc, eq_comm]
  simpa [headers] using hfold l.patterns []

theorem nodup_headers (l : Listener κ) : l.headers.Nodup := by
  have hfold : ∀ (patterns : List Command) (seen : List CommandHeader), seen.Nodup →
      (patterns.foldl (fun seen p => if p.header ∈ seen then seen else seen ++ [p.header])
        seen).Nodup := by
    intro patterns
    induction patterns with
    | nil => exact fun _ hs => hs
    | cons p rest ih =>
      intro seen hs
      rw [List.foldl_cons]
      by_cases hp : p.header ∈ seen
      · rw [if_pos hp]
        exact ih seen hs
      · rw [if_neg hp]
        refine ih _ (List.nodup_append'.mpr ⟨hs, List.nodup_singleton _, ?_⟩)
        exact List.disjoint_singleton.mpr hp
  exact hfold l.patterns [] List.nodup_nil

end Listener

namespace Registry

variable {κ : Type}

def slot? (r : Registry κ) (id : ListenerId) : Option Slot := r.slots.lookup id

theorem slot_of_slot? {r : Registry κ} {id : ListenerId} {s : Slot} (h : r.slot? id = some s) :
    r.slot id = s := by
  rw [slot, show r.slots.lookup id = some s from h]
  rfl

theorem peek_eq_delivered {r : Registry κ} {id : ListenerId} {c : Command} :
    r.peek id = .delivered c ↔ ∃ s, r.slot? id = some s ∧ s.content = some c := by
  unfold peek slot slot?
  cases r.slots.lookup id with
  | none => exact ⟨nofun, fun ⟨_, h, _⟩ => absurd h nofun⟩
  | some s =>
    obtain ⟨content, armed, receiving⟩ := s
    cases content with
    | some d => simp [Slot.peek]
    | none =>
      refine ⟨fun h => ?_, fun ⟨s, hs, hc⟩ => absurd (Option.some.inj hs ▸ hc) nofun⟩
      rw [Option.getD_some, Slot.peek] at h
      dsimp only at h
      split at h <;> exact absurd h nofun

structure Same (id : ListenerId) (r r' : Registry κ) : Prop where
  listener : r'.listener? id = r.listener? id
  slot : r'.slot? id = r.slot? id

theorem Same.trans {id : ListenerId} {r r' r'' : Registry κ} (h : Same id r r')
    (h' : Same id r' r'') : Same id r r'' :=
  ⟨h'.listener.trans h.listener, h'.slot.trans h.slot⟩

/-- Numbers are given out in order, and the buckets keep to that order. Only one-shot listeners have
slots. -/
structure Sound (r : Registry κ) : Prop where
  known : ∀ id, r.listener? id ≠ none → id < r.nextId
  held : ∀ id, r.slot? id ≠ none → id < r.nextId
  oneShot : ∀ id l, r.listener? id = some l → r.slot? id ≠ none → l.isOneShot = true
  distinct : (r.buckets.map (·.1)).Nodup
  ordered : ∀ h, (r.bucket h).Pairwise (· < ·)
  enlisted : ∀ h id, id ∈ r.bucket h ↔ ∃ l, r.listener? id = some l ∧ h ∈ l.headers

theorem sound_empty : (empty : Registry κ).Sound :=
  ⟨fun _ h => absurd rfl h, fun _ h => absurd rfl h, fun _ _ h => absurd h nofun,
    List.nodup_nil, fun _ => .nil,
    fun _ _ => ⟨fun h => absurd h List.not_mem_nil, fun ⟨_, h, _⟩ => absurd h nofun⟩⟩

theorem slot?_modifySlot (r : Registry κ) (id : ListenerId) (f : Slot → Slot) (k : ListenerId) :
    (r.modifySlot id f).slot? k = if k = id then (r.slot? k).map f else r.slot? k :=
  Keyed.lookup_map_at r.slots id f k

theorem bucket_enlistAll (id : ListenerId) (headers : List CommandHeader) (hn : headers.Nodup)
    (buckets : List (CommandHeader × List ListenerId)) (h : CommandHeader) :
    ((headers.foldl (fun buckets k => enlist id k buckets) buckets).lookup h).getD []
      = if h ∈ headers then (buckets.lookup h).getD [] ++ [id]
        else (buckets.lookup h).getD [] := by
  induction headers generalizing buckets with
  | nil => simp
  | cons k rest ih =>
    rw [List.nodup_cons] at hn
    rw [List.foldl_cons, ih hn.2, lookup_enlist]
    by_cases hk : h = k
    · simp [hk, hn.1]
    · simp [hk]

theorem bucket_register (r : Registry κ) (l : Listener κ) (h : CommandHeader) :
    (r.register l).1.bucket h
      = if h ∈ l.headers then r.bucket h ++ [r.nextId] else r.bucket h :=
  bucket_enlistAll r.nextId l.headers l.nodup_headers r.buckets h

theorem Sound.listener?_register {r : Registry κ} (hr : r.Sound) (l : Listener κ)
    (k : ListenerId) :
    (r.register l).1.listener? k = if k = r.nextId then some l else r.listener? k := by
  refine Keyed.lookup_concat r.listeners r.nextId l k ?_
  exact not_not.mp fun hk => Nat.lt_irrefl _ (hr.known _ hk)

theorem Sound.slot?_register {r : Registry κ} (hr : r.Sound) (l : Listener κ) (k : ListenerId) :
    (r.register l).1.slot? k
      = if k = r.nextId ∧ l.isOneShot then some .fresh else r.slot? k := by
  have hnew : r.slots.lookup r.nextId = none :=
    not_not.mp fun hk => Nat.lt_irrefl _ (hr.held _ hk)
  unfold register slot?
  cases l.isOneShot with
  | true =>
    simp only [and_true]
    exact Keyed.lookup_concat r.slots r.nextId .fresh k hnew
  | false => simp

theorem keys_enlist (id : ListenerId) (h : CommandHeader)
    (buckets : List (CommandHeader × List ListenerId)) :
    (enlist id h buckets).map (·.1)
      = if h ∈ buckets.map (·.1) then buckets.map (·.1) else buckets.map (·.1) ++ [h] := by
  induction buckets with
  | nil => rfl
  | cons e rest ih =>
    obtain ⟨k, ids⟩ := e
    rw [enlist]
    by_cases hk : k = h
    · simp [hk]
    · rw [if_neg hk, List.map_cons, ih]
      by_cases hm : h ∈ rest.map (·.1)
      · rw [if_pos hm, if_pos (by rw [List.map_cons]; exact List.mem_cons_of_mem _ hm)]
        rfl
      · rw [if_neg hm, if_neg (by rw [List.map_cons]; simp_all [eq_comm])]
        rfl

theorem nodup_enlistAll (id : ListenerId) (headers : List CommandHeader)
    (buckets : List (CommandHeader × List ListenerId)) (hb : (buckets.map (·.1)).Nodup) :
    ((headers.foldl (fun buckets k => enlist id k buckets) buckets).map (·.1)).Nodup := by
  induction headers generalizing buckets with
  | nil => exact hb
  | cons k rest ih =>
    refine ih (enlist id k buckets) ?_
    rw [keys_enlist]
    split
    · exact hb
    · next hk =>
      exact List.nodup_append'.mpr ⟨hb, List.nodup_singleton _, List.disjoint_singleton.mpr hk⟩

theorem keys_delist (id : ListenerId) (h : CommandHeader)
    (buckets : List (CommandHeader × List ListenerId)) :
    ((delist id h buckets).map (·.1)).Sublist (buckets.map (·.1)) := by
  induction buckets with
  | nil => exact List.Sublist.refl _
  | cons e rest ih =>
    obtain ⟨k, ids⟩ := e
    rw [delist]
    dsimp only
    split
    · split
      · exact List.sublist_cons_self _ _
      · exact List.Sublist.refl _
    · exact ih.cons_cons k

theorem bucket_delist (id : ListenerId) (h : CommandHeader)
    {buckets : List (CommandHeader × List ListenerId)} (hb : (buckets.map (·.1)).Nodup)
    (k : CommandHeader) :
    ((delist id h buckets).lookup k).getD []
      = if k = h then ((buckets.lookup k).getD []).filter (· != id)
        else (buckets.lookup k).getD [] := by
  induction buckets with
  | nil => simp [delist]
  | cons e rest ih =>
    obtain ⟨j, ids⟩ := e
    rw [List.map_cons, List.nodup_cons] at hb
    rw [delist]
    dsimp only
    by_cases hj : j = h
    · subst hj
      rw [if_pos rfl]
      by_cases hk : k = j
      · subst hk
        -- the other buckets are of other headers
        have hnone : rest.lookup k = none := by
          rw [List.lookup_eq_none_iff]
          exact fun e he => bne_iff_ne.mpr fun heq => hb.1 (List.mem_map.mpr ⟨e, he, heq.symm⟩)
        split
        · next hempty => simpa [hnone] using hempty
        · simp
      · split <;> simp [List.lookup_cons, beq_false_of_ne hk]
    · rw [if_neg hj, List.lookup_cons, List.lookup_cons]
      by_cases hk : k = j
      · subst hk
        simp [hj]
      · rw [beq_false_of_ne hk]
        exact ih hb.2

theorem keys_delistAll (id : ListenerId) (headers : List CommandHeader)
    (buckets : List (CommandHeader × List ListenerId)) :
    ((headers.foldl (fun buckets h => delist id h buckets) buckets).map (·.1)).Sublist
      (buckets.map (·.1)) := by
  induction headers generalizing buckets with
  | nil => exact List.Sublist.refl _
  | cons h rest ih => exact (ih (delist id h buckets)).trans (keys_delist id h buckets)

theorem bucket_delistAll (id : ListenerId) (headers : List CommandHeader)
    {buckets : List (CommandHeader × List ListenerId)} (hb : (buckets.map (·.1)).Nodup)
    (k : CommandHeader) :
    ((headers.foldl (fun buckets h => delist id h buckets) buckets).lookup k).getD []
      = if k ∈ headers then ((buckets.lookup k).getD []).filter (· != id)
        else (buckets.lookup k).getD [] := by
  induction headers generalizing buckets with
  | nil => simp
  | cons h rest ih =>
    rw [List.foldl_cons, ih ((keys_delist id h buckets).nodup hb), bucket_delist id h hb]
    by_cases hk : k = h
    · simp [hk, List.filter_filter]
    · simp [hk]

theorem nextId_unregister (r : Registry κ) (id : ListenerId) :
    (r.unregister id).nextId = r.nextId := by
  unfold unregister
  split <;> rfl

theorem listeners_unregister (r : Registry κ) (id : ListenerId) :
    (r.unregister id).listeners = r.listeners.filter fun e => e.1 != id := by
  unfold unregister
  cases hl : r.listener? id with
  | none =>
    have hother := List.lookup_eq_none_iff.mp hl
    exact (List.filter_eq_self.mpr fun e he =>
      bne_iff_ne.mpr (Ne.symm (bne_iff_ne.mp (hother e he)))).symm
  | some l => rfl

section

variable {r : Registry κ}

theorem Sound.unregister_eq (hr : r.Sound) (id : ListenerId) :
    (∀ k, (r.unregister id).listener? k = if k = id then none else r.listener? k)
      ∧ (∀ k, (r.unregister id).slot? k
        = if k = id ∧ (r.listener? id).isSome then (r.slot? k).map .disarm else r.slot? k)
      ∧ (∀ h, (r.unregister id).bucket h = (r.bucket h).filter (· != id))
      ∧ (r.unregister id).nextId = r.nextId
      ∧ ((r.unregister id).buckets.map (·.1)).Sublist (r.buckets.map (·.1)) := by
  have hout : ∀ h, id ∉ r.bucket h → (r.bucket h).filter (· != id) = r.bucket h := fun h hno =>
    List.filter_eq_self.mpr fun k hk => bne_iff_ne.mpr fun e => hno (e ▸ hk)
  have hlistener : ∀ k, (r.unregister id).listener? k = if k = id then none else r.listener? k := by
    intro k
    rw [listener?, listeners_unregister]
    exact Keyed.lookup_filter_ne r.listeners id k
  refine ⟨hlistener, ?_⟩
  unfold unregister
  cases hl : r.listener? id with
  | none =>
    refine ⟨fun k => ?_, fun h => (hout h fun hm => ?_).symm, rfl, List.Sublist.refl _⟩
    · simp
    · obtain ⟨l, hsome, -⟩ := (hr.enlisted h id).mp hm
      exact absurd (hl.symm.trans hsome) nofun
  | some l =>
    refine ⟨fun k => ?_, fun h => (bucket_delistAll id l.headers hr.distinct h).trans ?_, rfl,
      keys_delistAll id l.headers r.buckets⟩
    · refine (slot?_modifySlot r id .disarm k).trans ?_
      simp
    · -- a bucket that is not visited does not mention it
      split
      · rfl
      · next hh =>
        refine (hout h fun hm => hh ?_).symm
        obtain ⟨l', hsome, hheader⟩ := (hr.enlisted h id).mp hm
        rwa [Option.some.inj (hl.symm.trans hsome)]

theorem Sound.listener?_unregister (hr : r.Sound) (id : ListenerId) :
    (r.unregister id).listener? id = none := by
  rw [(hr.unregister_eq id).1, if_pos rfl]

theorem Sound.of_removed (hr : r.Sound) {r' : Registry κ} (id : ListenerId)
    (hlistener : ∀ k, r'.listener? k = if k = id then none else r.listener? k)
    (hslot : ∀ k, r'.slot? k ≠ none → r.slot? k ≠ none)
    (hbucket : ∀ h, r'.bucket h = (r.bucket h).filter (· != id)) (hn : r'.nextId = r.nextId)
    (hkeys : (r'.buckets.map (·.1)).Sublist (r.buckets.map (·.1))) : r'.Sound := by
  refine ⟨fun k hk => ?_, fun k hk => hn ▸ hr.held k (hslot k hk), fun k l hl hs => ?_,
    hkeys.nodup hr.distinct, fun h => hbucket h ▸ (hr.ordered h).filter _, fun h k => ?_⟩
  · rw [hlistener] at hk
    split at hk
    · exact absurd rfl hk
    · exact hn ▸ hr.known k hk
  · rw [hlistener] at hl
    split at hl
    · exact absurd hl nofun
    · exact hr.oneShot k l hl (hslot k hs)
  · rw [hbucket, List.mem_filter, hlistener, hr.enlisted, bne_iff_ne]
    by_cases hk : k = id
    · simp [hk]
    · simp [hk]

theorem Sound.unregister (hr : r.Sound) (id : ListenerId) : (r.unregister id).Sound := by
  obtain ⟨hlistener, hslot, hbucket, hn, hkeys⟩ := hr.unregister_eq id
  refine hr.of_removed id hlistener (fun k hk => ?_) hbucket hn hkeys
  rw [hslot] at hk
  split at hk
  · simpa using hk
  · exact hk

theorem Sound.register (hr : r.Sound) (l : Listener κ) : (r.register l).1.Sound := by
  have hn : (r.register l).1.nextId = r.nextId + 1 := rfl
  refine ⟨fun k hk => ?_, fun k hk => ?_, fun k l' hl hs => ?_,
    nodup_enlistAll r.nextId l.headers r.buckets hr.distinct, fun h => ?_, fun h k => ?_⟩
  · rw [hr.listener?_register] at hk
    rw [hn]
    split at hk
    · next he => exact he ▸ Nat.lt_succ_self _
    · exact Nat.lt_succ_of_lt (hr.known k hk)
  · rw [hr.slot?_register] at hk
    rw [hn]
    split at hk
    · next he => exact he.1 ▸ Nat.lt_succ_self _
    · exact Nat.lt_succ_of_lt (hr.held k hk)
  · rw [hr.listener?_register] at hl
    rw [hr.slot?_register] at hs
    split at hl
    · next he =>
      obtain rfl := Option.some.inj hl
      split at hs
      · next hone => exact hone.2
      · exact absurd (he ▸ hr.held k hs) (Nat.lt_irrefl _)
    · next he =>
      rw [if_neg fun h => he h.1] at hs
      exact hr.oneShot k l' hl hs
  · rw [bucket_register]
    split
    · refine List.pairwise_append.mpr ⟨hr.ordered h, List.pairwise_singleton _ _, fun a ha b hb => ?_⟩
      obtain ⟨l', hl', -⟩ := (hr.enlisted h a).mp ha
      rw [List.mem_singleton.mp hb]
      exact hr.known a (by simp [hl'])
    · exact hr.ordered h
  · rw [bucket_register, hr.listener?_register]
    by_cases hk : k = r.nextId
    · -- no bucket mentions a number that was not given out
      have hold : k ∉ r.bucket h := by
        intro hm
        obtain ⟨l', hl', -⟩ := (hr.enlisted h k).mp hm
        exact Nat.lt_irrefl _ (hk ▸ hr.known k (by simp [hl']))
      rw [if_pos hk]
      split
      · next hh => simp [hk, hh]
      · next hh => simp [hold, hh]
    · rw [if_neg hk, ← hr.enlisted]
      split
      · simp [hk]
      · rfl

theorem Sound.of_slots (hr : r.Sound) {r' : Registry κ} (hl : r'.listeners = r.listeners)
    (hb : r'.buckets = r.buckets) (hn : r'.nextId = r.nextId)
    (hslot : ∀ k, r'.slot? k ≠ none → r.slot? k ≠ none) : r'.Sound := by
  have hlistener : ∀ k, r'.listener? k = r.listener? k := fun k => by rw [listener?, hl, listener?]
  have hbucket : ∀ h, r'.bucket h = r.bucket h := fun h => by rw [bucket, hb, bucket]
  refine ⟨fun k hk => hn ▸ hr.known k (hlistener k ▸ hk), fun k hk => hn ▸ hr.held k (hslot k hk),
    fun k l hl hs => hr.oneShot k l (hlistener k ▸ hl) (hslot k hs), hb ▸ hr.distinct,
    fun h => hbucket h ▸ hr.ordered h, fun h k => ?_⟩
  rw [hbucket, hlistener]
  exact hr.enlisted h k

theorem Sound.modifySlot (hr : r.Sound) (id : ListenerId) (f : Slot → Slot) :
    (r.modifySlot id f).Sound := by
  refine hr.of_slots rfl rfl rfl fun k hk => ?_
  rw [slot?_modifySlot] at hk
  split at hk
  · simpa using hk
  · exact hk

theorem slot?_forget (r : Registry κ) (id k : ListenerId) :
    (r.forget id).slot? k = if k = id then none else r.slot? k :=
  Keyed.lookup_filter_ne r.slots id k

theorem Sound.forget (hr : r.Sound) (id : ListenerId) : (r.forget id).Sound := by
  refine hr.of_slots rfl rfl rfl fun k hk => ?_
  rw [slot?_forget] at hk
  split at hk
  · exact absurd rfl hk
  · exact hk

theorem Sound.cancel (hr : r.Sound) (id : ListenerId) : (r.cancel id).Sound :=
  (hr.unregister id).modifySlot id _

theorem Sound.release (hr : r.Sound) (id : ListenerId) : (r.release id).Sound :=
  (hr.unregister id).forget id

theorem slot?_cancelAll (r : Registry κ) (entries : List (ListenerId × Listener κ))
    (id : ListenerId) :
    (entries.foldl (fun r e => r.modifySlot e.1 fun slot => (e.2.cancel slot).1) r).slot? id
      = (r.slot? id).map fun s =>
        if entries.any (fun e => e.1 == id && e.2.isOneShot) then s.disarm else s := by
  induction entries generalizing r with
  | nil => simp
  | cons e rest ih =>
    obtain ⟨k, l⟩ := e
    rw [List.foldl_cons, ih, slot?_modifySlot]
    simp only [List.any_cons]
    by_cases hk : id = k
    · subst hk
      rw [if_pos rfl, Option.map_map]
      refine Option.map_congr fun s _ => ?_
      by_cases hone : l.isOneShot = true
      · simp only [Function.comp_apply, Listener.cancel, hone, beq_self_eq_true, Bool.and_true,
          Bool.true_or, if_true]
        split <;> rfl
      · simp only [Function.comp_apply, Listener.cancel, hone, Bool.and_false, Bool.false_or]
        rfl
    · rw [if_neg hk]
      simp only [beq_false_of_ne (Ne.symm hk), Bool.false_and, Bool.false_or]

theorem Sound.slot?_clear (hr : r.Sound) (id : ListenerId) :
    r.clear.slot? id = (r.slot? id).map fun s => if (r.listener? id).isSome then s.disarm else s := by
  refine (slot?_cancelAll r r.listeners id).trans (Option.map_congr fun s hs => ?_)
  have hheld : r.slot? id ≠ none := Option.ne_none_iff_exists'.mpr ⟨s, hs⟩
  have hcancelled : r.listeners.any (fun e => e.1 == id && e.2.isOneShot)
      = (r.listener? id).isSome := by
    cases hl : r.listener? id with
    | none =>
      refine List.any_eq_false.mpr fun e he => ?_
      have hother := List.lookup_eq_none_iff.mp hl e he
      simp [beq_false_of_ne (Ne.symm (bne_iff_ne.mp hother))]
    | some l =>
      refine List.any_eq_true.mpr ⟨(id, l), Keyed.mem_of_lookup hl, ?_⟩
      simp [hr.oneShot id l hl hheld]
  rw [hcancelled]

theorem Sound.clear (hr : r.Sound) : r.clear.Sound := by
  refine ⟨fun k hk => absurd rfl hk, fun k hk => hr.held k fun hnone => hk ?_,
    fun _ _ h => absurd h nofun, List.nodup_nil, fun h => List.Pairwise.nil,
    fun h k => ⟨fun hk => absurd hk List.not_mem_nil, fun ⟨_, hl, _⟩ => absurd hl nofun⟩⟩
  rw [hr.slot?_clear, hnone]
  rfl

theorem Sound.same_register (hr : r.Sound) (l : Listener κ) {id : ListenerId} (hid : id < r.nextId) :
    Same id r (r.register l).1 := by
  have hne : id ≠ r.nextId := Nat.ne_of_lt hid
  exact ⟨(hr.listener?_register l id).trans (if_neg hne),
    (hr.slot?_register l id).trans (if_neg fun h => hne h.1)⟩

theorem Sound.same_unregister (hr : r.Sound) {id k : ListenerId} (hk : id ≠ k) :
    Same id r (r.unregister k) := by
  obtain ⟨hlistener, hslot, -⟩ := hr.unregister_eq k
  exact ⟨(hlistener id).trans (if_neg hk), (hslot id).trans (if_neg fun h => hk h.1)⟩

theorem Sound.same_cancel (hr : r.Sound) {id k : ListenerId} (hk : id ≠ k) :
    Same id r (r.cancel k) := by
  have h := hr.same_unregister hk
  exact ⟨h.listener, ((slot?_modifySlot _ k _ id).trans (if_neg hk)).trans h.slot⟩

theorem Sound.same_release (hr : r.Sound) {id k : ListenerId} (hk : id ≠ k) :
    Same id r (r.release k) := by
  have h := hr.same_unregister hk
  exact ⟨h.listener, ((slot?_forget _ k id).trans (if_neg hk)).trans h.slot⟩

end

def Awaits (r : Registry κ) (c : Command) (id : ListenerId) : Prop :=
  ∃ l, r.listener? id = some l ∧ l.isOneShot = true ∧ l.hears c = true

def call? (r : Registry κ) (c : Command) (id : ListenerId) : Option (Callback κ) :=
  (r.listener? id).bind fun l => if l.hears c then l.callback? else none

theorem resolve_of_deaf {r : Registry κ} {l : Listener κ} {c : Command} (id : ListenerId)
    (h : l.hears c = false) : r.resolve id l c = (r, false) := by
  simp [resolve, Listener.resolve, h, modifySlot]

theorem resolve_of_indication {r : Registry κ} {l : Listener κ} (id : ListenerId) (c : Command)
    (h : l.isOneShot = false) : r.resolve id l c = (r, l.hears c) := by
  cases hh : l.hears c with
  | false => exact resolve_of_deaf id hh
  | true => simp [resolve, Listener.resolve, h, hh, modifySlot]

theorem resolve_of_oneShot {r : Registry κ} {l : Listener κ} {c : Command} (id : ListenerId)
    (hone : l.isOneShot = true) (hhears : l.hears c = true) :
    r.resolve id l c = (r.modifySlot id fun s => (s.offer c).1, (r.slot id).live) := by
  have hlive : ((r.slot id).offer c).2 = (r.slot id).live := by
    rw [Slot.offer]
    cases (r.slot id).live <;> rfl
  simp [resolve, Listener.resolve, hone, hhears, hlive]

theorem offerAll_cons (c : Command) (r : Registry κ) (id : ListenerId) (rest : List ListenerId)
    (d : Dispatch κ) :
    offerAll c r (id :: rest) d
          = offerAll c r rest ⟨d.completed, d.callbacks ++ (r.call? c id).toList⟩
        ∧ (d.completed = none → ¬r.Awaits c id)
      ∨ d.completed = none ∧ r.Awaits c id ∧ r.call? c id = none
        ∧ offerAll c r (id :: rest) d
          = offerAll c (r.modifySlot id fun s => (s.offer c).1) rest
            ⟨if (r.slot id).live then some id else none, d.callbacks⟩ := by
  rw [offerAll, call?]
  cases hl : r.listener? id with
  | none =>
    refine Or.inl ⟨by simp, fun _ => ?_⟩
    rintro ⟨l, hsome, -⟩
    exact absurd (hsome.symm.trans hl) (Option.some_ne_none l)
  | some l =>
    dsimp only
    cases hrole : l.role with
    | indication callback =>
      have hother : l.isOneShot = false := by simp [Listener.isOneShot, hrole]
      rw [resolve_of_indication id c hother]
      refine Or.inl ⟨?_, fun _ => ?_⟩
      · cases hh : l.hears c <;> simp [Listener.callback?, hrole, hh]
      · rintro ⟨l', hsome, hone, -⟩
        obtain rfl := Option.some.inj (hl.symm.trans hsome)
        exact absurd (hother.symm.trans hone) Bool.false_ne_true
    | oneShot =>
      have hone : l.isOneShot = true := by simp [Listener.isOneShot, hrole]
      have hsilent : l.callback? = none := by simp [Listener.callback?, hrole]
      dsimp only [Option.bind_some]
      rw [hsilent, ite_self]
      cases hd : d.completed with
      | some w =>
        rw [if_pos Option.isSome_some]
        exact Or.inl ⟨by simp [← hd], fun hnone => absurd hnone (Option.some_ne_none w)⟩
      | none =>
        rw [if_neg (by simp)]
        -- only a one-shot listener that hears the command is asked
        cases hhears : l.hears c with
        | false =>
          rw [resolve_of_deaf id hhears]
          refine Or.inl ⟨by simp [← hd], fun _ => ?_⟩
          rintro ⟨l', hsome, -, hhears'⟩
          obtain rfl := Option.some.inj (hl.symm.trans hsome)
          exact absurd (hhears.symm.trans hhears') Bool.false_ne_true
        | true =>
          rw [resolve_of_oneShot id hone hhears]
          refine Or.inr ⟨rfl, ⟨l, hl, hone, hhears⟩, rfl, ?_⟩
          dsimp only
          cases (r.slot id).live
          · simp [← hd]
          · rfl

inductive Asked (c : Command) (ids : List ListenerId) (r r' : Registry κ) (d d' : Dispatch κ)
    (id : ListenerId) : Prop where
  | passed : r'.slot? id = r.slot? id → (d'.completed = some id → d.completed = some id) →
    Asked c ids r r' d d' id
  | spent : id ∈ ids → r.Awaits c id → (r.slot id).live = false →
    r'.slot? id = (r.slot? id).map Slot.disarm → (d'.completed = some id → d.completed = some id) →
    Asked c ids r r' d d' id
  | won : id ∈ ids → r.Awaits c id → (r.slot id).live = true → d.completed = none →
    d'.completed = some id → r'.slot? id = (r.slot? id).map (fun s => ⟨some c, false, s.receiving⟩) →
    Asked c ids r r' d d' id

theorem Awaits.congr {r r' : Registry κ} (h : r'.listeners = r.listeners) {c : Command}
    {id : ListenerId} : r'.Awaits c id ↔ r.Awaits c id := by
  simp only [Awaits, listener?, h]

def ask (r : Registry κ) (c : Command) (id : ListenerId) : Registry κ :=
  r.modifySlot id fun s => (s.offer c).1

section

variable {r r' : Registry κ} {c : Command} {id k : ListenerId} {ids : List ListenerId}
  {d d₁ d' : Dispatch κ}

theorem slot?_ask_of_ne (hk : k ≠ id) : (r.ask c id).slot? k = r.slot? k :=
  (slot?_modifySlot r id _ k).trans (if_neg hk)

theorem slot?_ask_live (h : (r.slot id).live = true) :
    (r.ask c id).slot? id = (r.slot? id).map fun s => ⟨some c, false, s.receiving⟩ := by
  refine ((slot?_modifySlot r id _ id).trans (if_pos rfl)).trans ?_
  cases hs : r.slot? id with
  | none => rfl
  | some s =>
    have hlive := slot_of_slot? hs ▸ h
    simp [Slot.offer, hlive]

theorem slot?_ask_dead (h : (r.slot id).live = false) :
    (r.ask c id).slot? id = (r.slot? id).map Slot.disarm := by
  refine ((slot?_modifySlot r id _ id).trans (if_pos rfl)).trans ?_
  cases hs : r.slot? id with
  | none => rfl
  | some s =>
    have hdead := slot_of_slot? hs ▸ h
    simp [Slot.offer, hdead, Slot.disarm]

theorem Asked.behind (h : Asked c ids r r' d₁ d' k) (hd₁ : d₁.completed = d.completed) :
    Asked c (id :: ids) r r' d d' k := by
  cases h with
  | passed hs hback => exact .passed hs fun hd => hd₁ ▸ hback hd
  | spent hm ha hlive hs hback =>
    exact .spent (List.mem_cons_of_mem _ hm) ha hlive hs fun hd => hd₁ ▸ hback hd
  | won hm ha hlive hd hd' hs =>
    exact .won (List.mem_cons_of_mem _ hm) ha hlive (hd₁ ▸ hd) hd' hs

theorem Asked.behind_ask (h : Asked c ids (r.ask c id) r' d₁ d' k) (hk : k ≠ id)
    (hnone : d.completed = none) (hother : d₁.completed ≠ some k) :
    Asked c (id :: ids) r r' d d' k := by
  have hsame : (r.ask c id).slot? k = r.slot? k := slot?_ask_of_ne hk
  have hslot : (r.ask c id).slot k = r.slot k := by
    rw [slot, slot, show (r.ask c id).slots.lookup k = _ from hsame]
    rfl
  cases h with
  | passed hs hback => exact .passed (hs.trans hsame) fun hd => absurd (hback hd) hother
  | spent hm ha hlive hs hback =>
    exact .spent (List.mem_cons_of_mem _ hm) ((Awaits.congr rfl).mp ha) (hslot ▸ hlive)
      (hsame ▸ hs) fun hd => absurd (hback hd) hother
  | won hm ha hlive _ hd hs =>
    exact .won (List.mem_cons_of_mem _ hm) ((Awaits.congr rfl).mp ha) (hslot ▸ hlive) hnone hd
      (hsame ▸ hs)

theorem asked_of_ask (hawaits : r.Awaits c id) (hnone : d.completed = none)
    (hd₁ : d₁.completed = if (r.slot id).live then some id else none)
    (hdone : d₁.completed ≠ none → d'.completed = d₁.completed)
    (hslot : r'.slot? id = (r.ask c id).slot? id) (h : Asked c ids (r.ask c id) r' d₁ d' id) :
    Asked c (id :: ids) r r' d d' id := by
  cases hlive : (r.slot id).live with
  | true =>
    have hcompleted : d₁.completed = some id := hd₁.trans (if_pos hlive)
    have hwon := (hdone (hcompleted ▸ nofun)).trans hcompleted
    exact .won List.mem_cons_self hawaits hlive hnone hwon (hslot.trans (slot?_ask_live hlive))
  | false =>
    have hspent := slot?_ask_dead (c := c) hlive
    have hfree : d₁.completed ≠ some id := by simp [hd₁, hlive]
    refine .spent List.mem_cons_self hawaits hlive (hslot.trans hspent) fun hd => ?_
    cases h with
    | passed _ hback => exact absurd (hback hd) hfree
    | spent _ _ _ _ hback => exact absurd (hback hd) hfree
    | won _ _ hlive₁ =>
      have hdead : ((r.ask c id).slot id).live = false := by
        rw [slot, show (r.ask c id).slots.lookup id = _ from hspent]
        cases r.slot? id <;> rfl
      exact absurd (hdead.symm.trans hlive₁) Bool.false_ne_true

end

theorem offerAll_asked (c : Command) (r : Registry κ) {ids : List ListenerId} (hn : ids.Nodup)
    (d : Dispatch κ) :
    let (r', d') := offerAll c r ids d
    r'.listeners = r.listeners ∧ r'.buckets = r.buckets ∧ r'.nextId = r.nextId
      ∧ (d.completed ≠ none → r'.slots = r.slots ∧ d'.completed = d.completed)
      ∧ (∀ id ∉ ids, r'.slot? id = r.slot? id)
      ∧ ∀ id, Asked c ids r r' d d' id := by
  induction ids generalizing r d with
  | nil =>
    exact ⟨rfl, rfl, rfl, fun _ => ⟨rfl, rfl⟩, fun _ _ => rfl, fun _ => .passed rfl fun h => h⟩
  | cons id rest ih =>
    rw [List.nodup_cons] at hn
    rcases offerAll_cons c r id rest d with ⟨heq, -⟩ | ⟨hnone, hawaits, -, heq⟩
    · obtain ⟨hl, hb, hnext, hsome, hout, hasked⟩ :=
        ih r hn.2 ⟨d.completed, d.callbacks ++ (r.call? c id).toList⟩
      rw [heq]
      exact ⟨hl, hb, hnext, hsome, fun k hk => hout k fun hm => hk (List.mem_cons_of_mem _ hm),
        fun k => (hasked k).behind rfl⟩
    · -- the first is asked, and the others meet the registry after that
      let d₁ : Dispatch κ := ⟨if (r.slot id).live then some id else none, d.callbacks⟩
      obtain ⟨hl, hb, hnext, hsome, hout, hasked⟩ := ih (r.ask c id) hn.2 d₁
      have heq₁ : offerAll c r (id :: rest) d = offerAll c (r.ask c id) rest d₁ := heq
      rw [heq₁]
      refine ⟨hl, hb, hnext, fun h => absurd hnone h, fun k hk => ?_, fun k => ?_⟩
      · rw [List.mem_cons, not_or] at hk
        exact (hout k hk.2).trans (slot?_ask_of_ne hk.1)
      · by_cases hk : k = id
        · subst hk
          exact asked_of_ask hawaits hnone rfl (fun h => (hsome h).2) (hout k hn.1) (hasked k)
        · refine (hasked k).behind_ask hk hnone ?_
          dsimp only [d₁]
          split
          · exact fun e => hk (Option.some.inj e).symm
          · exact nofun

theorem offerAll_skip {c : Command} {r : Registry κ} {before : List ListenerId}
    (h : ∀ k ∈ before, ¬r.Awaits c k) (rest : List ListenerId) (d : Dispatch κ) :
    ∃ callbacks, offerAll c r (before ++ rest) d = offerAll c r rest ⟨d.completed, callbacks⟩ := by
  induction before generalizing d with
  | nil => exact ⟨d.callbacks, rfl⟩
  | cons k before ih =>
    rcases offerAll_cons c r k (before ++ rest) d with ⟨heq, -⟩ | ⟨-, hawaits, -⟩
    · obtain ⟨callbacks', heq'⟩ := ih (fun j hj => h j (List.mem_cons_of_mem _ hj))
        ⟨d.completed, d.callbacks ++ (r.call? c k).toList⟩
      exact ⟨callbacks', heq.trans heq'⟩
    · exact absurd hawaits (h k List.mem_cons_self)

section

variable {r : Registry κ} {c : Command} {id : ListenerId}

theorem Sound.nodup_bucket (hr : r.Sound) (h : CommandHeader) : (r.bucket h).Nodup :=
  (hr.ordered h).imp fun hlt => Nat.ne_of_lt hlt

theorem sound_offerAll (hr : r.Sound) (c : Command) {ids : List ListenerId} (hn : ids.Nodup)
    (d : Dispatch κ) : (offerAll c r ids d).1.Sound := by
  obtain ⟨hl, hb, hnext, -, -, hasked⟩ := offerAll_asked c r hn d
  refine hr.of_slots hl hb hnext fun k hk => ?_
  cases hasked k with
  | passed hs _ => exact hs ▸ hk
  | spent _ _ _ hs _ | won _ _ _ _ _ hs =>
    rw [hs] at hk
    simpa using hk

theorem Sound.dispatch (hr : r.Sound) (c : Command) : (r.dispatch c).1.Sound := by
  have hoffered := sound_offerAll hr c (hr.nodup_bucket c.header) Dispatch.nothing
  unfold Registry.dispatch
  generalize offerAll c r (r.bucket c.header) .nothing = offered at hoffered
  obtain ⟨r', d⟩ := offered
  dsimp only at hoffered ⊢
  split
  · exact hoffered.unregister _
  · exact hoffered

/-- What a dispatch does to a listener: nothing, or it could not be completed any more, or it is the
one that is completed. -/
inductive Offered (c : Command) (r : Registry κ) (id : ListenerId) : Prop where
  | passed : (r.dispatch c).2.completed ≠ some id → Same id r (r.dispatch c).1 → Offered c r id
  | spent : (r.dispatch c).2.completed ≠ some id → id ∈ r.bucket c.header → r.Awaits c id →
    (r.slot id).live = false → (r.dispatch c).1.listener? id = r.listener? id →
    (r.dispatch c).1.slot? id = (r.slot? id).map Slot.disarm → Offered c r id
  | won : id ∈ r.bucket c.header → r.Awaits c id → (r.slot id).live = true →
    (r.dispatch c).2.completed = some id → (r.dispatch c).1.listener? id = none →
    (r.dispatch c).1.slot? id = (r.slot? id).map (fun s => ⟨some c, false, s.receiving⟩) →
    Offered c r id

theorem Sound.dispatch_offered (hr : r.Sound) (c : Command) (id : ListenerId) : Offered c r id := by
  have hsound := sound_offerAll hr c (hr.nodup_bucket c.header) Dispatch.nothing
  obtain ⟨hl, -, -, -, -, hasked⟩ :=
    offerAll_asked c r (hr.nodup_bucket c.header) Dispatch.nothing
  have hdispatch := dispatch.eq_1 r c
  generalize offerAll c r (r.bucket c.header) .nothing = offered
    at hsound hl hasked hdispatch
  obtain ⟨r', d⟩ := offered
  dsimp only at hsound hl hasked hdispatch
  have hlistener : r'.listener? id = r.listener? id := by rw [listener?, hl, listener?]
  -- whoever is not completed is not removed either
  have hafter : d.completed ≠ some id →
      Same id r' (r.dispatch c).1 ∧ (r.dispatch c).2.completed ≠ some id := by
    intro hd
    rw [hdispatch]
    split
    · next k hk => exact ⟨hsound.same_unregister fun e => hd (e ▸ hk), hd⟩
    · exact ⟨⟨rfl, rfl⟩, hd⟩
  cases hasked id with
  | passed hs hback =>
    obtain ⟨hsame, hother⟩ := hafter fun hd => by cases hback hd
    exact .passed hother ⟨hsame.listener.trans hlistener, hsame.slot.trans hs⟩
  | spent hm ha hlive hs hback =>
    obtain ⟨hsame, hother⟩ := hafter fun hd => by cases hback hd
    exact .spent hother hm ha hlive (hsame.listener.trans hlistener) (hsame.slot.trans hs)
  | won hm ha hlive _ hd hs =>
    obtain ⟨hgone, hdisarmed, -⟩ := hsound.unregister_eq id
    rw [hd] at hdispatch
    refine .won hm ha hlive ?_ ?_ ?_
    · rw [hdispatch]
      exact hd
    · rw [hdispatch]
      exact (hgone id).trans (if_pos rfl)
    · rw [hdispatch]
      refine (hdisarmed id).trans ?_
      split
      · rw [hs]
        cases r.slot? id <;> rfl
      · exact hs

theorem Offered.unique {i j : ListenerId}
    (hi : (r.dispatch c).2.completed = some i) (hj : (r.dispatch c).2.completed = some j) : i = j :=
  Option.some.inj (hi.symm.trans hj)

theorem Sound.nextId_dispatch (hr : r.Sound) (c : Command) : (r.dispatch c).1.nextId = r.nextId := by
  obtain ⟨hl, hb, hn, -, -, hasked⟩ :=
    offerAll_asked c r (hr.nodup_bucket c.header) Dispatch.nothing
  unfold Registry.dispatch
  generalize offerAll c r (r.bucket c.header) .nothing = offered at hl hb hn hasked
  obtain ⟨r', d⟩ := offered
  dsimp only at hn ⊢
  split
  · exact (nextId_unregister _ _).trans hn
  · exact hn

theorem Sound.dispatch_same (hr : r.Sound) (h : id ∉ r.bucket c.header) :
    Same id r (r.dispatch c).1 := by
  cases hr.dispatch_offered c id with
  | passed _ hsame => exact hsame
  | spent _ hm => exact absurd hm h
  | won hm => exact absurd hm h

theorem offerAll_first {before after : List ListenerId} (hn : after.Nodup)
    (hbefore : ∀ k ∈ before, ¬r.Awaits c k) (hawaits : r.Awaits c id)
    (hlive : (r.slot id).live = true) :
    let (r', d') := offerAll c r (before ++ id :: after) .nothing
    r'.listeners = r.listeners ∧ r'.buckets = r.buckets ∧ r'.nextId = r.nextId
      ∧ r'.slots = (r.ask c id).slots ∧ d'.completed = some id := by
  obtain ⟨callbacks, hskip⟩ := offerAll_skip hbefore (id :: after) Dispatch.nothing
  rcases offerAll_cons c r id after ⟨none, callbacks⟩ with ⟨-, hno⟩ | ⟨-, -, -, hcons⟩
  · exact absurd hawaits (hno rfl)
  · rw [if_pos hlive] at hcons
    have hrun : offerAll c r (before ++ id :: after) .nothing
        = offerAll c (r.ask c id) after ⟨some id, callbacks⟩ := hskip.trans hcons
    obtain ⟨hlist, hbuckets, hnext, hdone, -⟩ :=
      offerAll_asked c (r.ask c id) hn ⟨some id, callbacks⟩
    obtain ⟨hslots, hcompleted⟩ := hdone nofun
    rw [hrun]
    exact ⟨hlist, hbuckets, hnext, hslots, hcompleted⟩

theorem Sound.dispatch_first (hr : r.Sound) {l : Listener κ} (hl : r.listener? id = some l)
    (hone : l.isOneShot = true) (hhears : l.hears c = true) (hheader : c.header ∈ l.headers)
    (hlive : (r.slot id).live = true)
    (hfirst : ∀ k ∈ r.bucket c.header, k < id → ¬r.Awaits c k) :
    (r.dispatch c).1.listener? id = none
      ∧ (r.dispatch c).1.slot? id = (r.slot? id).map (fun s => ⟨some c, false, s.receiving⟩)
      ∧ ∀ k ≠ id, Same k r (r.dispatch c).1 := by
  have hm : id ∈ r.bucket c.header := (hr.enlisted c.header id).mpr ⟨l, hl, hheader⟩
  have hnodup := hr.nodup_bucket c.header
  have hordered := hr.ordered c.header
  obtain ⟨before, after, hsplit⟩ := List.append_of_mem hm
  -- buckets are in the order of registration, so those in front of it are older
  have hbefore : ∀ k ∈ before, ¬r.Awaits c k := by
    intro k hk
    rw [hsplit, List.pairwise_append] at hordered
    exact hfirst k (hsplit ▸ List.mem_append_left _ hk)
      (hordered.2.2 k hk id List.mem_cons_self)
  rw [hsplit] at hnodup
  obtain ⟨hlist, hbuckets, hnext, hslots, hcompleted⟩ := offerAll_first
    (List.nodup_cons.mp (List.nodup_append.mp hnodup).2.1).2 hbefore ⟨l, hl, hone, hhears⟩ hlive
  unfold Registry.dispatch
  rw [hsplit]
  generalize offerAll c r (before ++ id :: after) .nothing = offered
    at hlist hbuckets hnext hslots hcompleted
  obtain ⟨r', d⟩ := offered
  dsimp only at hlist hbuckets hnext hslots hcompleted ⊢
  rw [hcompleted]
  have hslot : ∀ k, r'.slot? k = (r.ask c id).slot? k := fun k => by rw [slot?, hslots, slot?]
  have hown := (hslot id).trans (slot?_ask_live hlive)
  have hothers : ∀ k ≠ id, r'.slot? k = r.slot? k := fun k hk =>
    (hslot k).trans (slot?_ask_of_ne hk)
  have hsound : r'.Sound := by
    refine hr.of_slots hlist hbuckets hnext fun k hk => ?_
    by_cases hkid : k = id
    · rw [hkid, hown] at hk
      rw [hkid]
      simpa using hk
    · exact hothers k hkid ▸ hk
  obtain ⟨hgone, hdisarmed, -⟩ := hsound.unregister_eq id
  refine ⟨(hgone id).trans (if_pos rfl), (hdisarmed id).trans ?_, fun k hk => ?_⟩
  · rw [hown]
    split
    · cases r.slot? id <;> rfl
    · rfl
  · have hsame := hsound.same_unregister hk
    refine ⟨hsame.listener.trans ?_, hsame.slot.trans (hothers k hk)⟩
    rw [listener?, hlist]
    rfl

end

end Registry

end NcpHost
