import Mathlib.Data.List.Induction
import NcpHost.Proofs.Registry.Filing
import NcpHost.Registry.Future

/-! The life of a future. Its listener is registered until the first thing happens to it: a command of
which it is the earliest to wait, a withdrawal, or that it is dropped. A command that it got stays with
it until it is taken. -/

namespace NcpHost

namespace Slot

theorem peek_eq_pending {s : Slot} : s.peek = .pending ↔ s.content = none ∧ s.live = true := by
  cases hc : s.content <;> cases hl : s.live <;> simp [peek, hc, hl]

theorem peek_eq_closed {s : Slot} : s.peek = .closed ↔ s.content = none ∧ s.live = false := by
  cases hc : s.content <;> cases hl : s.live <;> simp [peek, hc, hl]

theorem peek_congr {s s' : Slot} (hcontent : s'.content = s.content) (hlive : s'.live = s.live) :
    s'.peek = s.peek := by
  simp [peek, hcontent, hlive]

end Slot

namespace Registry

variable {κ : Type} {r r' : Registry κ} {given : List (Listener κ)} {c d : Command}
  {id k : ListenerId} {act : FutureAct κ} {found : Option Receipt}

def Waits (r : Registry κ) (id : ListenerId) : Prop :=
  ∃ l, r.listener? id = some l ∧ l.isOneShot = true

/-- A command is for a future that waits: one of its patterns has the header of the command, and one,
this or another, matches it. -/
def Suits (r : Registry κ) (c : Command) (id : ListenerId) : Prop :=
  ∃ l, r.listener? id = some l ∧ l.isOneShot = true ∧ c.header ∈ l.headers ∧ l.hears c = true

def First (r : Registry κ) (c : Command) (id : ListenerId) : Prop :=
  r.Suits c id ∧ ∀ k < id, ¬r.Suits c k

theorem Suits.waits (h : r.Suits c id) : r.Waits id := by
  obtain ⟨l, hl, hone, -⟩ := h
  exact ⟨l, hl, hone⟩

theorem First.unique (h : r.First c id) (h' : r.First c k) : id = k := by
  rcases Nat.lt_trichotomy id k with hlt | heq | hlt
  · exact absurd h.1 (h'.2 id hlt)
  · exact heq
  · exact absurd h'.1 (h.2 k hlt)

theorem not_waits (h : r.listener? id = none) : ¬r.Waits id := by
  rintro ⟨l, hl, -⟩
  simp [h] at hl

def found? (r : Registry κ) (id : ListenerId) : Option Receipt := (r.slot? id).map Slot.peek

theorem peek_eq_found (r : Registry κ) (id : ListenerId) :
    r.peek id = (r.found? id).getD .closed := by
  rw [Registry.peek_eq, found?]
  cases r.slot? id <;> rfl

theorem receive_eq_delivered :
    (r.receive id).2 = .delivered c ↔ r.found? id = some (.delivered c) := by
  show r.peek id = .delivered c ↔ _
  rw [peek_eq_found]
  cases r.found? id <;> simp

/-- What is known of a future: it is registered, and a command can still be left for it, exactly as
long as its holder finds nothing yet. -/
structure Stands (r : Registry κ) (id : ListenerId) (found : Option Receipt) : Prop where
  waits : r.Waits id ↔ found = some .pending
  live : (r.slot id).live = true ↔ found = some .pending
  finds : r.found? id = found

def Paired (r : Registry κ) : Prop := ∀ id, r.Stands id (r.found? id)

theorem paired_empty : (Registry.empty : Registry κ).Paired := by
  intro id
  exact ⟨iff_of_false (not_waits rfl) nofun, iff_of_false nofun nofun, rfl⟩

theorem Stands.of_same (h : r.Stands id found) (hsame : Same id r r') : r'.Stands id found := by
  refine ⟨?_, ?_, ?_⟩
  · rw [Waits, hsame.listener]
    exact h.waits
  · rw [hsame.slot_eq]
    exact h.live
  · rw [found?, hsame.slot]
    exact h.finds

theorem Stands.dead (h : r.Stands id found) (hnot : ¬r.Waits id) {s : Slot}
    (hs : r.slot? id = some s) : s.live = false := by
  rw [← slot_of_slot? hs, Bool.eq_false_iff, Ne, h.live, ← h.waits]
  exact hnot

theorem Numbered.winner?_eq_some (h : Numbered given r) (hp : r.Paired) :
    r.winner? c = some id ↔ r.First c id := by
  have hsuits : ∀ k, r.Suits c k
      ↔ ∃ l, (k, l) ∈ r.audience c ∧ (l.isOneShot && (r.slot k).live) = true := by
    intro k
    constructor
    · intro hk
      have hlive := (hp k).live.mpr ((hp k).waits.mp hk.waits)
      obtain ⟨l, hl, hone, hheader, hhears⟩ := hk
      exact ⟨l, h.mem_audience.mpr ⟨hl, hheader, hhears⟩, by simp [hone, hlive]⟩
    · rintro ⟨l, hm, hlive⟩
      obtain ⟨hl, hheader, hhears⟩ := h.mem_audience.mp hm
      exact ⟨l, hl, (Bool.and_eq_true_iff.mp hlive).1, hheader, hhears⟩
  have horder : ((r.audience c).map (·.1)).Pairwise (· < ·) :=
    h.inOrder.sublist (List.filter_sublist.map _)
  rw [winner?, Keyed.find?_key_eq_some horder, First, hsuits]
  simp only [hsuits]

inductive Event where
  | issued
  | completed (c : Command)
  | withdrawn
  | taken (c : Command)
  | dropped

def Event.leaves : Event → Option Receipt
  | issued => some .pending
  | completed c => some (.delivered c)
  | withdrawn | taken _ => some .closed
  | dropped => none

def Befalls (id : ListenerId) (r : Registry κ) (act : FutureAct κ) : Event → Prop
  | .issued => (∃ patterns, act = .issue patterns) ∧ r.nextId = id
  | .completed c => act = .dispatch c ∧ r.First c id
  | .withdrawn => act.withdraws id = true ∧ r.Waits id
  | .taken c => act = .poll id ∧ (r.receive id).2 = .delivered c
  | .dropped => act = .drop id ∧ r.found? id ≠ none

inductive Fares (r : Registry κ) (act : FutureAct κ) (id : ListenerId) : Prop where
  | befell (e : Event) : Befalls id r act e → (r.use act).Stands id e.leaves → Fares r act id
  | same : (∀ e, ¬Befalls id r act e) → (r.use act).Stands id (r.found? id) → Fares r act id

theorem Befalls.unique {e e' : Event} (h : Befalls id r act e) (h' : Befalls id r act e') :
    e = e' := by
  cases act <;> cases e <;> cases e' <;>
    simp_all [Befalls, FutureAct.withdraws]

theorem Paired.fares_other (hp : r.Paired) (hsame : Same id r (r.use act))
    (hquiet : ∀ e, ¬Befalls id r act e) : Fares r act id :=
  .same hquiet ((hp id).of_same hsame)

theorem Sound.fares_issue (hr : r.Sound) (hp : r.Paired) (patterns : List Command)
    (id : ListenerId) : Fares r (.issue patterns) id := by
  have hlistener := hr.listener?_register (⟨patterns, .oneShot⟩ : Listener κ) id
  have hslot := hr.slot?_register (⟨patterns, .oneShot⟩ : Listener κ) id
  by_cases hid : id = r.nextId
  · rw [if_pos hid] at hlistener
    rw [if_pos ⟨hid, rfl⟩] at hslot
    refine .befell .issued ⟨⟨patterns, rfl⟩, hid.symm⟩ ⟨?_, ?_, ?_⟩
    · exact iff_of_true ⟨_, hlistener, rfl⟩ rfl
    · exact iff_of_true (by simp [use, await, slot_of_slot? hslot, Slot.fresh, Slot.live]) rfl
    · simp [found?, use, await, hslot, Slot.fresh, Slot.peek, Slot.live, Event.leaves]
  · rw [if_neg hid] at hlistener
    rw [if_neg fun h => hid h.1] at hslot
    refine hp.fares_other ⟨hlistener, hslot⟩ ?_
    rintro ⟨⟩ <;> simp [Befalls, FutureAct.withdraws, Ne.symm hid]

theorem Sound.fares_subscribe (hr : r.Sound) (hp : r.Paired) (patterns : List Command)
    (callback : Callback κ) (id : ListenerId) : Fares r (.subscribe patterns callback) id := by
  have hlistener := hr.listener?_register (⟨patterns, .indication callback⟩ : Listener κ) id
  have hslot := hr.slot?_register (⟨patterns, .indication callback⟩ : Listener κ) id
  rw [if_neg fun h => Bool.noConfusion h.2] at hslot
  have hquiet : ∀ e, ¬Befalls id r (.subscribe patterns callback) e := by
    rintro ⟨⟩ <;> simp [Befalls, FutureAct.withdraws]
  by_cases hid : id = r.nextId
  · -- the number goes to an indication, and no future has had it
    rw [if_pos hid] at hlistener
    have hnone : r.slot? id = none := by
      by_contra hheld
      exact Nat.lt_irrefl id (hid.symm ▸ hr.held id hheld)
    rw [hnone] at hslot
    have hfound : r.found? id = none := by rw [found?, hnone, Option.map_none]
    refine .same hquiet ?_
    rw [hfound]
    refine ⟨iff_of_false ?_ nofun, iff_of_false ?_ nofun, ?_⟩
    · rintro ⟨l, hl, hone⟩
      cases hlistener.symm.trans hl
      exact Bool.noConfusion hone
    · simp [use, subscribe, slot_eq, hslot, Slot.live]
    · simp [use, subscribe, found?, hslot]
  · rw [if_neg hid] at hlistener
    exact hp.fares_other ⟨hlistener, hslot⟩ hquiet

theorem Numbered.fares_dispatch (h : Numbered given r) (hp : r.Paired) (c : Command)
    (id : ListenerId) : Fares r (.dispatch c) id := by
  have hwinner : (r.dispatch c).2.completed = some id ↔ r.First c id := by
    rw [h.completed, h.winner?_eq_some hp]
  cases h.sound.dispatch_offered c id with
  | passed hno hsame =>
    have hnot : ¬r.First c id := fun hfirst => hno (hwinner.mpr hfirst)
    refine hp.fares_other hsame ?_
    rintro (_ | d | _ | _ | _) <;> simp [Befalls, FutureAct.withdraws]
    rintro rfl
    exact hnot
  | spent _ _ hawaits hdead _ _ =>
    obtain ⟨l, hl, hone, -⟩ := hawaits
    have hlive := (hp id).live.mpr ((hp id).waits.mp ⟨l, hl, hone⟩)
    simp [hdead] at hlive
  | won _ _ hlive hdone hgone hslot =>
    cases hs : r.slot? id with
    | none => simp [slot_eq, hs, Slot.live] at hlive
    | some s =>
      rw [hs, Option.map_some] at hslot
      refine .befell (.completed c) ⟨rfl, hwinner.mp hdone⟩ ⟨?_, ?_, ?_⟩
      · exact iff_of_false (not_waits hgone) (by simp [Event.leaves])
      · simp [use, slot_of_slot? hslot, Slot.live, Event.leaves]
      · simp [found?, use, hslot, Slot.peek, Event.leaves]

theorem Paired.fares_poll (hp : r.Paired) (k id : ListenerId) : Fares r (.poll k) id := by
  have hslot : (r.use (.poll k)).slot? id
      = if id = k then (r.slot? id).map (·.take.1) else r.slot? id :=
    slot?_modifySlot r k (·.take.1) id
  by_cases hid : id = k
  · subst hid
    rw [if_pos rfl] at hslot
    cases hs : r.slot? id with
    | none =>
      rw [hs] at hslot
      refine hp.fares_other ⟨rfl, hslot.trans hs.symm⟩ ?_
      rintro ⟨⟩ <;> simp [Befalls, FutureAct.withdraws, receive_eq_delivered, found?, hs]
    | some s =>
      rw [hs, Option.map_some] at hslot
      -- an empty slot gives nothing, a full one its command and is spent
      cases hc : s.content with
      | none =>
        have htake : s.take.1 = s := by simp [Slot.take, ← hc]
        refine hp.fares_other ⟨rfl, by rw [hslot, htake, hs]⟩ ?_
        rintro ⟨⟩ <;>
          simp [Befalls, FutureAct.withdraws, receive_eq_delivered, found?, hs, Slot.peek, hc]
        split <;> simp
      | some c =>
        have hfound : r.found? id = some (.delivered c) := by simp [found?, hs, Slot.peek, hc]
        have hnot : ¬r.Waits id := by simp [(hp id).waits, hfound]
        have hdead := (hp id).dead hnot hs
        have hdead' : s.take.1.live = false := hdead
        refine .befell (.taken c) ⟨rfl, receive_eq_delivered.mpr hfound⟩ ⟨?_, ?_, ?_⟩
        · exact iff_of_false hnot (by simp [Event.leaves])
        · simp [slot_of_slot? hslot, hdead', Event.leaves]
        · simp [found?, hslot, Slot.take, Slot.peek, Slot.live, Event.leaves]
          simpa [Slot.live] using hdead
  · rw [if_neg hid] at hslot
    refine hp.fares_other ⟨rfl, hslot⟩ ?_
    rintro ⟨⟩ <;> simp [Befalls, FutureAct.withdraws, Ne.symm hid]

theorem Paired.fares_withdraw (hp : r.Paired) (hact : act.withdraws id = true) {f : Slot → Slot}
    (hgone : (r.use act).listener? id = none) (hslot : (r.use act).slot? id = (r.slot? id).map f)
    (hcontent : ∀ s, (f s).content = s.content)
    (hlive : ∀ s, r.slot? id = some s → (f s).live = false) : Fares r act id := by
  have hnot := not_waits hgone
  have hdead : ¬((r.use act).slot id).live = true := by
    rw [slot_eq, hslot]
    cases hs : r.slot? id with
    | none => simp [Slot.live]
    | some s => simp [hlive s hs]
  by_cases hw : r.Waits id
  · have hfound := (hp id).waits.mp hw
    have hleaves : Event.withdrawn.leaves ≠ some .pending := by simp [Event.leaves]
    refine .befell .withdrawn ⟨hact, hw⟩
      ⟨iff_of_false hnot hleaves, iff_of_false hdead hleaves, ?_⟩
    rw [found?, Option.map_eq_some_iff] at hfound
    obtain ⟨s, hs, hpending⟩ := hfound
    have hempty := (Slot.peek_eq_pending.mp hpending).1
    simp only [found?, hslot, hs, Option.map_some, Event.leaves, Option.some.injEq]
    exact Slot.peek_eq_closed.mpr ⟨(hcontent s).trans hempty, hlive s hs⟩
  · have hpending := (hp id).waits.not.mp hw
    refine .same ?_ ⟨iff_of_false hnot hpending, iff_of_false hdead hpending, ?_⟩
    · cases act <;> rintro ⟨⟩ <;> simp_all [Befalls, FutureAct.withdraws]
    · rw [found?, hslot, found?]
      cases hs : r.slot? id with
      | none => rfl
      | some s =>
        have hsame := Slot.peek_congr (hcontent s) ((hlive s hs).trans ((hp id).dead hw hs).symm)
        simp [hsame]

/-- What the slot of a future is after its listener is removed, if it was there. -/
def leftover (r : Registry κ) (id : ListenerId) (s : Slot) : Slot :=
  if (r.listener? id).isSome then s.disarm else s

theorem content_leftover (r : Registry κ) (id : ListenerId) (s : Slot) :
    (r.leftover id s).content = s.content := by
  unfold leftover
  split <;> rfl

theorem Paired.live_leftover (hp : r.Paired) {s : Slot} (hs : r.slot? id = some s) :
    (r.leftover id s).live = false := by
  unfold leftover
  split
  · rfl
  · next hl => exact (hp id).dead (not_waits (by simpa using hl)) hs

theorem Sound.slot?_unregister (hr : r.Sound) (id : ListenerId) :
    (r.unregister id).slot? id = (r.slot? id).map (r.leftover id) := by
  rw [(hr.unregister_eq id).2.1]
  unfold leftover
  cases (r.listener? id).isSome <;> simp

theorem Sound.fares_remove (hr : r.Sound) (hp : r.Paired) (k id : ListenerId) :
    Fares r (.remove k) id := by
  by_cases hid : id = k
  · subst hid
    exact hp.fares_withdraw (by simp [FutureAct.withdraws]) (hr.listener?_unregister id)
      (hr.slot?_unregister id) (r.content_leftover id) fun _ => hp.live_leftover
  · refine hp.fares_other (hr.same_unregister hid) ?_
    rintro ⟨⟩ <;> simp [Befalls, FutureAct.withdraws, Ne.symm hid]

theorem Sound.fares_cancel (hr : r.Sound) (hp : r.Paired) (k id : ListenerId) :
    Fares r (.cancel k) id := by
  by_cases hid : id = k
  · subst hid
    have hslot : (r.cancel id).slot? id = (r.slot? id).map (Slot.close ∘ r.leftover id) := by
      rw [Registry.cancel, closeSlot, slot?_modifySlot, if_pos rfl, hr.slot?_unregister, Option.map_map]
    exact hp.fares_withdraw (by simp [FutureAct.withdraws]) (hr.listener?_unregister id) hslot
      (r.content_leftover id) (by simp [Slot.close, Slot.live])
  · refine hp.fares_other (hr.same_cancel hid) ?_
    rintro ⟨⟩ <;> simp [Befalls, FutureAct.withdraws, Ne.symm hid]

theorem Sound.fares_clear (hr : r.Sound) (hp : r.Paired) (id : ListenerId) : Fares r .clear id :=
  hp.fares_withdraw rfl rfl (hr.slot?_clear id) (r.content_leftover id) fun _ => hp.live_leftover

theorem Sound.fares_drop (hr : r.Sound) (hp : r.Paired) (k id : ListenerId) :
    Fares r (.drop k) id := by
  by_cases hid : id = k
  · subst hid
    have hslot : (r.use (.drop id)).slot? id = none := (slot?_forget _ id id).trans (if_pos rfl)
    have hstands : (r.use (.drop id)).Stands id none := by
      refine ⟨?_, ?_, ?_⟩
      · exact iff_of_false (not_waits (hr.listener?_unregister id)) nofun
      · simp [slot_eq, hslot, Slot.live]
      · simp [found?, hslot]
    cases hheld : r.found? id with
    | none =>
      refine .same ?_ (hheld.symm ▸ hstands)
      rintro ⟨⟩ <;> simp [Befalls, FutureAct.withdraws, hheld]
    | some found => exact .befell .dropped ⟨rfl, by simp [hheld]⟩ hstands
  · refine hp.fares_other (hr.same_release hid) ?_
    rintro ⟨⟩ <;> simp [Befalls, FutureAct.withdraws, Ne.symm hid]

theorem Numbered.fares (h : Numbered given r) (hp : r.Paired) (act : FutureAct κ)
    (id : ListenerId) : Fares r act id := by
  cases act with
  | issue patterns => exact h.sound.fares_issue hp patterns id
  | subscribe patterns callback => exact h.sound.fares_subscribe hp patterns callback id
  | dispatch c => exact h.fares_dispatch hp c id
  | poll k => exact hp.fares_poll k id
  | cancel k => exact h.sound.fares_cancel hp k id
  | remove k => exact h.sound.fares_remove hp k id
  | clear => exact h.sound.fares_clear hp id
  | drop k => exact h.sound.fares_drop hp k id

theorem Fares.paired (h : ∀ id, Fares r act id) : (r.use act).Paired := by
  intro id
  cases h id with
  | befell _ _ hstands => exact hstands.finds.symm ▸ hstands
  | same _ hstands => exact hstands.finds.symm ▸ hstands

theorem useAll_concat (r : Registry κ) (acts : List (FutureAct κ)) (act : FutureAct κ) :
    r.useAll (acts ++ [act]) = (r.useAll acts).use act := useAll_append r acts [act]

theorem numbered_useAll (acts : List (FutureAct κ)) :
    Numbered (registered (acts.flatMap FutureAct.parts)) (empty.useAll acts) := by
  rw [useAll_eq_run]
  exact numbered_run _

theorem paired_useAll (acts : List (FutureAct κ)) : (empty.useAll acts).Paired := by
  induction acts using List.reverseRecOn with
  | nil => exact paired_empty
  | append_singleton acts act ih =>
    rw [useAll_concat]
    exact Fares.paired fun id => (numbered_useAll acts).fares ih act id

def Happened (acts : List (FutureAct κ)) (id : ListenerId) (e : Event) : Prop :=
  ∃ before act later, acts = before ++ act :: later ∧ Befalls id (empty.useAll before) act e

section

variable {acts : List (FutureAct κ)} {e : Event}

theorem Happened.append (h : Happened acts id e) (more : List (FutureAct κ)) :
    Happened (acts ++ more) id e := by
  obtain ⟨before, act, later, rfl, hb⟩ := h
  exact ⟨before, act, later ++ more, by simp, hb⟩

theorem happened_concat : Happened (acts ++ [act]) id e
    ↔ Happened acts id e ∨ Befalls id (empty.useAll acts) act e := by
  constructor
  · rintro ⟨before, act', later, heq, hb⟩
    rcases List.eq_nil_or_concat later with rfl | ⟨later, last, rfl⟩
    · obtain ⟨rfl, hact⟩ := List.append_inj' heq rfl
      cases hact
      exact .inr hb
    · rw [List.concat_eq_append, ← List.cons_append, ← List.append_assoc] at heq
      obtain ⟨rfl, -⟩ := List.append_inj' heq rfl
      exact .inl ⟨before, act', later, rfl, hb⟩
  · rintro (h | hb)
    · exact h.append [act]
    · exact ⟨acts, act, [], rfl, hb⟩

end

/-- What can have happened to a future up to now, in order, and what its holder finds. -/
inductive Course : List Event → Option Receipt → Prop where
  | unborn : Course [] none
  | waiting : Course [.issued] (some .pending)
  | completed (c : Command) : Course [.issued, .completed c] (some (.delivered c))
  | withdrawn : Course [.issued, .withdrawn] (some .closed)
  | taken (c : Command) : Course [.issued, .completed c, .taken c] (some .closed)
  | dropped {events : List Event} {receipt : Receipt} :
    Course events (some receipt) → Course (events ++ [.dropped]) none

theorem Course.step {events : List Event} {e : Event} (h : Course events (r.found? id))
    (hnew : r.nextId = id → events = []) (hp : r.Paired) (hb : Befalls id r act e) :
    Course (events ++ [e]) e.leaves := by
  generalize hfound : r.found? id = found at h
  cases e with
  | issued =>
    rw [hnew hb.2]
    exact .waiting
  | completed c =>
    rw [(hp id).waits.mp hb.2.1.waits] at hfound
    subst hfound
    cases h
    exact .completed c
  | withdrawn =>
    rw [(hp id).waits.mp hb.2] at hfound
    subst hfound
    cases h
    exact .withdrawn
  | taken c =>
    rw [receive_eq_delivered.mp hb.2] at hfound
    subst hfound
    cases h
    exact .taken c
  | dropped =>
    cases found with
    | none => exact absurd hfound hb.2
    | some receipt => exact .dropped h

theorem Sound.lt_of_found (hr : r.Sound) (h : r.found? id ≠ none) : id < r.nextId := by
  refine hr.held id fun hnone => h ?_
  rw [found?, hnone, Option.map_none]

theorem Numbered.befalls_lt (h : Numbered given r) (hp : r.Paired) {e : Event}
    (hb : Befalls id r act e) (hnext : r.nextId ≤ (r.use act).nextId) : id < (r.use act).nextId := by
  have hfound : r.found? id ≠ none → id < (r.use act).nextId := by
    intro hne
    exact Nat.lt_of_lt_of_le (h.sound.lt_of_found hne) hnext
  cases e with
  | issued =>
    obtain ⟨⟨patterns, rfl⟩, rfl⟩ := hb
    exact Nat.lt_succ_self _
  | completed c => exact hfound (by simp [(hp id).waits.mp hb.2.1.waits])
  | withdrawn => exact hfound (by simp [(hp id).waits.mp hb.2])
  | taken c => exact hfound (by simp [receive_eq_delivered.mp hb.2])
  | dropped => exact hfound hb.2

theorem numbered_course (acts : List (FutureAct κ)) (id : ListenerId) :
    ∃ events, Course events ((empty.useAll acts).found? id)
      ∧ (∀ e, Happened acts id e ↔ e ∈ events)
      ∧ ((empty.useAll acts).nextId ≤ id → events = []) := by
  induction acts using List.reverseRecOn with
  | nil =>
    refine ⟨[], .unborn, fun e => ?_, fun _ => rfl⟩
    simp [Happened]
  | append_singleton acts act ih =>
    obtain ⟨events, hcourse, hevents, hnew⟩ := ih
    have hp := paired_useAll acts
    have hnumbered := numbered_useAll acts
    have hnext : (empty.useAll acts).nextId ≤ ((empty.useAll acts).use act).nextId := by
      rw [← useAll_concat, hnumbered.count, (numbered_useAll (acts ++ [act])).count,
        List.flatMap_append, registered_append]
      simp
    rw [useAll_concat]
    -- the last act is an event for the future, or leaves what its holder finds
    cases hnumbered.fares hp act id with
    | befell e hb hstands =>
      refine ⟨events ++ [e], ?_, fun e' => ?_, fun hid => ?_⟩
      · rw [hstands.finds]
        exact hcourse.step (fun h => hnew (Nat.le_of_eq h)) hp hb
      · rw [happened_concat, hevents, List.mem_append, List.mem_singleton]
        refine or_congr_right ⟨fun hb' => hb'.unique hb, ?_⟩
        rintro rfl
        exact hb
      · exact absurd (hnumbered.befalls_lt hp hb hnext) (Nat.not_lt.mpr hid)
    | same hquiet hstands =>
      refine ⟨events, hstands.finds ▸ hcourse, fun e => ?_, fun h => hnew (Nat.le_trans hnext h)⟩
      rw [happened_concat, hevents]
      exact or_iff_left (hquiet e)

/-- Every future has one of these courses. -/
theorem course (acts : List (FutureAct κ)) (id : ListenerId) :
    ∃ events, Course events ((empty.useAll acts).found? id)
      ∧ ∀ e, Happened acts id e ↔ e ∈ events := by
  obtain ⟨events, hcourse, hevents, -⟩ := numbered_course acts id
  exact ⟨events, hcourse, hevents⟩

theorem happened_lt {acts : List (FutureAct κ)} {e : Event} (h : Happened acts id e) :
    id < (empty.useAll acts).nextId := by
  obtain ⟨events, -, hevents, hnew⟩ := numbered_course acts id
  by_contra hid
  rw [hevents, hnew (Nat.not_lt.mp hid)] at h
  exact List.not_mem_nil h

def Shut (r : Registry κ) (id : ListenerId) : Prop := ∀ s, (id, s) ∈ r.slots → s.receiving = false

theorem Shut.modifySlot (h : r.Shut id) (k : ListenerId) {f : Slot → Slot}
    (hf : k = id → ∀ s, s.receiving = false → (f s).receiving = false) :
    (r.modifySlot k f).Shut id := by
  intro s hs
  obtain ⟨⟨j, s'⟩, hmem, heq⟩ := List.mem_map.mp hs
  dsimp only at heq
  split at heq
  · next hj =>
    cases heq
    exact hf hj.symm s' (h s' hmem)
  · cases heq
    exact h _ hmem

theorem Shut.offerAll (h : r.Shut id) (c : Command) (ids : List ListenerId) (d : Dispatch κ) :
    (offerAll c r ids d).1.Shut id := by
  induction ids generalizing r d with
  | nil => exact h
  | cons k rest ih =>
    rcases offerAll_cons c r k rest d with ⟨heq, -⟩ | ⟨-, -, -, heq⟩
    · rw [heq]
      exact ih h _
    · rw [heq]
      refine ih (h.modifySlot k fun _ s hs => ?_) _
      simp [Slot.offer, Slot.live, hs]

theorem Shut.unregister (h : r.Shut id) (k : ListenerId) : (r.unregister k).Shut id := by
  unfold Registry.unregister
  split
  · exact h
  · exact h.modifySlot k fun _ _ hs => hs

theorem Shut.cancelAll (h : r.Shut id) (entries : List (ListenerId × Listener κ)) :
    (entries.foldl (fun r e => r.modifySlot e.1 fun slot => (e.2.cancel slot).1) r).Shut id := by
  induction entries generalizing r with
  | nil => exact h
  | cons e rest ih =>
    refine ih (h.modifySlot e.1 fun _ s hs => ?_)
    rw [Listener.cancel]
    split <;> exact hs

theorem Shut.perform (h : r.Shut id) (hid : id < r.nextId) (act : Act κ) :
    (r.perform act).Shut id := by
  cases act with
  | register l =>
    intro s hs
    simp only [Registry.perform, register] at hs
    split at hs
    · rcases List.mem_append.mp hs with hs | hs
      · exact h s hs
      · cases List.mem_singleton.mp hs
        exact absurd hid (Nat.lt_irrefl _)
    · exact h s hs
  | unregister k => exact h.unregister k
  | dispatch c =>
    show (r.dispatch c).1.Shut id
    have hoffered : (r.offered c).Shut id := h.offerAll c _ _
    rcases r.dispatch_cases c with ⟨-, heq⟩ | ⟨k, -, heq⟩
    · rwa [heq]
    · rw [heq]
      exact hoffered.unregister k
  | clear => exact fun s hs => h.cancelAll r.listeners s hs
  | receive k => exact h.modifySlot k fun _ _ hs => hs
  | closeSlot k => exact h.modifySlot k fun _ _ _ => rfl
  | forget k => exact fun s hs => h s (List.mem_of_mem_filter hs)

theorem shut_cancel (r : Registry κ) (id : ListenerId) : (r.cancel id).Shut id := by
  intro s hs
  obtain ⟨⟨j, s'⟩, -, heq⟩ := List.mem_map.mp hs
  dsimp only at heq
  split at heq
  · cases heq
    rfl
  · next hj =>
    cases heq
    exact absurd rfl hj

theorem Numbered.shut_run (h : Numbered given r) (hid : id < r.nextId)
    (hgone : r.listener? id = none) (hshut : r.Shut id) (more : List (Act κ)) :
    (r.run more).listener? id = none ∧ (r.run more).Shut id := by
  induction more generalizing given r with
  | nil => exact ⟨hgone, hshut⟩
  | cons act rest ih =>
    obtain ⟨hid', hgone'⟩ := h.gone hid hgone act
    exact ih (h.perform act) hid' hgone' (hshut.perform hid act)

theorem cancel_eq_self (hgone : r.listener? id = none) (hshut : r.Shut id) : r.cancel id = r := by
  have hslots : (r.modifySlot id Slot.close).slots = r.slots := by
    refine (List.map_congr_left fun e he => ?_).trans (List.map_id _)
    obtain ⟨k, s⟩ := e
    dsimp only
    split
    · next hk =>
      subst hk
      have hreceiving := hshut s he
      simp [Slot.close, ← hreceiving]
    · rfl
  rw [Registry.cancel, Registry.unregister, hgone, closeSlot]
  show { r with slots := (r.modifySlot id Slot.close).slots } = r
  rw [hslots]

/-- A future was cancelled, removed or cleared with all others, before it got a command. -/
def Withdrawn (acts : List (FutureAct κ)) (id : ListenerId) : Prop :=
  ∃ before act later, acts = before ++ act :: later ∧ act.withdraws id = true
    ∧ Happened before id .issued ∧ ∀ c, ¬Happened before id (.completed c)

/-- A future, or a number that no future has, after some acts on a new registry. -/
structure Life (acts : List (FutureAct κ)) (r : Registry κ) (id : ListenerId) : Prop where
  registered : r.Waits id ↔ Happened acts id .issued ∧ ¬Happened acts id .dropped
    ∧ (∀ c, ¬Happened acts id (.completed c)) ∧ ¬Withdrawn acts id
  delivered : Happened acts id .issued → ¬Happened acts id .dropped →
    (∀ c, ¬Happened acts id (.taken c)) →
    ∀ c, r.peek id = .delivered c ↔ Happened acts id (.completed c)
  closed : Happened acts id .issued → ¬Happened acts id .dropped →
    (∀ c, ¬Happened acts id (.taken c)) → (r.peek id = .closed ↔ Withdrawn acts id)
  completedOnce : ∀ act c, Befalls id r act (.completed c) → ∀ d, ¬Happened acts id (.completed d)
  takenOnce : ∀ act c, Befalls id r act (.taken c) →
    Happened acts id (.completed c) ∧ ∀ d, ¬Happened acts id (.taken d)
  kept : ∀ c, r.peek id = .delivered c → ∀ later, .poll id ∉ later → .drop id ∉ later →
    (r.useAll later).peek id = .delivered c
  again : (∃ before later, acts = before ++ .cancel id :: later ∧ Happened before id .issued) →
    r.cancel id = r
  /-- A command changes what the holder finds only if this is the one future that it completes. -/
  dispatched : ∀ c, (r.dispatch c).1.peek id ≠ r.peek id →
    r.First c id ∧ ∀ k, r.First c k → k = id

section

variable {acts : List (FutureAct κ)}

theorem withdrawn_iff (hheld : ¬Happened acts id .dropped) :
    Withdrawn acts id ↔ Happened acts id .withdrawn := by
  constructor
  · rintro ⟨before, act, later, rfl, hact, hissued, hfirst⟩
    obtain ⟨events, hcourse, hevents⟩ := course before id
    have hdropped : ¬Happened before id .dropped := fun h => hheld (h.append _)
    generalize hfound : (empty.useAll before).found? id = found at hcourse
    cases hcourse with
    | unborn => simp [hevents] at hissued
    | waiting =>
      have hwaits := (paired_useAll before id).waits.mpr hfound
      exact ⟨before, act, later, rfl, hact, hwaits⟩
    | completed c | taken c => exact absurd ((hevents (.completed c)).mpr (by simp)) (hfirst c)
    | withdrawn => exact ((hevents .withdrawn).mpr (by simp)).append _
    | dropped => exact absurd ((hevents .dropped).mpr (by simp)) hdropped
  · rintro ⟨before, act, later, rfl, hact, hwaits⟩
    obtain ⟨events, hcourse, hevents⟩ := course before id
    rw [(paired_useAll before id).waits.mp hwaits] at hcourse
    cases hcourse
    exact ⟨before, act, later, rfl, hact, by simp [hevents], by simp [hevents]⟩

theorem registered_iff (acts : List (FutureAct κ)) (id : ListenerId) :
    (empty.useAll acts).Waits id ↔ Happened acts id .issued ∧ ¬Happened acts id .dropped
      ∧ (∀ c, ¬Happened acts id (.completed c)) ∧ ¬Withdrawn acts id := by
  rw [(paired_useAll acts id).waits]
  obtain ⟨events, hcourse, hevents⟩ := course acts id
  by_cases hdropped : Happened acts id .dropped
  · have hmem := (hevents _).mp hdropped
    generalize (empty.useAll acts).found? id = found at hcourse
    cases hcourse <;> simp_all
  · rw [withdrawn_iff hdropped]
    generalize (empty.useAll acts).found? id = found at hcourse
    cases hcourse <;> simp [hevents]

theorem found_iff (hissued : Happened acts id .issued) (hheld : ¬Happened acts id .dropped)
    (hnew : ∀ c, ¬Happened acts id (.taken c)) :
    (∀ c, (empty.useAll acts).peek id = .delivered c ↔ Happened acts id (.completed c))
      ∧ ((empty.useAll acts).peek id = .closed ↔ Withdrawn acts id) := by
  rw [withdrawn_iff hheld]
  obtain ⟨events, hcourse, hevents⟩ := course acts id
  rw [peek_eq_found]
  generalize (empty.useAll acts).found? id = found at hcourse
  simp only [hevents] at hissued hheld hnew ⊢
  cases hcourse <;> simp_all [eq_comm]

theorem completed_once (hb : Befalls id (empty.useAll acts) act (.completed c)) :
    ¬Happened acts id (.completed d) := by
  obtain ⟨events, hcourse, hevents⟩ := course acts id
  rw [(paired_useAll acts id).waits.mp hb.2.1.waits] at hcourse
  cases hcourse
  simp [hevents]

theorem taken_once (hb : Befalls id (empty.useAll acts) act (.taken c)) :
    Happened acts id (.completed c) ∧ ¬Happened acts id (.taken d) := by
  obtain ⟨events, hcourse, hevents⟩ := course acts id
  rw [receive_eq_delivered.mp hb.2] at hcourse
  cases hcourse
  simp [hevents]

theorem Numbered.kept (h : Numbered given r) (hp : r.Paired)
    (hfound : r.found? id = some (.delivered c)) (hpoll : act ≠ .poll id) (hdrop : act ≠ .drop id) :
    (r.use act).found? id = some (.delivered c) := by
  cases h.fares hp act id with
  | same _ hstands => rw [hstands.finds, hfound]
  | befell e hb _ =>
    have hnot : ¬r.Waits id := by simp [(hp id).waits, hfound]
    cases e with
    | issued =>
      have hold : id < r.nextId := h.sound.lt_of_found (by simp [hfound])
      exact absurd hb.2 (Nat.ne_of_gt hold)
    | completed d => exact absurd hb.2.1.waits hnot
    | withdrawn => exact absurd hb.2 hnot
    | taken d => exact absurd hb.1 hpoll
    | dropped => exact absurd hb.1 hdrop

theorem kept_useAll (acts : List (FutureAct κ)) (hpeek : (empty.useAll acts).peek id = .delivered c)
    (later : List (FutureAct κ)) (hpoll : .poll id ∉ later) (hdrop : .drop id ∉ later) :
    ((empty.useAll acts).useAll later).peek id = .delivered c := by
  have hfound := receive_eq_delivered.mp hpeek
  suffices h : ((empty.useAll acts).useAll later).found? id = some (.delivered c) by
    rw [peek_eq_found, h]
    rfl
  induction later using List.reverseRecOn with
  | nil => exact hfound
  | append_singleton later act ih =>
    simp only [List.mem_append, List.mem_singleton, not_or] at hpoll hdrop
    have hbefore := ih hpoll.1 hdrop.1
    rw [useAll_concat]
    rw [← useAll_append] at hbefore ⊢
    exact (numbered_useAll (acts ++ later)).kept (paired_useAll (acts ++ later)) hbefore
      (Ne.symm hpoll.2) (Ne.symm hdrop.2)

theorem cancelled_again (before later : List (FutureAct κ)) (hissued : Happened before id .issued) :
    let r := empty.useAll (before ++ .cancel id :: later)
    r.cancel id = r := by
  intro r
  have h := numbered_useAll before
  have hid := happened_lt hissued
  have h' : Numbered _ ((empty.useAll before).cancel id) :=
    (h.unregister id).modifySlot id Slot.close
  obtain ⟨hgone, hshut⟩ := h'.shut_run (Nat.lt_of_lt_of_eq hid (nextId_unregister _ id).symm)
    (h.sound.listener?_unregister id) (shut_cancel _ id) (later.flatMap FutureAct.parts)
  have hr : r = ((empty.useAll before).cancel id).run (later.flatMap FutureAct.parts) := by
    rw [← useAll_eq_run]
    exact useAll_append empty before (.cancel id :: later)
  rw [hr]
  exact cancel_eq_self hgone hshut

theorem Numbered.dispatched (h : Numbered given r) (hp : r.Paired)
    (hpeek : (r.dispatch c).1.peek id ≠ r.peek id) : r.First c id := by
  cases h.fares hp (.dispatch c) id with
  | same _ hstands =>
    rw [peek_eq_found, peek_eq_found r] at hpeek
    exact absurd (congrArg (·.getD .closed) hstands.finds) hpeek
  | befell e hb _ =>
    cases e <;> simp [Befalls, FutureAct.withdraws] at hb
    obtain ⟨rfl, hfirst⟩ := hb
    exact hfirst

theorem future_life (acts : List (FutureAct κ)) (id : ListenerId) :
    Life acts (empty.useAll acts) id := by
  have h := numbered_useAll acts
  have hp := paired_useAll acts
  refine ⟨registered_iff acts id, fun hi hd ht => (found_iff hi hd ht).1,
    fun hi hd ht => (found_iff hi hd ht).2, fun act c hb d => completed_once hb, fun act c hb => ?_,
    fun c hpeek => kept_useAll acts hpeek, ?_, fun c hpeek => ?_⟩
  · exact ⟨(taken_once (d := c) hb).1, fun d => (taken_once hb).2⟩
  · rintro ⟨before, later, rfl, hissued⟩
    exact cancelled_again before later hissued
  · have hfirst := h.dispatched hp hpeek
    exact ⟨hfirst, fun k hk => hk.unique hfirst⟩

/-- The pattern with the header of a command need not be the one that matches it: a future for a report
of version 1 that says 1, or for any of version 0, is completed by one of version 1 that says 2. -/
theorem completed_by_two_patterns :
    let report : UInt8 → Definition := fun version =>
      ⟨"Report.Ind", ⟨version, .indication, 0x77⟩, [⟨"N", .u8, false⟩], false, none⟩
    let patterns : List Command := [⟨report 1, [some (.uint 1)], true⟩, Command.anyOf (report 0)]
    let command : Command := ⟨report 1, [some (.uint 2)], false⟩
    (((empty : Registry Nat).useAll [.issue patterns, .dispatch command]).peek 0
        = .delivered command)
      ∧ ∀ p ∈ patterns, ¬(p.header = command.header ∧ p.covers command = true) := by
  intro report patterns command
  exact ⟨rfl, by decide +kernel⟩

end

end Registry

end NcpHost
