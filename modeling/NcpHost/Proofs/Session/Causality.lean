import Mathlib.Data.List.Induction
import NcpHost.Proofs.Session.Issue

/-! Where the answers of requests come from. A command that a request returns was offered to the
listeners after the request was issued, under the header of its response, and no command that was
offered once answers two requests. It need not have been offered after the request was sent: the
listener stands from the issue of the request, through all that it waits for. -/

namespace NcpHost.Session

/-- The command that a request has got: it is in the slot of the request, or the request has returned
it. -/
def Got (s : Session) (id : TaskId) (a : Command) : Prop :=
  (∃ e slot, s.exchange? id = some e ∧ s.registry.slot? e.listener = some slot
      ∧ slot.content = some a)
    ∨ .finished id (.response a) ∈ s.log

/-- For some requests, with the length of the record when each was issued and the header of its
response: where on record the command stands that each of them has got. -/
structure Ledger (asked : TaskId → Nat → CommandHeader → Prop) (place : TaskId → Nat)
    (s : Session) : Prop where
  live : ∀ i n h, asked i n h → s.exchange? i ≠ none ∨ i < s.nextTask ∧ s.task? i = none
  since : ∀ i n h, asked i n h → n ≤ s.log.length
  hears : ∀ i n h e, asked i n h → s.exchange? i = some e → e.purpose = .response
    ∧ ∀ l, s.registry.listener? e.listener = some l → ∀ k ∈ l.headers, k = h
  got : ∀ i n h a, asked i n h → s.Got i a →
    n ≤ place i ∧ s.log[place i]? = some (.dispatched a) ∧ a.header = h
  returned : ∀ i n h a q, asked i n h → s.log[q]? = some (.finished i (.response a)) → place i < q
  apart : ∀ i j n n' h h' a b, asked i n h → asked j n' h' → s.Got i a → s.Got j b → i ≠ j →
    place i ≠ place j

section

variable {asked : TaskId → Nat → CommandHeader → Prop} {place : TaskId → Nat} {s s' : Session}
  {act : Act} {id : TaskId}

theorem Purpose.outcome_eq_response {result : Except Fault Command} {a : Command}
    (h : Purpose.response.outcome result = .response a) : result = .ok a := by
  cases result with
  | error cause => exact absurd h nofun
  | ok c => exact congrArg Except.ok (Outcome.response.inj h)

theorem Ends.answer {e : Exchange} {a : Command} (h : Ends id e s (.ok a)) :
    s.exchange? id = some e ∧ ∃ slot, s.registry.slot? e.listener = some slot
      ∧ slot.content = some a := by
  cases h with
  | found ht hf =>
    cases hf with
    | answer hp => exact ⟨exchange?_of_task? ht, Registry.peek_eq_delivered.mp hp⟩

theorem Touch.got {e : Exchange} {a : Command} (h : Touch act id e s s')
    (he : s.exchange? id = some e) (hp : e.purpose = .response) (hgot : s'.Got id a) :
    s.Got id a := by
  -- a slot that fades holds no more than before
  have hslot : s'.exchange? id = some e → Registry.Fades e.listener s.registry s'.registry →
      (.finished id (.response a) ∈ s'.log → .finished id (.response a) ∈ s.log) →
      s.Got id a := by
    intro he' hfades hlog
    rcases hgot with ⟨e', slot, hex, hs, hc⟩ | hm
    · obtain rfl := Option.some.inj (he'.symm.trans hex)
      obtain ⟨slot', hs', hc'⟩ := hfades.content slot hs
      exact Or.inl ⟨e, slot', he, hs', hc'.symm.trans hc⟩
    · exact Or.inr (hlog hm)
  have hbesides : ∀ {new}, s'.log = s.log ++ new → Besides id new →
      .finished id (.response a) ∈ s'.log → .finished id (.response a) ∈ s.log := by
    intro new hlog hnew hm
    rw [hlog] at hm
    rcases List.mem_append.mp hm with hm | hm
    · exact hm
    · exact absurd (hnew _ hm).2 (by simp [Event.isEndOf])
  cases h with
  | spares he' hsame hlog =>
    obtain ⟨new, hlog, hnew⟩ := hlog
    exact hslot he' hsame.fades (hbesides hlog hnew)
  | clears _ _ he' hfades hlog => exact hslot he' hfades fun hm => hlog ▸ hm
  | robs _ he' hfades hlog =>
    obtain ⟨new, hlog, hnew⟩ := hlog
    exact hslot he' hfades (hbesides hlog hnew)
  | aborts _ hgone hlog =>
    rcases hgot with ⟨e', slot, hex, -⟩ | hm
    · cases (exchange?_of_gone hgone).symm.trans hex
    · exact Or.inr (hlog ▸ hm)
  | @ends result _ hends hgone _ hlog =>
    obtain ⟨line, writes, hlog⟩ := hlog
    rcases hgot with ⟨e', slot, hex, -⟩ | hm
    · cases (exchange?_of_gone hgone).symm.trans hex
    · rw [hlog, List.append_assoc] at hm
      rcases List.mem_append.mp hm with hm | hm
      · exact Or.inr hm
      · rcases List.mem_append.mp hm with hm | hm
        · obtain ⟨bytes, -, heq⟩ := List.mem_map.mp hm
          cases heq
        · -- it returns what was in its slot
          have heq := (Event.finished.inj (List.mem_singleton.mp hm)).2
          rw [hp] at heq
          obtain rfl := Purpose.outcome_eq_response heq.symm
          obtain ⟨hex, slot, hs, hc⟩ := hends.answer
          exact Or.inl ⟨e, slot, hex, hs, hc⟩

theorem Step.got_of_gone {a : Command} (h : Step act s s') (hid : id < s.nextTask)
    (hgone : s.task? id = none) (hgot : s'.Got id a) : s.Got id a := by
  obtain ⟨new, hlog, hnew⟩ := h.recorded
  rcases hgot with ⟨e, slot, hex, -⟩ | hm
  · exact absurd ((exchange?_of_gone (h.gone hid hgone).2).symm.trans hex) nofun
  · rw [hlog] at hm
    rcases List.mem_append.mp hm with hm | hm
    · exact Or.inr hm
    · exact absurd (hnew id (Or.inl hgone) _ hm) (by simp [Event.isEndOf])

theorem Touch.remains {e : Exchange} (h : Touch act id e s s') :
    s'.task? id = none ∨ s'.exchange? id = some e
      ∧ (s'.registry.listener? e.listener = none
        ∨ s'.registry.listener? e.listener = s.registry.listener? e.listener) := by
  cases h with
  | spares he hsame => exact Or.inr ⟨he, Or.inr hsame.listener⟩
  | clears _ _ he hfades | robs _ he hfades => exact Or.inr ⟨he, hfades.listener⟩
  | aborts _ hgone => exact Or.inl hgone
  | ends _ _ hgone => exact Or.inl hgone

theorem Ledger.returned_of_got (h : Ledger asked place s) (hlog : s.log <+: s'.log)
    {i : TaskId} {n : Nat} {k : CommandHeader} {a : Command} {q : Nat} (hi : asked i n k)
    (hgot : s.Got i a) (hq : s'.log[q]? = some (.finished i (.response a))) : place i < q := by
  obtain ⟨-, hplace, -⟩ := h.got i n k a hi hgot
  by_cases hlt : q < s.log.length
  · obtain ⟨new, hnew⟩ := hlog
    rw [← hnew, List.getElem?_append_left hlt] at hq
    exact h.returned i n k a q hi hq
  · exact Nat.lt_of_lt_of_le (lt_length_of_getElem? hplace) (Nat.le_of_not_lt hlt)

theorem Ledger.unoffered (h : Ledger asked place s) (ho : s.Orderly) (hs : Step act s s')
    (htouch : ∀ id e, s.exchange? id = some e → Touch act id e s s') : Ledger asked place s' := by
  have hlog : s.log <+: s'.log := steps_log (.single hs)
  -- nobody gets a command that is not offered
  have hgot : ∀ {i n k a}, asked i n k → s'.Got i a → s.Got i a := by
    intro i n k a hi hg
    rcases h.live i n k hi with hex | ⟨hid, hgone⟩
    · obtain ⟨e, he⟩ := Option.ne_none_iff_exists'.mp hex
      exact (htouch i e he).got he (h.hears i n k e hi he).1 hg
    · exact hs.got_of_gone hid hgone hg
  -- a request is over, or has the listener that it had or none
  have hremains : ∀ {i n k}, asked i n k → (i < s'.nextTask ∧ s'.task? i = none)
      ∨ ∃ e, s.exchange? i = some e ∧ s'.exchange? i = some e
        ∧ (s'.registry.listener? e.listener = none
          ∨ s'.registry.listener? e.listener = s.registry.listener? e.listener) := by
    intro i n k hi
    rcases h.live i n k hi with hex | ⟨hid, hgone⟩
    · obtain ⟨e, he⟩ := Option.ne_none_iff_exists'.mp hex
      have hid : i < s.nextTask :=
        ho.listening.known i fun hn => hex (exchange?_of_gone hn)
      rcases (htouch i e he).remains with hgone | ⟨he', hlistener⟩
      · exact Or.inl ⟨Nat.lt_of_lt_of_le hid hs.nextTask_le, hgone⟩
      · exact Or.inr ⟨e, he, he', hlistener⟩
    · exact Or.inl (hs.gone hid hgone)
  refine ⟨fun i n k hi => ?_, fun i n k hi => Nat.le_trans (h.since i n k hi) hlog.length_le,
    fun i n k e hi he => ?_, fun i n k a hi hg => ?_, fun i n k a q hi hq => ?_,
    fun i j n n' k k' a b hi hj ha hb => h.apart i j n n' k k' a b hi hj (hgot hi ha) (hgot hj hb)⟩
  · rcases hremains hi with hgone | ⟨e, -, he, -⟩
    · exact Or.inr hgone
    · exact Or.inl (by rw [he]; exact nofun)
  · rcases hremains hi with ⟨-, hgone⟩ | ⟨e', hold, he', hlistener⟩
    · exact absurd ((exchange?_of_gone hgone).symm.trans he) nofun
    · obtain rfl := Option.some.inj (he'.symm.trans he)
      obtain ⟨hp, hl⟩ := h.hears i n k e' hi hold
      refine ⟨hp, fun l hlis => ?_⟩
      rcases hlistener with hnone | hsame
      · exact absurd (hnone.symm.trans hlis) nofun
      · exact hl l (hsame.symm.trans hlis)
  · obtain ⟨hn, hplace, hheader⟩ := h.got i n k a hi (hgot hi hg)
    exact ⟨hn, getElem?_of_longer hlog hplace, hheader⟩
  · have hg : s'.Got i a := Or.inr (List.mem_of_getElem? hq)
    exact h.returned_of_got hlog hi (hgot hi hg) hq

def Wins (s : Session) (c : Command) (id : TaskId) : Prop :=
  ∃ e, s.exchange? id = some e ∧ (s.registry.dispatch c).2.completed = some e.listener

theorem not_wins_of_gone {c : Command} (hgone : s.task? id = none) : ¬s.Wins c id := by
  rintro ⟨e, he, -⟩
  exact absurd ((exchange?_of_gone hgone).symm.trans he) nofun

theorem not_wins_of_passed {c : Command} {e : Exchange} (he : s.exchange? id = some e)
    (hother : (s.registry.dispatch c).2.completed ≠ some e.listener) : ¬s.Wins c id := by
  rintro ⟨e', he', hwon⟩
  obtain rfl := Option.some.inj (he.symm.trans he')
  exact hother hwon

theorem returned_of_offered {a c : Command}
    (h : .finished id (.response a) ∈ (s.offered c).log) : .finished id (.response a) ∈ s.log := by
  rcases List.mem_append.mp h with hm | hm
  · exact hm
  · exact absurd (List.mem_singleton.mp hm) nofun

theorem Ledger.got_offered (h : Ledger asked place s) (ho : s.Orderly) {a c : Command} {n : Nat}
    {k : CommandHeader} (hi : asked id n k) (hg : (s.offered c).Got id a) :
    s.Wins c id ∧ a = c ∧ c.header = k ∨ ¬s.Wins c id ∧ s.Got id a := by
  rcases hg with ⟨e, slot, he, hs, hc⟩ | hm
  · have he' : s.exchange? id = some e := he
    cases ho.listening.sound.dispatch_offered c e.listener with
    | passed hother hsame =>
      exact Or.inr ⟨not_wins_of_passed he' hother, Or.inl ⟨e, slot, he', hsame.slot ▸ hs, hc⟩⟩
    | spent hother _ _ _ _ hslot =>
      obtain ⟨slot', hs', rfl⟩ := Option.map_eq_some_iff.mp (hslot.symm.trans hs)
      exact Or.inr ⟨not_wins_of_passed he' hother, Or.inl ⟨e, slot', he', hs', hc⟩⟩
    | won hm _ _ hwon _ hslot =>
      obtain ⟨slot', -, rfl⟩ := Option.map_eq_some_iff.mp (hslot.symm.trans hs)
      obtain ⟨l, hl, hheader⟩ := (ho.listening.sound.enlisted c.header e.listener).mp hm
      exact Or.inl ⟨⟨e, he', hwon⟩, (Option.some.inj hc).symm,
        (h.hears id n k e hi he').2 l hl _ hheader⟩
  · have hold := returned_of_offered hm
    exact Or.inr ⟨not_wins_of_gone (ho.ended id _ hold).2, Or.inr hold⟩

open Classical in
noncomputable def placeAfter (s : Session) (c : Command) (place : TaskId → Nat) (id : TaskId) : Nat :=
  if s.Wins c id then s.log.length else place id

theorem placeAfter_of_wins {c : Command} (h : s.Wins c id) :
    s.placeAfter c place id = s.log.length := if_pos h

theorem placeAfter_of_not_wins {c : Command} (h : ¬s.Wins c id) :
    s.placeAfter c place id = place id := if_neg h

theorem Ledger.apart_offered (h : Ledger asked place s) (ho : s.Orderly) {i j : TaskId}
    {a b c : Command} {n n' : Nat} {k k' : CommandHeader} (hi : asked i n k) (hj : asked j n' k')
    (ha : (s.offered c).Got i a) (hb : (s.offered c).Got j b) (hij : i ≠ j) :
    s.placeAfter c place i ≠ s.placeAfter c place j := by
  have hbefore : ∀ {m r l x}, asked m r l → s.Got m x → place m < s.log.length :=
    fun hm hx => lt_length_of_getElem? (h.got _ _ _ _ hm hx).2.1
  rcases h.got_offered ho hi ha with ⟨hwins, -⟩ | ⟨hlost, holdi⟩
  · rcases h.got_offered ho hj hb with ⟨hwins', -⟩ | ⟨hlost', holdj⟩
    · obtain ⟨e, he, hwon⟩ := hwins
      obtain ⟨e', he', hwon'⟩ := hwins'
      exact absurd (ho.listening.own i j e e' he he' (Registry.Offered.unique hwon hwon')) hij
    · rw [placeAfter_of_wins hwins, placeAfter_of_not_wins hlost']
      exact Nat.ne_of_gt (hbefore hj holdj)
  · rcases h.got_offered ho hj hb with ⟨hwins', -⟩ | ⟨hlost', holdj⟩
    · rw [placeAfter_of_not_wins hlost, placeAfter_of_wins hwins']
      exact Nat.ne_of_lt (hbefore hi holdi)
    · rw [placeAfter_of_not_wins hlost, placeAfter_of_not_wins hlost']
      exact h.apart i j n n' k k' a b hi hj holdi holdj hij

theorem Ledger.offered (h : Ledger asked place s) (ho : s.Orderly) (c : Command) :
    Ledger asked (s.placeAfter c place) (s.offered c) := by
  have hlog : (s.offered c).log = s.log ++ [.dispatched c] := rfl
  have hprefix : s.log <+: (s.offered c).log := hlog ▸ List.prefix_append _ _
  refine ⟨fun i n k hi => h.live i n k hi,
    fun i n k hi => Nat.le_trans (h.since i n k hi) hprefix.length_le, fun i n k e hi he => ?_,
    fun i n k a hi hg => ?_, fun i n k a q hi hq => ?_,
    fun i j n n' k k' a b hi hj ha hb hij => h.apart_offered ho hi hj ha hb hij⟩
  · obtain ⟨hp, hl⟩ := h.hears i n k e hi he
    refine ⟨hp, fun l hlis => hl l ?_⟩
    cases ho.listening.sound.dispatch_offered c e.listener with
    | passed _ hsame => exact hsame.listener.symm.trans hlis
    | spent _ _ _ _ hlistener => exact hlistener.symm.trans hlis
    | won _ _ _ _ hnone => exact absurd (hnone.symm.trans hlis) nofun
  · rcases h.got_offered ho hi hg with ⟨hwins, rfl, hheader⟩ | ⟨hlost, hold⟩
    · have hnew : (s.offered a).log[s.log.length]? = some (.dispatched a) := by
        rw [hlog, List.getElem?_concat_length]
      rw [placeAfter_of_wins hwins]
      exact ⟨h.since i n k hi, hnew, hheader⟩
    · obtain ⟨hn, hat, hheader⟩ := h.got i n k a hi hold
      rw [placeAfter_of_not_wins hlost]
      exact ⟨hn, getElem?_of_longer hprefix hat, hheader⟩
  · have hold := returned_of_offered (List.mem_of_getElem? hq)
    rw [placeAfter_of_not_wins (not_wins_of_gone (ho.ended i _ hold).2)]
    exact h.returned_of_got hprefix hi (Or.inr hold) hq

theorem Ledger.step (h : Ledger asked place s) (ho : s.Orderly) (hs : Step act s s') :
    ∃ place', Ledger asked place' s' := by
  rcases ho.listening.touch hs with ⟨line, c, -, rfl⟩ | htouch
  · exact ⟨s.placeAfter c place, h.offered ho c⟩
  · exact ⟨place, h.unoffered ho hs htouch⟩

theorem Ledger.steps (h : Ledger asked place s) (ho : s.Orderly) (hs : Steps act s s') :
    ∃ place', Ledger asked place' s' := by
  induction hs with
  | refl => exact ⟨place, h⟩
  | tail hsteps hstep ih =>
    obtain ⟨place', ih⟩ := ih
    exact ih.step (ho.steps hsteps) hstep

/-- The requests of a run, each with the length of the record when it was issued and the header of
its response. -/
inductive Asked (s : Session) (acts : List Act) : TaskId → Nat → CommandHeader → Prop where
  | mk {before after : List Act} {act : Act} {id : TaskId} {c pattern : Command} :
    acts = before ++ act :: after → Issue (s.run before) act id c pattern →
    Asked s acts id (s.run before).log.length pattern.header

theorem asked_concat {acts : List Act} {i : TaskId} {n : Nat} {h : CommandHeader}
    (ha : Asked s (acts ++ [act]) i n h) :
    Asked s acts i n h ∨ ∃ c pattern, Issue (s.run acts) act i c pattern
      ∧ n = (s.run acts).log.length ∧ h = pattern.header := by
  cases ha with
  | @mk before after act' _ c pattern heq hissue =>
    rcases List.eq_nil_or_concat after with rfl | ⟨init, last, rfl⟩
    · obtain ⟨rfl, hlast⟩ := List.append_inj' heq rfl
      obtain rfl := List.head_eq_of_cons_eq hlast
      exact Or.inr ⟨c, pattern, hissue, rfl, rfl⟩
    · rw [List.concat_eq_append, ← List.cons_append, ← List.append_assoc] at heq
      exact Or.inl (.mk (List.append_inj' heq rfl).1 hissue)

theorem Ledger.issue {c pattern : Command} {i : TaskId} (h : Ledger asked place s)
    (ho : s.Orderly) (hissue : Issue s act i c pattern) :
    ∃ place', Ledger (fun j n k => asked j n k ∨ j = i ∧ n = s.log.length ∧ k = pattern.header)
      place' (s.perform act).1 := by
  obtain ⟨s', t, e, hmove, hsteps, hregistry, hlog, ht, hte, hpurpose, hlistener, -⟩ := hissue.first
  have hstep : Step act s s' := .move hissue.turn hmove
  have htouch : ∀ id e, s.exchange? id = some e → Touch act id e s s' :=
    fun id e he => ho.listening.touch_move he hissue.turn hmove
  have hs' := h.unoffered ho hstep htouch
  have he : s'.exchange? i = some e := (exchange?_of_task? ht).trans hte
  have hslot : s'.registry.slot? e.listener = some .fresh := by
    rw [hregistry, hlistener]
    exact (ho.listening.sound.slot?_register _ _).trans (if_pos ⟨rfl, rfl⟩)
  -- a fresh slot holds nothing, and nothing was returned under this number
  have hnew : ∀ a, ¬s'.Got i a := by
    rintro a (⟨e', slot, hex, hs, hc⟩ | hm)
    · obtain rfl := Option.some.inj (he.symm.trans hex)
      obtain rfl := Option.some.inj (hslot.symm.trans hs)
      exact absurd hc nofun
    · rw [hlog] at hm
      exact hmove.present (ho.ended i _ hm).2
  -- what follows in the same act offers no command
  suffices hledger : Ledger (fun j n k => asked j n k ∨ j = i ∧ n = s.log.length
      ∧ k = pattern.header) place s' from hledger.steps (ho.step hstep) hsteps
  refine ⟨?_, ?_, ?_, ?_, ?_, ?_⟩
  · rintro j n k (hj | ⟨rfl, rfl, rfl⟩)
    · exact hs'.live j n k hj
    · exact Or.inl (by rw [he]; exact nofun)
  · rintro j n k (hj | ⟨rfl, rfl, rfl⟩)
    · exact hs'.since j n k hj
    · exact Nat.le_of_eq (congrArg List.length hlog.symm)
  · rintro j n k e' (hj | ⟨rfl, rfl, rfl⟩) hex
    · exact hs'.hears j n k e' hj hex
    · obtain rfl := Option.some.inj (he.symm.trans hex)
      refine ⟨hpurpose, fun l hl k hk => ?_⟩
      rw [hregistry, hlistener] at hl
      obtain rfl := Option.some.inj
        (((ho.listening.sound.listener?_register _ _).trans (if_pos rfl)).symm.trans hl)
      obtain ⟨p, hp, rfl⟩ := (Listener.mem_headers _).mp hk
      rw [List.mem_singleton.mp hp]
  · rintro j n k a (hj | ⟨rfl, rfl, rfl⟩) hg
    · exact hs'.got j n k a hj hg
    · exact absurd hg (hnew a)
  · rintro j n k a q (hj | ⟨rfl, rfl, rfl⟩) hq
    · exact hs'.returned j n k a q hj hq
    · exact absurd (Or.inr (List.mem_of_getElem? hq)) (hnew a)
  · rintro j m n n' k k' a b (hj | ⟨rfl, rfl, rfl⟩) (hm | ⟨rfl, rfl, rfl⟩) ha hb hne
    · exact hs'.apart j m n n' k k' a b hj hm ha hb hne
    · exact absurd hb (hnew b)
    · exact absurd ha (hnew a)
    · exact absurd rfl hne

theorem Ledger.mono {asked' : TaskId → Nat → CommandHeader → Prop} (h : Ledger asked' place s)
    (hsub : ∀ i n k, asked i n k → asked' i n k) : Ledger asked place s :=
  ⟨fun i n k hi => h.live i n k (hsub i n k hi), fun i n k hi => h.since i n k (hsub i n k hi),
    fun i n k e hi => h.hears i n k e (hsub i n k hi),
    fun i n k a hi => h.got i n k a (hsub i n k hi),
    fun i n k a q hi => h.returned i n k a q (hsub i n k hi),
    fun i j n n' k k' a b hi hj => h.apart i j n n' k k' a b (hsub i n k hi) (hsub j n' k' hj)⟩

theorem ledger_run (hs : s.Orderly) (acts : List Act) :
    ∃ place, Ledger (Asked s acts) place (s.run acts) := by
  induction acts using List.reverseRecOn with
  | nil =>
    have hnone : ∀ i n h, ¬Asked s [] i n h := by
      rintro i n h ⟨heq, -⟩
      exact absurd heq (by simp)
    exact ⟨fun _ => 0, fun i n h hi => absurd hi (hnone i n h), fun i n h hi => absurd hi (hnone i n h),
      fun i n h _ hi => absurd hi (hnone i n h), fun i n h _ hi => absurd hi (hnone i n h),
      fun i n h _ _ hi => absurd hi (hnone i n h),
      fun i _ n _ h _ _ _ hi => absurd hi (hnone i n h)⟩
  | append_singleton acts act ih =>
    obtain ⟨place, ih⟩ := ih
    have ho := hs.run acts
    have hrun : s.run (acts ++ [act]) = ((s.run acts).perform act).1 := run_append s acts [act]
    rw [hrun]
    -- the last act issues a request, which opens an account, or it issues none
    by_cases hissue : ∃ i c pattern, Issue (s.run acts) act i c pattern
    · obtain ⟨i, c, pattern, hissue⟩ := hissue
      obtain ⟨place', h⟩ := ih.issue ho hissue
      refine ⟨place', h.mono fun j n k hj => ?_⟩
      rcases asked_concat hj with hold | ⟨c', pattern', hissue', rfl, rfl⟩
      · exact Or.inl hold
      · obtain ⟨rfl, -, rfl⟩ := hissue.unique hissue'
        exact Or.inr ⟨rfl, rfl, rfl⟩
    · obtain ⟨place', h⟩ := ih.steps ho (perform_steps _ act)
      refine ⟨place', h.mono fun j n k hj => ?_⟩
      rcases asked_concat hj with hold | ⟨c', pattern', hissue', -⟩
      · exact hold
      · exact absurd ⟨j, c', pattern', hissue'⟩ hissue

end

def Answered (asked : TaskId → Nat → CommandHeader → Prop) (log : List Event) (id : TaskId) : Prop :=
  (∃ n h, asked id n h) ∧ ∃ a, .finished id (.response a) ∈ log

/-- Nothing of a request was written before this place on record. -/
def Unsent (log : List Event) (id : TaskId) (place : Nat) : Prop :=
  ∀ f < place, ∀ line bytes, log[f]? ≠ some (.sent id line bytes)

structure Accounted (asked : TaskId → Nat → CommandHeader → Prop) (place : TaskId → Nat)
    (log : List Event) : Prop where
  answer : ∀ i n h a q, asked i n h → log[q]? = some (.finished i (.response a)) →
    n ≤ place i ∧ place i < q ∧ log[place i]? = some (.dispatched a) ∧ a.header = h
  apart : ∀ i j, Answered asked log i → Answered asked log j → i ≠ j → place i ≠ place j
  /-- If every command under this header that was offered while nothing of the request was written
  answers another request, the command was offered after its first fragment was written. -/
  sent : ∀ i n h, asked i n h → Answered asked log i →
    (∀ p d, n ≤ p → Unsent log i p → log[p]? = some (.dispatched d) → d.header = h →
      ∃ j, j ≠ i ∧ Answered asked log j ∧ place j = p) →
    ∃ f line bytes, f < place i ∧ log[f]? = some (.sent i line bytes)

def Event.gist : Event → Option TaskId × Bool × Option TaskId
  | .sent id _ _ => (some id, false, none)
  | .dispatched _ => (none, true, none)
  | .finished id (.response _) => (none, false, some id)
  | _ => (none, false, none)

theorem gist_of_getElem? {log : List Event} {n : Nat} {e : Event} (h : log[n]? = some e) :
    (log.map Event.gist)[n]? = some e.gist := by
  rw [List.getElem?_map, h]
  rfl

theorem sent_of_gist {log : List Event} {n : Nat} {id : TaskId}
    (h : (log.map Event.gist)[n]? = some (some id, false, none)) :
    ∃ line bytes, log[n]? = some (.sent id line bytes) := by
  rw [List.getElem?_map] at h
  obtain ⟨e, he, hg⟩ := Option.map_eq_some_iff.mp h
  cases e with
  | sent k line bytes =>
    obtain rfl : k = id := by simpa [Event.gist] using hg
    exact ⟨line, bytes, he⟩
  | finished k outcome => cases outcome <;> exact absurd hg (by simp [Event.gist])
  | dispatched | callback | hook => exact absurd hg (by simp [Event.gist])

theorem returned_of_gist {log : List Event} {n : Nat} {id : TaskId}
    (h : (log.map Event.gist)[n]? = some (none, false, some id)) :
    ∃ a, log[n]? = some (.finished id (.response a)) := by
  rw [List.getElem?_map] at h
  obtain ⟨e, he, hg⟩ := Option.map_eq_some_iff.mp h
  cases e with
  | finished k outcome =>
    cases outcome with
    | response a =>
      obtain rfl : k = id := by simpa [Event.gist] using hg
      exact ⟨a, he⟩
    | version | done | failed => exact absurd hg (by simp [Event.gist])
  | sent | dispatched | callback | hook => exact absurd hg (by simp [Event.gist])

theorem dispatched_of_header {log : List Event} {n : Nat} {h : CommandHeader}
    (hn : (log.map fun e => e.command?.map Command.header)[n]? = some (some h)) :
    ∃ a, log[n]? = some (.dispatched a) ∧ a.header = h := by
  rw [List.getElem?_map] at hn
  obtain ⟨e, he, hcommand⟩ := Option.map_eq_some_iff.mp hn
  obtain ⟨a, hea, hheader⟩ := Option.map_eq_some_iff.mp hcommand
  cases e with
  | dispatched c => exact ⟨c, he, (Option.some.inj hea) ▸ hheader⟩
  | sent | callback | hook | finished => exact absurd hea nofun

/-- In every run, a request returns a command that was offered after the request was issued, and no
two return the same one. -/
theorem answered_since_issue (config : Config) (catalog : Catalog) (deviceOpens : Bool)
    (acts : List Act) :
    let s := Session.new config catalog deviceOpens
    ∃ place, Accounted (Asked s acts) place (s.run acts).log := by
  intro s
  obtain ⟨place, h⟩ := ledger_run (orderly_new config catalog deviceOpens) acts
  have hanswer : ∀ i n k a q, Asked s acts i n k →
      (s.run acts).log[q]? = some (.finished i (.response a)) →
      n ≤ place i ∧ place i < q ∧ (s.run acts).log[place i]? = some (.dispatched a)
        ∧ a.header = k := by
    intro i n k a q hi hq
    obtain ⟨hn, hplace, hheader⟩ := h.got i n k a hi (Or.inr (List.mem_of_getElem? hq))
    exact ⟨hn, h.returned i n k a q hi hq, hplace, hheader⟩
  have hapart : ∀ i j, Answered (Asked s acts) (s.run acts).log i →
      Answered (Asked s acts) (s.run acts).log j → i ≠ j → place i ≠ place j := by
    rintro i j ⟨⟨n, k, hi⟩, a, ha⟩ ⟨⟨m, k', hj⟩, b, hb⟩ hij
    exact h.apart i j n m k k' a b hi hj (Or.inr ha) (Or.inr hb) hij
  refine ⟨place, hanswer, hapart, fun i n k hi hanswered hothers => ?_⟩
  obtain ⟨hasked, a, ha⟩ := hanswered
  obtain ⟨q, hq⟩ := List.getElem?_of_mem ha
  obtain ⟨hn, -, hplace, hheader⟩ := hanswer i n k a q hi hq
  by_contra hnone
  have hunsent : Unsent (s.run acts).log i (place i) :=
    fun f hf line bytes hsent => hnone ⟨f, line, bytes, hf, hsent⟩
  obtain ⟨j, hji, hj, hsame⟩ := hothers (place i) a hn hunsent hplace hheader
  exact hapart j i hj ⟨hasked, a, ha⟩ hji hsame

/-- Two blocking requests: the answer to the first one arrives while the second one waits behind it,
and the answer to the second one after that was sent. -/
theorem answered_since_issue_two_requests :
    let reply : Definition := ⟨"Tell", .of .response 0x77, [⟨"N", .u8, false⟩], false, none⟩
    let request : Act :=
      .start (.request ⟨⟨"Ask", .of .request 0x77, [], true, some reply⟩, [], false⟩ 5000)
    let answer := fun n => ((Frame.single (.ofHeader reply.header [n])).stamp 1).encode
    let s := Session.new (.forDevice "tty") (.insert .empty reply) true
    let acts : List Act := [.attach, request, request, .turn (.task 0), .turn (.task 1),
      .arrive 1 (answer 7), .turn (.reader 1), .elapse 1000, .turn (.task 0), .turn (.task 1),
      .arrive 1 (answer 8), .turn (.reader 1), .elapse 2000, .turn (.task 1)]
    ∃ place, Accounted (Asked s acts) place (s.run acts).log ∧ place 0 = 1 ∧ place 1 = 4 := by
  intro reply request answer s acts
  obtain ⟨place, h⟩ := answered_since_issue (.forDevice "tty") (.insert .empty reply) true acts
  refine ⟨place, h, ?_⟩
  have hissue : Issue (s.run [.attach, request, request]) (.turn (.task 0)) 0
      ⟨⟨"Ask", .of .request 0x77, [], true, some reply⟩, [], false⟩ (.anyOf reply) :=
    ⟨rfl, ⟨5000, rfl⟩, ⟨1, .ofHeader (.of .request 0x77) [], rfl⟩⟩
  have hissue' : Issue (s.run [.attach, request, request, .turn (.task 0)]) (.turn (.task 1)) 1
      ⟨⟨"Ask", .of .request 0x77, [], true, some reply⟩, [], false⟩ (.anyOf reply) :=
    ⟨rfl, ⟨5000, rfl⟩, ⟨1, .ofHeader (.of .request 0x77) [], rfl⟩⟩
  obtain ⟨n, hfirst⟩ : ∃ n, Asked s acts 0 n reply.header := ⟨_, .mk rfl hissue⟩
  obtain ⟨m, hsecond⟩ : ∃ m, Asked s acts 1 m reply.header := ⟨_, .mk rfl hissue'⟩
  have hgist : (s.run acts).log.map Event.gist = [(some 0, false, none), (none, true, none),
      (none, false, some 0), (some 1, false, none), (none, true, none), (none, false, some 1)] := by
    decide +kernel
  generalize (s.run acts).log = log at h hgist
  have hoffered : ∀ p d, log[p]? = some (.dispatched d) → p = 1 ∨ p = 4 := by
    intro p d hp
    have hkind : (log.map Event.gist)[p]? = some (none, true, none) := gist_of_getElem? hp
    rw [hgist] at hkind
    match p, hkind with
    | 1, _ => exact Or.inl rfl
    | 4, _ => exact Or.inr rfl
    | 0, h | 2, h | 3, h | 5, h => exact absurd h (by decide)
    | _ + 6, h => exact absurd h nofun
  have hwritten : ∀ f line bytes, log[f]? = some (.sent 1 line bytes) → f = 3 := by
    intro f line bytes hf
    have hkind : (log.map Event.gist)[f]? = some (some 1, false, none) := gist_of_getElem? hf
    rw [hgist] at hkind
    match f, hkind with
    | 3, _ => rfl
    | 0, h | 1, h | 2, h | 4, h | 5, h => exact absurd h (by decide)
    | _ + 6, h => exact absurd h nofun
  obtain ⟨a, ha⟩ : ∃ a, log[2]? = some (.finished 0 (.response a)) :=
    returned_of_gist (by rw [hgist]; rfl)
  obtain ⟨b, hb⟩ : ∃ b, log[5]? = some (.finished 1 (.response b)) :=
    returned_of_gist (by rw [hgist]; rfl)
  obtain ⟨-, hbefore, hplace, -⟩ := h.answer 0 n _ a 2 hfirst ha
  have hzero : place 0 = 1 := by
    rcases hoffered _ _ hplace with hp | hp
    · exact hp
    · exact absurd hbefore (by rw [hp]; decide)
  -- all that arrives under this header while the second one waits is the answer of the first one
  have hothers : ∀ p d, m ≤ p → Unsent log 1 p → log[p]? = some (.dispatched d) →
      d.header = reply.header → ∃ j, j ≠ 1 ∧ Answered (Asked s acts) log j ∧ place j = p := by
    intro p d _ hunsent hp _
    rcases hoffered p d hp with rfl | rfl
    · exact ⟨0, Nat.zero_ne_one, ⟨⟨n, _, hfirst⟩, a, List.mem_of_getElem? ha⟩, hzero⟩
    · obtain ⟨line, bytes, hsent⟩ : ∃ line bytes, log[3]? = some (.sent 1 line bytes) :=
        sent_of_gist (by rw [hgist]; rfl)
      exact absurd hsent (hunsent 3 (by decide) line bytes)
  obtain ⟨f, line, bytes, hf, hsent⟩ :=
    h.sent 1 m _ hsecond ⟨⟨m, _, hsecond⟩, b, List.mem_of_getElem? hb⟩ hothers
  obtain ⟨-, -, hplace', -⟩ := h.answer 1 m _ b 5 hsecond hb
  refine ⟨hzero, (hoffered _ _ hplace').resolve_left fun hp => ?_⟩
  rw [hwritten f line bytes hsent, hp] at hf
  exact absurd hf (by decide)

/-- Two blocking requests: one waits behind the other when the answer to the first one arrives twice.
It returns what arrived before anything of it was written. -/
theorem answered_unsent :
    let reply : Definition := ⟨"Tell", .of .response 0x77, [⟨"N", .u8, false⟩], false, none⟩
    let request : Act :=
      .start (.request ⟨⟨"Ask", .of .request 0x77, [], true, some reply⟩, [], false⟩ 5000)
    let answer := ((Frame.single (.ofHeader reply.header [7])).stamp 1).encode
    let s := Session.new (.forDevice "tty") (.insert .empty reply) true
    let acts : List Act := [.attach, request, request, .turn (.task 0), .turn (.task 1),
      .arrive 1 (answer ++ answer), .turn (.reader 1), .elapse 1000, .turn (.task 0),
      .turn (.task 1), .elapse 2000, .turn (.task 1)]
    let log : List Event := (s.run acts).log
    (∃ n h, Asked s acts 1 n h)
      ∧ ∃ (a : Command) (q : Nat), log[q]? = some (.finished 1 (.response a))
        ∧ ∀ p, log[p]? = some (.dispatched a) → Unsent log 1 p := by
  intro reply request answer s acts log
  have hissue : Issue (s.run [.attach, request, request, .turn (.task 0)]) (.turn (.task 1)) 1
      ⟨⟨"Ask", .of .request 0x77, [], true, some reply⟩, [], false⟩ (.anyOf reply) :=
    ⟨rfl, ⟨5000, rfl⟩, ⟨1, .ofHeader (.of .request 0x77) [], rfl⟩⟩
  have hgist : log.map Event.gist = [(some 0, false, none), (none, true, none), (none, true, none),
      (none, false, some 0), (some 1, false, none), (none, false, some 1)] := by
    decide +kernel
  have hasked : ∃ n h, Asked s acts 1 n h := ⟨_, _, .mk rfl hissue⟩
  clear_value log
  obtain ⟨a, ha⟩ : ∃ a, log[5]? = some (.finished 1 (.response a)) :=
    returned_of_gist (by rw [hgist]; rfl)
  refine ⟨hasked, a, 5, ha, fun p hp f hf line bytes hsent => ?_⟩
  have hoffered : (log.map Event.gist)[p]? = some (none, true, none) := gist_of_getElem? hp
  have hwritten : (log.map Event.gist)[f]? = some (some 1, false, none) := gist_of_getElem? hsent
  rw [hgist] at hoffered hwritten
  have hsecond : p ≤ 2 := by
    match p, hoffered with
    | 1, _ | 2, _ => decide
    | 0, h | 3, h | 4, h | 5, h => exact absurd h (by decide)
    | _ + 6, h => exact absurd h nofun
  have hfourth : f = 4 := by
    match f, hwritten with
    | 4, _ => rfl
    | 0, h | 1, h | 2, h | 3, h | 5, h => exact absurd h (by decide)
    | _ + 6, h => exact absurd h nofun
  exact absurd hf (by rw [hfourth]; exact Nat.not_lt.mpr (Nat.le_trans hsecond (by decide)))

end NcpHost.Session
