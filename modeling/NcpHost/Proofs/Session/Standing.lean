import NcpHost.Proofs.Session.Progress
import NcpHost.Proofs.Session.Shelter

/-! Requests of a run without end, and the commands that they are given. A request whose link stays up
and that nobody lays hands on waits with its listener until one command, and has that command from then
on until it returns it, if every command finds the request that it is for. -/

namespace NcpHost.Session

/-- A request that is issued in a run. -/
structure Request (s : Session) (acts : Nat → Act) where
  id : TaskId
  issued : Nat
  command : Command
  pattern : Command
  issue : Issue (s.trail acts issued) (acts issued) id command pattern

namespace Request

variable {s s₁ s₂ : Session} {acts : Nat → Act} {r : s.Request acts} {e : Exchange} {m place : Nat}
  {a : Command}

def listener (r : s.Request acts) : ListenerId := (s.trail acts r.issued).registry.nextId

def since (r : s.Request acts) : Nat := (s.trail acts r.issued).log.length

/-- While a request is there, the link that it was issued on stays up, it is not given up, and nobody
else lays hands on its listener. -/
structure Kept (r : s.Request acts) : Prop where
  up : ∀ n ≥ r.issued, (s.trail acts n).task? r.id ≠ none → ∀ line,
    (s.trail acts r.issued).current = some line → (s.trail acts n).Up line
  kept : ∀ n > r.issued, acts n ≠ .abort r.id
  unhandled : ∀ n > r.issued, (acts n).handles r.listener = false
  unawaited : ∀ n, acts n ≠ .start (.wait r.listener)

/-- While a request is there, every one-shot listener for the header of its response is one of these. -/
def Among (r : s.Request acts) (these : ListenerId → Prop) : Prop :=
  ∀ n > r.issued, (s.trail acts n).task? r.id ≠ none →
    ∀ k l, (s.trail acts n).registry.listener? k = some l → l.isOneShot = true →
      r.pattern.header ∈ l.headers → these k

structure Underway (r : s.Request acts) (e : Exchange) (s' : Session) : Prop where
  asks : s'.exchange? r.id = some e
  purpose : e.purpose = .response
  listener : e.listener = r.listener
  line : (s.trail acts r.issued).current = some e.line
  up : s'.Up e.line

structure Returned (r : s.Request acts) (place : Nat) (a : Command) (s' : Session) : Prop where
  known : r.id < s'.nextTask
  gone : s'.task? r.id = none
  given : r.listener < s'.registry.nextId
  unlistened : s'.registry.listener? r.listener = none
  answer : .finished r.id (.response a) ∈ s'.log
  only : ∀ o, .finished r.id o ∈ s'.log → o = .response a
  late : place < s'.log.length

inductive Stands (r : s.Request acts) (place : Nat) (a : Command) (s' : Session) : Prop where
  | waits {e : Exchange} : r.Underway e s' →
    s'.registry.listener? r.listener = some ⟨[r.pattern], .oneShot⟩ →
    s'.registry.slot? r.listener = some .fresh → s'.log.length ≤ place → Stands r place a s'
  | has {e : Exchange} {slot : Slot} : r.Underway e s' →
    s'.registry.listener? r.listener = none → s'.registry.slot? r.listener = some slot →
    slot.content = some a → place < s'.log.length → Stands r place a s'
  | returned : r.Returned place a s' → Stands r place a s'

theorem Kept.not_aborted (h : r.Kept) (hm : r.issued ≤ m) :
    acts m ≠ .abort r.id ∧ (acts m).handles r.listener = false := by
  rcases Nat.eq_or_lt_of_le hm with rfl | hlt
  · rw [r.issue.turn]
    exact ⟨nofun, rfl⟩
  · exact ⟨h.kept m hlt, h.unhandled m hlt⟩

theorem Kept.unawaited_within (h : r.Kept) (hr : s.Regular) (hidle : ∀ k, s.task? k = none)
    {s' : Session} (hw : s.Within acts m s') : s'.Unawaited r.listener := by
  have hsteps : ∀ {n s₁ s₂}, s₁.Regular → Steps (acts n) s₁ s₂ → s₁.Unawaited r.listener →
      s₂.Unawaited r.listener := by
    intro n s₁ s₂ hr₁ hs hu
    induction hs with
    | refl => exact hu
    | tail hsteps hstep ih =>
      exact hstep.unawaited (h.unawaited n) ih
  have htrail : ∀ n, (s.trail acts n).Unawaited r.listener := by
    intro n
    induction n with
    | zero => exact fun k t ht => absurd ((hidle k).symm.trans ht) nofun
    | succ n ih => exact hsteps (hr.trail acts n) (s.trail_steps acts n) ih
  exact hsteps (hr.trail acts m) hw.1 (htrail m)

theorem Underway.sheltered (hu : r.Underway e s₁) (hk : r.Kept) (hm : r.issued ≤ m)
    (hw : s₁.Unawaited r.listener) : Sheltered (acts m) r.id e s₁ := by
  obtain ⟨hkept, hunhandled⟩ := hk.not_aborted hm
  exact ⟨hu.up, hkept, hu.listener ▸ hunhandled, hu.listener ▸ hw⟩

theorem Underway.next (hu : r.Underway e s₁) (hk : r.Kept) (hr : s.Regular) (hm : r.issued ≤ m)
    (hw₁ : s.Within acts m s₁) (hw₂ : s.Within acts m s₂) (hs : Step (acts m) s₁ s₂)
    (he : s₂.exchange? r.id = some e) : r.Underway e s₂ := by
  refine ⟨he, hu.purpose, hu.listener, hu.line, ?_⟩
  have hr₁ := hr.within hw₁
  have hr₂ := hr.within hw₂
  by_cases hown : acts m = .turn (.task r.id)
  · exact hs.still_up hr₁ (not_maySwitch hown (hu.asks ▸ nofun)) hu.up
  · have hend := hw₂.2.keeps_exchange hr₂ hown (hk.not_aborted hm).1 he
    have hpresent : (s.trail acts (m + 1)).task? r.id ≠ none :=
      fun hn => absurd ((exchange?_of_gone hn).symm.trans hend) nofun
    have hup := hk.up (m + 1) (Nat.le_succ_of_le hm) hpresent e.line hu.line
    obtain ⟨l, hl, -⟩ := hu.up
    have hline : s₁.line? e.line ≠ none := fun hn => absurd (hn.symm.trans hl) nofun
    exact hw₂.2.up hr₂ (hs.line?_ne_none hr₁.orderly.listening hr₁.linked hline) hup

theorem Kept.stands_first (hk : r.Kept) (hr : s.Regular) (hplace : r.since ≤ place) :
    ∃ s₁, Move r.id (s.trail acts r.issued) s₁ ∧ s.Within acts r.issued s₁
      ∧ r.Stands place a s₁ := by
  obtain ⟨s₁, t, e, hmove, hsteps, hregistry, hlog, ht, he, hpurpose, hlistener, ⟨packet, hp⟩, -⟩ :=
    r.issue.first
  have hstep : Step (acts r.issued) (s.trail acts r.issued) s₁ := .move r.issue.turn hmove
  have hreg := hr.trail acts r.issued
  obtain ⟨timeout, hfresh⟩ := r.issue.fresh
  have hline := current_of_prepare hp
  have hmay : ¬MaySwitch (acts r.issued) (s.trail acts r.issued) := by
    intro hmay
    obtain ⟨attempt, due, ht⟩ := hmay r.id r.issue.turn
    exact absurd (hfresh.symm.trans ht) nofun
  have hup := hk.up r.issued (Nat.le_refl _) (ne_none_of_task? hfresh) e.line hline
  refine ⟨s₁, hmove, ⟨.single hstep, hsteps⟩, .waits (e := e)
    ⟨(exchange?_of_task? ht).trans he, hpurpose, hlistener, hline, hstep.still_up hreg hmay hup⟩
    ?_ ?_ ?_⟩
  · rw [hregistry]
    exact (hreg.orderly.listening.sound.listener?_register _ _).trans (if_pos rfl)
  · rw [hregistry]
    exact (hreg.orderly.listening.sound.slot?_register _ _).trans (if_pos ⟨rfl, rfl⟩)
  · rw [hlog]
    exact hplace

theorem asking (r : s.Request acts) (hr : s.Regular) {n : Nat} (hn : r.issued < n) :
    (s.trail acts n).Asking r.id := by
  obtain ⟨s₁, t, e, hmove, hsteps, -, -, ht, he, -⟩ := r.issue.first
  have hreg := hr.trail acts r.issued
  have ho₁ := hreg.orderly.step (.move r.issue.turn hmove)
  have hfirst : s₁.Asking r.id := Or.inl ((exchange?_of_task? ht).trans he ▸ nofun)
  have hafter : (s.trail acts (r.issued + 1)).Asking r.id := (hsteps.onward ho₁ hfirst).1
  exact hr.asking_trail hafter n hn

theorem beyond {new : List Event} (h : s.Logs acts place (.dispatched a))
    (hw : s.Within acts m s₂) (hlog : s₂.log = s₁.log ++ new) (hnew : .dispatched a ∉ new)
    (hle : s₁.log.length ≤ place) : s₂.log.length ≤ place := by
  refine Nat.le_of_not_lt fun hlt => hnew ?_
  have hat := h.getElem? hw hlt
  rw [hlog, List.getElem?_append_right hle] at hat
  exact List.mem_of_getElem? hat

theorem not_dispatched_of_besides {id : TaskId} {new : List Event} (h : Besides id new) :
    .dispatched a ∉ new := fun hm => absurd (h _ hm).1 nofun

theorem Returned.step (h : r.Returned place a s₁) (hl : s₁.Listening) {act : Act}
    (hs : Step act s₁ s₂) : r.Returned place a s₂ := by
  obtain ⟨hknown, hgone⟩ := hs.gone h.known h.gone
  have hnone := hs.unlistened hl h.given h.unlistened
  obtain ⟨new, hlog, hnew⟩ := hs.recorded
  refine ⟨hknown, hgone, Nat.lt_of_lt_of_le h.given (hs.nextId_le hl), hnone, ?_, fun o ho => ?_, ?_⟩
  · rw [hlog]
    exact List.mem_append_left _ h.answer
  · rw [hlog] at ho
    rcases List.mem_append.mp ho with ho | ho
    · exact h.only o ho
    · exact absurd (hnew r.id (Or.inl h.gone) _ ho) (by simp [Event.isEndOf])
  · rw [hlog, List.length_append]
    exact Nat.lt_add_right _ h.late

theorem peek_of_fresh {κ : Type} {registry : Registry κ} {listener : ListenerId}
    (h : registry.slot? listener = some .fresh) : registry.peek listener = .pending := by
  rw [Registry.peek, Registry.slot_of_slot? h]
  rfl

theorem Underway.not_over (hu : r.Underway e s₁)
    (hslot : s₁.registry.slot? r.listener = some .fresh) (hle : s₁.log.length ≤ place)
    {deadline : Nat} {result : Except Fault Command} (hfinds : Finds s₁ e deadline result)
    {line : LineId} {writes : List (List UInt8)}
    (hlog : s₂.log = s₁.log ++ writes.map (.sent r.id line)
      ++ [.finished r.id (e.purpose.outcome result)])
    (hw₂ : s.Within acts m s₂) (hlogs : s.Logs acts place (.dispatched a))
    (htimely : ∀ q < place, ¬s.Logs acts q (.finished r.id (.failed .timeout))) : False := by
  have hpeek := peek_of_fresh hslot
  rw [← hu.listener] at hpeek
  cases hfinds with
  | answer hp => exact absurd (hpeek.symm.trans hp) nofun
  | cancelled hp => exact absurd (hpeek.symm.trans hp) nofun
  | timeout =>
    have hle₂ : s₂.log.length ≤ place := by
      refine beyond hlogs hw₂ (hlog.trans (List.append_assoc _ _ _)) (fun hm => ?_) hle
      rcases List.mem_append.mp hm with hm | hm
      · obtain ⟨_, -, heq⟩ := List.mem_map.mp hm
        exact absurd heq nofun
      · exact absurd (List.mem_singleton.mp hm) nofun
    have hlast : s₂.log[(s₁.log ++ writes.map (Event.sent r.id line)).length]?
        = some (.finished r.id (.failed .timeout)) := by
      rw [hlog, List.getElem?_concat_length, hu.purpose]
      rfl
    exact htimely _ (Nat.lt_of_lt_of_le (lt_length_of_getElem? hlast) hle₂) (hw₂.logs hlast)

theorem Underway.returned (hu : r.Underway e s₁) (hr₁ : s₁.Regular) {act : Act}
    (hs : Step act s₁ s₂) (hnone : s₁.registry.listener? r.listener = none) {slot : Slot}
    (hslot : s₁.registry.slot? r.listener = some slot) (hc : slot.content = some a)
    (hlt : place < s₁.log.length) {deadline : Nat} {result : Except Fault Command}
    (hfinds : Finds s₁ e deadline result) (hgone : s₂.task? r.id = none) {line : LineId}
    {writes : List (List UInt8)}
    (hlog : s₂.log = s₁.log ++ writes.map (.sent r.id line)
      ++ [.finished r.id (e.purpose.outcome result)]) : r.Returned place a s₂ := by
  have hpeek := Registry.peek_eq_delivered.mpr ⟨_, hslot, hc⟩
  rw [← hu.listener] at hpeek
  have hl := hr₁.orderly.listening
  have hgiven : r.listener < s₁.registry.nextId := hu.listener ▸ hl.given r.id e hu.asks
  have hid : r.id < s₁.nextTask :=
    hl.known r.id fun hn => absurd ((exchange?_of_gone hn).symm.trans hu.asks) nofun
  cases hfinds with
  | cancelled hp => exact absurd (hpeek.symm.trans hp) nofun
  | timeout hp => exact absurd (hpeek.symm.trans hp) nofun
  | answer hp =>
    obtain rfl := Receipt.delivered.inj (hpeek.symm.trans hp)
    rw [hu.purpose] at hlog
    refine ⟨Nat.lt_of_lt_of_le hid hs.nextTask_le, hgone,
      Nat.lt_of_lt_of_le hgiven (hs.nextId_le hl), hs.unlistened hl hgiven hnone, ?_,
      fun o ho => ?_, ?_⟩
    · rw [hlog]
      exact List.mem_append_right _ (List.mem_singleton_self _)
    · rw [hlog, List.append_assoc] at ho
      rcases List.mem_append.mp ho with ho | ho
      · -- whoever is over is gone
        have hgone₁ := (hr₁.orderly.ended r.id o ho).2
        exact absurd ((exchange?_of_gone hgone₁).symm.trans hu.asks) nofun
      · rcases List.mem_append.mp ho with ho | ho
        · obtain ⟨_, -, heq⟩ := List.mem_map.mp ho
          exact absurd heq nofun
        · exact (Event.finished.inj (List.mem_singleton.mp ho)).2
    · rw [hlog, List.append_assoc, List.length_append]
      exact Nat.lt_add_right _ hlt

theorem Stands.unoffered (h : r.Stands place a s₁) (hk : r.Kept) (hr : s.Regular)
    (hidle : ∀ k, s.task? k = none) (hm : r.issued ≤ m) (hw₁ : s.Within acts m s₁)
    (hw₂ : s.Within acts m s₂) (hs : Step (acts m) s₁ s₂)
    (htouch : ∀ id e, s₁.exchange? id = some e → Touch (acts m) id e s₁ s₂)
    (hlogs : s.Logs acts place (.dispatched a))
    (htimely : ∀ q < place, ¬s.Logs acts q (.finished r.id (.failed .timeout))) :
    r.Stands place a s₂ := by
  have hr₁ := hr.within hw₁
  have hfares : ∀ {e}, r.Underway e s₁ → Fares (acts m) r.id e s₁ s₂ := fun hu =>
    (htouch r.id _ hu.asks).fares hr₁ (hu.sheltered hk hm (hk.unawaited_within hr hidle hw₁))
  -- it waits, has its command, or has returned; what the step does to it follows from that
  cases h with
  | @waits e hu hlistener hslot hle =>
    cases hfares hu with
    | stays he hsame hlog =>
      obtain ⟨new, hlog, hnew⟩ := hlog
      rw [hu.listener] at hsame
      exact .waits (hu.next hk hr hm hw₁ hw₂ hs he) (hsame.listener.trans hlistener)
        (hsame.slot.trans hslot) (beyond hlogs hw₂ hlog (not_dispatched_of_besides hnew) hle)
    | ends hfinds _ _ hlog =>
      obtain ⟨line, writes, hlog⟩ := hlog
      exact (hu.not_over hslot hle hfinds hlog hw₂ hlogs htimely).elim
  | @has e slot hu hnone hslot hc hlt =>
    cases hfares hu with
    | stays he hsame hlog =>
      obtain ⟨new, hlog, -⟩ := hlog
      rw [hu.listener] at hsame
      refine .has (hu.next hk hr hm hw₁ hw₂ hs he) (hsame.listener.trans hnone)
        (hsame.slot.trans hslot) hc ?_
      rw [hlog, List.length_append]
      exact Nat.lt_add_right _ hlt
    | ends hfinds hgone _ hlog =>
      obtain ⟨line, writes, hlog⟩ := hlog
      exact .returned (hu.returned hr₁ hs hnone hslot hc hlt hfinds hgone hlog)
  | returned hreturned => exact .returned (hreturned.step hr₁.orderly.listening hs)

/-- A command finds a request in its turn: the one at its place finds no listener before that of the
request, and the ones before that leave it alone. -/
structure InTurn (r : s.Request acts) (place : Nat) (a c : Command) (s' : Session) : Prop where
  first : s'.log.length = place → ∀ k ∈ s'.registry.bucket a.header, k < r.listener →
    ¬s'.registry.Awaits a k
  spared : s'.log.length < place → Registry.Same r.listener s'.registry (s'.registry.dispatch c).1

theorem Stands.offered (h : r.Stands place a s₁) {c : Command} (hk : r.Kept) (hr : s.Regular)
    (hm : r.issued ≤ m) (hw₁ : s.Within acts m s₁) (hw₂ : s.Within acts m (s₁.offered c))
    (hs : Step (acts m) s₁ (s₁.offered c)) (hlogs : s.Logs acts place (.dispatched a))
    (hheader : a.header = r.pattern.header)
    (hturn : s₁.registry.listener? r.listener = some ⟨[r.pattern], .oneShot⟩ →
      r.InTurn place a c s₁) : r.Stands place a (s₁.offered c) := by
  have hr₁ := hr.within hw₁
  have hsound := hr₁.orderly.listening.sound
  have hlog : (s₁.offered c).log = s₁.log ++ [.dispatched c] := rfl
  have hlength : (s₁.offered c).log.length = s₁.log.length + 1 := by
    rw [hlog, List.length_append]
    rfl
  cases h with
  | @waits e hu hlistener hslot hle =>
    have hu₂ := hu.next hk hr hm hw₁ hw₂ hs hu.asks
    rcases Nat.eq_or_lt_of_le hle with heq | hlt
    · -- this is the command
      have hnew : (s₁.offered c).log[place]? = some (.dispatched c) := by
        rw [hlog, ← heq, List.getElem?_concat_length]
      obtain rfl := Event.dispatched.inj ((hw₂.logs hnew).unique hlogs)
      have hmem : c.header ∈ (⟨[r.pattern], .oneShot⟩ : Listener Deed).headers :=
        (Listener.mem_headers _).mpr ⟨r.pattern, List.mem_singleton_self _, hheader.symm⟩
      have hlive : (s₁.registry.slot r.listener).live = true := by
        rw [Registry.slot_of_slot? hslot]
        rfl
      obtain ⟨hnone, hgiven, -⟩ := hsound.dispatch_first hlistener rfl (r.issue.hears hheader) hmem
        hlive ((hturn hlistener).first heq)
      refine .has hu₂ hnone (hgiven.trans (congrArg _ hslot)) rfl ?_
      rw [hlength, heq]
      exact Nat.lt_succ_self _
    · have hsame := (hturn hlistener).spared hlt
      exact .waits hu₂ (hsame.listener.trans hlistener) (hsame.slot.trans hslot)
        (hlength ▸ Nat.succ_le_of_lt hlt)
  | @has e slot hu hnone hslot hc hlt =>
    have hsame : Registry.Same r.listener s₁.registry (s₁.registry.dispatch c).1 := by
      refine hsound.dispatch_same fun hmem => ?_
      obtain ⟨l, hl, -⟩ := (hsound.enlisted c.header r.listener).mp hmem
      exact absurd (hnone.symm.trans hl) nofun
    refine .has (hu.next hk hr hm hw₁ hw₂ hs hu.asks) (hsame.listener.trans hnone)
      (hsame.slot.trans hslot) hc ?_
    rw [hlength]
    exact Nat.lt_succ_of_lt hlt
  | returned hreturned => exact .returned (hreturned.step hr₁.orderly.listening hs)

theorem same_of_header {registry : Registry Deed} (hr : registry.Sound) {c : Command}
    (hl : registry.listener? r.listener = some ⟨[r.pattern], .oneShot⟩)
    (hc : c.header ≠ r.pattern.header) :
    Registry.Same r.listener registry (registry.dispatch c).1 := by
  refine hr.dispatch_same fun hmem => hc ?_
  obtain ⟨l, hl', hheader⟩ := (hr.enlisted c.header r.listener).mp hmem
  obtain rfl := Option.some.inj (hl.symm.trans hl')
  obtain ⟨p, hp, hheader⟩ := (Listener.mem_headers _).mp hheader
  rw [← hheader, List.mem_singleton.mp hp]

theorem Stands.underway (h : r.Stands place a s₁) {l : Listener Deed}
    (hl : s₁.registry.listener? r.listener = some l) :
    ∃ e, r.Underway e s₁ ∧ s₁.registry.listener? r.listener = some ⟨[r.pattern], .oneShot⟩
      ∧ s₁.registry.slot? r.listener = some .fresh := by
  cases h with
  | waits hu hlistener hslot => exact ⟨_, hu, hlistener, hslot⟩
  | has _ hnone => exact absurd (hnone.symm.trans hl) nofun
  | returned hreturned => exact absurd (hreturned.unlistened.symm.trans hl) nofun

theorem Underway.present (hu : r.Underway e s₁) : s₁.task? r.id ≠ none :=
  fun hn => absurd ((exchange?_of_gone hn).symm.trans hu.asks) nofun

theorem Among.awaits {these : ListenerId → Prop} (h : r.Among these) (hr : s.Regular)
    {line : LineId} (hact : acts m = .turn (.reader line)) (hw : s.Within acts m s₁)
    (hm : r.issued < m) (hpresent : s₁.task? r.id ≠ none) (ha : a.header = r.pattern.header)
    {k : ListenerId} (hk : k ∈ s₁.registry.bucket a.header) (hawaits : s₁.registry.Awaits a k) :
    these k := by
  have ho := (hr.trail acts m).orderly
  obtain ⟨l, hl, hmem⟩ := ((hr.within hw).orderly.listening.sound.enlisted a.header k).mp hk
  obtain ⟨l', hl', hone, -⟩ := hawaits
  obtain rfl := Option.some.inj (hl.symm.trans hl')
  have hsteps := hw.1
  rw [hact] at hsteps
  refine h m hm (fun hgone => hpresent ?_) k l (hsteps.listened ho hl) hone (ha ▸ hmem)
  rcases (hw.1.onward ho (r.asking hr hm)).2 with hsame | hlt
  · exact hsame.trans hgone
  · exact absurd hlt (rank_of_gone hgone ▸ Nat.not_lt_zero _)

theorem kept_thenRest {acts : List Act} {r : s.Request (thenRest acts)} (line : LineId)
    {listener : ListenerId} (hdone : (s.run acts).tasks = [])
    (hline : (s.run (acts.take r.issued)).current = some line)
    (hnumber : (s.run (acts.take r.issued)).registry.nextId = listener)
    (hup : ∀ n < acts.length, r.issued ≤ n →
      ((s.run (acts.take n)).line? line).any (fun l => !l.link.closed) = true)
    (hacts : ∀ act ∈ acts, act ≠ .abort r.id ∧ act.handles listener = false
      ∧ act ≠ .start (.wait listener)) : r.Kept ∧ r.listener = listener := by
  have hfresh : (s.trail (thenRest acts) r.issued).task? r.id ≠ none := by
    obtain ⟨_, hfresh⟩ := r.issue.fresh
    exact ne_none_of_task? hfresh
  have hissued := s.trail_thenRest acts (Nat.le_of_lt (lt_of_present hdone hfresh))
  have hlistener : r.listener = listener := by rw [Request.listener, hissued, hnumber]
  have hall := forall_thenRest (P := fun act => act ≠ .abort r.id ∧ act.handles listener = false
    ∧ act ≠ .start (.wait listener)) hacts fun _ => ⟨nofun, rfl, nofun⟩
  refine ⟨⟨fun n hn hpresent line' hline' => ?_, fun n _ => (hall n).1, fun n _ => ?_, fun n => ?_⟩,
    hlistener⟩
  · have hlt := lt_of_present hdone hpresent
    obtain ⟨l, hl, hopen⟩ := (Option.any_eq_true _ _).mp (hup n hlt hn)
    rw [hissued, hline] at hline'
    rw [s.trail_thenRest acts (Nat.le_of_lt hlt), ← Option.some.inj hline']
    exact ⟨l, hl, by simpa using hopen⟩
  · exact hlistener ▸ (hall n).2.1
  · exact hlistener ▸ (hall n).2.2

theorem among_thenRest {acts : List Act} {r : s.Request (thenRest acts)} {these : ListenerId → Prop}
    (hdone : (s.run acts).tasks = [])
    (hthese : ∀ n < acts.length,
      ∀ k ∈ (s.run (acts.take n)).registry.listeners.map (·.1), these k) : r.Among these := by
  intro n _ hpresent k l hl _ _
  have hlt := lt_of_present hdone hpresent
  rw [s.trail_thenRest acts (Nat.le_of_lt hlt)] at hl
  exact hthese n hlt k (List.mem_map.mpr ⟨(k, l), Keyed.mem_of_lookup hl, rfl⟩)

end Request

section

variable {s : Session} {acts : Nat → Act} {ι : Type} {r : ι → s.Request acts} {place : ι → Nat}
  {reply : ι → Command}

structure Replies (r : ι → s.Request acts) (place : ι → Nat) (reply : ι → Command) : Prop where
  offered : ∀ i, s.Logs acts (place i) (.dispatched (reply i))
  header : ∀ i, (reply i).header = (r i).pattern.header
  since : ∀ i, (r i).since ≤ place i
  timely : ∀ i, ∀ q < place i, ¬s.Logs acts q (.finished (r i).id (.failed .timeout))

/-- In every state every command finds the requests in turn, if they stand as they should. -/
def TakeTurns (r : ι → s.Request acts) (place : ι → Nat) (reply : ι → Command) : Prop :=
  ∀ m line s₁ c, acts m = .turn (.reader line) → s.Within acts m s₁ →
    s.Within acts m (s₁.offered c) →
    (∀ j, (r j).issued < m → (r j).Stands (place j) (reply j) s₁) →
    ∀ i, (r i).issued < m →
      s₁.registry.listener? (r i).listener = some ⟨[(r i).pattern], .oneShot⟩ →
      (r i).InTurn (place i) (reply i) c s₁

theorem Replies.step (h : Replies r place reply) (hr : s.Regular) (hidle : ∀ k, s.task? k = none)
    (hkept : ∀ i, (r i).Kept) (hturns : TakeTurns r place reply) {m : Nat} {s₁ s₂ : Session}
    (hw₁ : s.Within acts m s₁) (hw₂ : s.Within acts m s₂) (hs : Step (acts m) s₁ s₂)
    (hstands : ∀ j, (r j).issued ≤ m → (r j).Stands (place j) (reply j) s₁) :
    ∀ j, (r j).issued ≤ m → (r j).Stands (place j) (reply j) s₂ := by
  intro j hj
  rcases (hr.within hw₁).orderly.listening.touch hs with ⟨line, c, hact, rfl⟩ | htouch
  · -- no request is issued in the turn of a reader
    have hbefore : ∀ {i}, (r i).issued ≤ m → (r i).issued < m := fun {i} hi =>
      Nat.lt_of_le_of_ne hi fun heq => by
        have hturn := (r i).issue.turn
        rw [heq, hact] at hturn
        exact absurd hturn nofun
    refine (hstands j hj).offered (hkept j) hr hj hw₁ hw₂ hs (h.offered j) (h.header j) ?_
    exact hturns m line s₁ c hact hw₁ hw₂ (fun i hi => hstands i (Nat.le_of_lt hi)) j (hbefore hj)
  · exact (hstands j hj).unoffered (hkept j) hr hidle hj hw₁ hw₂ hs htouch (h.offered j) (h.timely j)

theorem Replies.steps (h : Replies r place reply) (hr : s.Regular) (hidle : ∀ k, s.task? k = none)
    (hkept : ∀ i, (r i).Kept) (hturns : TakeTurns r place reply) {m : Nat} {s₁ : Session}
    (hw₁ : s.Within acts m s₁)
    (hstands : ∀ j, (r j).issued ≤ m → (r j).Stands (place j) (reply j) s₁) :
    ∀ j, (r j).issued ≤ m → (r j).Stands (place j) (reply j) (s.trail acts (m + 1)) := by
  obtain ⟨hbefore, hafter⟩ := hw₁
  induction hafter using Relation.ReflTransGen.head_induction_on with
  | refl => exact hstands
  | head hone hrest ih =>
    refine ih ?_ (hbefore.tail hone)
    exact h.step hr hidle hkept hturns ⟨hbefore, .head hone hrest⟩ ⟨hbefore.tail hone, hrest⟩ hone
      hstands

theorem Replies.stands (h : Replies r place reply) (hr : s.Regular)
    (hidle : ∀ k, s.task? k = none) (hkept : ∀ i, (r i).Kept)
    (hids : Function.Injective fun i => (r i).id) (hturns : TakeTurns r place reply) (n : Nat) :
    ∀ j, (r j).issued < n → (r j).Stands (place j) (reply j) (s.trail acts n) := by
  induction n with
  | zero => exact fun j hj => absurd hj (Nat.not_lt_zero _)
  | succ n ih =>
    suffices hfirst : ∃ s₁, s.Within acts n s₁
        ∧ ∀ j, (r j).issued ≤ n → (r j).Stands (place j) (reply j) s₁ by
      obtain ⟨s₁, hw₁, hstands⟩ := hfirst
      exact fun j hj => h.steps hr hidle hkept hturns hw₁ hstands j (Nat.le_of_lt_succ hj)
    by_cases hissued : ∃ i, (r i).issued = n
    · -- what is issued in this act waits after its first move, and the others are as before
      obtain ⟨i, rfl⟩ := hissued
      obtain ⟨s₁, hmove, hw₁, hstands⟩ := (hkept i).stands_first (a := reply i) hr (h.since i)
      refine ⟨s₁, hw₁, fun j hj => ?_⟩
      rcases Nat.eq_or_lt_of_le hj with heq | hlt
      · have hturn := (r j).issue.turn
        rw [heq, (r i).issue.turn] at hturn
        obtain rfl : i = j := hids (by simpa using hturn)
        exact hstands
      · have hl := (hr.trail acts (r i).issued).orderly.listening
        have hstep : Step (acts (r i).issued) (s.trail acts (r i).issued) s₁ :=
          .move (r i).issue.turn hmove
        exact (ih j hlt).unoffered (hkept j) hr hidle hj (s.within_start acts _) hw₁ hstep
          (fun id e he => hl.touch_move he (r i).issue.turn hmove) (h.offered j) (h.timely j)
    · refine ⟨_, s.within_start acts n, fun j hj => ih j (Nat.lt_of_le_of_ne hj ?_)⟩
      exact fun heq => hissued ⟨j, heq⟩

/-- Whatever a request returns is its command, and in a fair run it returns it. -/
theorem Replies.returns (h : Replies r place reply) (hr : s.Regular)
    (hidle : ∀ k, s.task? k = none) (hkept : ∀ i, (r i).Kept)
    (hids : Function.Injective fun i => (r i).id) (hturns : TakeTurns r place reply) (i : ι) :
    (∀ q o, s.Logs acts q (.finished (r i).id o) → o = .response (reply i))
      ∧ (s.Fair acts → ∃ q, s.Logs acts q (.finished (r i).id (.response (reply i)))) := by
  have hstands := h.stands hr hidle hkept hids hturns
  constructor
  · rintro q o ⟨n, hq⟩
    have hlater := getElem?_of_longer
      (s.log_trail acts (Nat.le_max_left n ((r i).issued + 1))) hq
    have hmem := List.mem_of_getElem? hlater
    have hgone := ((hr.trail acts _).orderly.ended (r i).id o hmem).2
    cases hstands _ i (Nat.lt_of_succ_le (Nat.le_max_right n _)) with
    | waits hu | has hu => exact absurd hgone hu.present
    | returned hreturned => exact hreturned.only o hmem
  · intro hf
    obtain ⟨n, hn, hgone⟩ := hf.ends hr ((r i).asking hr (Nat.lt_succ_self _))
    cases hstands n i (Nat.lt_of_succ_le hn) with
    | waits hu | has hu => exact absurd hgone hu.present
    | returned hreturned =>
      obtain ⟨q, hq⟩ := List.getElem?_of_mem hreturned.answer
      exact ⟨q, n, hq⟩

end

end NcpHost.Session
