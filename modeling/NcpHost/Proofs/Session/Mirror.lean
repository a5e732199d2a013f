import NcpHost.Proofs.Frame.Acknowledgement
import NcpHost.Proofs.Link.Queue
import NcpHost.Session.Run

/-! A session as its line sees it. As long as nothing is given up and nothing goes away, every turn of
a request is a few moves of this one request, and the others stay where they are; all that happens
otherwise leaves the line alone. -/

namespace NcpHost.Session

open Wire

def Event.sent? : Event → Option (TaskId × List UInt8)
  | .sent id _ bytes => some (id, bytes)
  | _ => none

def written (s : Session) : List (TaskId × List UInt8) := s.log.filterMap Event.sent?

def packetOf? (c : Command) : Option Packet :=
  if c.kind = .request then
    match c.responsePattern, c.toPacket with
    | .ok _, .ok p => some p
    | _, _ => none
  else none

def fragmentsOf (c : Command) : List Frame :=
  match packetOf? c with
  | some p => Fragment.split p Frame.bodyLimit
  | none => []

/-- Where a task stands, by how far it has come. A version query is no request before its first turn.
Tasks that are no requests owe nothing, and there are no resets. -/
def Placed (w : Wire) (id : TaskId) : Stage → Prop
  | .fresh (.request c _) => id ∉ w.schedule ∧ w.owed id = fragmentsOf c
  | .fresh .version => id ∉ w.ids ∧ id ∉ w.line
  | .gated e unsent => e.line = 1 ∧ id ∉ w.schedule ∧ w.owed id = unsent
  | .sending e unsent => e.line = 1 ∧ id ∈ w.line ∧ w.behind id = unsent
  | .fresh (.reset _ _) | .resetGated _ _ | .resetSending _ _ _ | .resetWaiting _ _
  | .reconnecting _ _ => False
  | _ => id ∉ w.line ∧ w.owed id = []

theorem Placed.congr {w w' : Wire} {id : TaskId} (h : SamePlace id w w') {t : Stage}
    (hp : Placed w id t) : Placed w' id t := by
  have hids := h.ids
  have hline := h.line
  have hschedule := h.schedule
  have howed := h.owed
  have hbehind := h.behind
  unfold Placed at hp ⊢
  split <;> simp_all

def Line.stream (l : Line) : List UInt8 := l.passed ++ l.link.outgoing.flatten

structure Line.Follows (l : Line) (w : Wire) : Prop where
  up : l.hungUp = false
  reads : l.readFault = false
  writes : l.writeFault = false
  queue : l.link.Queue w
  carries : Frame.Carries (w.sent.map (·.2)) l.stream

/-- The session and its line agree; the task `busy` has its turn and is about to be put in its new
place. -/
structure Mirrors (busy : Option TaskId) (s : Session) (w : Wire) : Prop where
  sound : w.Sound
  current : s.current = some 1
  line : ∃ l, s.lines = [(1, l)] ∧ l.Follows w
  written : s.written = w.sent
  keys : (s.tasks.map (·.1)).Nodup
  recent : ∀ id ∈ s.tasks.map (·.1), id < s.nextTask
  known : ∀ id ∈ w.ids, id < s.nextTask
  present : ∀ id, busy = some id → id ∈ s.tasks.map (·.1)
  placed : ∀ e ∈ s.tasks, busy ≠ some e.1 → Placed w e.1 e.2
  gone : ∀ id, id ∉ s.tasks.map (·.1) → id ∉ w.line ∧ w.owed id = []

structure Alike (s s' : Session) : Prop where
  current : s'.current = s.current
  lines : s'.lines = s.lines
  written : s'.written = s.written
  tasks : s'.tasks = s.tasks
  nextTask : s'.nextTask = s.nextTask

theorem Alike.trans {s s' s'' : Session} (h : Alike s s') (h' : Alike s' s'') : Alike s s'' :=
  ⟨h'.current.trans h.current, h'.lines.trans h.lines, h'.written.trans h.written,
    h'.tasks.trans h.tasks, h'.nextTask.trans h.nextTask⟩

theorem record_alike (s : Session) {e : Event} (h : e.sent? = none) : Alike s (s.record e) :=
  ⟨rfl, rfl, by simp [Session.written, record, h], rfl, rfl⟩

section

variable {busy : Option TaskId} {s s' : Session} {w : Wire}

theorem Mirrors.alike (h : Mirrors busy s w) (ha : Alike s s') : Mirrors busy s' w where
  sound := h.sound
  current := ha.current.trans h.current
  line := by
    rw [ha.lines]
    exact h.line
  written := ha.written.trans h.written
  keys := ha.tasks ▸ h.keys
  recent := by
    rw [ha.tasks, ha.nextTask]
    exact h.recent
  known := by
    rw [ha.nextTask]
    exact h.known
  present := ha.tasks ▸ h.present
  placed := ha.tasks ▸ h.placed
  gone := ha.tasks ▸ h.gone

theorem Mirrors.modifyLine (h : Mirrors busy s w) {id : LineId} {f : Line → Line}
    (hf : ∀ l, s.line? id = some l → l.Follows w → (f l).Follows w) :
    Mirrors busy (s.modifyLine id f) w := by
  obtain ⟨l, hl, hfollows⟩ := h.line
  refine ⟨h.sound, h.current, ?_, h.written, h.keys, h.recent, h.known, h.present, h.placed, h.gone⟩
  by_cases hid : (1 : LineId) = id
  · have hline : s.line? id = some l := by simp [line?, hl, ← hid]
    exact ⟨f l, by simp [Session.modifyLine, hl, hid], hf l hline hfollows⟩
  · exact ⟨l, by simp [Session.modifyLine, hl, hid], hfollows⟩

theorem Mirrors.follows (h : Mirrors busy s w) {id : LineId} {l : Line} (hl : s.line? id = some l) :
    id = 1 ∧ l.Follows w := by
  obtain ⟨l', hlines, hfollows⟩ := h.line
  rw [line?, hlines, List.lookup_cons] at hl
  cases hid : id == 1 with
  | true =>
    rw [hid] at hl
    exact ⟨beq_iff_eq.mp hid, Option.some.inj hl ▸ hfollows⟩
  | false =>
    rw [hid] at hl
    exact absurd hl nofun

theorem mem_tasks {id : TaskId} {t : Stage} (h : s.task? id = some t) : (id, t) ∈ s.tasks := by
  unfold task? at h
  revert h
  induction s.tasks with
  | nil => exact nofun
  | cons e rest ih =>
    obtain ⟨k, t'⟩ := e
    rw [List.lookup_cons]
    by_cases hk : id = k
    · subst hk
      rw [beq_self_eq_true]
      intro h
      exact Option.some.inj h ▸ List.mem_cons_self
    · rw [beq_false_of_ne hk]
      exact fun h => List.mem_cons_of_mem _ (ih h)

theorem Mirrors.begin (h : Mirrors none s w) {id : TaskId} {t : Stage} (ht : s.task? id = some t) :
    Mirrors (some id) s w ∧ Placed w id t := by
  have hm := mem_tasks ht
  refine ⟨⟨h.sound, h.current, h.line, h.written, h.keys, h.recent, h.known, ?_, ?_, h.gone⟩,
    h.placed _ hm nofun⟩
  · intro k hk
    obtain rfl := Option.some.inj hk
    exact List.mem_map_of_mem hm
  · exact fun e he _ => h.placed e he nofun

theorem Mirrors.suspend {id : TaskId} (h : Mirrors (some id) s w) {t : Stage}
    (ht : Placed w id t) : Mirrors none (s.suspend id t) w := by
  have hkeys : (s.suspend id t).tasks.map (·.1) = s.tasks.map (·.1) := by
    rw [Session.suspend, List.map_map]
    refine List.map_congr_left fun e _ => ?_
    dsimp only [Function.comp]
    split <;> rfl
  refine ⟨h.sound, h.current, h.line, h.written, hkeys ▸ h.keys, ?_, h.known, nofun, ?_, ?_⟩
  · rw [hkeys]
    exact h.recent
  · intro e he _
    obtain ⟨⟨k, old⟩, hold, rfl⟩ := List.mem_map.mp he
    dsimp only
    by_cases hid : k = id
    · rw [if_pos hid]
      exact hid ▸ ht
    · rw [if_neg hid]
      exact h.placed (k, old) hold fun e => hid (Option.some.inj e).symm
  · rw [hkeys]
    exact h.gone

theorem Mirrors.dropTask {id : TaskId} (h : Mirrors (some id) s w) (hline : id ∉ w.line)
    (howed : w.owed id = []) : Mirrors none (s.dropTask id) w := by
  have hsub : (s.dropTask id).tasks.Sublist s.tasks := List.filter_sublist
  refine ⟨h.sound, h.current, h.line, h.written, (hsub.map _).nodup h.keys, ?_, h.known, nofun, ?_,
    ?_⟩
  · exact fun k hk => h.recent k ((hsub.map _).subset hk)
  · intro e he _
    have hne : e.1 ≠ id := bne_iff_ne.mp (List.mem_filter.mp he).2
    exact h.placed e (hsub.subset he) fun heq => hne (Option.some.inj heq).symm
  · intro k hk
    by_cases hkid : k = id
    · exact hkid ▸ ⟨hline, howed⟩
    · refine h.gone k fun hm => hk ?_
      obtain ⟨e, he, rfl⟩ := List.mem_map.mp hm
      exact List.mem_map_of_mem (List.mem_filter.mpr ⟨he, bne_iff_ne.mpr hkid⟩)

theorem Mirrors.finish {id : TaskId} (h : Mirrors (some id) s w) (hline : id ∉ w.line)
    (howed : w.owed id = []) (outcome : Outcome) : Mirrors none (s.finish id outcome) w :=
  (h.dropTask hline howed).alike (record_alike _ rfl)

end

end NcpHost.Session
