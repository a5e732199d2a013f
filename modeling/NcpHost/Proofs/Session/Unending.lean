import NcpHost.Proofs.Session.Custody
import NcpHost.Proofs.Session.Trail

/-! What happens to a session without end. Such a life is lively if time goes on in it, and if a task that
could do something at every time from some time on gets a turn. A task that others do not touch, and that
every turn of its own would bring nearer to its end, ends in a lively one. A life is prompt if a task that
can go on without time passing gets a turn, and the clock does not move on before. -/

namespace NcpHost.Session

def after (s : Session) (happenings : Nat → Happening) : Nat → Session
  | 0 => s
  | n + 1 => (after s happenings n).happen (happenings n)

/-- Time goes on, and a task gets a turn that could go on from some time on. -/
structure Lively (s : Session) (happenings : Nat → Happening) : Prop where
  turns : ∀ n id, (∀ m ≥ n, (s.after happenings m).turnTask id ≠ s.after happenings m) →
    ∃ m ≥ n, happenings m = .act (.turn (.task id))
  time : ∀ time, ∃ n, time ≤ (s.after happenings n).agenda.now

/-- Whoever can go on without time passing gets a turn, and the clock waits for it. -/
structure Prompt (s : Session) (happenings : Nat → Happening) : Prop where
  turns : ∀ n id, (∀ m ≥ n, Worker.task id ∈ (s.after happenings m).runnable) →
    ∃ m ≥ n, happenings m = .act (.turn (.task id))
  clock : ∀ n id, Worker.task id ∈ (s.after happenings n).runnable →
    (s.after happenings (n + 1)).agenda.now = (s.after happenings n).agenda.now

section

variable {s : Session} {happenings : Nat → Happening} {id : TaskId}

theorem after_act (s : Session) (acts : Nat → Act) (n : Nat) :
    s.after (fun m => .act (acts m)) n = s.trail acts n := by
  induction n with
  | zero => rfl
  | succ n ih => rw [after, ih]; rfl

theorem Fair.lively {acts : Nat → Act} (h : s.Fair acts) : s.Lively fun m => .act (acts m) := by
  refine ⟨fun n id hstuck => ?_, fun time => ?_⟩
  · simp only [after_act] at hstuck
    obtain ⟨m, hm, hact⟩ := h.turns n id hstuck
    exact ⟨m, hm, congrArg Happening.act hact⟩
  · obtain ⟨n, hn⟩ := h.time time
    exact ⟨n, hn.trans_eq (congrArg (·.agenda.now) (s.after_act acts n)).symm⟩

theorem mem_runnable {t : Stage} (ht : s.task? id = some t) (hable : s.canProceed id t = true) :
    Worker.task id ∈ s.runnable :=
  List.mem_append_right _ (List.mem_filterMap.mpr ⟨(id, t), Keyed.mem_of_lookup ht, if_pos hable⟩)

theorem not_runnable_of_tasks (h : s.tasks = []) (id : TaskId) :
    Worker.task id ∉ s.runnable := by
  simp [Session.runnable, h]

theorem prompt_thenRest {acts : List Act} (hdone : (s.run acts).tasks = [])
    (hnow : (s.run acts).agenda.now = s.agenda.now) :
    s.Prompt fun n => .act (thenRest acts n) := by
  have hafter : ∀ n, s.after (fun n => .act (thenRest acts n)) n = s.trail (thenRest acts) n :=
    fun n => s.after_act (thenRest acts) n
  have hrests : ∀ n id, Worker.task id ∈ (s.trail (thenRest acts) n).runnable → n < acts.length := by
    intro n id hid
    refine Nat.lt_of_not_le fun hn => ?_
    obtain ⟨agenda, heq⟩ := s.trail_rest acts hn
    rw [heq] at hid
    exact not_runnable_of_tasks hdone id hid
  have hlast : (s.trail (thenRest acts) acts.length).agenda.now = s.agenda.now := by
    rw [s.trail_thenRest acts (Nat.le_refl _), List.take_length]
    exact hnow
  refine ⟨fun n id hable => ?_, fun n id hid => ?_⟩
  · have hid := hable (max n acts.length) (Nat.le_max_left _ _)
    rw [hafter] at hid
    exact absurd (hrests _ id hid) (Nat.not_lt.mpr (Nat.le_max_right _ _))
  · rw [hafter] at hid
    have hn := hrests n id hid
    have hstays : ∀ m ≤ acts.length, (s.trail (thenRest acts) m).agenda.now = s.agenda.now :=
      fun m hm => Nat.le_antisymm (hlast ▸ s.now_trail (thenRest acts) hm)
        (s.now_trail (thenRest acts) (Nat.zero_le m))
    rw [hafter, hafter, hstays (n + 1) hn, hstays n (Nat.le_of_lt hn)]

theorem Lawful.after (h : s.Lawful) (happenings : Nat → Happening) (n : Nat) :
    (s.after happenings n).Lawful := by
  induction n with
  | zero => exact h
  | succ n ih => exact ih.happen (happenings n)

theorem Lawful.after_steps (h : s.Lawful) (happenings : Nat → Happening) (n : Nat) :
    Steps (happenings n).asAct (s.after happenings n) (s.after happenings (n + 1)) :=
  happen_steps (h.after happenings n).outline (happenings n)

theorem Lawful.now_after (h : s.Lawful) (happenings : Nat → Happening) {m n : Nat} (hle : m ≤ n) :
    (s.after happenings m).agenda.now ≤ (s.after happenings n).agenda.now := by
  induction n, hle using Nat.le_induction with
  | base => exact Nat.le_refl _
  | succ n _ ih => exact Nat.le_trans ih (h.after_steps happenings n).now

theorem Lively.leaves (h : s.Lively happenings) (hs : s.Lawful) (due n : Nat) {t : Option Stage}
    (hstay : ∀ m ≥ n, (s.after happenings m).task? id = t)
    (hturn : ∀ m ≥ n, due ≤ (s.after happenings m).agenda.now →
      ((s.after happenings m).turnTask id).task? id ≠ t) : False := by
  obtain ⟨k, hk⟩ := h.time due
  have hmoves : ∀ m ≥ max k n, ((s.after happenings m).turnTask id).task? id ≠ t := fun m hm =>
    hturn m (Nat.le_trans (Nat.le_max_right k n) hm)
      (Nat.le_trans hk (hs.now_after happenings (Nat.le_trans (Nat.le_max_left k n) hm)))
  have hstays : ∀ m ≥ max k n, (s.after happenings m).task? id = t := fun m hm =>
    hstay m (Nat.le_trans (Nat.le_max_right k n) hm)
  obtain ⟨m, hm, hact⟩ := h.turns (max k n) id fun m hm heq =>
    hmoves m hm ((congrArg (·.task? id) heq).trans (hstays m hm))
  have hnext := hstays (m + 1) (Nat.le_succ_of_le hm)
  have hhappened : s.after happenings (m + 1) = (s.after happenings m).happen (happenings m) := rfl
  rw [hhappened, hact] at hnext
  exact hmoves m hm hnext

end

end NcpHost.Session
