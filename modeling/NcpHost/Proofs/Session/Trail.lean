import Mathlib.Data.Nat.Find
import Mathlib.Data.Nat.Init
import NcpHost.Proofs.Session.Gate

/-! Runs without end. A run is fair if time goes on in it, and if a task that could do something at
every time from some time on gets a turn. Whatever holds at the start of some act, and is kept by each
small step of the acts from there on, holds from there on. -/

namespace NcpHost.Session

def trail (s : Session) (acts : Nat → Act) : Nat → Session
  | 0 => s
  | n + 1 => ((trail s acts n).perform (acts n)).1

def Logs (s : Session) (acts : Nat → Act) (place : Nat) (e : Event) : Prop :=
  ∃ n, (s.trail acts n).log[place]? = some e

/-- Time goes on, and a task gets a turn that could go on from some time on. -/
structure Fair (s : Session) (acts : Nat → Act) : Prop where
  turns : ∀ n id, (∀ m ≥ n, (s.trail acts m).turnTask id ≠ s.trail acts m) →
    ∃ m ≥ n, acts m = .turn (.task id)
  time : ∀ time, ∃ n, time ≤ (s.trail acts n).agenda.now

def Within (s : Session) (acts : Nat → Act) (n : Nat) (s' : Session) : Prop :=
  Steps (acts n) (s.trail acts n) s' ∧ Steps (acts n) s' (s.trail acts (n + 1))

section

variable {s : Session} {acts : Nat → Act} {act : Act} {id : TaskId}

theorem trail_steps (s : Session) (acts : Nat → Act) (n : Nat) :
    Steps (acts n) (s.trail acts n) (s.trail acts (n + 1)) :=
  perform_steps _ _

theorem within_start (s : Session) (acts : Nat → Act) (n : Nat) :
    s.Within acts n (s.trail acts n) :=
  ⟨.refl, s.trail_steps acts n⟩

theorem trail_eq_run (s : Session) (acts : Nat → Act) (n : Nat) :
    s.trail acts n = s.run ((List.range n).map acts) := by
  induction n with
  | zero => rfl
  | succ n ih =>
    rw [List.range_succ, List.map_append, run_append, ← ih]
    rfl

theorem Regular.trail (h : s.Regular) (acts : Nat → Act) (n : Nat) : (s.trail acts n).Regular := by
  induction n with
  | zero => exact h
  | succ n ih => exact ih.steps (s.trail_steps acts n)

theorem Regular.within (h : s.Regular) {n : Nat} {s' : Session} (hw : s.Within acts n s') :
    s'.Regular :=
  (h.trail acts n).steps hw.1

theorem trail_of_steps {P : Session → Prop} {n : Nat} {s₀ : Session} (hs₀ : s.Within acts n s₀)
    (h₀ : P s₀) (hstep : ∀ m ≥ n, ∀ s₁ s₂, s.Within acts m s₁ → s.Within acts m s₂ →
      Step (acts m) s₁ s₂ → P s₁ → P s₂) :
    ∀ m > n, P (s.trail acts m) := by
  have hact : ∀ m ≥ n, ∀ s₁, s.Within acts m s₁ → P s₁ → P (s.trail acts (m + 1)) := by
    rintro m hm s₁ ⟨hbefore, hafter⟩ h₁
    induction hafter using Relation.ReflTransGen.head_induction_on with
    | refl => exact h₁
    | head hone hrest ih =>
      refine ih (hbefore.tail hone) ?_
      exact hstep m hm _ _ ⟨hbefore, .head hone hrest⟩ ⟨hbefore.tail hone, hrest⟩ hone h₁
  intro m hm
  induction m, hm using Nat.le_induction with
  | base => exact hact n (Nat.le_refl n) s₀ hs₀ h₀
  | succ m hm ih => exact hact m (Nat.le_of_succ_le hm) _ (s.within_start acts m) ih

theorem log_trail (s : Session) (acts : Nat → Act) {m n : Nat} (h : m ≤ n) :
    (s.trail acts m).log <+: (s.trail acts n).log := by
  induction n, h using Nat.le_induction with
  | base => exact List.prefix_rfl
  | succ n _ ih => exact ih.trans (steps_log (s.trail_steps acts n))

theorem Within.log {n : Nat} {s' : Session} (h : s.Within acts n s') :
    s'.log <+: (s.trail acts (n + 1)).log :=
  steps_log h.2

theorem Within.logs {n place : Nat} {s' : Session} {e : Event} (h : s.Within acts n s')
    (he : s'.log[place]? = some e) : s.Logs acts place e :=
  ⟨n + 1, getElem?_of_longer h.log he⟩

theorem Logs.unique {place : Nat} {e e' : Event} (h : s.Logs acts place e)
    (h' : s.Logs acts place e') : e = e' := by
  obtain ⟨m, hm⟩ := h
  obtain ⟨n, hn⟩ := h'
  have hm' := getElem?_of_longer (s.log_trail acts (Nat.le_max_left m n)) hm
  have hn' := getElem?_of_longer (s.log_trail acts (Nat.le_max_right m n)) hn
  exact Option.some.inj (hm'.symm.trans hn')

theorem Logs.getElem? {place n : Nat} {s' : Session} {e : Event} (h : s.Logs acts place e)
    (hw : s.Within acts n s') (hlt : place < s'.log.length) : s'.log[place]? = some e := by
  obtain ⟨e', he'⟩ : ∃ e', s'.log[place]? = some e' := ⟨_, List.getElem?_eq_getElem hlt⟩
  exact he'.trans (congrArg some ((hw.logs he').unique h))

theorem now_trail (s : Session) (acts : Nat → Act) {m n : Nat} (h : m ≤ n) :
    (s.trail acts m).agenda.now ≤ (s.trail acts n).agenda.now := by
  induction n, h using Nat.le_induction with
  | base => exact Nat.le_refl _
  | succ n _ ih => exact Nat.le_trans ih (s.trail_steps acts n).now

theorem Fair.past (h : s.Fair acts) (time n : Nat) :
    ∃ m ≥ n, ∀ k ≥ m, time ≤ (s.trail acts k).agenda.now := by
  obtain ⟨m, hm⟩ := h.time time
  refine ⟨max m n, Nat.le_max_right m n, fun k hk => Nat.le_trans hm ?_⟩
  exact s.now_trail acts (Nat.le_trans (Nat.le_max_left m n) hk)

theorem Fair.stops (h : s.Fair acts) (id : TaskId) (n : Nat) {P : Session → Prop}
    (hstay : ∀ m ≥ n, P (s.trail acts m))
    (hturn : ∀ m ≥ n, ¬P ((s.trail acts m).turnTask id)) : False := by
  obtain ⟨m, hm, hact⟩ := h.turns n id fun m hm heq => hturn m hm (heq.symm ▸ hstay m hm)
  have hnext := hstay (m + 1) (Nat.le_succ_of_le hm)
  have hperformed : s.trail acts (m + 1) = ((s.trail acts m).perform (acts m)).1 := rfl
  rw [hperformed, hact] at hnext
  exact hturn m hm hnext

theorem settles {α : Type} (f : Nat → α) (size : α → Nat) (n : Nat)
    (h : ∀ m ≥ n, f (m + 1) = f m ∨ size (f (m + 1)) < size (f m)) :
    ∃ k ≥ n, ∀ m ≥ k, f m = f k := by
  induction hsize : size (f n) using Nat.strong_induction_on generalizing n with
  | _ size₀ ih =>
    subst hsize
    by_cases hstay : ∀ m ≥ n, f (m + 1) = f m
    · refine ⟨n, Nat.le_refl n, fun m hm => ?_⟩
      induction m, hm using Nat.le_induction with
      | base => rfl
      | succ m hm ih => exact (hstay m hm).trans ih
    · -- it gets smaller at the first place where it changes
      classical
      have hex : ∃ m, n ≤ m ∧ f (m + 1) ≠ f m := by
        push Not at hstay
        exact hstay
      obtain ⟨hn, hne⟩ := Nat.find_spec hex
      have hsame : ∀ m ≥ n, m ≤ Nat.find hex → f m = f n := by
        intro m hm
        induction m, hm using Nat.le_induction with
        | base => exact fun _ => rfl
        | succ m hm ih =>
          intro hle
          have hbefore := Nat.find_min hex hle
          exact (not_not.mp fun hchange => hbefore ⟨hm, hchange⟩).trans (ih (Nat.le_of_succ_le hle))
      have hlt := (h (Nat.find hex) hn).resolve_left hne
      rw [hsame (Nat.find hex) hn (Nat.le_refl _)] at hlt
      obtain ⟨k, hk, hstays⟩ := ih _ hlt (Nat.find hex + 1)
        (fun m hm => h m (Nat.le_trans (Nat.le_succ_of_le hn) hm)) rfl
      exact ⟨k, Nat.le_trans (Nat.le_succ_of_le hn) hk, hstays⟩

/-- These acts, and then nothing but that time goes on. -/
def thenRest (acts : List Act) (n : Nat) : Act := acts[n]?.getD (.elapse n)

theorem forall_thenRest {P : Act → Prop} {acts : List Act} (h : ∀ act ∈ acts, P act)
    (hrest : ∀ n, P (.elapse n)) (n : Nat) : P (thenRest acts n) := by
  rw [thenRest]
  cases hn : acts[n]? with
  | none => exact hrest n
  | some act => exact h act (List.mem_of_getElem? hn)

theorem trail_thenRest (s : Session) (acts : List Act) {n : Nat} (hn : n ≤ acts.length) :
    s.trail (thenRest acts) n = s.run (acts.take n) := by
  rw [trail_eq_run]
  refine congrArg s.run (List.ext_getElem? fun k => ?_)
  rw [List.getElem?_map, List.getElem?_take]
  by_cases hk : k < n
  · rw [List.getElem?_range hk, if_pos hk, List.getElem?_eq_getElem (Nat.lt_of_lt_of_le hk hn),
      Option.map_some, thenRest, List.getElem?_eq_getElem (Nat.lt_of_lt_of_le hk hn)]
    rfl
  · rw [if_neg hk, List.getElem?_eq_none (by simpa using hk)]
    rfl

theorem trail_rest (s : Session) (acts : List Act) {n : Nat} (hn : acts.length ≤ n) :
    ∃ agenda, s.trail (thenRest acts) n = { s.run acts with agenda := agenda } := by
  induction n, hn using Nat.le_induction with
  | base =>
    refine ⟨(s.run acts).agenda, ?_⟩
    rw [s.trail_thenRest acts (Nat.le_refl _), List.take_length]
  | succ n hn ih =>
    obtain ⟨agenda, ih⟩ := ih
    have hact : thenRest acts n = .elapse n := by
      rw [thenRest, List.getElem?_eq_none hn]
      rfl
    exact ⟨agenda.elapse n, by rw [trail, ih, hact]; rfl⟩

theorem logs_thenRest {acts : List Act} {place : Nat} {e : Event} :
    s.Logs (thenRest acts) place e ↔ (s.run acts).log[place]? = some e := by
  have hend : (s.trail (thenRest acts) acts.length).log = (s.run acts).log := by
    rw [s.trail_thenRest acts (Nat.le_refl _), List.take_length]
  constructor
  · rintro ⟨n, hn⟩
    have hlater := getElem?_of_longer
      (s.log_trail (thenRest acts) (Nat.le_max_left n acts.length)) hn
    obtain ⟨agenda, heq⟩ := s.trail_rest acts (Nat.le_max_right n acts.length)
    rwa [heq] at hlater
  · exact fun h => ⟨acts.length, hend ▸ h⟩

theorem lt_of_present {acts : List Act} (h : (s.run acts).tasks = []) {n : Nat}
    (hpresent : (s.trail (thenRest acts) n).task? id ≠ none) : n < acts.length := by
  refine Nat.lt_of_not_le fun hn => hpresent ?_
  obtain ⟨agenda, heq⟩ := s.trail_rest acts hn
  rw [heq, task?, h]
  rfl

theorem fair_thenRest {acts : List Act} (h : (s.run acts).tasks = []) : s.Fair (thenRest acts) := by
  refine ⟨fun n id hstuck => ?_, fun time => ?_⟩
  · obtain ⟨agenda, heq⟩ := s.trail_rest acts (Nat.le_max_right n acts.length)
    refine absurd ?_ (hstuck _ (Nat.le_max_left n acts.length))
    rw [heq, turnTask, task?, h]
    rfl
  · refine ⟨max time acts.length + 1, ?_⟩
    have hact : thenRest acts (max time acts.length) = .elapse (max time acts.length) := by
      rw [thenRest, List.getElem?_eq_none (Nat.le_max_right _ _)]
      rfl
    rw [trail, hact]
    change time ≤ (Agenda.wakeAll _ _).now
    rw [now_wakeAll]
    exact Nat.le_trans (Nat.le_max_left _ _) (Nat.le_max_right _ _)

end

end NcpHost.Session
