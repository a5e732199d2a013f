import NcpHost.Proofs.Session.Change

/-! Runs, and where requests begin in them. The first turn of a task that makes a request registers
the listener for its response, whatever it has to wait for after that. -/

namespace NcpHost.Session

section

variable {s s' : Session} {act : Act} {id : TaskId}

structure Orderly (s : Session) : Prop where
  listening : s.Listening
  ended : ∀ k o, .finished k o ∈ s.log → k < s.nextTask ∧ s.task? k = none

theorem orderly_new (config : Config) (catalog : Catalog) (deviceOpens : Bool) :
    (new config catalog deviceOpens).Orderly :=
  ⟨listening_new config catalog deviceOpens, fun _ _ h => absurd h List.not_mem_nil⟩

theorem Orderly.step (h : s.Orderly) (hs : Step act s s') : s'.Orderly := by
  have hlistening := h.listening.step hs
  refine ⟨hlistening, fun k o hm => ?_⟩
  obtain ⟨new, hlog, hnew⟩ := hs.recorded
  rw [hlog] at hm
  rcases List.mem_append.mp hm with hold | hm
  · obtain ⟨hk, hgone⟩ := h.ended k o hold
    exact hs.gone hk hgone
  · by_cases hk : s.task? k = none ∨ s'.task? k ≠ none
    · exact absurd (hnew k hk _ hm) (by simp [Event.isEndOf])
    · rw [not_or, not_not] at hk
      -- it was there before the step, so that its number is known
      have hknown := h.listening.known k hk.1
      refine ⟨Nat.lt_of_lt_of_le hknown ?_, hk.2⟩
      exact hs.nextTask_le

theorem Orderly.steps (h : s.Orderly) (hs : Steps act s s') : s'.Orderly := by
  induction hs with
  | refl => exact h
  | tail _ hstep ih => exact ih.step hstep

theorem Orderly.perform (h : s.Orderly) (act : Act) : (s.perform act).1.Orderly :=
  h.steps (perform_steps s act)

theorem Orderly.run (h : s.Orderly) (acts : List Act) : (s.run acts).Orderly := by
  induction acts generalizing s with
  | nil => exact h
  | cons act rest ih => exact ih (h.perform act)

theorem lt_length_of_getElem? {α : Type} {xs : List α} {n : Nat} {x : α} (h : xs[n]? = some x) :
    n < xs.length :=
  (List.getElem?_eq_some_iff.mp h).1

theorem getElem?_of_longer {α : Type} {xs ys : List α} (h : xs <+: ys) {n : Nat} {x : α}
    (hx : xs[n]? = some x) : ys[n]? = some x := by
  obtain ⟨zs, rfl⟩ := h
  rwa [List.getElem?_append_left (lt_length_of_getElem? hx)]

theorem steps_log (hs : Steps act s s') : s.log <+: s'.log := by
  induction hs with
  | refl => exact List.prefix_rfl
  | tail _ hstep ih =>
    obtain ⟨new, hlog, -⟩ := hstep.recorded
    exact ih.trans (hlog ▸ List.prefix_append _ _)

/-- An act is the first turn of a task that makes a request for a command, and there is a pattern for
the response, a link and a packet. -/
structure Issue (s : Session) (act : Act) (id : TaskId) (c pattern : Command) : Prop where
  turn : act = .turn (.task id)
  fresh : ∃ timeout, s.task? id = some (.fresh (.request c timeout))
  prepared : ∃ line packet, s.prepare c = .ok (pattern, line, packet)

theorem Issue.first {c pattern : Command} (h : Issue s act id c pattern) :
    ∃ s' t e, Move id s s' ∧ Steps act s' (s.perform act).1
      ∧ s'.registry = (s.registry.await [pattern]).1 ∧ s'.log = s.log
      ∧ s'.task? id = some t ∧ t.exchange? = some e
      ∧ e.purpose = .response ∧ e.listener = s.registry.nextId
      ∧ (∃ packet, s.prepare c = .ok (pattern, e.line, packet))
      ∧ (c.isBlocking = true → s'.blockingLock = s.blockingLock.join id) := by
  obtain ⟨timeout, ht⟩ := h.fresh
  obtain ⟨line, packet, hp⟩ := h.prepared
  obtain ⟨s', hmove, hsteps, hregistry, hlog, t, ht', he, hlock⟩ :=
    startRequest_issue h.turn ht (.request c timeout) hp timeout
  have hperform : (s.perform act).1 = s.startRequest id .response c timeout := by
    rw [h.turn]
    change s.turnTask id = _
    rw [turnTask, ht]
    rfl
  exact ⟨s', t, _, hmove, hperform ▸ hsteps, hregistry, hlog, ht', he, rfl, rfl, ⟨packet, hp⟩,
    hlock⟩

theorem Issue.unique {c pattern c' pattern' : Command} {id' : TaskId}
    (h : Issue s act id c pattern) (h' : Issue s act id' c' pattern') :
    id = id' ∧ c = c' ∧ pattern = pattern' := by
  obtain rfl : id = id' := by simpa using h.turn.symm.trans h'.turn
  obtain ⟨_, ht⟩ := h.fresh
  obtain ⟨_, ht'⟩ := h'.fresh
  obtain ⟨rfl, -⟩ := Job.request.inj (Stage.fresh.inj (Option.some.inj (ht.symm.trans ht')))
  obtain ⟨_, _, hp⟩ := h.prepared
  obtain ⟨_, _, hp'⟩ := h'.prepared
  exact ⟨rfl, rfl, (Prod.mk.inj (Except.ok.inj (hp.symm.trans hp'))).1⟩

end

end NcpHost.Session
