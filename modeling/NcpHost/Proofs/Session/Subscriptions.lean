import NcpHost.Proofs.Registry.Future
import NcpHost.Proofs.Session.Custody

/-! What becomes of listeners and of the hook when a session goes off line. While a reset has the reset
lock nothing does, however the line goes and whoever fails to connect; while no reset has to do with the
lock, all of them are cancelled as soon as the session disconnects or cannot open its device. -/

namespace NcpHost

namespace Registry

variable {κ : Type} {r : Registry κ} {id : ListenerId}

theorem Sound.peek_clear (hr : r.Sound) (h : r.listener? id ≠ none) (hwaits : r.peek id = .pending) :
    r.clear.peek id = .closed := by
  rw [peek_eq] at hwaits ⊢
  rw [hr.slot?_clear]
  cases hs : r.slot? id with
  | none => rfl
  | some slot =>
    rw [hs] at hwaits
    obtain ⟨hcontent, -⟩ := Slot.peek_eq_pending.mp hwaits
    rw [Option.map_some, if_pos (Option.isSome_iff_ne_none.mpr h)]
    exact Slot.peek_eq_closed.mpr ⟨hcontent, rfl⟩

end Registry

namespace Session

section

variable {s : Session} {h : Happening} {line : LineId}

/-- The line of a session goes, or somebody tries to connect: its stream ends or fails, the session
disconnects, or it opens its device or fails to, be it for a reset. -/
inductive Severs (s : Session) : Happening → Prop where
  | report (line : LineId) (cause : Option Fault) : Severs s (.report line cause)
  | late (line : LineId) (cause : Option Fault) : Severs s (.late line cause)
  | reader {line : LineId} {l : Line} : s.line? line = some l →
    l.inbound = [] ∨ l.readFault = true → Severs s (.act (.turn (.reader line)))
  | writer (line : LineId) : Severs s (.act (.turn (.writer line)))
  | disconnect : Severs s (.act .disconnect)
  | connect : Severs s (.act .connect)
  | reset {id : TaskId} {attempt due : Nat} : s.task? id = some (.reconnecting attempt due) →
    Severs s (.act (.turn (.task id)))

/-- Listeners of either kind, what they have received, and the hook are as before, and the hook was
told of nothing. -/
structure Spares (s s' : Session) : Prop where
  registry : s'.registry = s.registry
  hook : s'.hook = s.hook
  hooks : s'.hooks = s.hooks

theorem spares_refl (s : Session) : Spares s s := ⟨rfl, rfl, rfl⟩

theorem Spares.trans {s' s'' : Session} (h : Spares s s') (h' : Spares s' s'') : Spares s s'' :=
  ⟨h'.registry.trans h.registry, h'.hook.trans h.hook, h'.hooks.trans h.hooks⟩

theorem spares_leaveLine (hheld : s.resetLock.isHeld = true) (cause : Option Fault) :
    Spares s (s.leaveLine line cause) := by
  unfold leaveLine
  split
  · exact spares_refl s
  · dsimp only
    split
    · next hfree _ => exact absurd (hheld.symm.trans hfree) nofun
    · exact ⟨rfl, rfl, rfl⟩

theorem spares_loseLine (hheld : s.resetLock.isHeld = true) (cause : Option Fault) :
    Spares s (s.loseLine line cause) := by
  let shut := s.modifyLine line fun l => { l with link := l.link.close }
  have hshut : Spares s shut := ⟨rfl, rfl, rfl⟩
  unfold loseLine
  split
  · exact spares_refl s
  · dsimp only
    split
    · exact hshut.trans (spares_leaveLine (s := shut) hheld cause)
    · exact hshut

theorem spares_closeCurrent (s : Session) : Spares s s.closeCurrent := by
  unfold closeCurrent
  split <;> exact ⟨rfl, rfl, rfl⟩

theorem spares_disconnect (hheld : s.resetLock.isHeld = true) : Spares s s.disconnect := by
  have hclosed := spares_closeCurrent s
  unfold disconnect
  rw [if_pos hheld]
  exact hclosed.trans ⟨rfl, rfl, rfl⟩

theorem spares_connect (hheld : s.resetLock.isHeld = true) : Spares s s.connect.1 := by
  unfold connect
  split
  · exact spares_refl s
  · split
    · exact (spares_closeCurrent s).trans ⟨rfl, rfl, rfl⟩
    · exact (spares_disconnect hheld).trans ⟨rfl, rfl, rfl⟩

theorem spares_endReset (s : Session) (id : TaskId) (outcome : Outcome) :
    Spares s (s.endReset id outcome) :=
  ⟨rfl, rfl, congrArg Outline.hooks (outline_endReset s id outcome)⟩

theorem spares_resumeReconnecting (hheld : s.resetLock.isHeld = true) (id : TaskId)
    (attempt due : Nat) : Spares s (s.resumeReconnecting id attempt due) := by
  have hconnected := spares_connect hheld
  unfold resumeReconnecting
  split
  · exact spares_refl s
  · generalize s.connect = connected at hconnected
    obtain ⟨s₁, result⟩ := connected
    rcases result with cause | _
    · dsimp only
      split
      · exact hconnected.trans (spares_endReset s₁ id _)
      · exact hconnected.trans ⟨rfl, rfl, rfl⟩
    · exact hconnected.trans (spares_endReset s₁ id _)

theorem spares_turnReader {l : Line} (hheld : s.resetLock.isHeld = true)
    (hl : s.line? line = some l) (hends : l.inbound = [] ∨ l.readFault = true) :
    Spares s (s.turnReader line) := by
  have hlost : ∀ cause, Spares s ((s.loseLine line cause).modifyLine line Line.stopReading) :=
    fun cause => (spares_loseLine hheld cause).trans ⟨rfl, rfl, rfl⟩
  unfold turnReader
  rw [hl]
  dsimp only
  split
  · exact spares_refl s
  · split
    · exact ⟨rfl, rfl, rfl⟩
    · split
      · exact hlost _
      · next hreads =>
        have hempty : l.inbound = [] := hends.resolve_right hreads
        rw [if_neg (by simp [hempty])]
        exact hlost none

theorem spares_turnWriter (hheld : s.resetLock.isHeld = true) (line : LineId) :
    Spares s (s.turnWriter line) := by
  unfold turnWriter
  split
  · exact spares_refl s
  · split
    · exact spares_refl s
    · split
      · dsimp only
        split
        · exact (spares_loseLine hheld _).trans ⟨rfl, rfl, rfl⟩
        · exact ⟨rfl, rfl, rfl⟩
      · dsimp only
        split <;> exact ⟨rfl, rfl, rfl⟩

theorem Severs.spares (hsevers : s.Severs h) (hheld : s.resetLock.isHeld = true) :
    Spares s (s.happen h) := by
  cases hsevers with
  | report line cause => exact spares_loseLine hheld cause
  | late line cause =>
    unfold happen
    dsimp only
    split
    · split
      · exact spares_refl s
      · exact spares_leaveLine hheld cause
    · exact spares_refl s
  | reader hl hends => exact spares_turnReader hheld hl hends
  | writer line => exact spares_turnWriter hheld line
  | disconnect => exact spares_disconnect hheld
  | connect =>
    show Spares s (s.perform .connect).1
    rw [perform_connect]
    exact spares_connect hheld
  | @reset id attempt due ht =>
    have hturn : s.turnTask id = s.resumeReconnecting id attempt due := by
      unfold turnTask
      rw [ht]
    show Spares s (s.turnTask id)
    rw [hturn]
    exact spares_resumeReconnecting hheld id attempt due

structure Cleared (s s' : Session) : Prop where
  listeners : s'.registry.listeners = []
  buckets : s'.registry.buckets = []
  cancelled : ∀ k, s.registry.listener? k ≠ none → s.registry.peek k = .pending →
    s'.registry.peek k = .closed
  hook : s'.hook = none

theorem cleared_of_eq {s' : Session} (hr : s.registry.Sound)
    (hregistry : s'.registry = s.registry.clear) (hhook : s'.hook = none) : Cleared s s' := by
  refine ⟨?_, ?_, fun k hk hwaits => ?_, hhook⟩
  · rw [hregistry]
    rfl
  · rw [hregistry]
    rfl
  · rw [hregistry]
    exact hr.peek_clear hk hwaits

theorem cleared_disconnect (hr : s.registry.Sound) (hfree : s.resetLock.isHeld = false) :
    Cleared s s.disconnect := by
  have hclosed := spares_closeCurrent { s with hook := none, registry := s.registry.clear }
  have hdisconnect : s.disconnect
      = { ({ s with hook := none, registry := s.registry.clear } : Session).closeCurrent with
          current := none, fragments := [], state := .disconnected } := by
    unfold disconnect
    rw [if_neg (Bool.eq_false_iff.mp hfree)]
  rw [hdisconnect]
  exact cleared_of_eq hr hclosed.registry hclosed.hook

theorem cleared_connect (hr : s.registry.Sound) (hfree : s.resetLock.isHeld = false)
    (hoff : s.isConnected = false) (hshut : s.deviceOpens = false) : Cleared s s.connect.1 := by
  have hgone := cleared_disconnect hr hfree
  unfold connect
  rw [if_neg (Bool.eq_false_iff.mp hoff), if_neg (Bool.eq_false_iff.mp hshut)]
  exact ⟨hgone.listeners, hgone.buckets, hgone.cancelled, hgone.hook⟩

end

/-- Subscriptions survive resets. No reset gets past the reset lock without it, and one that has it keeps
it to its end. In all this time nothing that takes the line from the session, and no attempt to connect,
be it of this reset or of anybody else, does anything to a listener or to the hook, or tells the hook of
a loss. While no reset has the lock or waits for it, to disconnect, and to connect while the device
cannot be opened, cancels every listener and drops the hook. -/
theorem subscriptions_survive_resets (config : Config) (catalog : Catalog) (deviceOpens : Bool)
    (before : List Happening) :
    let s := (new config catalog deviceOpens).happenAll before
    (∀ id t, s.task? id = some t → t.pastLock? = some true → s.resetLock.holds id = true)
      ∧ (∀ id, s.resetLock.holds id = true →
        (∃ t, s.task? id = some t ∧ t.pastLock? ≠ none)
          ∧ ∀ during, let s' := s.happenAll during
            s'.task? id ≠ none → s'.resetLock.holds id = true
              ∧ ∀ h, s'.Severs h → Spares s' (s'.happen h))
      ∧ ((∀ id t, s.task? id = some t → t.pastLock? = none) →
        Cleared s (s.happen (.act .disconnect))
          ∧ (s.isConnected = false → s.deviceOpens = false →
            Cleared s (s.happen (.act .connect)))) := by
  intro s
  have hs : s.Lawful := (lawful_new config catalog deviceOpens).happenAll before
  refine ⟨fun id t ht hpast => ?_, fun id hh => ⟨?_, ?_⟩, fun hnone => ?_⟩
  · exact beq_iff_eq.mpr (hs.custody.holder id ((custody_of_task? ht).trans hpast))
  · exact hs.resets_of_holder (beq_iff_eq.mp hh)
  · intro during s' hthere
    -- as long as the reset is there it has the lock, which is what guards the subscriptions
    have hkept := hs.keeps_lock (beq_iff_eq.mp hh) during hthere
    refine ⟨beq_iff_eq.mpr hkept, fun h hsevers => hsevers.spares ?_⟩
    rw [FairLock.isHeld, hkept]
    rfl
  · have hsound := hs.regular.orderly.listening.sound
    have hfree := hs.lock_free hnone
    refine ⟨cleared_disconnect hsound hfree, fun hoff hshut => ?_⟩
    show Cleared s (s.perform .connect).1
    rw [perform_connect]
    exact cleared_connect hsound hfree hoff hshut

/-- A reset whose module hangs up before the request is acknowledged: to notice that, and to disconnect
afterwards, spares whoever waits for a command. Where nothing is reset, failing to connect does not. -/
theorem subscriptions_survive_resets_hang_up :
    let tell : Definition := ⟨"Tell", .of .indication 0x77, [], false, none⟩
    let start := new (.forDevice "tty") .empty false
    let idle := start.happenAll [.act (.setHook "lost"), .act (.await [.anyOf tell])]
    let s := start.happenAll [.act (.setHook "lost"), .act (.await [.anyOf tell]), .act .attach,
      .act (.start (.reset .plain true)), .act (.turn (.task 0))]
    let lost := s.happenAll [.act (.hangUp 1)]
    let noticed := s.happenAll [.act (.hangUp 1), .act (.turn (.reader 1))]
    Spares lost (lost.happen (.act (.turn (.reader 1))))
      ∧ Spares noticed (noticed.happen (.act .disconnect))
      ∧ Cleared idle (idle.happen (.act .connect)) := by
  intro tell start idle s lost noticed
  obtain ⟨hpast, hheld, -⟩ := subscriptions_survive_resets (.forDevice "tty") .empty false
    [.act (.setHook "lost"), .act (.await [.anyOf tell]), .act .attach,
      .act (.start (.reset .plain true)), .act (.turn (.task 0))]
  obtain ⟨t, ht, hstage⟩ : ∃ t, s.task? 0 = some t ∧ t.pastLock? = some true :=
    Option.bind_eq_some_iff.mp (by decide +kernel)
  have hspares := (hheld 0 (hpast 0 t ht hstage)).2
  have hthere : lost.task? 0 ≠ none := Option.isSome_iff_ne_none.mp (by decide +kernel)
  have hthere' : noticed.task? 0 ≠ none := Option.isSome_iff_ne_none.mp (by decide +kernel)
  have hends : (lost.line? 1).map (·.inbound) = some [] := by decide +kernel
  obtain ⟨l, hl, hempty⟩ := Option.map_eq_some_iff.mp hends
  obtain ⟨-, -, hfree⟩ := subscriptions_survive_resets (.forDevice "tty") .empty false
    [.act (.setHook "lost"), .act (.await [.anyOf tell])]
  have hidle : idle.tasks.map (·.1) = [] := by decide +kernel
  have hnone : ∀ id t, idle.task? id = some t → t.pastLock? = none := by
    intro id t ht
    rw [task?, List.map_eq_nil_iff.mp hidle] at ht
    exact absurd ht.symm (Option.some_ne_none t)
  refine ⟨?_, ?_, ?_⟩
  · exact (hspares [.act (.hangUp 1)] hthere).2 _ (.reader hl (Or.inl hempty))
  · exact (hspares [.act (.hangUp 1), .act (.turn (.reader 1))] hthere').2 _ .disconnect
  · exact (hfree hnone).2 (by decide +kernel) (by decide +kernel)

end Session

end NcpHost
