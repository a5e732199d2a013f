import NcpHost.Session.Run

/-!
What can be done to a session from outside, and to its lines from their far ends, one act at a time,
and the runs that come of it. Time passes and workers take turns by acts too, in any order; `settle`
and `advance` are the orderly way to choose them.
-/

namespace NcpHost.Session

def arrive (s : Session) (line : LineId) (bytes : List UInt8) : Session :=
  s.modifyLine line fun l => if l.isOpen then { l with inbound := l.inbound ++ bytes } else l

def isOpen (s : Session) (line : LineId) : Bool := ((s.line? line).map Line.isOpen).getD false

/-- Gives up a task, wherever it is: it leaves the line for every lock, its listener goes, and
nothing is reported. The acknowledgement of a frame that it has written stays awaited. -/
def abort (s : Session) (id : TaskId) : Session :=
  match s.task? id with
  | none => s
  | some t =>
    let s := match t.line? with
      | some line => s.modifyLine line fun l => { l with link := l.link.abort id }
      | none => s
    let s := { s with
      blockingLock := s.blockingLock.leave id
      resetLock := s.resetLock.leave id }
    let s := match t.listener? with
      | some listener => { s with registry := s.registry.release listener }
      | none => s
    s.dropTask id

def await (s : Session) (patterns : List Command) : Except Fault (Session × ListenerId) :=
  if patterns.isEmpty then .error (.request .noResponsePattern)
  else
    let (registry, listener) := s.registry.await patterns
    .ok ({ s with registry := registry }, listener)

def subscribe (s : Session) (patterns : List Command) (callback : Callback Deed) :
    Except Fault (Session × ListenerId) :=
  if patterns.isEmpty then .error (.request .noIndicationPattern)
  else
    let (registry, listener) := s.registry.subscribe patterns callback
    .ok ({ s with registry := registry }, listener)

inductive Act where
  | attach
  | connect
  | disconnect
  | setHook (name : String)
  | takeTsn
  | start (job : Job)
  | abort (id : TaskId)
  | await (patterns : List Command)
  | subscribe (patterns : List Command) (callback : Callback Deed)
  | remove (listener : ListenerId)
  | cancel (listener : ListenerId)
  | release (listener : ListenerId)
  | arrive (line : LineId) (bytes : List UInt8)
  | hangUp (line : LineId)
  | breakReading (line : LineId)
  | breakWriting (line : LineId)
  | elapse (time : Nat)
  /-- Others are ready to take turns, or in another order. -/
  | queue (ready : List Worker)
  | turn (worker : Worker)
  deriving Repr

inductive Reply where
  | nothing
  | connected
  | refused (cause : Fault)
  | line (id : LineId)
  | task (id : TaskId)
  | listener (id : ListenerId)
  | tsn (n : UInt8)
  deriving Repr

def replyListener (s : Session) : Except Fault (Session × ListenerId) → Session × Reply
  | .ok (s, id) => (s, .listener id)
  | .error cause => (s, .refused cause)

def perform (s : Session) : Act → Session × Reply
  | .attach => let (s, id) := s.attach; (s, .line id)
  | .connect =>
    match s.connect with
    | (s, .ok ()) => (s, .connected)
    | (s, .error cause) => (s, .refused cause)
  | .disconnect => (s.disconnect, .nothing)
  | .setHook name => ({ s with hook := some name }, .nothing)
  | .takeTsn => let (s, n) := s.takeTsn; (s, .tsn n)
  | .start job => let (s, id) := s.spawn job; (s, .task id)
  | .abort id => (s.abort id, .nothing)
  | .await patterns => s.replyListener (s.await patterns)
  | .subscribe patterns callback => s.replyListener (s.subscribe patterns callback)
  | .remove listener => ({ s with registry := s.registry.unregister listener }, .nothing)
  | .cancel listener => ({ s with registry := s.registry.cancel listener }, .nothing)
  | .release listener => ({ s with registry := s.registry.release listener }, .nothing)
  | .arrive line bytes => (s.arrive line bytes, .nothing)
  | .hangUp line => (s.modifyLine line fun l => { l with hungUp := true }, .nothing)
  | .breakReading line => (s.modifyLine line fun l => { l with readFault := true }, .nothing)
  | .breakWriting line => (s.modifyLine line fun l => { l with writeFault := true }, .nothing)
  | .elapse time => ({ s with agenda := s.agenda.elapse time }, .nothing)
  | .queue ready => ({ s with agenda := { s.agenda with ready := ready } }, .nothing)
  | .turn worker => (s.turn worker, .nothing)

def run (s : Session) (acts : List Act) : Session := acts.foldl (fun s act => (s.perform act).1) s

@[simp] theorem run_nil (s : Session) : s.run [] = s := rfl

@[simp] theorem run_cons (s : Session) (act : Act) (acts : List Act) :
    s.run (act :: acts) = (s.perform act).1.run acts := rfl

theorem run_append (s : Session) (before after : List Act) :
    s.run (before ++ after) = (s.run before).run after := by
  simp [run, List.foldl_append]

/-- Nobody from outside has a part in it. -/
def Act.isInner : Act → Bool
  | .elapse _ | .queue _ | .turn _ => true
  | _ => false

theorem settleWithin_eq_run (s : Session) (fuel : Nat) :
    ∃ acts, (∀ act ∈ acts, act.isInner = true) ∧ s.settleWithin fuel = s.run acts := by
  induction fuel generalizing s with
  | zero => exact ⟨[], fun _ h => absurd h List.not_mem_nil, rfl⟩
  | succ fuel ih =>
    obtain ⟨ready, hwoken⟩ := s.agenda.wakeAll_eq s.runnable
    rw [settleWithin, wakeRunnable, hwoken]
    cases ready with
    | nil => exact ⟨[.queue []], by simp [Act.isInner], rfl⟩
    | cons w rest =>
      obtain ⟨acts, hinner, hacts⟩ :=
        ih ({ s with agenda := { s.agenda with ready := rest } }.turn w)
      exact ⟨.queue rest :: .turn w :: acts, by simpa [Act.isInner] using hinner, hacts⟩

/-- To give turns until nobody can go on is a run. -/
theorem settle_eq_run (s : Session) :
    ∃ acts, (∀ act ∈ acts, act.isInner = true) ∧ s.settle = s.run acts :=
  s.settleWithin_eq_run s.turns

theorem settle_elapse_eq_run (s : Session) (time : Nat) :
    ∃ acts, (∀ act ∈ acts, act.isInner = true)
      ∧ { s with agenda := s.agenda.elapse time }.settle = s.run acts := by
  obtain ⟨acts, hinner, hacts⟩ := settle_eq_run { s with agenda := s.agenda.elapse time }
  exact ⟨.elapse time :: acts, by simpa [Act.isInner] using hinner, hacts⟩

theorem advanceWithin_eq_run (s : Session) (target fuel : Nat) :
    ∃ acts, (∀ act ∈ acts, act.isInner = true) ∧ s.advanceWithin target fuel = s.run acts := by
  induction fuel generalizing s with
  | zero => exact s.settle_elapse_eq_run target
  | succ fuel ih =>
    rw [advanceWithin]
    split
    · exact ⟨[.elapse target], by simp [Act.isInner], rfl⟩
    · next due _ =>
      split
      · exact ⟨[.elapse target], by simp [Act.isInner], rfl⟩
      · obtain ⟨first, hfirst, heq⟩ := s.settle_elapse_eq_run due
        obtain ⟨acts, hinner, hacts⟩ := ih (s.run first)
        refine ⟨first ++ acts, List.forall_mem_append.mpr ⟨hfirst, hinner⟩, ?_⟩
        rw [run_append, ← hacts, ← heq]

/-- To let time pass is a run. -/
theorem advance_eq_run (s : Session) (ms : Nat) :
    ∃ acts, (∀ act ∈ acts, act.isInner = true) ∧ s.advance ms = s.run acts :=
  s.advanceWithin_eq_run (s.agenda.now + ms) s.turns

def takePassed (s : Session) (line : LineId) : Session × List UInt8 :=
  (s.modifyLine line fun l => { l with passed := [] },
    ((s.line? line).map (·.passed)).getD [])

def takeLog (s : Session) : Session × List Event := ({ s with log := [] }, s.log)

end NcpHost.Session
