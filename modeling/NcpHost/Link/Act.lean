import NcpHost.Link.Senders

/-!
What can be done to a link with its senders, one act at a time and in any order, and what there is to
see of each act. The orderly ways to act, which give turns until nobody can go on, are runs of acts.
-/

namespace NcpHost

namespace Link

def expects (l : Link) (frame : Frame) : Bool :=
  frame.isAck && frame.header.flags.ackSeq == l.packetSeq

/-- How many of some frames are the acknowledgement that the link expects when they arrive. -/
def expected (l : Link) : List Frame → Nat
  | [] => 0
  | frame :: rest => (if l.expects frame then 1 else 0) + (l.accept frame).1.expected rest

end Link

namespace Senders

inductive Act where
  | send (frame : Frame)
  | turn (id : TaskId)
  | abort (id : TaskId)
  | arrive (bytes : List UInt8)
  | lose (cause : Option Fault)
  | close
  | dropOutlet
  | elapse (time : Nat)
  | wake
  | look
  deriving Repr

def perform (s : Senders) : Act → Senders
  | .send frame => { s with link := s.link.enter s.nextId frame, nextId := s.nextId + 1 }
  | .turn id => { s with agenda := { s.agenda with ready := s.agenda.ready.erase id } }.turn id
  | .abort id => { s with link := s.link.abort id, agenda := s.agenda.dropTimer id }
  | .arrive bytes =>
    let (link, frames) := s.link.receive bytes
    { s with link := link }.record (frames.map .delivered)
  | .lose cause =>
    { s with link := s.link.close }.record (if s.link.inUse then [.lost cause] else [])
  | .close => { s with link := s.link.close }
  | .dropOutlet => { s with link := s.link.dropOutlet }
  | .elapse time => { s with agenda := s.agenda.elapse time }
  | .wake => s.wakeReady
  | .look => s.look.1

def run (s : Senders) (acts : List Act) : Senders := acts.foldl perform s

@[simp] theorem run_nil (s : Senders) : s.run [] = s := rfl

@[simp] theorem run_cons (s : Senders) (act : Act) (acts : List Act) :
    s.run (act :: acts) = (s.perform act).run acts := rfl

theorem run_append (s : Senders) (before after : List Act) :
    s.run (before ++ after) = (s.run before).run after := by
  simp [run, List.foldl_append]

inductive Incident where
  | wrote (id : TaskId) (time : Nat) (bytes : List UInt8)
  | matched
  | ended (id : TaskId) (result : Except Fault Unit)
  | abandoned (id : TaskId)
  /-- The link is closed, by its user or by the loss of its stream. -/
  | down
  deriving Repr

namespace Incident

def isMatch : Incident → Bool
  | matched => true
  | _ => false

def isEndOf (id : TaskId) : Incident → Bool
  | ended k _ => k == id
  | abandoned k => k == id
  | _ => false

end Incident

/-- What the turn of a send adds to what is written and to what has happened. -/
def incidentsOfTurn (id : TaskId) (before after : Senders) : List Incident :=
  (after.link.outgoing.drop before.link.outgoing.length).map (.wrote id before.agenda.now)
    ++ (after.log.drop before.log.length).filterMap fun
      | .finished k result => some (.ended k result)
      | _ => none

def incidents (s : Senders) : Act → List Incident
  | .turn id => incidentsOfTurn id s (s.perform (.turn id))
  | .abort id => if (s.link.stage? id).isSome then [.abandoned id] else []
  | .arrive bytes =>
    let (link, frames) := s.link.extract bytes
    List.replicate (link.expected frames) .matched
  | .lose _ | .close => [.down]
  | .send _ | .dropOutlet | .elapse _ | .wake | .look => []

def trace (s : Senders) : List Act → List Incident
  | [] => []
  | act :: rest => s.incidents act ++ (s.perform act).trace rest

theorem trace_append (s : Senders) (before after : List Act) :
    s.trace (before ++ after) = s.trace before ++ (s.run before).trace after := by
  induction before generalizing s with
  | nil => rfl
  | cons act rest ih => simp [trace, ih]

/-- What shows of acts one after the other, where `shows` says what shows of each. -/
def collect {α : Type} (shows : Senders → Act → List α) (s : Senders) : List Act → List α
  | [] => []
  | act :: rest => shows s act ++ (s.perform act).collect shows rest

theorem collect_append {α : Type} (shows : Senders → Act → List α) (s : Senders)
    (before after : List Act) :
    s.collect shows (before ++ after)
      = s.collect shows before ++ (s.run before).collect shows after := by
  induction before generalizing s with
  | nil => rfl
  | cons act rest ih => simp [collect, ih]

def takenBy (s : Senders) : Act → List Frame
  | .arrive bytes => (s.link.extract bytes).2
  | _ => []

def handedBy (s : Senders) : Act → List Frame
  | .arrive bytes => (s.link.receive bytes).2
  | _ => []

/-- The send that ends as if its frame were acknowledged, though nobody said so in time. -/
def unansweredBy (s : Senders) : Act → List TaskId
  | .turn id =>
    match s.link.stage? id, (s.link.proceed id s.agenda.now).2 with
    | some (.outstanding _ (some _)), _ => []
    | _, some (.ok ()) => [id]
    | _, _ => []
  | _ => []

def given (acts : List Act) : List Frame :=
  acts.filterMap fun
    | .send frame => some frame
    | _ => none

def turnsOf (acts : List Act) : List TaskId :=
  acts.filterMap fun
    | .turn id => some id
    | _ => none

theorem settleWithin_eq_run (s : Senders) (fuel : Nat) :
    ∃ acts, s.settleWithin fuel = s.run acts := by
  induction fuel generalizing s with
  | zero => exact ⟨[], rfl⟩
  | succ fuel ih =>
    rw [settleWithin]
    dsimp only
    split
    · exact ⟨[.wake], rfl⟩
    · next id rest hready =>
      obtain ⟨acts, hacts⟩ := ih ({ s.wakeReady with
        agenda := { s.wakeReady.agenda with ready := rest } }.turn id)
      refine ⟨.wake :: .turn id :: acts, hacts.trans ?_⟩
      rw [run_cons, run_cons]
      congr 1
      simp [perform, hready]

theorem settle_perform_eq_run (s : Senders) (act : Act) :
    ∃ acts, (s.perform act).settle = s.run acts := by
  obtain ⟨acts, hacts⟩ := (s.perform act).settleWithin_eq_run (s.perform act).turns
  exact ⟨act :: acts, hacts⟩

/-- What is done to a link from outside is an act, and then all others go on. -/
theorem settle_perform (s : Senders) :
    (∀ frame, (s.send frame).1 = (s.perform (.send frame)).settle)
      ∧ (∀ id, s.abort id = (s.perform (.abort id)).settle)
      ∧ (∀ bytes, s.feed bytes = (s.perform (.arrive bytes)).settle)
      ∧ (∀ cause, s.lose cause = (s.perform (.lose cause)).settle)
      ∧ s.close = (s.perform .close).settle ∧ s.dropOutlet = (s.perform .dropOutlet).settle :=
  ⟨fun _ => rfl, fun _ => rfl, fun _ => rfl, fun _ => rfl, rfl, rfl⟩

theorem advanceWithin_eq_run (s : Senders) (target fuel : Nat) :
    ∃ acts, s.advanceWithin target fuel = s.run acts := by
  induction fuel generalizing s with
  | zero => exact s.settle_perform_eq_run (.elapse target)
  | succ fuel ih =>
    rw [advanceWithin]
    split
    · exact ⟨[.elapse target], rfl⟩
    · next due _ =>
      split
      · exact ⟨[.elapse target], rfl⟩
      · obtain ⟨first, hfirst⟩ := s.settle_perform_eq_run (.elapse due)
        obtain ⟨acts, hacts⟩ := ih (s.run first)
        refine ⟨first ++ acts, ?_⟩
        rw [run_append, ← hacts, ← hfirst]
        rfl

end Senders

end NcpHost
