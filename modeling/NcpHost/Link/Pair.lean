import NcpHost.Link.Act

/-!
Two links back to back. What is written at one end travels to the other, in order and without loss,
and arrives in pieces of any length. Sends start, go on and are given up at both ends in any order,
each end has a clock of its own, and nobody closes anything.
-/

namespace NcpHost

inductive End where
  | left
  | right
  deriving DecidableEq, Repr

namespace End

def other : End → End
  | left => right
  | right => left

@[simp] theorem other_other (e : End) : e.other.other = e := by
  cases e <;> rfl

theorem other_ne (e : End) : e.other ≠ e := by
  cases e <;> decide

end End

/-- A link with its senders at each end, and the bytes on their way to it. -/
structure Pair where
  ends : End → Senders
  wire : End → List UInt8

namespace Pair

def new (ackTimeout : End → Nat) : Pair := ⟨fun e => .new (ackTimeout e), fun _ => []⟩

inductive Act where
  | send (e : End) (frame : Frame)
  | turn (e : End) (id : TaskId)
  | abort (e : End) (id : TaskId)
  | elapse (e : End) (time : Nat)
  | wake (e : End)
  | ship (e : End)
  | carry (e : End) (count : Nat)
  deriving Repr

def place (p : Pair) : Act → End × Senders.Act
  | .send e frame => (e, .send frame)
  | .turn e id => (e, .turn id)
  | .abort e id => (e, .abort id)
  | .elapse e time => (e, .elapse time)
  | .wake e => (e, .wake)
  | .ship e => (e, .look)
  | .carry e count => (e, .arrive ((p.wire e).take count))

def wireAfter (p : Pair) : Act → End → List UInt8
  | .ship e, k => if k = e.other then p.wire k ++ (p.ends e).link.outgoing.flatten else p.wire k
  | .carry e count, k => if k = e then (p.wire k).drop count else p.wire k
  | _, k => p.wire k

def perform (p : Pair) (act : Act) : Pair where
  ends k := if k = (p.place act).1 then (p.ends k).perform (p.place act).2 else p.ends k
  wire := p.wireAfter act

def run (p : Pair) (acts : List Act) : Pair := acts.foldl perform p

theorem run_append (p : Pair) (before after : List Act) :
    p.run (before ++ after) = (p.run before).run after := by
  simp [run, List.foldl_append]

def history (p : Pair) (e : End) : List Act → List Senders.Act
  | [] => []
  | act :: rest =>
    (if e = (p.place act).1 then [(p.place act).2] else []) ++ (p.perform act).history e rest

theorem history_append (p : Pair) (e : End) (before after : List Act) :
    p.history e (before ++ after) = p.history e before ++ (p.run before).history e after := by
  induction before generalizing p with
  | nil => rfl
  | cons act rest ih => simp [history, run, ih]

/-- Each end is a link of its own, with a history of its own. -/
theorem ends_run (p : Pair) (e : End) (acts : List Act) :
    (p.run acts).ends e = (p.ends e).run (p.history e acts) := by
  induction acts generalizing p with
  | nil => rfl
  | cons act rest ih =>
    rw [history, Senders.run_append]
    refine (ih (p.perform act)).trans ?_
    congr 1
    by_cases he : e = (p.place act).1 <;> simp [perform, he, Senders.run]

end Pair

end NcpHost
