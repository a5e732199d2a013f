import NcpHost.Agenda
import NcpHost.Link.Basic

/-!
A link on a clock, with the tasks that send on it. After everything that happens the tasks go on,
one at a time and first come first served, until none can.
-/

namespace NcpHost

inductive LinkEvent where
  | delivered (frame : Frame)
  | lost (cause : Option Fault)
  | finished (id : TaskId) (result : Except Fault Unit)
  deriving Repr

structure Senders where
  link : Link
  agenda : Agenda TaskId
  nextId : TaskId
  log : List LinkEvent
  deriving Repr

namespace Senders

def new (ackTimeout : Nat) : Senders := ⟨.new ackTimeout, .start, 0, []⟩

def record (s : Senders) (events : List LinkEvent) : Senders := { s with log := s.log ++ events }

/-- Puts the sends that can go on among the ready ones, the oldest first. -/
def wakeReady (s : Senders) : Senders :=
  let ids := (List.range s.nextId).filter s.link.canProceed
  { s with agenda := s.agenda.wakeAll ids }

def turn (s : Senders) (id : TaskId) : Senders :=
  let before := s.link.deadline? id
  let (link, result) := s.link.proceed id s.agenda.now
  let s := { s with link := link }
  match result, link.deadline? id with
  | some r, _ => { s with agenda := s.agenda.dropTimer id }.record [.finished id r]
  | none, some due =>
    if before = some due then s else { s with agenda := s.agenda.setTimer due id }
  | none, none => s

/-- Lets tasks go on until none can, or `fuel` of them had their turn. -/
def settleWithin (s : Senders) : (fuel : Nat) → Senders
  | 0 => s
  | fuel + 1 =>
    let s := s.wakeReady
    match s.agenda.ready with
    | [] => s
    | id :: rest => ({ s with agenda := { s.agenda with ready := rest } }.turn id).settleWithin fuel

/-- More turns than the sends can take without time passing: each is woken for the lock, for its
acknowledgement and by its timer. -/
def turns (s : Senders) : Nat := 4 * (s.link.sends.length + s.agenda.ready.length) + 4

def settle (s : Senders) : Senders := s.settleWithin s.turns

def send (s : Senders) (frame : Frame) : Senders × TaskId :=
  let id := s.nextId
  ({ s with link := s.link.enter id frame, nextId := id + 1 }.settle, id)

def abort (s : Senders) (id : TaskId) : Senders :=
  { s with link := s.link.abort id, agenda := s.agenda.dropTimer id }.settle

def feed (s : Senders) (bytes : List UInt8) : Senders :=
  let (link, frames) := s.link.receive bytes
  ({ s with link := link }.record (frames.map .delivered)).settle

def lose (s : Senders) (cause : Option Fault) : Senders :=
  let told := if s.link.inUse then [.lost cause] else []
  ({ s with link := s.link.close }.record told).settle

def close (s : Senders) : Senders := { s with link := s.link.close }.settle

def dropOutlet (s : Senders) : Senders := { s with link := s.link.dropOutlet }.settle

/-- Lets time pass up to `target`, stopping at every time at which somebody is to be woken. -/
def advanceWithin (s : Senders) (target : Nat) : (fuel : Nat) → Senders
  | 0 => { s with agenda := s.agenda.elapse target }.settle
  | fuel + 1 =>
    match s.agenda.nextDue with
    | none => { s with agenda := s.agenda.elapse target }
    | some due =>
      if target < due then { s with agenda := s.agenda.elapse target }
      else ({ s with agenda := s.agenda.elapse due }.settle).advanceWithin target fuel

def advance (s : Senders) (ms : Nat) : Senders :=
  s.advanceWithin (s.agenda.now + ms) (s.link.sends.length + 1)

def look (s : Senders) : Senders × List (List UInt8) × List LinkEvent :=
  ({ s with link := { s.link with outgoing := [] }, log := [] }, s.link.outgoing, s.log)

end Senders

end NcpHost
