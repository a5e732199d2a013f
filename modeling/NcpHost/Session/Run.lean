import NcpHost.Session.Reception
import NcpHost.Session.Reset

/-!
Runs of a session. Whenever something happens to a session, its readers, writers and tasks take
turns, first come first served, until none can go on without time passing. A turn given to a worker
that cannot go on changes nothing.
-/

namespace NcpHost.Session

/-- A callback runs to its end, and with it its task. A crash is nobody's concern then. -/
def endCallback (s : Session) (id : TaskId) (deed : Deed) (command : String) : Session :=
  let s := (s.dropTask id).record (.callback deed.name command)
  match deed.ending with
  | .returns | .crashes => s
  | .fails => s.warn (.failed command)

theorem endCallback_eq (s : Session) (id : TaskId) (deed : Deed) (command : String) :
    ∃ warnings, s.endCallback id deed command
      = { (s.dropTask id).record (.callback deed.name command) with warnings := warnings } := by
  rw [endCallback]
  cases deed.ending with
  | returns | crashes => exact ⟨s.warnings, rfl⟩
  | fails => exact ⟨s.warnings ++ [.failed command], rfl⟩

def startJob (s : Session) (id : TaskId) : Job → Session
  | .request c timeout => s.startRequest id .response c timeout
  | .version => s.startVersion id
  | .reset option wait => s.startReset id option wait
  | .wait listener => s.resumeWaiting id listener
  | .callback deed command =>
    if deed.delay = 0 then s.endCallback id deed command
    else
      let due := s.agenda.now + deed.delay
      (s.suspend id (.dozing deed command due)).setTimer id due

def turnTask (s : Session) (id : TaskId) : Session :=
  match s.task? id with
  | none => s
  | some (.fresh job) => s.startJob id job
  | some (.gated e frames) => s.resumeGated id e frames
  | some (.sending e unsent) => s.resumeSending id e unsent
  | some (.answering e deadline) => s.resumeAnswering id e deadline
  | some (.resetGated request wait) => s.resumeResetGated id request wait
  | some (.resetSending line wait lossSeen) => s.resumeResetSending id line wait lossSeen
  | some (.resetWaiting deadline lossSeen) => s.resumeResetWaiting id deadline lossSeen
  | some (.reconnecting attempt due) => s.resumeReconnecting id attempt due
  | some (.waiting listener) => s.resumeWaiting id listener
  | some (.dozing deed command due) =>
    if due ≤ s.agenda.now then s.endCallback id deed command else s

/-- The turn of a reader: it reads all there is, or finds that the stream ended or failed. Without a
link to give it to it just ends. -/
def turnReader (s : Session) (id : LineId) : Session :=
  match s.line? id with
  | none => s
  | some l =>
    if !l.readable then s
    else if !s.holds id then s.modifyLine id Line.stopReading
    -- a fault is found before the bytes that arrived in front of it
    else if l.readFault then
      (s.loseLine id (some (.io "read fault"))).modifyLine id Line.stopReading
    else if !l.inbound.isEmpty then
      (s.modifyLine id fun l => { l with inbound := [] }).receiveBytes id l.inbound
    else (s.loseLine id none).modifyLine id Line.stopReading

/-- The turn of a writer: it passes on what was written, or finds that the stream failed. Once
nobody can write any more it ends. -/
def turnWriter (s : Session) (id : LineId) : Session :=
  match s.line? id with
  | none => s
  | some l =>
    if !l.writable (s.holds id) then s
    else if l.writeFault && !l.link.outgoing.isEmpty then
      let s := if s.holds id then s.loseLine id (some (.io "write fault")) else s
      s.modifyLine id Line.stopWriting
    else
      let s := s.modifyLine id Line.flush
      if s.holds id then s else s.modifyLine id Line.stopWriting

def turn (s : Session) : Worker → Session
  | .reader id => s.turnReader id
  | .writer id => s.turnWriter id
  | .task id => s.turnTask id

def settleWithin (s : Session) : (fuel : Nat) → Session
  | 0 => s
  | fuel + 1 =>
    let s := s.wakeRunnable
    match s.agenda.ready with
    | [] => s
    | w :: rest => ({ s with agenda := { s.agenda with ready := rest } }.turn w).settleWithin fuel

/-- More turns than can be taken without time passing. A task has a few turns of its own and a few
for each fragment; arriving bytes start at most one callback for each listener and each of them. -/
def turns (s : Session) : Nat :=
  let arriving := s.lines.foldl (fun n (_, l) => n + l.inbound.length) 0
  let own := s.tasks.foldl (fun n (_, t) => n + t.unsent.length + 8) 0
  let starting := s.tasks.foldl (fun n (_, t) => match t with
    | .fresh (.request c _) => n + c.entries.length + (Command.payload c.entries).length
    | _ => n) 0
  8 * (own + starting + arriving * (s.registry.size + 1) + s.lines.length + s.agenda.ready.length
    + 8)

def settle (s : Session) : Session := s.settleWithin s.turns

/-- Lets time pass up to `target`, stopping at every time at which somebody is to be woken. -/
def advanceWithin (s : Session) (target : Nat) : (fuel : Nat) → Session
  | 0 => { s with agenda := s.agenda.elapse target }.settle
  | fuel + 1 =>
    match s.agenda.nextDue with
    | none => { s with agenda := s.agenda.elapse target }
    | some due =>
      if target < due then { s with agenda := s.agenda.elapse target }
      else ({ s with agenda := s.agenda.elapse due }.settle).advanceWithin target fuel

def advance (s : Session) (ms : Nat) : Session :=
  s.advanceWithin (s.agenda.now + ms) s.turns

end NcpHost.Session
