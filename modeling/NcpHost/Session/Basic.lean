import NcpHost.Agenda
import NcpHost.Command.Catalog
import NcpHost.Config
import NcpHost.Registry
import NcpHost.Session.Line
import NcpHost.Session.Stage

/-!
A session with one co-processor: its lines, its listeners, its tasks and its clock. This module
holds the state and the steps that everything else is made of: looking up and changing lines and
tasks, and saying who can go on.
-/

namespace NcpHost

namespace Session

inductive State where
  | disconnected
  | connecting
  | connected
  | error
  deriving DecidableEq, Repr, Inhabited

def State.name : State → String
  | disconnected => "Disconnected"
  | connecting => "Connecting"
  | connected => "Connected"
  | error => "Error"

inductive Worker where
  | reader (line : LineId)
  | writer (line : LineId)
  | task (id : TaskId)
  deriving DecidableEq, Repr

inductive Event where
  | sent (id : TaskId) (line : LineId) (bytes : List UInt8)
  | dispatched (command : Command)
  | callback (name command : String)
  | hook (name : String) (cause : Option Fault)
  | finished (id : TaskId) (outcome : Outcome)
  deriving Repr

/-- What is logged of a callback that does not end well, with the text of its command. -/
inductive Warning where
  | failed (command : String)
  | crashed (command : String)
  deriving DecidableEq, Repr

end Session

open Session

structure Session where
  config : Config
  catalog : Catalog
  deviceOpens : Bool
  registry : Registry Deed
  lines : List (LineId × Line)
  generation : LineId
  current : Option LineId
  state : Session.State
  fragments : List Frame
  /-- Held by a blocking request from before its first fragment to its end. -/
  blockingLock : FairLock
  resetLock : FairLock
  /-- Who is told when the link goes away outside of a reset. -/
  hook : Option String
  tsn : UInt8
  tasks : List (TaskId × Stage)
  nextTask : TaskId
  agenda : Agenda Worker
  log : List Event
  warnings : List Warning

namespace Session

def new (config : Config) (catalog : Catalog) (deviceOpens : Bool) : Session where
  config := config
  catalog := catalog
  deviceOpens := deviceOpens
  registry := .empty
  lines := []
  generation := 0
  current := none
  state := .disconnected
  fragments := []
  blockingLock := .free
  resetLock := .free
  hook := none
  tsn := 0
  tasks := []
  nextTask := 0
  agenda := .start
  log := []
  warnings := []

def render (s : Session) : String :=
  "Connection \x7b port_name: " ++ Text.quote s.config.deviceName ++ ", state: " ++ s.state.name
    ++ " \x7d"

def record (s : Session) (e : Event) : Session := { s with log := s.log ++ [e] }

def warn (s : Session) (w : Warning) : Session := { s with warnings := s.warnings ++ [w] }

def isConnected (s : Session) : Bool := s.current.isSome

def takeTsn (s : Session) : Session × UInt8 := ({ s with tsn := s.tsn + 1 }, s.tsn)

def line? (s : Session) (id : LineId) : Option Line := s.lines.lookup id

def modifyLine (s : Session) (id : LineId) (f : Line → Line) : Session :=
  { s with lines := s.lines.map fun (k, l) => if k = id then (k, f l) else (k, l) }

/-- Somebody uses the link of a line: the session or a task. -/
def holds (s : Session) (id : LineId) : Bool :=
  s.current == some id || s.tasks.any fun (_, t) => t.line? == some id

def task? (s : Session) (id : TaskId) : Option Stage := s.tasks.lookup id

def suspend (s : Session) (id : TaskId) (t : Stage) : Session :=
  { s with tasks := s.tasks.map fun (k, old) => if k = id then (k, t) else (k, old) }

def spawn (s : Session) (job : Job) : Session × TaskId :=
  ({ s with tasks := s.tasks ++ [(s.nextTask, .fresh job)], nextTask := s.nextTask + 1 },
    s.nextTask)

def dropTask (s : Session) (id : TaskId) : Session :=
  { s with
    tasks := s.tasks.filter fun (k, _) => k != id
    agenda := s.agenda.dropTimer (.task id) }

def setTimer (s : Session) (id : TaskId) (due : Nat) : Session :=
  { s with agenda := s.agenda.setTimer due (.task id) }

def dropTimer (s : Session) (id : TaskId) : Session :=
  { s with agenda := s.agenda.dropTimer (.task id) }

def finish (s : Session) (id : TaskId) (outcome : Outcome) : Session :=
  (s.dropTask id).record (.finished id outcome)

def canSend (s : Session) (id : TaskId) (line : LineId) : Bool :=
  ((s.line? line).map (·.link.canProceed id)).getD false

def isSettled (s : Session) (listener : ListenerId) : Bool :=
  match s.registry.peek listener with
  | .pending => false
  | _ => true

def canProceed (s : Session) (id : TaskId) : Stage → Bool
  | .fresh _ => true
  | .gated _ _ => s.blockingLock.holds id
  | .sending e _ => s.canSend id e.line
  | .answering e _ => s.isSettled e.listener
  | .resetGated _ _ => s.resetLock.holds id
  | .resetSending line _ _ => s.canSend id line
  | .resetWaiting _ lossSeen => lossSeen
  | .reconnecting _ _ => false
  | .waiting listener => s.isSettled listener
  | .dozing _ _ _ => false

/-- Everybody who can go on without time passing: readers and writers first, then tasks by age. -/
def runnable (s : Session) : List Worker :=
  (s.lines.flatMap fun (id, l) =>
    (if l.readable then [.reader id] else [])
      ++ (if l.writable (s.holds id) then [.writer id] else []))
    ++ s.tasks.filterMap fun (id, t) => if s.canProceed id t then some (.task id) else none

def wakeRunnable (s : Session) : Session := { s with agenda := s.agenda.wakeAll s.runnable }

end Session

end NcpHost
