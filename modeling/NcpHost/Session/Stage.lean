import NcpHost.Command.Standard
import NcpHost.Fault
import NcpHost.Frame.Fragment
import NcpHost.Listener
import NcpHost.Version

/-!
The tasks of a session and how far they have come: requests, version queries, resets, waits for a
response and the callbacks of indications. A task that is named here waits for something; what it
waits for is said at each stage.
-/

namespace NcpHost.Session

/-- The number of an attached link. Numbers are given out in order, from one. -/
abbrev LineId := Nat

inductive Ending where
  | returns
  | fails
  | crashes
  deriving DecidableEq, Repr, Inhabited

/-- What the callback of an indication does. -/
structure Deed where
  name : String
  ending : Ending
  delay : Nat
  /-- A callback with a task of its own crashes before there is a task. -/
  crashesAtCall : Bool
  deriving DecidableEq, Repr, Inhabited

inductive Purpose where
  | response
  | version
  deriving DecidableEq, Repr

/-- A request that got as far as having a link to go out on and a listener for its response. -/
structure Exchange where
  purpose : Purpose
  line : LineId
  listener : ListenerId
  timeout : Nat
  deriving DecidableEq, Repr

inductive Job where
  | request (command : Command) (timeout : Nat)
  | version
  | reset (option : Standard.ResetOption) (wait : Bool)
  | wait (listener : ListenerId)
  | callback (deed : Deed) (command : String)
  deriving Repr

inductive Stage where
  | fresh (job : Job)
  | gated (exchange : Exchange) (unsent : List Frame)
  /-- A request with one fragment at the link, and the rest still to be sent. -/
  | sending (exchange : Exchange) (unsent : List Frame)
  | answering (exchange : Exchange) (deadline : Nat)
  | resetGated (request : Frame) (wait : Bool)
  | resetSending (line : LineId) (wait lossSeen : Bool)
  | resetWaiting (deadline : Nat) (lossSeen : Bool)
  | reconnecting (attempt due : Nat)
  | waiting (listener : ListenerId)
  | dozing (deed : Deed) (command : String) (due : Nat)
  deriving Repr

inductive Outcome where
  | response (command : Command)
  | version (version : Option ModuleVersion)
  | done
  | failed (cause : Fault)
  deriving Repr

namespace Stage

def line? : Stage → Option LineId
  | gated e _ => some e.line
  | sending e _ => some e.line
  | answering e _ => some e.line
  | resetSending line _ _ => some line
  | _ => none

/-- The listener that goes when the task goes. -/
def listener? : Stage → Option ListenerId
  | gated e _ => some e.listener
  | sending e _ => some e.listener
  | answering e _ => some e.listener
  | waiting listener => some listener
  | fresh (.wait listener) => some listener
  | _ => none

/-- A reset that has asked to be told of a loss is told. -/
def noticeLoss : Stage → Stage
  | resetSending line wait _ => resetSending line wait true
  | resetWaiting deadline _ => resetWaiting deadline true
  | t => t

def unsent : Stage → List Frame
  | gated _ frames => frames
  | sending _ frames => frames
  | _ => []

end Stage

end NcpHost.Session
