import NcpHost.FairLock
import NcpHost.Fault
import NcpHost.Frame.Stream

/-!
The link: numbered frames over a byte stream, one outstanding at a time. A frame is sent under the
send lock, carries the number of the link, and waits for the acknowledgement of that number; once it
arrives the numbers go on, 0, 1, 2, 3, 1, 2, 3 and so on. A frame whose acknowledgement does not
come in time counts as sent and is not repeated. Frames that arrive are acknowledged at once and
handed to the user of the link while there is one.
-/

namespace NcpHost

/-- What became of the acknowledgement that a send waits for. -/
inductive Verdict where
  | acknowledged
  | abandoned
  deriving DecidableEq, Repr

inductive SendStage where
  | queued (frame : Frame)
  | outstanding (deadline : Nat) (verdict : Option Verdict)
  deriving DecidableEq, Repr

/-- The state of a link. Sends are named by the tasks that make them. -/
structure Link where
  ackTimeout : Nat
  buffer : List UInt8
  ackSeq : UInt8
  packetSeq : UInt8
  /-- The send that the next acknowledgement ends; it may have been aborted. -/
  waiter : Option TaskId
  sends : List (TaskId × SendStage)
  sendLock : FairLock
  outgoing : List (List UInt8)
  /-- Somebody takes what is written. -/
  outlet : Bool
  /-- The link has a user, who gets what arrives. -/
  inUse : Bool
  closed : Bool
  deriving Repr

namespace Link

def new (ackTimeout : Nat) : Link where
  ackTimeout := ackTimeout
  buffer := []
  ackSeq := 0
  packetSeq := 0
  waiter := none
  sends := []
  sendLock := .free
  outgoing := []
  outlet := true
  inUse := true
  closed := false

/-- The number behind `seq` in the cycle 0, 1, 2, 3, 1, 2, 3 and so on. -/
def nextSeq (seq : UInt8) : UInt8 := seq % 3 + 1

def stage? (l : Link) (id : TaskId) : Option SendStage := l.sends.lookup id

def setStage (l : Link) (id : TaskId) (stage : SendStage) : Link :=
  { l with sends := (id, stage) :: l.sends.filter fun (k, _) => k != id }

def write (l : Link) (bytes : List UInt8) : Link × Bool :=
  if l.outlet then ({ l with outgoing := l.outgoing ++ [bytes] }, true) else (l, false)

def enter (l : Link) (id : TaskId) (frame : Frame) : Link :=
  { l.setStage id (.queued frame) with sendLock := l.sendLock.join id }

/-- A send is over, for whatever reason, and passes on the lock. -/
def abort (l : Link) (id : TaskId) : Link :=
  { l with
    sends := l.sends.filter fun (k, _) => k != id
    sendLock := l.sendLock.leave id }

def proceedOutstanding (l : Link) (id : TaskId) (now deadline : Nat) :
    Option Verdict → Link × Option (Except Fault Unit)
  | some .acknowledged => (l.abort id, some (.ok ()))
  | some .abandoned => (l.abort id, some (.error .notConnected))
  | none =>
    -- nobody answered in time: the send ends well all the same, and its number is not used up
    if deadline ≤ now then ({ l with waiter := none }.abort id, some (.ok ()))
    else (l.setStage id (.outstanding deadline none), none)

/-- Writes the frame of a send that holds the lock, under the number of the link. -/
def transmit (l : Link) (id : TaskId) (now : Nat) (frame : Frame) :
    Link × Option (Except Fault Unit) :=
  let (l, written) := { l with waiter := some id }.write (frame.stamp l.packetSeq).encode
  if written then l.proceedOutstanding id now (now + l.ackTimeout) none
  else (l.abort id, some (.error .notConnected))

def proceed (l : Link) (id : TaskId) (now : Nat) : Link × Option (Except Fault Unit) :=
  match l.stage? id with
  | none => (l, none)
  | some (.queued frame) =>
    if !l.sendLock.holds id then (l, none)
    else if l.closed then (l.abort id, some (.error .notConnected))
    else l.transmit id now frame
  | some (.outstanding deadline verdict) => l.proceedOutstanding id now deadline verdict

def canProceed (l : Link) (id : TaskId) : Bool :=
  match l.stage? id with
  | none => false
  | some (.queued _) => l.sendLock.holds id
  | some (.outstanding _ verdict) => verdict.isSome

def deadline? (l : Link) (id : TaskId) : Option Nat :=
  match l.stage? id with
  | some (.outstanding deadline _) => some deadline
  | _ => none

/-- Tells a send what became of its acknowledgement. A send that is over is not told. -/
def settleSend (l : Link) (id : TaskId) (verdict : Verdict) : Link :=
  match l.stage? id with
  | some (.outstanding deadline none) => l.setStage id (.outstanding deadline (some verdict))
  | _ => l

def settleWaiter (l : Link) (verdict : Verdict) : Link :=
  match l.waiter with
  | some id => { l.settleSend id verdict with waiter := none }
  | none => l

/-- An acknowledgement arrived. Only the one for the number of the link counts. -/
def acknowledge (l : Link) (seq : UInt8) : Link :=
  if seq ≠ l.packetSeq then l
  -- whether or not a frame is out
  else { l with packetSeq := nextSeq l.packetSeq }.settleWaiter .acknowledged

/-- A frame arrived: acknowledgements end a send, anything else is acknowledged, and handed on while
the link has a user. -/
def accept (l : Link) (frame : Frame) : Link × Option Frame :=
  if frame.isAck then (l.acknowledge frame.header.flags.ackSeq, none)
  else
    let seq := frame.header.flags.packetSeq
    let l := ({ l with ackSeq := seq }.write (Frame.ack seq false).encode).1
    (l, if l.inUse && frame.packet.isSome then some frame else none)

def extract (l : Link) (bytes : List UInt8) : Link × List Frame :=
  let (frames, left) := Stream.drain (l.buffer ++ bytes)
  ({ l with buffer := left }, frames)

def acceptAll (l : Link) : List Frame → Link × List Frame
  | [] => (l, [])
  | frame :: rest =>
    let (l, delivered) := l.accept frame
    let (l, others) := l.acceptAll rest
    (l, delivered.toList ++ others)

def receive (l : Link) (bytes : List UInt8) : Link × List Frame :=
  let (l, frames) := l.extract bytes
  l.acceptAll frames

/-- Closes the link: it has no user any more, its numbers start over, and the send that waits is
told. -/
def close (l : Link) : Link :=
  { l.settleWaiter .abandoned with
    buffer := []
    ackSeq := 0
    packetSeq := 0
    inUse := false
    closed := true }

def dropOutlet (l : Link) : Link := { l with outlet := false, outgoing := [] }

end Link

end NcpHost
