import NcpHost.Session.Basic

/-!
Requests: sent in fragments, each of which waits for its acknowledgement, and answered by the first
command with the header of the response. A request registers its listener before it stands in line
for anything, and leaves nothing behind however it ends.
-/

namespace NcpHost.Session

/-- The outcome for the answer to a version query. Where the module reports a failure there is no
version. -/
def versionOutcome (answer : Command) : Outcome :=
  let field := fun (name : String) => match answer.getUint? name with
    | some n => Except.ok n.toUInt32
    | none => .error (Outcome.failed (.decode (.lacking name)))
  if ((answer.getUint? Command.statusField).getD 0) != 0 then .version none
  else
    match field "FWVersion", field "StackVersion", field "ProtocolVersion" with
    | .error o, _, _ => o
    | _, .error o, _ => o
    | _, _, .error o => o
    | .ok firmware, .ok stack, .ok protocol => .version (some ⟨firmware, stack, protocol⟩)

def Purpose.outcome : Purpose → Except Fault Command → Outcome
  | _, .error cause => .failed cause
  | response, .ok c => .response c
  | version, .ok c => versionOutcome c

def endExchange (s : Session) (id : TaskId) (e : Exchange) (result : Except Fault Command) :
    Session :=
  { s with
    blockingLock := s.blockingLock.leave id
    registry := s.registry.release e.listener }.finish id (e.purpose.outcome result)

/-- Waits for the response of a request that is sent. -/
def listen (s : Session) (id : TaskId) (e : Exchange) : Session :=
  match s.registry.peek e.listener with
  | .delivered c => s.endExchange id e (.ok c)
  | .closed => s.endExchange id e (.error .cancelled)
  | .pending =>
    if e.timeout = 0 then s.endExchange id e (.error .timeout)
    else
      let deadline := s.agenda.now + e.timeout
      (s.suspend id (.answering e deadline)).setTimer id deadline

def followDeadline (s : Session) (id : TaskId) (before after : Option Nat) : Session :=
  if before = after then s
  else
    match after with
    | some due => (s.dropTimer id).setTimer id due
    | none => s.dropTimer id

def proceedSend (s : Session) (id : TaskId) (line : LineId) :
    Session × Option (Except Fault Unit) :=
  match s.line? line with
  | none => (s, some (.error .notConnected))
  | some l =>
    let (link, result) := l.link.proceed id s.agenda.now
    let s := s.modifyLine line fun l => { l with link := link }
    let s := (link.outgoing.drop l.link.outgoing.length).foldl
      (fun s bytes => s.record (.sent id line bytes)) s
    (s.followDeadline id (l.link.deadline? id) (link.deadline? id), result)

def enterSend (s : Session) (id : TaskId) (line : LineId) (frame : Frame) : Session :=
  s.modifyLine line fun l => { l with link := l.link.enter id frame }

/-- Sends fragments one after the other, and then waits for the response. Between two fragments the
request stands in line for the link again. -/
def sendAll (s : Session) (id : TaskId) (e : Exchange) : List Frame → Session
  | [] => s.listen id e
  | frame :: rest =>
    match (s.enterSend id e.line frame).proceedSend id e.line with
    | (s, none) => s.suspend id (.sending e rest)
    | (s, some (.error cause)) => s.endExchange id e (.error cause)
    | (s, some (.ok ())) => s.sendAll id e rest

def resumeSending (s : Session) (id : TaskId) (e : Exchange) (unsent : List Frame) : Session :=
  match s.proceedSend id e.line with
  | (s, none) => s.suspend id (.sending e unsent)
  | (s, some (.error cause)) => s.endExchange id e (.error cause)
  | (s, some (.ok ())) => s.sendAll id e unsent

/-- Goes on with a request that waits for its response. A response that is there counts even if the
time is over. -/
def resumeAnswering (s : Session) (id : TaskId) (e : Exchange) (deadline : Nat) : Session :=
  match s.registry.peek e.listener with
  | .delivered c => s.endExchange id e (.ok c)
  | .closed => s.endExchange id e (.error .cancelled)
  | .pending => if deadline ≤ s.agenda.now then s.endExchange id e (.error .timeout) else s

/-- What a request needs before anything is done for it: the pattern of its response, a link, and
its packet. -/
def prepare (s : Session) (c : Command) : Except Fault (Command × LineId × Packet) :=
  if c.kind ≠ .request then .error (.request (.notRequest c.render))
  else
    match c.responsePattern, s.current, c.toPacket with
    | .error cause, _, _ => .error (.request cause)
    | .ok _, none, _ => .error .notConnected
    | .ok _, some _, .error cause => .error (.command cause)
    | .ok pattern, some line, .ok packet => .ok (pattern, line, packet)

def startRequest (s : Session) (id : TaskId) (purpose : Purpose) (c : Command) (timeout : Nat) :
    Session :=
  match s.prepare c with
  | .error cause => s.finish id (.failed cause)
  | .ok (pattern, line, packet) =>
    -- the listener is there before the request stands in line for anything
    let (registry, listener) := s.registry.await [pattern]
    let s := { s with registry := registry }
    let e : Exchange := ⟨purpose, line, listener, timeout⟩
    let frames := Fragment.split packet Frame.bodyLimit
    if !c.isBlocking then s.sendAll id e frames
    else
      let s := { s with blockingLock := s.blockingLock.join id }
      if s.blockingLock.holds id then s.sendAll id e frames
      else s.suspend id (.gated e frames)

def resumeGated (s : Session) (id : TaskId) (e : Exchange) (frames : List Frame) : Session :=
  if s.blockingLock.holds id then s.sendAll id e frames else s

def startVersion (s : Session) (id : TaskId) : Session :=
  let (s, tsn) := s.takeTsn
  match Command.make Standard.moduleVersion [("TSN", .uint tsn.toUInt64)] with
  | .error cause => s.finish id (.failed (.command cause))
  | .ok c => s.startRequest id .version c s.config.requestTimeout.toNat

def resumeWaiting (s : Session) (id : TaskId) (listener : ListenerId) : Session :=
  match s.registry.peek listener with
  | .delivered c => { s with registry := s.registry.release listener }.finish id (.response c)
  | .closed => { s with registry := s.registry.release listener }.finish id (.failed .cancelled)
  | .pending => s.suspend id (.waiting listener)

end NcpHost.Session
