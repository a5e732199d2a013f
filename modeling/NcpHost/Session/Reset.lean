import NcpHost.Session.Attachment
import NcpHost.Session.Exchange

/-!
Resets: a request to reboot that no response is waited for. A reset that is to wait then gives the
module some seconds to drop the line. If it does, the reset connects again, with a few attempts; if
it does not, the link is one that survives a reboot. Resets exclude each other, and while one is on
its way a lost link is no news to the hook and takes no listener with it.
-/

namespace NcpHost.Session

def dropWindow : Nat := 5000

def reconnectAttempts : Nat := 5

def reconnectDelay : Nat := 1000

def endReset (s : Session) (id : TaskId) (outcome : Outcome) : Session :=
  { s with resetLock := s.resetLock.leave id }.finish id outcome

def sleepBefore (s : Session) (id : TaskId) (attempt : Nat) : Session :=
  let due := s.agenda.now + reconnectDelay
  ((s.dropTimer id).suspend id (.reconnecting attempt due)).setTimer id due

def resetSent (s : Session) (id : TaskId) (wait lossSeen : Bool) : Session :=
  if !wait then s.endReset id .done
  else if lossSeen then s.sleepBefore id 1
  else
    let deadline := s.agenda.now + dropWindow
    (s.suspend id (.resetWaiting deadline false)).setTimer id deadline

def resumeResetSending (s : Session) (id : TaskId) (line : LineId) (wait lossSeen : Bool) :
    Session :=
  match s.proceedSend id line with
  | (s, none) => s.suspend id (.resetSending line wait lossSeen)
  | (s, some (.error cause)) => s.endReset id (.failed cause)
  | (s, some (.ok ())) => s.resetSent id wait lossSeen

/-- Sends the request of a reset that holds the reset lock. From here on it is told of a loss. -/
def sendReset (s : Session) (id : TaskId) (request : Frame) (wait : Bool) : Session :=
  match s.current with
  | none => s.endReset id (.failed .notConnected)
  | some line => (s.enterSend id line request).resumeResetSending id line wait false

def resumeResetGated (s : Session) (id : TaskId) (request : Frame) (wait : Bool) : Session :=
  if s.resetLock.holds id then s.sendReset id request wait else s

def startReset (s : Session) (id : TaskId) (option : Standard.ResetOption) (wait : Bool) :
    Session :=
  let (s, tsn) := s.takeTsn
  let built := Command.make Standard.moduleReset
    [("TSN", .uint tsn.toUInt64), ("Option", .uint option.code)]
  match built.bind Command.toFrame with
  | .error cause => s.finish id (.failed (.command cause))
  | .ok request =>
    let s := { s with resetLock := s.resetLock.join id }
    if s.resetLock.holds id then s.sendReset id request wait
    else s.suspend id (.resetGated request wait)

def resumeResetWaiting (s : Session) (id : TaskId) (deadline : Nat) (lossSeen : Bool) : Session :=
  if lossSeen then s.sleepBefore id 1
  else if deadline ≤ s.agenda.now then s.endReset id .done
  else s

/-- Goes on with a reset that connects again. The error of the last attempt is its own. -/
def resumeReconnecting (s : Session) (id : TaskId) (attempt due : Nat) : Session :=
  if s.agenda.now < due then s
  else
    match s.connect with
    | (s, .ok ()) => s.endReset id .done
    | (s, .error cause) =>
      if reconnectAttempts ≤ attempt then s.endReset id (.failed cause)
      else s.sleepBefore id (attempt + 1)

end NcpHost.Session
