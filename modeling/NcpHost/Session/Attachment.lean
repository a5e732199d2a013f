import NcpHost.Session.Basic

/-!
How lines come and go. A session uses at most one line; a new one closes the one before it. A line
whose stream ends or fails is left, and whoever has asked for it is told; a session that disconnects
by itself cancels its listeners instead, except while a reset is on its way.
-/

namespace NcpHost.Session

/-- A line was lost. Only the line in use matters. Resets are told, and, outside of a reset, the
hook. -/
def leaveLine (s : Session) (id : LineId) (cause : Option Fault) : Session :=
  if s.current ≠ some id then s
  else
    let s := { s with
      current := none
      fragments := []
      state := .disconnected
      tasks := s.tasks.map fun (e : TaskId × Stage) => (e.1, e.2.noticeLoss) }
    match s.resetLock.isHeld, s.hook with
    | false, some name => s.record (.hook name cause)
    | _, _ => s

/-- The stream of a line ended or failed: its link is closed, and its user told if it has one. -/
def loseLine (s : Session) (id : LineId) (cause : Option Fault) : Session :=
  match s.line? id with
  | none => s
  | some l =>
    let s := s.modifyLine id fun l => { l with link := l.link.close }
    if l.link.inUse then s.leaveLine id cause else s

def closeCurrent (s : Session) : Session :=
  match s.current with
  | some id => s.modifyLine id Line.close
  | none => s

/-- Runs the session over a new stream. The line that was in use is closed. -/
def attach (s : Session) : Session × LineId :=
  let id := s.generation + 1
  let s := s.closeCurrent
  ({ s with
    generation := id
    lines := s.lines ++ [(id, .new s.config.ackTimeout.toNat)]
    current := some id
    fragments := []
    state := .connected }, id)

/-- Closes the line in use, and, outside of a reset, cancels every listener and drops the hook. -/
def disconnect (s : Session) : Session :=
  let s := if s.resetLock.isHeld then s
    else { s with hook := none, registry := s.registry.clear }
  { s.closeCurrent with current := none, fragments := [], state := .disconnected }

def connect (s : Session) : Session × Except Fault Unit :=
  if s.isConnected then (s, .error (.connectFailed .alreadyConnected))
  else if s.deviceOpens then (s.attach.1, .ok ())
  else ({ s.disconnect with state := .error }, .error (s.config.openFault?.getD .device))

end NcpHost.Session
