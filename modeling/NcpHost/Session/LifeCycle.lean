import NcpHost.Session.Act

/-!
The life of a session and its lines. Besides what is done to a session, the stream of any line that
was ever attached may report that it ended or failed, at any time and more than once, the session may
hear of it late, and the device comes and goes.
-/

namespace NcpHost.Session

inductive Happening where
  | act (act : Act)
  | report (line : LineId) (cause : Option Fault)
  /-- A link without a user had told its user of the end before, and the session hears of it only
  now. -/
  | late (line : LineId) (cause : Option Fault)
  | device (opens : Bool)
  deriving Repr

/-- The line whose stream it comes from: a report, a fault to come, or the turn of a reader or
writer, who finds them. -/
def Happening.line? : Happening → Option LineId
  | report line _ => some line
  | late line _ => some line
  | act (.hangUp line) => some line
  | act (.breakReading line) => some line
  | act (.breakWriting line) => some line
  | act (.turn (.reader line)) => some line
  | act (.turn (.writer line)) => some line
  | _ => none

def happen (s : Session) : Happening → Session
  | .act act => (s.perform act).1
  | .report line cause => s.loseLine line cause
  | .late line cause =>
    match s.line? line with
    | some l => if l.link.inUse then s else s.leaveLine line cause
    | none => s
  | .device opens => { s with deviceOpens := opens }

def happenAll (s : Session) (hs : List Happening) : Session := hs.foldl happen s

@[simp] theorem happenAll_nil (s : Session) : s.happenAll [] = s := rfl

@[simp] theorem happenAll_cons (s : Session) (h : Happening) (hs : List Happening) :
    s.happenAll (h :: hs) = (s.happen h).happenAll hs := rfl

theorem happenAll_append (s : Session) (before after : List Happening) :
    s.happenAll (before ++ after) = (s.happenAll before).happenAll after := by
  simp [happenAll, List.foldl_append]

theorem happenAll_concat (s : Session) (before : List Happening) (h : Happening) :
    s.happenAll (before ++ [h]) = (s.happenAll before).happen h := by
  rw [happenAll_append, happenAll_cons, happenAll_nil]

def Event.isHook : Event → Bool
  | .hook _ _ => true
  | _ => false

def hooks (s : Session) : List Event := s.log.filter Event.isHook

end NcpHost.Session
