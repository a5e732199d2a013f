import Mathlib.Logic.Relation
import NcpHost.Proofs.Link.Sends
import NcpHost.Proofs.Session.Reception
import NcpHost.Session.Act

/-! What an act is made of. Each act is a few small steps, and after every one of them each task is at
a stage that says what it waits for: a request registers its listener and gets in line, its fragments
go to the link one by one, and an answer is taken or not. Whatever every step keeps, every run keeps. -/

namespace NcpHost.Session

def Stage.exchange? : Stage → Option Exchange
  | gated e _ => some e
  | sending e _ => some e
  | answering e _ => some e
  | _ => none

def Stage.seat? : Stage → Option LineId
  | sending e _ => some e.line
  | resetSending line _ _ => some line
  | _ => none

def Stage.waits? : Stage → Option ListenerId
  | waiting listener => some listener
  | fresh (.wait listener) => some listener
  | _ => none

def Stage.isFresh : Stage → Bool
  | fresh _ => true
  | _ => false

def Stage.Plain (t : Stage) : Prop := t.exchange? = none ∧ t.seat? = none

def sendNext (s : Session) (id : TaskId) (e : Exchange) : List Frame → Session
  | [] => s.suspend id (.answering e (s.agenda.now + e.timeout))
  | frame :: rest => (s.enterSend id e.line frame).suspend id (.sending e rest)

def passSend (s : Session) (id : TaskId) (line : LineId) (l : Line) (link : Link) : Session :=
  { s.modifyLine line fun l => { l with link := link } with
    log := s.log ++ (link.outgoing.drop l.link.outgoing.length).map (.sent id line) }

inductive Sends (id : TaskId) (line : LineId) (s : Session) :
    Session → Option (Except Fault Unit) → Prop where
  | stray : s.line? line = none → Sends id line s s (some (.error .notConnected))
  | goes {l : Line} {link : Link} {result : Option (Except Fault Unit)} :
    s.line? line = some l → l.link.Proceeds id s.agenda.now link result →
    Sends id line s (s.passSend id line l link) result

inductive Finds (s : Session) (e : Exchange) (deadline : Nat) : Except Fault Command → Prop where
  | answer {c : Command} : s.registry.peek e.listener = .delivered c → Finds s e deadline (.ok c)
  | cancelled : s.registry.peek e.listener = .closed → Finds s e deadline (.error .cancelled)
  | timeout : s.registry.peek e.listener = .pending → deadline ≤ s.agenda.now →
    Finds s e deadline (.error .timeout)

inductive Receives (s : Session) (listener : ListenerId) : Outcome → Prop where
  | answer {c : Command} : s.registry.peek listener = .delivered c →
    Receives s listener (.response c)
  | cancelled : s.registry.peek listener = .closed → Receives s listener (.failed .cancelled)

inductive Asks : Job → Purpose → Command → Prop where
  | request (c : Command) (timeout : Nat) : Asks (.request c timeout) .response c
  | version (c : Command) : Asks .version .version c

inductive Move (id : TaskId) (s : Session) : Session → Prop where
  | leave {t : Stage} {outcome : Outcome} : s.task? id = some t → t.Plain →
    (∀ c timeout, t = .fresh (.request c timeout) →
      ∃ cause, s.prepare c = .error cause ∧ outcome = .failed cause) → t.waits? = none →
    Move id s (s.finish id outcome)
  | call {t : Stage} {name text : String} : s.task? id = some t → t.Plain →
    (∀ c timeout, t ≠ .fresh (.request c timeout)) → t.waits? = none →
    Move id s ((s.dropTask id).record (.callback name text))
  | rest {t t' : Stage} : s.task? id = some t → t.Plain →
    (∀ c timeout, t ≠ .fresh (.request c timeout)) → t'.Plain → t'.isFresh = false →
    t'.waits? = t.waits? → (∀ k, t.waits? = some k → s.registry.peek k = .pending) →
    Move id s (s.suspend id t')
  | receive {t : Stage} {listener : ListenerId} {outcome : Outcome} : s.task? id = some t →
    t.waits? = some listener → Receives s listener outcome →
    Move id s ({ s with registry := s.registry.release listener }.finish id outcome)
  | issue {job : Job} {purpose : Purpose} {c pattern : Command} {line : LineId} {packet : Packet}
    (timeout : Nat) : s.task? id = some (.fresh job) → Asks job purpose c →
    s.prepare c = .ok (pattern, line, packet) → c.isBlocking = false →
    Move id s ({ s with registry := (s.registry.await [pattern]).1 }.sendNext id
      ⟨purpose, line, s.registry.nextId, timeout⟩ (Fragment.split packet Frame.bodyLimit))
  | gate {job : Job} {purpose : Purpose} {c pattern : Command} {line : LineId} {packet : Packet}
    (timeout : Nat) : s.task? id = some (.fresh job) → Asks job purpose c →
    s.prepare c = .ok (pattern, line, packet) → c.isBlocking = true →
    Move id s ({ s with
        registry := (s.registry.await [pattern]).1
        blockingLock := s.blockingLock.join id }.suspend id
      (.gated ⟨purpose, line, s.registry.nextId, timeout⟩ (Fragment.split packet Frame.bodyLimit)))
  | pass {e : Exchange} {frames : List Frame} : s.task? id = some (.gated e frames) →
    s.blockingLock.holds id = true → Move id s (s.sendNext id e frames)
  | write {t : Stage} {line : LineId} {s' : Session} : s.task? id = some t → t.seat? = some line →
    Sends id line s s' none → Move id s s'
  | next {e : Exchange} {unsent : List Frame} {s' : Session} :
    s.task? id = some (.sending e unsent) → Sends id e.line s s' (some (.ok ())) →
    Move id s (s'.sendNext id e unsent)
  | fail {e : Exchange} {unsent : List Frame} {s' : Session} {cause : Fault} :
    s.task? id = some (.sending e unsent) → Sends id e.line s s' (some (.error cause)) →
    Move id s (s'.endExchange id e (.error cause))
  | take {e : Exchange} {deadline : Nat} {result : Except Fault Command} :
    s.task? id = some (.answering e deadline) → Finds s e deadline result →
    Move id s (s.endExchange id e result)
  | enterReset {t : Stage} {line : LineId} {request : Frame} (wait : Bool) : s.task? id = some t →
    (∃ option, t = .fresh (.reset option wait)) ∨ t = .resetGated request wait →
    s.current = some line →
    Move id s ((s.enterSend id line request).suspend id (.resetSending line wait false))
  | passReset {line : LineId} {wait lossSeen : Bool} {s' : Session} {result : Except Fault Unit}
    {t : Stage} : s.task? id = some (.resetSending line wait lossSeen) →
    Sends id line s s' (some result) → t.Plain → t.isFresh = false → t.waits? = none →
    Move id s (s'.suspend id t)
  | endReset {line : LineId} {wait lossSeen : Bool} {s' : Session} {result : Except Fault Unit}
    {o : Outcome} : s.task? id = some (.resetSending line wait lossSeen) →
    Sends id line s s' (some result) → Move id s (s'.finish id o)

structure Quiet (s s' : Session) : Prop where
  registry : s'.registry = s.registry
  lines : s'.lines = s.lines
  generation : s'.generation = s.generation
  current : s'.current = s.current
  blockingLock : s'.blockingLock = s.blockingLock
  task? : ∀ id, s'.task? id = s.task? id
  nextTask : s'.nextTask = s.nextTask
  log : s'.log = s.log
  now : s.agenda.now ≤ s'.agenda.now

/-- A link that goes on: bytes come and go, and acknowledgements arrive. -/
inductive Tended (l : Link) : Link → Prop where
  | same {l' : Link} : l'.sends = l.sends → l'.sendLock = l.sendLock → l'.waiter = l.waiter →
    l'.closed = l.closed → l'.outlet = l.outlet → l'.ackTimeout = l.ackTimeout → Tended l l'
  | heard (frame : Frame) : Tended l (l.accept frame).1

def Shut (s : Session) : Prop :=
  ∀ id l, s.current = some id → s.line? id = some l → l.link.closed = true

def Event.isNote : Event → Bool
  | .callback _ _ => true
  | .hook _ _ => true
  | _ => false

/-- What happens besides the moves of tasks and besides commands, while lines stay as they are. -/
inductive Ripple (s : Session) : Session → Prop where
  | quiet {s' : Session} : Quiet s s' → Ripple s s'
  | note {e : Event} : e.isNote = true → Ripple s (s.record e)
  | spawn (deed : Deed) (text : String) : Ripple s (s.spawn (.callback deed text)).1
  | upkeep {line : LineId} {f : Line → Line} :
    (∀ l, s.line? line = some l → Tended l.link (f l).link) → Ripple s (s.modifyLine line f)

inductive Switch (s : Session) : Session → Prop where
  | shut {line : LineId} {f : Line → Line} :
    (∀ l, s.line? line = some l → (f l).link = l.link.close) → Switch s (s.modifyLine line f)
  | stopWriting {line : LineId} :
    (∀ l, s.line? line = some l → l.link.closed = true ∨ s.holds line = false) →
    Switch s (s.modifyLine line Line.stopWriting)
  | addLine (ackTimeout : Nat) : s.Shut → Switch s { s with
      generation := s.generation + 1
      lines := s.lines ++ [(s.generation + 1, .new ackTimeout)]
      current := some (s.generation + 1) }
  | unuse : s.Shut → Switch s { s with current := none }
  | noticeLoss : Switch s { s with
      tasks := s.tasks.map fun (e : TaskId × Stage) => (e.1, e.2.noticeLoss) }
  | clear : s.current = none → Switch s { s with registry := s.registry.clear }

/-- In the turn of a task, lines are left alone unless it is a reset that connects again. -/
def MaySwitch (act : Act) (s : Session) : Prop :=
  ∀ id, act = .turn (.task id) → ∃ attempt due, s.task? id = some (.reconnecting attempt due)

inductive Step (act : Act) (s : Session) : Session → Prop where
  | ripple {s' : Session} : Ripple s s' → Step act s s'
  | switch {s' : Session} : MaySwitch act s → Switch s s' → Step act s s'
  | start (job : Job) : act = .start job → Step act s (s.spawn job).1
  | await (patterns : List Command) : act = .await patterns →
    Step act s { s with registry := (s.registry.await patterns).1 }
  | subscribe (patterns : List Command) (callback : Callback Deed) :
    act = .subscribe patterns callback →
    Step act s { s with registry := (s.registry.subscribe patterns callback).1 }
  | remove (listener : ListenerId) : act = .remove listener →
    Step act s { s with registry := s.registry.unregister listener }
  | cancel (listener : ListenerId) : act = .cancel listener →
    Step act s { s with registry := s.registry.cancel listener }
  | release (listener : ListenerId) : act = .release listener →
    Step act s { s with registry := s.registry.release listener }
  | move {id : TaskId} {s' : Session} : act = .turn (.task id) → Move id s s' → Step act s s'
  | abort (id : TaskId) : act = .abort id → Step act s (s.abort id)
  | offer (line : LineId) (c : Command) : act = .turn (.reader line) →
    Step act s ({ s with registry := (s.registry.dispatch c).1 }.record (.dispatched c))

abbrev Steps (act : Act) : Session → Session → Prop := Relation.ReflTransGen (Step act)

end NcpHost.Session
