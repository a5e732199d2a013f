import NcpHost.Session.Basic

/-!
What arrives in a session: fragments are collected to packets, packets are read as commands, and
commands are dispatched to the listeners, whose callbacks are run in order.
-/

namespace NcpHost.Session

/-- Collects the fragments of a packet: a first fragment drops what is left of an incomplete packet,
and a last one completes the packet. Fragments that make no packet are dropped. -/
def collect (fragments : List Frame) (frame : Frame) : List Frame × Option Packet :=
  let earlier := if frame.header.flags.isFirst then [] else fragments
  if !frame.header.flags.isLast then (earlier ++ [frame], none)
  else if earlier.isEmpty then ([], frame.packet)
  else ([], (Fragment.merge (earlier ++ [frame])).toOption)

def readCommand? (catalog : Catalog) (packet : Packet) : Option Command :=
  match packet.header.bind catalog.lookup? with
  | some d => (Command.ofPacket d packet).toOption
  | none => none

/-- Runs a callback, and says whether it let a crash escape. Failures and crashes of one that runs
at once stay with it; one with a task of its own is left to that task, if it gets as far. -/
def invoke (s : Session) (callback : Callback Deed) (c : Command) : Session × Bool :=
  match callback with
  | .inline deed =>
    let s := s.record (.callback deed.name c.render)
    match deed.ending with
    | .returns => (s, false)
    | .fails => (s.warn (.failed c.render), false)
    | .crashes => (s.warn (.crashed c.render), false)
  | .spawned deed =>
    if deed.crashesAtCall then (s.record (.callback deed.name c.render), true)
    else ((s.spawn (.callback deed c.render)).1, false)

theorem invoke_inline (s : Session) (deed : Deed) (c : Command) :
    ∃ warnings, s.invoke (.inline deed) c
      = ({ s.record (.callback deed.name c.render) with warnings := warnings }, false) := by
  rw [invoke]
  cases deed.ending with
  | returns => exact ⟨s.warnings, rfl⟩
  | fails => exact ⟨s.warnings ++ [.failed c.render], rfl⟩
  | crashes => exact ⟨s.warnings ++ [.crashed c.render], rfl⟩

def invokeAll (s : Session) (c : Command) : List (Callback Deed) → Session × Bool
  | [] => (s, false)
  | callback :: rest =>
    match s.invoke callback c with
    | (s, true) => (s, true)
    | (s, false) => s.invokeAll c rest

def deliver (s : Session) (c : Command) : Session × Bool :=
  let (registry, d) := s.registry.dispatch c
  ({ s with registry := registry }.record (.dispatched c)).invokeAll c d.callbacks

def receiveFrame (s : Session) (frame : Frame) : Session × Bool :=
  let (fragments, packet) := collect s.fragments frame
  let s := { s with fragments := fragments }
  match packet.bind (readCommand? s.catalog) with
  | some c => s.deliver c
  | none => (s, false)

/-- Frames that arrived on a line go to its link one by one, and what the link hands on goes to the
session. A crash that escapes from a callback ends the reader, with the frames behind it unseen. -/
def acceptFrames (s : Session) (id : LineId) : List Frame → Session
  | [] => s
  | frame :: rest =>
    match s.line? id with
    | none => s
    | some l =>
      let (link, handed) := l.link.accept frame
      let s := s.modifyLine id fun l => { l with link := link }
      let (s, escaped) := match handed with
        | some f => s.receiveFrame f
        | none => (s, false)
      let s := s.wakeRunnable
      if escaped then s.modifyLine id Line.stopReading else s.acceptFrames id rest

def receiveBytes (s : Session) (id : LineId) (bytes : List UInt8) : Session :=
  match s.line? id with
  | none => s
  | some l =>
    let (link, frames) := l.link.extract bytes
    (s.modifyLine id fun l => { l with link := link }).acceptFrames id frames

end NcpHost.Session
