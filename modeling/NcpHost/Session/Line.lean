import NcpHost.Link.Basic

/-!
A line: a link and the stream it runs over. A reader takes what arrives and gives it to the link; a
writer takes what the link has written and passes it on. Either ends when its side of the stream
does, and the stream is open as long as one of them is there.
-/

namespace NcpHost.Session

/-- A link, its stream, and the reader and writer between them. -/
structure Line where
  link : Link
  inbound : List UInt8
  hungUp : Bool
  readFault : Bool
  writeFault : Bool
  reading : Bool
  writing : Bool
  /-- Bytes that the far end got. -/
  passed : List UInt8
  deriving Repr

namespace Line

def new (ackTimeout : Nat) : Line :=
  ⟨.new ackTimeout, [], false, false, false, true, true, []⟩

def isOpen (l : Line) : Bool := l.reading || l.writing

/-- There is something for the reader: bytes, the end, or a fault. -/
def readable (l : Line) : Bool := l.reading && (!l.inbound.isEmpty || l.hungUp || l.readFault)

def writable (l : Line) (held : Bool) : Bool := l.writing && (!l.link.outgoing.isEmpty || !held)

def stopReading (l : Line) : Line := { l with reading := false }

/-- The writer is gone, and what the link writes from now on goes nowhere. -/
def stopWriting (l : Line) : Line := { l with writing := false, link := l.link.dropOutlet }

def close (l : Line) : Line := { l with link := l.link.close }.stopReading.stopWriting

def flush (l : Line) : Line :=
  { l with
    link := { l.link with outgoing := [] }
    passed := l.passed ++ l.link.outgoing.flatten }

end Line

end NcpHost.Session
