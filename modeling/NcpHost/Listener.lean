import NcpHost.Command.Basic

/-!
Listeners: those that wait for commands. A one-shot listener is completed by one command, which it
leaves in a slot for whoever holds the receiving end; an indication listener names a callback that
is run for every command it matches. The kind `κ` of callbacks is left open.
-/

namespace NcpHost

/-- The number of a listener. Numbers are given out in order and never again. -/
abbrev ListenerId := Nat

/-- The place where a one-shot listener leaves its command. -/
structure Slot where
  content : Option Command
  /-- The listener may still leave a command here. -/
  armed : Bool
  /-- The receiving end still takes one. -/
  receiving : Bool
  deriving Repr, Inhabited

inductive Receipt where
  | pending
  | delivered (command : Command)
  | closed
  deriving Repr

namespace Slot

def fresh : Slot := ⟨none, true, true⟩

/-- A command left here would be received. -/
def live (s : Slot) : Bool := s.armed && s.receiving

/-- Leaves a command, if it would be received. Either way no other one can be left. -/
def offer (s : Slot) (c : Command) : Slot × Bool :=
  if s.live then (⟨some c, false, s.receiving⟩, true) else ({ s with armed := false }, false)

def disarm (s : Slot) : Slot := { s with armed := false }

/-- No command will be received any more, except one that is there already. -/
def close (s : Slot) : Slot := { s with receiving := false }

def peek (s : Slot) : Receipt :=
  match s.content with
  | some c => .delivered c
  | none => if s.live then .pending else .closed

def take (s : Slot) : Slot × Receipt := ({ s with content := none }, s.peek)

end Slot

/-- What an indication listener runs: at once while a command is dispatched, or as a task of its
own. -/
inductive Callback (κ : Type) where
  | inline (run : κ)
  | spawned (run : κ)
  deriving Repr

namespace Callback

variable {κ : Type}

def run : Callback κ → κ
  | inline k => k
  | spawned k => k

def render : Callback κ → String
  | inline _ => "IndicationCallback::Sync"
  | spawned _ => "IndicationCallback::Async"

end Callback

inductive Role (κ : Type) where
  | oneShot
  | indication (callback : Callback κ)
  deriving Repr

structure Listener (κ : Type) where
  patterns : List Command
  role : Role κ
  deriving Repr

namespace Listener

variable {κ : Type}

def isOneShot (l : Listener κ) : Bool :=
  match l.role with
  | .oneShot => true
  | .indication _ => false

def callback? (l : Listener κ) : Option (Callback κ) :=
  match l.role with
  | .oneShot => none
  | .indication callback => some callback

/-- The headers of the patterns, each once, in the order of their first appearance. -/
def headers (l : Listener κ) : List CommandHeader :=
  l.patterns.foldl (fun seen p => if p.header ∈ seen then seen else seen ++ [p.header]) []

def hears (l : Listener κ) (c : Command) : Bool := l.patterns.any fun p => p.covers c

/-- Answers a command: a one-shot listener is completed through its slot if it can be, an indication
listener just says whether it matches. -/
def resolve (l : Listener κ) (slot : Slot) (c : Command) : Slot × Bool :=
  if !l.hears c then (slot, false)
  else if l.isOneShot then slot.offer c
  else (slot, true)

def cancel (l : Listener κ) (slot : Slot) : Slot × Bool :=
  if l.isOneShot then (slot.disarm, true) else (slot, false)

end Listener

end NcpHost
