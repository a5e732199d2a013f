import NcpHost.FairLock

/-!
The agenda of a single-threaded run: a clock in milliseconds, the workers that are ready, first come
first served and each at most once, and the times at which sleeping tasks are to be woken. Tasks
that are due at the same time are woken in the order in which they asked for it.
-/

namespace NcpHost

structure Agenda (ω : Type) where
  now : Nat
  ready : List ω
  /-- Times with the workers to wake then, in the order in which they were set. -/
  timers : List (Nat × ω)
  deriving Repr, Inhabited

namespace Agenda

variable {ω : Type} [BEq ω]

def start : Agenda ω := ⟨0, [], []⟩

/-- Puts a worker behind the ready ones, unless it is ready already. -/
def wake (a : Agenda ω) (w : ω) : Agenda ω :=
  if a.ready.contains w then a else { a with ready := a.ready ++ [w] }

def wakeAll (a : Agenda ω) (ws : List ω) : Agenda ω := ws.foldl wake a

theorem wakeAll_eq (a : Agenda ω) (ws : List ω) : ∃ ready, a.wakeAll ws = { a with ready := ready } := by
  induction ws generalizing a with
  | nil => exact ⟨a.ready, rfl⟩
  | cons w rest ih =>
    obtain ⟨ready, heq⟩ := ih (a.wake w)
    refine ⟨ready, heq.trans ?_⟩
    rw [wake]
    split <;> rfl

def setTimer (a : Agenda ω) (due : Nat) (w : ω) : Agenda ω :=
  { a with timers := a.timers ++ [(due, w)] }

def dropTimer (a : Agenda ω) (w : ω) : Agenda ω :=
  { a with timers := a.timers.filter fun (_, v) => v != w }

def nextDue (a : Agenda ω) : Option Nat := (a.timers.map (·.1)).min?

def elapse (a : Agenda ω) (time : Nat) : Agenda ω :=
  let due : List (Nat × ω) := a.timers.filter fun t => t.1 ≤ time
  let later : List (Nat × ω) := a.timers.filter fun t => time < t.1
  wakeAll { a with now := max a.now time, timers := later } (due.map (·.2))

end Agenda

end NcpHost
