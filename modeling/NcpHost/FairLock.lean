/-!
A lock that is granted in the order in which it was asked for. Leaving it hands it to the first of
those who wait, so it is free only when nobody waits.
-/

namespace NcpHost

abbrev TaskId := Nat

/-- Who holds the lock and who waits for it, the first in line first. -/
structure FairLock where
  holder : Option TaskId
  waiting : List TaskId
  deriving DecidableEq, Repr, Inhabited

namespace FairLock

def free : FairLock := ⟨none, []⟩

def holds (l : FairLock) (id : TaskId) : Bool := l.holder == some id

def isHeld (l : FairLock) : Bool := l.holder.isSome

def join (l : FairLock) (id : TaskId) : FairLock :=
  match l.holder with
  | none => { l with holder := some id }
  | some _ => { l with waiting := l.waiting ++ [id] }

def leave (l : FairLock) (id : TaskId) : FairLock :=
  if l.holder = some id then
    match l.waiting with
    | [] => free
    | next :: rest => ⟨some next, rest⟩
  else { l with waiting := l.waiting.filter (· != id) }

/-- Those who hold the lock or wait for it, in the order in which they get it. -/
def line (l : FairLock) : List TaskId := l.holder.toList ++ l.waiting

@[simp] theorem line_free : free.line = [] := rfl

theorem line_join (l : FairLock) (id : TaskId) (h : l.holder = none → l.waiting = []) :
    (l.join id).line = l.line ++ [id] := by
  unfold join line
  cases hl : l.holder with
  | none => simp [h hl]
  | some x => simp

theorem line_leave (l : FairLock) (id : TaskId) (h : l.line.Nodup) :
    (l.leave id).line = l.line.filter (· != id) := by
  unfold leave
  split
  · next hold =>
    have hline : l.line = id :: l.waiting := by simp [line, hold]
    rw [hline, List.nodup_cons] at h
    have hrest : l.waiting.filter (· != id) = l.waiting :=
      List.filter_eq_self.2 fun x hx => bne_iff_ne.2 fun e => h.1 (e ▸ hx)
    rw [hline, List.filter_cons_of_neg (by simp), hrest]
    split
    · next hw => simp [hw]
    · next hw => simp [line, hw]
  · next hold =>
    cases hl : l.holder with
    | none => simp [line, hl]
    | some x =>
      have hx : x ≠ id := fun e => hold (hl.trans (congrArg some e))
      simp [line, hl, hx]

end FairLock

end NcpHost
