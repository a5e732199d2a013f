import NcpHost.Listener

/-!
The registry of listeners. Every listener stands, in order of registration, in the bucket of each
header among its patterns; a command is offered to the bucket of its own header, version included.
One command completes at most one one-shot listener, the first that can still be completed, and runs
the callback of every indication listener that matches.
-/

namespace NcpHost

/-- Registered listeners, the buckets they stand in, and the slots of one-shot listeners whose
receiving end is still held, registered or not. -/
structure Registry (κ : Type) where
  nextId : ListenerId
  listeners : List (ListenerId × Listener κ)
  buckets : List (CommandHeader × List ListenerId)
  slots : List (ListenerId × Slot)
  deriving Repr

structure Dispatch (κ : Type) where
  completed : Option ListenerId
  callbacks : List (Callback κ)
  deriving Repr

namespace Dispatch

variable {κ : Type}

def nothing : Dispatch κ := ⟨none, []⟩

def matched (d : Dispatch κ) : Bool := d.completed.isSome || !d.callbacks.isEmpty

end Dispatch

namespace Registry

variable {κ : Type}

def empty : Registry κ := ⟨0, [], [], []⟩

def size (r : Registry κ) : Nat := r.listeners.length

def listener? (r : Registry κ) (id : ListenerId) : Option (Listener κ) := r.listeners.lookup id

def bucket (r : Registry κ) (h : CommandHeader) : List ListenerId := (r.buckets.lookup h).getD []

/-- The slot of a one-shot listener; one that is not held any more receives nothing. -/
def slot (r : Registry κ) (id : ListenerId) : Slot :=
  (r.slots.lookup id).getD ⟨none, false, false⟩

def enlist (id : ListenerId) (h : CommandHeader) :
    List (CommandHeader × List ListenerId) → List (CommandHeader × List ListenerId)
  | [] => [(h, [id])]
  | (k, ids) :: rest => if k = h then (k, ids ++ [id]) :: rest else (k, ids) :: enlist id h rest

theorem lookup_enlist (id : ListenerId) (h k : CommandHeader)
    (buckets : List (CommandHeader × List ListenerId)) :
    ((enlist id h buckets).lookup k).getD [] =
      if k = h then (buckets.lookup k).getD [] ++ [id] else (buckets.lookup k).getD [] := by
  induction buckets with
  | nil =>
    by_cases hk : k = h
    · simp [enlist, hk]
    · simp [enlist, hk, List.lookup_cons, beq_false_of_ne hk]
  | cons entry rest ih =>
    obtain ⟨j, ids⟩ := entry
    unfold enlist
    by_cases hj : j = h
    · subst hj
      by_cases hk : k = j
      · simp [hk]
      · simp [hk, List.lookup_cons, beq_false_of_ne hk]
    · by_cases hk : k = j
      · subst hk
        simp [hj]
      · simp [hj, List.lookup_cons, beq_false_of_ne hk, ih]

/-- Takes a listener out of the bucket of a header, and drops the bucket if it is empty then. -/
def delist (id : ListenerId) (h : CommandHeader) :
    List (CommandHeader × List ListenerId) → List (CommandHeader × List ListenerId)
  | [] => []
  | (k, ids) :: rest =>
    if k = h then
      let others := ids.filter (· != id)
      if others.isEmpty then rest else (k, others) :: rest
    else (k, ids) :: delist id h rest

def modifySlot (r : Registry κ) (id : ListenerId) (f : Slot → Slot) : Registry κ :=
  { r with slots := r.slots.map fun (k, s) => if k = id then (k, f s) else (k, s) }

def register (r : Registry κ) (l : Listener κ) : Registry κ × ListenerId :=
  let id := r.nextId
  ({ nextId := id + 1
     listeners := r.listeners ++ [(id, l)]
     buckets := l.headers.foldl (fun buckets h => enlist id h buckets) r.buckets
     slots := if l.isOneShot then r.slots ++ [(id, .fresh)] else r.slots }, id)

/-- Removes a listener; nothing happens if it is gone already. What its slot holds stays there. -/
def unregister (r : Registry κ) (id : ListenerId) : Registry κ :=
  match r.listener? id with
  | none => r
  | some l =>
    { r.modifySlot id Slot.disarm with
      listeners := r.listeners.filter fun (k, _) => k != id
      buckets := l.headers.foldl (fun buckets h => delist id h buckets) r.buckets }

def clear (r : Registry κ) : Registry κ :=
  let cancelled := r.listeners.foldl
    (fun r (id, l) => r.modifySlot id fun slot => (l.cancel slot).1) r
  { r with listeners := [], buckets := [], slots := cancelled.slots }

def resolve (r : Registry κ) (id : ListenerId) (l : Listener κ) (c : Command) : Registry κ × Bool :=
  (r.modifySlot id fun slot => (l.resolve slot c).1, (l.resolve (r.slot id) c).2)

/-- Offers a command to the listeners of a bucket in turn. Once a one-shot listener has been
completed, the later ones are passed over. -/
def offerAll (c : Command) (r : Registry κ) : List ListenerId → Dispatch κ →
    Registry κ × Dispatch κ
  | [], d => (r, d)
  | id :: rest, d =>
    match r.listener? id with
    | none => offerAll c r rest d
    | some l =>
      match l.role with
      | .oneShot =>
        if d.completed.isSome then offerAll c r rest d
        else
          let (r, resolved) := r.resolve id l c
          offerAll c r rest (if resolved then { d with completed := some id } else d)
      | .indication callback =>
        let (r, resolved) := r.resolve id l c
        offerAll c r rest
          (if resolved then { d with callbacks := d.callbacks ++ [callback] } else d)

/-- Offers a command to the listeners under its header. The one-shot listener that it completes is
removed. -/
def dispatch (r : Registry κ) (c : Command) : Registry κ × Dispatch κ :=
  let (r, d) := offerAll c r (r.bucket c.header) .nothing
  match d.completed with
  | some id => (r.unregister id, d)
  | none => (r, d)

def await (r : Registry κ) (patterns : List Command) : Registry κ × ListenerId :=
  r.register ⟨patterns, .oneShot⟩

def subscribe (r : Registry κ) (patterns : List Command) (callback : Callback κ) :
    Registry κ × ListenerId :=
  r.register ⟨patterns, .indication callback⟩

def peek (r : Registry κ) (id : ListenerId) : Receipt := (r.slot id).peek

def receive (r : Registry κ) (id : ListenerId) : Registry κ × Receipt :=
  (r.modifySlot id fun s => s.take.1, r.peek id)

def closeSlot (r : Registry κ) (id : ListenerId) : Registry κ := r.modifySlot id Slot.close

/-- Cancels a future: its listener is removed. A command that it got before may still be taken. -/
def cancel (r : Registry κ) (id : ListenerId) : Registry κ := (r.unregister id).closeSlot id

/-- Gives up the receiving end; the listener stays, but nothing completes it any more. -/
def forget (r : Registry κ) (id : ListenerId) : Registry κ :=
  { r with slots := r.slots.filter fun (k, _) => k != id }

def release (r : Registry κ) (id : ListenerId) : Registry κ := (r.unregister id).forget id

end Registry

end NcpHost
