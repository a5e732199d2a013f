import NcpHost.Registry

/-!
What can be done to a registry, one act at a time and in any order: by those who register and remove
listeners, by the commands that arrive, and at the receiving ends of one-shot listeners. A future
that is cancelled or dropped does two of these acts.
-/

namespace NcpHost.Registry

variable {κ : Type}

inductive Act (κ : Type) where
  | register (listener : Listener κ)
  | unregister (id : ListenerId)
  | dispatch (command : Command)
  | clear
  | receive (id : ListenerId)
  | closeSlot (id : ListenerId)
  | forget (id : ListenerId)
  deriving Repr

def perform (r : Registry κ) : Act κ → Registry κ
  | .register l => (r.register l).1
  | .unregister id => r.unregister id
  | .dispatch c => (r.dispatch c).1
  | .clear => r.clear
  | .receive id => (r.receive id).1
  | .closeSlot id => r.closeSlot id
  | .forget id => r.forget id

def run (r : Registry κ) (acts : List (Act κ)) : Registry κ := acts.foldl perform r

@[simp] theorem run_nil (r : Registry κ) : r.run [] = r := rfl

@[simp] theorem run_cons (r : Registry κ) (act : Act κ) (acts : List (Act κ)) :
    r.run (act :: acts) = (r.perform act).run acts := rfl

theorem run_append (r : Registry κ) (before after : List (Act κ)) :
    r.run (before ++ after) = (r.run before).run after := by
  simp [run, List.foldl_append]

def registered (acts : List (Act κ)) : List (Listener κ) :=
  acts.filterMap fun
    | .register l => some l
    | _ => none

end NcpHost.Registry
