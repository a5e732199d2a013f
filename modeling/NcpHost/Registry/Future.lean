import NcpHost.Registry.Act

/-!
Futures on a registry, by what their holders and everybody else can do, one act at a time and in any
order. A future is issued with a one-shot listener; it is polled, cancelled and dropped by whoever
holds it, and its listener can be removed by its number or with all others.
-/

namespace NcpHost.Registry

variable {κ : Type}

inductive FutureAct (κ : Type) where
  | issue (patterns : List Command)
  | subscribe (patterns : List Command) (callback : Callback κ)
  | dispatch (command : Command)
  | poll (id : ListenerId)
  | cancel (id : ListenerId)
  | remove (id : ListenerId)
  | clear
  | drop (id : ListenerId)
  deriving Repr

namespace FutureAct

/-- What the act comes down to at the registry and at the receiving ends. -/
def parts : FutureAct κ → List (Act κ)
  | issue patterns => [.register ⟨patterns, .oneShot⟩]
  | subscribe patterns callback => [.register ⟨patterns, .indication callback⟩]
  | dispatch c => [.dispatch c]
  | poll id => [.receive id]
  | cancel id => [.unregister id, .closeSlot id]
  | remove id => [.unregister id]
  | clear => [.clear]
  | drop id => [.unregister id, .forget id]

/-- After this act the future of this number waits no more, whoever still holds it. -/
def withdraws (id : ListenerId) : FutureAct κ → Bool
  | cancel k => k == id
  | remove k => k == id
  | clear => true
  | _ => false

end FutureAct

def use (r : Registry κ) : FutureAct κ → Registry κ
  | .issue patterns => (r.await patterns).1
  | .subscribe patterns callback => (r.subscribe patterns callback).1
  | .dispatch c => (r.dispatch c).1
  | .poll id => (r.receive id).1
  | .cancel id => r.cancel id
  | .remove id => r.unregister id
  | .clear => r.clear
  | .drop id => r.release id

def useAll (r : Registry κ) (acts : List (FutureAct κ)) : Registry κ := acts.foldl use r

@[simp] theorem useAll_cons (r : Registry κ) (act : FutureAct κ) (acts : List (FutureAct κ)) :
    r.useAll (act :: acts) = (r.use act).useAll acts := rfl

theorem useAll_append (r : Registry κ) (before after : List (FutureAct κ)) :
    r.useAll (before ++ after) = (r.useAll before).useAll after := by
  simp [useAll, List.foldl_append]

theorem use_eq_run (r : Registry κ) (act : FutureAct κ) : r.use act = r.run act.parts := by
  cases act <;> rfl

theorem useAll_eq_run (r : Registry κ) (acts : List (FutureAct κ)) :
    r.useAll acts = r.run (acts.flatMap FutureAct.parts) := by
  induction acts generalizing r with
  | nil => rfl
  | cons act rest ih => rw [useAll_cons, ih, use_eq_run, List.flatMap_cons, run_append]

end NcpHost.Registry
