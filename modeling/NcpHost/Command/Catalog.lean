import NcpHost.Command.Standard

/-!
The definitions that received headers are looked up in. A definition is found by kind and id, never
by version, and a later one takes the place of an earlier one.
-/

namespace NcpHost

/-- What a catalog tells commands apart by. -/
structure CommandKey where
  kind : Kind
  id : UInt16
  deriving DecidableEq, Repr

def CommandHeader.key (h : CommandHeader) : CommandKey := ⟨h.kind, h.id⟩

structure Catalog where
  entries : List (CommandKey × Definition)
  deriving Repr, Inhabited

namespace Catalog

def empty : Catalog := ⟨[]⟩

def insert (c : Catalog) (d : Definition) : Catalog :=
  ⟨(d.header.key, d) :: c.entries.filter fun (k, _) => k != d.header.key⟩

/-- Adds a definition and then its response, if it has one. -/
def register (c : Catalog) (d : Definition) : Catalog :=
  match d.response with
  | some response => (c.insert d).insert response
  | none => c.insert d

def lookup? (c : Catalog) (h : CommandHeader) : Option Definition :=
  (c.entries.find? fun (k, _) => k == h.key).map (·.2)

def size (c : Catalog) : Nat := c.entries.length

def standard : Catalog := Standard.all.foldl register empty

theorem lookup?_insert (c : Catalog) (d : Definition) (h : CommandHeader) :
    (c.insert d).lookup? h = if d.header.key = h.key then some d else c.lookup? h := by
  unfold lookup? insert
  by_cases hk : d.header.key = h.key
  · simp [hk]
  · rw [if_neg hk, List.find?_cons_of_neg (by simpa using hk), List.find?_filter]
    refine congrArg (fun p => (c.entries.find? p).map (·.2)) (funext fun entry => ?_)
    by_cases he : entry.1 = h.key
    · simp [he, Ne.symm hk]
    · simp [he]

end Catalog

end NcpHost
