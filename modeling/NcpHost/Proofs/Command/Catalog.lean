import Mathlib.Data.List.Induction
import NcpHost.Command.Catalog
import NcpHost.Proofs.Command.Matching
import NcpHost.Proofs.Command.RoundTrip

/-! What a catalog finds under a header. Whatever was registered, and however often something was
put in the place of something else, it is the last definition of that kind and id that came in. A
packet is read by kind and id as well, so that no packet is held against the definition that was
found for its header. -/

namespace NcpHost

namespace Catalog

def insertions (registered : List Definition) : List Definition :=
  registered.flatMap fun d => d :: d.response.toList

/-- How a catalog comes about, with the definitions that came in on the way, in order. -/
inductive Filled : Catalog → List Definition → Prop where
  | empty : Filled .empty []
  | standard : Filled .standard (insertions Standard.all)
  | register {c : Catalog} {inserted : List Definition} (d : Definition) :
    Filled c inserted → Filled (c.register d) (inserted ++ insertions [d])

theorem register_eq (c : Catalog) (d : Definition) :
    c.register d = (insertions [d]).foldl insert c := by
  rw [register]
  cases h : d.response <;> simp [insertions, h]

theorem foldl_register (c : Catalog) (registered : List Definition) :
    registered.foldl register c = (insertions registered).foldl insert c := by
  have hstep : register = fun c d => (insertions [d]).foldl insert c :=
    funext fun c => funext fun d => register_eq c d
  rw [hstep]
  simp only [insertions, List.foldl_flatMap, List.flatMap_singleton]

theorem Filled.eq_foldl {c : Catalog} {inserted : List Definition} (h : Filled c inserted) :
    c = inserted.foldl insert .empty := by
  induction h with
  | empty => rfl
  | standard => exact foldl_register .empty Standard.all
  | register d _ ih => rw [List.foldl_append, ← ih, register_eq]

theorem key_eq_iff {a b : CommandHeader} : a.key = b.key ↔ a.names b = true := by
  rw [CommandHeader.names_iff]
  simp [CommandHeader.key]

theorem lookup?_foldl_insert (inserted : List Definition) (h : CommandHeader) :
    (inserted.foldl insert .empty).lookup? h = inserted.reverse.find? (·.header.names h) := by
  induction inserted using List.reverseRecOn with
  | nil => rfl
  | append_singleton earlier d ih =>
    rw [List.foldl_append, List.foldl_cons, List.foldl_nil, lookup?_insert, List.reverse_append,
      List.reverse_singleton, List.singleton_append, List.find?_cons, ih]
    simp only [key_eq_iff]
    cases d.header.names h <;> simp

/-- The last definition that a header names, whatever their versions. -/
def LastNamed (inserted : List Definition) (h : CommandHeader) (d : Definition) : Prop :=
  ∃ before after, inserted = before ++ d :: after ∧ d.header.names h = true
    ∧ ∀ e ∈ after, e.header.names h = false

theorem Filled.lookup?_eq_some_iff {c : Catalog} {inserted : List Definition}
    (hc : Filled c inserted) (h : CommandHeader) (d : Definition) :
    c.lookup? h = some d ↔ LastNamed inserted h d := by
  rw [hc.eq_foldl, lookup?_foldl_insert, List.find?_eq_some_iff_append]
  constructor
  · rintro ⟨hd, after, before, hsplit, hlater⟩
    refine ⟨before.reverse, after.reverse, ?_, hd, fun e he => ?_⟩
    · rw [← List.reverse_reverse inserted, hsplit]
      simp
    · simpa using hlater e (List.mem_reverse.mp he)
  · rintro ⟨before, after, rfl, hd, hlater⟩
    refine ⟨hd, after.reverse, before.reverse, by simp, fun e he => ?_⟩
    simpa using hlater e (List.mem_reverse.mp he)

theorem Filled.names_of_lookup? {c : Catalog} {inserted : List Definition} (hc : Filled c inserted)
    {h : CommandHeader} {d : Definition} (hd : c.lookup? h = some d) : h.names d.header = true := by
  obtain ⟨-, -, -, hnames, -⟩ := (hc.lookup?_eq_some_iff h d).mp hd
  rw [CommandHeader.names_iff] at hnames ⊢
  exact ⟨hnames.1.symm, hnames.2.symm⟩

theorem Filled.lookup?_eq_none_iff {c : Catalog} {inserted : List Definition}
    (hc : Filled c inserted) (h : CommandHeader) :
    c.lookup? h = none ↔ ∀ d ∈ inserted, d.header.names h = false := by
  rw [hc.eq_foldl, lookup?_foldl_insert, List.find?_eq_none]
  simp

end Catalog

namespace Command

theorem readFields_ne_wrongHeader {d : Definition} {fields : List Field} {data : List UInt8}
    {read : List (Option Value)} (name : String) (header : Option CommandHeader) :
    readFields d fields data read ≠ .error (.wrongHeader name header) := by
  fun_induction readFields d fields data read with
  | case1 | case2 | case4 | case5 | case6 => exact nofun
  | case3 f rest data read hread v used hdecode ih => exact ih

theorem ofPacket_ne_wrongHeader {d : Definition} {h : CommandHeader} (hd : h.names d.header = true)
    (payload : List UInt8) (name : String) (header : Option CommandHeader) :
    ofPacket d (.ofHeader h payload) ≠ .error (.wrongHeader name header) := by
  rw [ofPacket_of_names hd]
  exact readFields_ne_wrongHeader name header

end Command

end NcpHost
