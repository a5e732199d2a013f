import NcpHost.Proofs.Command.RoundTrip

/-! Commands of one definition are told apart by their packets. Nothing but the order of the fields says
where a value begins, so that this is what reading the packets gives: two commands with the same packet
come back as the same command. They differ at most in an optional field that takes everything that is
left, which is unset in one of them and set to nothing in the other. -/

namespace NcpHost.Command

/-- Values of a field that its packets do not tell apart: the same, or, where an optional field takes
everything that is left, none and nothing. -/
def Alike (f : Field) (v w : Option Value) : Prop :=
  v = w ∨ f.optional = true ∧ f.type = .remaining
    ∧ (v = none ∧ w = some (.bytes []) ∨ v = some (.bytes []) ∧ w = none)

theorem tracedValue_of_leavesNoTrace {f : Field} (ho : f.optional = true)
    (hr : f.type = .remaining) : tracedValue (f, some (.bytes [])) = none :=
  if_pos (leavesNoTrace_iff.mpr ⟨ho, hr, rfl⟩)

theorem tracedValue_none (f : Field) : tracedValue (f, none) = none := ite_self _

theorem alike_iff {f : Field} {v w : Option Value} :
    Alike f v w ↔ tracedValue (f, v) = tracedValue (f, w) := by
  constructor
  · rintro (rfl | ⟨ho, hr, ⟨rfl, rfl⟩ | ⟨rfl, rfl⟩⟩)
    · rfl
    · rw [tracedValue_none, tracedValue_of_leavesNoTrace ho hr]
    · rw [tracedValue_none, tracedValue_of_leavesNoTrace ho hr]
  · intro h
    cases hv : leavesNoTrace (f, v) with
    | true =>
      obtain ⟨ho, hr, hnothing⟩ := leavesNoTrace_iff.mp hv
      cases hw : leavesNoTrace (f, w) with
      | true => exact .inl (hnothing.trans (leavesNoTrace_iff.mp hw).2.2.symm)
      | false =>
        have hnone : w = none := (if_neg (hw ▸ Bool.false_ne_true)).symm.trans
          (h.symm.trans (if_pos hv))
        exact .inr ⟨ho, hr, .inr ⟨hnothing, hnone⟩⟩
    | false =>
      have hsame : tracedValue (f, v) = v := if_neg (hv ▸ Bool.false_ne_true)
      cases hw : leavesNoTrace (f, w) with
      | true =>
        obtain ⟨ho, hr, hnothing⟩ := leavesNoTrace_iff.mp hw
        exact .inr ⟨ho, hr, .inl ⟨hsame.symm.trans (h.trans (if_pos hw)), hnothing⟩⟩
      | false => exact .inl (hsame.symm.trans (h.trans (if_neg (hw ▸ Bool.false_ne_true))))

def AllAlike (a b : Command) : Prop :=
  ∀ (i : Nat) (f : Field), a.definition.fields[i]? = some f →
    Alike f (a.values[i]?).join (b.values[i]?).join

section

variable {d : Definition} {params params' : List (String × Value)} {a b : Command}

theorem readBack_value {c : Command} (hlen : c.values.length = c.definition.fields.length)
    {i : Nat} {f : Field} (hf : c.definition.fields[i]? = some f) :
    c.readBack.values[i]? = some (tracedValue (f, (c.values[i]?).join)) := by
  obtain ⟨hin, -⟩ := List.getElem?_eq_some_iff.mp hf
  have hi : i < c.values.length := hlen ▸ hin
  have hv : c.values[i]? = some c.values[i] := List.getElem?_eq_getElem hi
  have he : c.entries[i]? = some (f, c.values[i]) := List.getElem?_zip_eq_some.mpr ⟨hf, hv⟩
  rw [readBack, List.getElem?_map, he, hv]
  rfl

theorem readBack_eq_iff_allAlike (ha : make d params = .ok a) (hb : make d params' = .ok b) :
    a.readBack = b.readBack ↔ AllAlike a b := by
  obtain ⟨rfl, hpa, hla, -⟩ := make_complete ha
  obtain ⟨hdb, hpb, hlb, -⟩ := make_complete hb
  have hlb' : b.values.length = b.definition.fields.length := hdb.symm ▸ hlb
  constructor
  · intro h i f hf
    refine alike_iff.mpr (Option.some.inj ?_)
    rw [← readBack_value hla hf, h, readBack_value hlb' (hdb.symm ▸ hf)]
  · intro h
    have hvalues : a.readBack.values = b.readBack.values := by
      refine List.ext_getElem? fun i => ?_
      cases hf : a.definition.fields[i]? with
      | none =>
        have hout := List.getElem?_eq_none_iff.mp hf
        rw [List.getElem?_eq_none (by simp [readBack, entries, hla, hout]),
          List.getElem?_eq_none (by simp [readBack, entries, hlb', hdb, hout])]
      | some f =>
        rw [readBack_value hla hf, readBack_value hlb' (hdb.symm ▸ hf), alike_iff.mp (h i f hf)]
    show Command.mk a.definition a.readBack.values a.isPattern = Command.mk _ _ _
    rw [hvalues, hpa, ← hpb, ← hdb]
    rfl

theorem toPacket_eq_iff_readBack (ht : d.OptionalTrail) (hl : d.RemainingLast)
    (ha : make d params = .ok a) (hb : make d params' = .ok b) :
    a.toPacket = b.toPacket ↔ a.readBack = b.readBack := by
  obtain ⟨hda, -, hla, -⟩ := make_complete ha
  obtain ⟨hdb, -, hlb, -⟩ := make_complete hb
  rw [toPacket_of_make ha, toPacket_of_make hb]
  constructor
  · intro h
    have hread := ofPacket_readBack ht hl ha
    rw [Except.ok.inj h, ofPacket_readBack ht hl hb] at hread
    exact (Except.ok.inj hread).symm
  · intro h
    rw [← payload_readBack (hda.symm ▸ hla), h, payload_readBack (hdb.symm ▸ hlb)]

theorem traced_readBack {c : Command} (hlen : c.values.length = c.definition.fields.length) :
    c.readBack.Traced := by
  refine traced_iff.mpr fun e he => ?_
  rw [entries_readBack hlen] at he
  obtain ⟨e', -, rfl⟩ := List.mem_map.mp he
  refine Bool.eq_false_iff.mpr fun hn => ?_
  obtain ⟨ho, hr, hv⟩ := leavesNoTrace_iff.mp hn
  obtain ⟨hsome, hnot⟩ := tracedValue_eq_some hv
  exact absurd (hnot.symm.trans (leavesNoTrace_iff.mpr ⟨ho, hr, hsome⟩)) nofun

theorem allAlike_readBack {c : Command} (hlen : c.values.length = c.definition.fields.length) :
    AllAlike c c.readBack := by
  intro i f hf
  rw [readBack_value hlen hf, alike_iff]
  show _ = tracedValue (f, tracedValue (f, (c.values[i]?).join))
  cases hn : leavesNoTrace (f, (c.values[i]?).join) with
  | true =>
    have hnone : tracedValue (f, (c.values[i]?).join) = none := if_pos hn
    rw [hnone, tracedValue_none]
  | false =>
    have hsame : tracedValue (f, (c.values[i]?).join) = (c.values[i]?).join :=
      if_neg (hn ▸ Bool.false_ne_true)
    rw [hsame, hsame]

end

/-- Packets of commands of one definition are the same exactly when the commands agree in every field,
but for an optional one that takes everything that is left, which may be unset in one and set to nothing
in the other. So commands are told apart that do not set such a field to nothing; and what a packet is
read as agrees with what was sent, with such a field unset. -/
theorem toPacket_eq_iff_allAlike (d : Definition) (params params' : List (String × Value))
    (a b : Command) (ht : d.OptionalTrail) (hl : d.RemainingLast) (ha : make d params = .ok a)
    (hb : make d params' = .ok b) :
    (a.toPacket = b.toPacket ↔ AllAlike a b)
      ∧ (a.Traced → b.Traced → a.toPacket = b.toPacket → (a == b) = true)
      ∧ ∃ packet c, a.toPacket = .ok packet ∧ ofPacket d packet = .ok c
        ∧ AllAlike a c ∧ c.Traced ∧ ((c == a) = true ↔ a.Traced) := by
  obtain ⟨hda, -, hla, -⟩ := make_complete ha
  obtain ⟨hdb, -, hlb, -⟩ := make_complete hb
  rw [← hda] at hla
  rw [← hdb] at hlb
  have hsame := toPacket_eq_iff_readBack ht hl ha hb
  refine ⟨hsame.trans (readBack_eq_iff_allAlike ha hb), fun hta htb heq => ?_, _, a.readBack,
    toPacket_of_make ha, ofPacket_readBack ht hl ha, allAlike_readBack hla, traced_readBack hla,
    readBack_beq_iff ha⟩
  have hback : a.readBack = a := readBack_of_traced hla hta
  have hab : a.readBack = b := (hsame.mp heq).trans (readBack_of_traced hlb htb)
  have hbeq := (readBack_beq_iff ha).mpr hta
  rw [← hab, hback]
  rwa [hback] at hbeq

/-- A note with nothing as its rest, and one without a rest. -/
theorem toPacket_eq_iff_allAlike_notes :
    let d : Definition := ⟨"Note", .of .indication 0x77,
      [⟨"Size", .i8, false⟩, ⟨"Text", .shortBytes, true⟩, ⟨"Rest", .remaining, true⟩], false, none⟩
    let params := [("Text", .bytes [65]), ("Size", .int (-1)), ("Rest", .bytes [])]
    let params' := [("Size", .int (-1)), ("Text", .bytes [65])]
    let a : Command := ⟨d, [some (.int (-1)), some (.bytes [65]), some (.bytes [])], false⟩
    let b : Command := ⟨d, [some (.int (-1)), some (.bytes [65]), none], false⟩
    d.OptionalTrail ∧ d.RemainingLast ∧ make d params = .ok a ∧ make d params' = .ok b
      ∧ (a.toPacket = b.toPacket ↔ AllAlike a b)
      ∧ (a.Traced → b.Traced → a.toPacket = b.toPacket → (a == b) = true)
      ∧ ∃ packet c, a.toPacket = .ok packet ∧ ofPacket d packet = .ok c
        ∧ AllAlike a c ∧ c.Traced ∧ ((c == a) = true ↔ a.Traced) := by
  intro d params params' a b
  have ht : d.OptionalTrail := by decide
  have hl : d.RemainingLast := by decide
  have ha : make d params = .ok a := by rfl
  have hb : make d params' = .ok b := by rfl
  exact ⟨ht, hl, ha, hb, toPacket_eq_iff_allAlike d params params' a b ht hl ha hb⟩

/-- A rest that is set to nothing and one that is not set give the same packet, which is read as the
latter. -/
theorem toPacket_merges_unset :
    let d : Definition := ⟨"Note", .of .indication 0x77, [⟨"Rest", .remaining, true⟩], false, none⟩
    let a : Command := ⟨d, [some (.bytes [])], false⟩
    let b : Command := ⟨d, [none], false⟩
    let packet : Packet := .ofHeader d.header []
    d.OptionalTrail ∧ d.RemainingLast
      ∧ make d [("Rest", .bytes [])] = .ok a ∧ make d [] = .ok b
      ∧ a.toPacket = .ok packet ∧ b.toPacket = .ok packet ∧ ofPacket d packet = .ok b
      ∧ (a == b) = false :=
  ⟨by decide, by decide, rfl, rfl, rfl, rfl, rfl, rfl⟩

end NcpHost.Command
