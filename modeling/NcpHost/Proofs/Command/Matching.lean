import NcpHost.Command.Basic

/-! Two commands are compared place by place as far as both have fields, so what a pattern sets behind
the last field of the other is not looked at. Where there is nothing of that kind, whatever matches has
all that the pattern sets, and matching passes from pattern to pattern; between commands with as many
fields it is a preorder, and two that match each other are the same. -/

namespace NcpHost

theorem CommandHeader.names_iff {a b : CommandHeader} :
    a.names b = true ↔ a.kind = b.kind ∧ a.id = b.id := by
  simp [names]

namespace Command

variable {a b c : Command}

/-- All that one command sets, the other has in the same place. -/
def Found (p c : Command) : Prop :=
  ∀ (i : Nat) (v : Value), p.values[i]? = some (some v) → c.values[i]? = some (some v)

/-- One command sets nothing behind the last field of the other. -/
def Within (p c : Command) : Prop :=
  ∀ (i : Nat) (v : Value), p.values[i]? = some (some v) → i < c.values.length

/-- What one command sets behind the last field of `between` the other has, as far as it has fields. -/
def FoundBehind (p between c : Command) : Prop :=
  ∀ (i : Nat) (v : Value), p.values[i]? = some (some v) → between.values.length ≤ i →
    i < c.values.length → c.values[i]? = some (some v)

theorem coversValues_iff {expected actual : List (Option Value)} :
    coversValues expected actual = true
      ↔ ∀ (i : Nat) (v : Value), expected[i]? = some (some v) → i < actual.length →
        actual[i]? = some (some v) := by
  induction expected generalizing actual with
  | nil => simp [coversValues]
  | cons e rest ih =>
    cases actual with
    | nil => cases e <;> simp [coversValues]
    | cons w others =>
      -- the first place, and all places behind it
      rw [← Nat.and_forall_add_one]
      cases e with
      | none => simp [coversValues, ih]
      | some v => simp [coversValues, ih]

theorem covers_iff {p c : Command} :
    p.covers c = true ↔ p.header.names c.header = true
      ∧ ∀ (i : Nat) (v : Value), p.values[i]? = some (some v) → i < c.values.length →
        c.values[i]? = some (some v) := by
  rw [covers, Bool.and_eq_true, coversValues_iff]

theorem beq_iff : (a == b) = true ↔ a.header.names b.header = true ∧ a.values = b.values := by
  show (a.header.names b.header && a.values == b.values) = true ↔ _
  rw [Bool.and_eq_true, beq_iff_eq]

theorem covers_self (a : Command) : a.covers a = true :=
  covers_iff.mpr ⟨CommandHeader.names_iff.mpr ⟨rfl, rfl⟩, fun _ _ hset _ => hset⟩

theorem found_iff_within (h : a.covers b = true) : a.Found b ↔ a.Within b := by
  obtain ⟨-, hvalues⟩ := covers_iff.mp h
  constructor
  · intro hfound i v hset
    exact (List.getElem?_eq_some_iff.mp (hfound i v hset)).1
  · intro hwithin i v hset
    exact hvalues i v hset (hwithin i v hset)

theorem covers_trans_iff (hab : a.covers b = true) (hbc : b.covers c = true) :
    a.covers c = true ↔ a.FoundBehind b c := by
  obtain ⟨hnames, hvalues⟩ := covers_iff.mp hab
  obtain ⟨hnames', hvalues'⟩ := covers_iff.mp hbc
  obtain ⟨hkind, hid⟩ := CommandHeader.names_iff.mp hnames
  obtain ⟨hkind', hid'⟩ := CommandHeader.names_iff.mp hnames'
  constructor
  · intro hac i v hset _ hin
    exact (covers_iff.mp hac).2 i v hset hin
  · intro hbehind
    refine covers_iff.mpr ⟨CommandHeader.names_iff.mpr ⟨hkind.trans hkind', hid.trans hid'⟩, ?_⟩
    intro i v hset hin
    by_cases hb : i < b.values.length
    · exact hvalues' i v (hvalues i v hset hb) hin
    · exact hbehind i v hset (Nat.le_of_not_lt hb) hin

theorem Within.foundBehind (h : a.Within b) (c : Command) : a.FoundBehind b c :=
  fun i v hset hbehind _ => absurd (h i v hset) (Nat.not_lt.mpr hbehind)

theorem within_of_length_le (h : a.values.length ≤ b.values.length) : a.Within b :=
  fun _ _ hset => Nat.lt_of_lt_of_le (List.getElem?_eq_some_iff.mp hset).1 h

theorem values_eq_of_covers (hab : a.covers b = true) (hba : b.covers a = true)
    (hlen : a.values.length = b.values.length) : a.values = b.values := by
  have hfound : a.Found b := (found_iff_within hab).mpr (within_of_length_le (Nat.le_of_eq hlen))
  have hfound' : b.Found a := (found_iff_within hba).mpr (within_of_length_le (Nat.le_of_eq hlen.symm))
  refine List.ext_getElem hlen fun i ha hb => ?_
  have hat : a.values[i]? = some a.values[i] := List.getElem?_eq_getElem ha
  have hbt : b.values[i]? = some b.values[i] := List.getElem?_eq_getElem hb
  cases hv : a.values[i] with
  | some v =>
    have hthere := hfound i v (hat.trans (congrArg some hv))
    exact (Option.some.inj (hbt.symm.trans hthere)).symm
  | none =>
    cases hw : b.values[i] with
    | none => rfl
    | some w =>
      have hthere := hfound' i w (hbt.trans (congrArg some hw))
      exact absurd (hv.symm.trans (Option.some.inj (hat.symm.trans hthere))) nofun

theorem beq_iff_covers :
    (a == b) = true
      ↔ (a.covers b = true ∧ b.covers a = true) ∧ a.values.length = b.values.length := by
  rw [beq_iff]
  constructor
  · rintro ⟨hnames, hvalues⟩
    obtain ⟨hkind, hid⟩ := CommandHeader.names_iff.mp hnames
    refine ⟨⟨covers_iff.mpr ⟨hnames, ?_⟩, covers_iff.mpr ⟨?_, ?_⟩⟩, by rw [hvalues]⟩
    · exact fun _ _ hset _ => hvalues ▸ hset
    · exact CommandHeader.names_iff.mpr ⟨hkind.symm, hid.symm⟩
    · exact fun _ _ hset _ => hvalues.symm ▸ hset
  · rintro ⟨⟨hab, hba⟩, hlen⟩
    exact ⟨(covers_iff.mp hab).1, values_eq_of_covers hab hba hlen⟩

/-- A command matches itself. What a pattern that matches sets is all found exactly if it sets nothing
behind the last field of the other command. Matching passes on from one pattern to the next exactly if
what the first one sets behind the last field of the second is found in the third, so it does where
there is nothing of that kind. Commands are the same exactly if they match each other and have as many
fields; and for two with as many fields matching is all that it should be. -/
theorem covers_laws (a b c : Command) :
    a.covers a = true
    ∧ (a.covers b = true → (a.Found b ↔ a.Within b))
    ∧ (a.covers b = true → b.covers c = true →
      (a.covers c = true ↔ a.FoundBehind b c) ∧ (a.Within b → a.covers c = true))
    ∧ ((a == b) = true
      ↔ (a.covers b = true ∧ b.covers a = true) ∧ a.values.length = b.values.length)
    ∧ (a.values.length = b.values.length →
      (a.covers b = true → a.Found b)
      ∧ (a.covers b = true → b.covers c = true → a.covers c = true)
      ∧ ((a == b) = true ↔ a.covers b = true ∧ b.covers a = true)) := by
  have htrans : a.Within b → a.covers b = true → b.covers c = true → a.covers c = true :=
    fun hwithin hab hbc => (covers_trans_iff hab hbc).mpr (hwithin.foundBehind c)
  refine ⟨covers_self a, found_iff_within, fun hab hbc => ⟨covers_trans_iff hab hbc,
    fun hwithin => htrans hwithin hab hbc⟩, beq_iff_covers, fun hlen => ⟨fun hab => ?_,
    htrans (within_of_length_le (Nat.le_of_eq hlen)), ?_⟩⟩
  · exact (found_iff_within hab).mpr (within_of_length_le (Nat.le_of_eq hlen))
  · rw [beq_iff_covers]
    exact and_iff_left hlen

/-- A report has got a second field. One that sets it and one of the old form match each other, although
they are not the same and the latter has no such field; through the old form, reports match that differ
in the new field. Between those that have the field nothing of that kind happens. -/
theorem covers_laws_new_field :
    let report : List Field → Definition := fun fields =>
      ⟨"Report.Ind", .of .indication 0x77, fields, false, none⟩
    let old := report [⟨"N", .u8, false⟩]
    let new := report [⟨"N", .u8, false⟩, ⟨"M", .u8, false⟩]
    let a : Command := ⟨new, [some (.uint 1), some (.uint 2)], false⟩
    let b : Command := ⟨old, [some (.uint 1)], false⟩
    let c : Command := ⟨new, [some (.uint 1), some (.uint 3)], false⟩
    make new [("N", .uint 1), ("M", .uint 2)] = .ok a ∧ make old [("N", .uint 1)] = .ok b
      ∧ make new [("N", .uint 1), ("M", .uint 3)] = .ok c
      ∧ a.covers b = true ∧ b.covers a = true ∧ b.covers c = true
      ∧ ¬a.Found b ∧ a.covers c = false ∧ (a == b) = false ∧ b.Found a := by
  intro report old new a b c
  have hab : a.covers b = true := by decide +kernel
  have hba : b.covers a = true := by decide +kernel
  have hbc : b.covers c = true := by decide +kernel
  have hbeyond : ¬a.Within b := fun h => absurd (h 1 (.uint 2) rfl) (by decide)
  obtain ⟨-, hfound, htrans, hsame, -⟩ := covers_laws a b c
  obtain ⟨-, hfound', -⟩ := covers_laws b a c
  refine ⟨rfl, rfl, rfl, hab, hba, hbc, fun h => hbeyond ((hfound hab).mp h), ?_, ?_, ?_⟩
  · refine Bool.eq_false_iff.mpr fun hac => ?_
    have hthird := ((htrans hab hbc).1.mp hac) 1 (.uint 2) rfl (by decide) (by decide)
    exact absurd hthird (by decide)
  · exact Bool.eq_false_iff.mpr fun h => absurd (hsame.mp h).2 (by decide)
  · exact (hfound' hba).mpr (within_of_length_le (by decide))

end Command

end NcpHost
