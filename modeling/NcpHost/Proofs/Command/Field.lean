import NcpHost.Command.Field

/-! What a field type accepts is read back as it was written: the value, and the count of bytes that it
took. What follows in the payload stays untouched; a field that takes everything that is left has
nothing behind it. The other way round, what is read is accepted, and is written as the very bytes that
it was read from, so that no value has two written forms. -/

namespace NcpHost.FieldType

open LittleEndian (capacity)

theorem check_eq_ok {t : FieldType} {v : Value} : t.check v = .ok () ↔ t.fits? v = some true := by
  unfold check
  split <;> simp_all

theorem unsignedAt_bytes (width : Nat) {n : UInt64} (h : n.toNat < capacity width)
    (rest : List UInt8) :
    unsignedAt width (LittleEndian.bytes width n.toNat ++ rest) = .uint n := by
  rw [unsignedAt, List.take_left' (LittleEndian.length_bytes _ _), LittleEndian.value_bytes,
    Nat.mod_eq_of_lt h]
  exact congrArg Value.uint (UInt64.ofNat_toNat)

theorem fitsSigned_iff {width : Nat} {n : Int64} :
    fitsSigned width n = true
      ↔ n.toInt < (capacity width / 2 : Nat)
        ∧ -((capacity width / 2 : Nat) : Int) ≤ n.toInt := by
  simp [fitsSigned]

theorem capacity_dvd {i j : Nat} (h : i ≤ j) : capacity i ∣ capacity j := by
  induction h with
  | refl => exact Nat.dvd_refl _
  | step _ ih => exact Nat.dvd_mul_left_of_dvd ih 256

theorem bmod_toUInt64 {width : Nat} (hw : width + 1 ≤ 8) {n : Int64}
    (h : fitsSigned (width + 1) n = true) :
    Int.bmod (n.toUInt64.toNat % capacity (width + 1) : Nat) (capacity (width + 1))
      = n.toInt := by
  have hint : n.toInt = Int.bmod n.toUInt64.toNat (capacity 8) :=
    BitVec.toInt_eq_toNat_bmod _
  have hmod : Int.bmod (n.toUInt64.toNat % capacity (width + 1) : Nat) (capacity (width + 1))
      = Int.bmod n.toInt (capacity (width + 1)) := by
    rw [hint, Int.bmod_bmod_of_dvd (capacity_dvd hw), Int.natCast_emod, Int.emod_bmod]
  have heven : capacity (width + 1) = 2 * (capacity (width + 1) / 2) := by
    rw [capacity]
    omega
  obtain ⟨hhi, hlo⟩ := fitsSigned_iff.mp h
  rw [hmod]
  exact Int.bmod_eq_of_le (by omega) (by omega)

theorem signedAt_bytes (width : Nat) (hw : width + 1 ≤ 8) {n : Int64}
    (h : fitsSigned (width + 1) n = true) (rest : List UInt8) :
    signedAt (width + 1) (LittleEndian.bytes (width + 1) n.toUInt64.toNat ++ rest) = .int n := by
  rw [signedAt, List.take_left' (LittleEndian.length_bytes _ _), LittleEndian.value_bytes,
    bmod_toUInt64 hw h]
  exact congrArg Value.int (Int64.ofInt_toInt n)

theorem countedAt_bytes (width : Nat) {bs : List UInt8} (h : bs.length < capacity width)
    (rest : List UInt8) :
    countedAt width (LittleEndian.bytes width bs.length ++ bs ++ rest)
      = .ok (.bytes bs, width + bs.length) := by
  have hlen := LittleEndian.length_bytes width bs.length
  have htake : (LittleEndian.bytes width bs.length ++ (bs ++ rest)).take width
      = LittleEndian.bytes width bs.length := List.take_left' hlen
  have hdrop : (LittleEndian.bytes width bs.length ++ (bs ++ rest)).drop width = bs ++ rest :=
    List.drop_left' hlen
  rw [List.append_assoc, countedAt, if_neg (by simp)]
  simp only [htake, hdrop, LittleEndian.value_bytes, Nat.mod_eq_of_lt h]
  rw [if_neg (by simp), List.take_left' rfl]

theorem not_short (width n : Nat) (rest : List UInt8) :
    ¬(LittleEndian.bytes width n ++ rest).length < width := by
  rw [List.length_append, LittleEndian.length_bytes]
  omega

theorem decode_encode {t : FieldType} {v : Value} (h : t.check v = .ok ()) {rest : List UInt8}
    (hr : t = .remaining → rest = []) :
    t.decode (t.encode v ++ rest) = .ok (v, (t.encode v).length) := by
  have hfits := check_eq_ok.mp h
  cases t <;> cases v <;> simp only [fits?, Option.some.injEq, decide_eq_true_eq, reduceCtorEq]
    at hfits
  case u8.uint n =>
    simp only [decode, width?, encode, not_short, if_false, unsignedAt_bytes 1 hfits,
      LittleEndian.length_bytes]
  case u16.uint n =>
    simp only [decode, width?, encode, not_short, if_false, unsignedAt_bytes 2 hfits,
      LittleEndian.length_bytes]
  case u32.uint n =>
    simp only [decode, width?, encode, not_short, if_false, unsignedAt_bytes 4 hfits,
      LittleEndian.length_bytes]
  case u64.uint n =>
    simp only [decode, width?, encode, not_short, if_false, unsignedAt_bytes 8 n.toNat_lt,
      LittleEndian.length_bytes]
  case i8.int n =>
    simp only [decode, width?, encode, not_short, if_false, signedAt_bytes 0 (by omega) hfits,
      LittleEndian.length_bytes]
  case i16.int n =>
    simp only [decode, width?, encode, not_short, if_false, signedAt_bytes 1 (by omega) hfits,
      LittleEndian.length_bytes]
  case i32.int n =>
    simp only [decode, width?, encode, not_short, if_false, signedAt_bytes 3 (by omega) hfits,
      LittleEndian.length_bytes]
  case bool.bool b => cases b <;> simp [decode, width?, encode]
  case eui64.bytes bs =>
    have hlen : bs.length = 8 := by simpa using hfits
    simp [decode, width?, encode, hlen, List.take_left' hlen]
  case shortBytes.bytes bs =>
    simp only [decode, width?, encode, countedAt_bytes 1 hfits]
    simp
  case longBytes.bytes bs =>
    simp only [decode, width?, encode, countedAt_bytes 2 hfits]
    simp
  case remaining.bytes bs =>
    rw [hr rfl]
    simp [decode, width?, encode]

theorem encode_ne_nil {t : FieldType} {v : Value} (h : t.check v = .ok ())
    (hr : t = .remaining → v ≠ .bytes []) : t.encode v ≠ [] := by
  have hfits := check_eq_ok.mp h
  cases t <;> cases v <;> simp_all [fits?, encode, LittleEndian.bytes]
  case eui64.bytes bs =>
    intro hnil
    simp [hnil] at hfits

theorem length_encode {t : FieldType} {v : Value} {width : Nat} (h : t.check v = .ok ())
    (hw : t.width? = some width) : (t.encode v).length = width := by
  have hfits := check_eq_ok.mp h
  cases t <;> cases v <;> simp_all [fits?, encode, width?]

theorem decode_of_short {t : FieldType} {data : List UInt8} {width : Nat}
    (hw : t.width? = some width) (h : data.length < width) :
    t.decode data = .error (.tooShort t width data.length) := by
  unfold decode
  rw [hw]
  exact if_pos h

theorem countedAt_take {width : Nat} {bs : List UInt8} (h : bs.length < capacity width) {k : Nat}
    (hk : k < width + bs.length) :
    ∃ fault, countedAt width ((LittleEndian.bytes width bs.length ++ bs).take k)
      = .error fault := by
  have hlen := LittleEndian.length_bytes width bs.length
  by_cases hwidth : k < width
  · refine ⟨.missingLength, if_pos ?_⟩
    rw [List.length_take, List.length_append]
    omega
  · have hcut : (LittleEndian.bytes width bs.length ++ bs).take k
        = LittleEndian.bytes width bs.length ++ bs.take (k - width) := by
      rw [List.take_append, List.take_of_length_le (by omega), hlen]
    have hcount : LittleEndian.value ((LittleEndian.bytes width bs.length
        ++ bs.take (k - width)).take width) = bs.length := by
      rw [List.take_left' hlen, LittleEndian.value_bytes, Nat.mod_eq_of_lt h]
    refine ⟨.lengthExceeds bs.length (bs.take (k - width)).length, ?_⟩
    rw [hcut, countedAt, if_neg (not_short width bs.length _)]
    simp only [hcount, List.drop_left' hlen]
    exact if_pos (by rw [List.length_take]; omega)

theorem decode_take_encode {t : FieldType} {v : Value} (h : t.check v = .ok ())
    (hr : t ≠ .remaining) {k : Nat} (hk : k < (t.encode v).length) :
    ∃ fault, t.decode ((t.encode v).take k) = .error fault := by
  cases hw : t.width? with
  | some width =>
    refine ⟨_, decode_of_short hw ?_⟩
    rw [List.length_take, ← length_encode h hw]
    omega
  | none =>
    have hfits := check_eq_ok.mp h
    cases t <;> cases v <;> simp only [width?, fits?, Option.some.injEq, decide_eq_true_eq,
      reduceCtorEq] at hw hfits
    case shortBytes.bytes bs =>
      refine countedAt_take hfits (Nat.lt_of_lt_of_eq hk ?_)
      simp [encode]
    case longBytes.bytes bs =>
      refine countedAt_take hfits (Nat.lt_of_lt_of_eq hk ?_)
      simp [encode]
    case remaining.bytes => exact absurd rfl hr

theorem toNat_value_take {width : Nat} {data : List UInt8} (hw : width ≤ 8)
    (h : width ≤ data.length) :
    (LittleEndian.value (data.take width)).toUInt64.toNat
      = LittleEndian.value (data.take width) := by
  refine UInt64.toNat_ofNat_of_lt' (Nat.lt_of_lt_of_le (LittleEndian.value_take_lt h) ?_)
  exact Nat.le_of_dvd (LittleEndian.capacity_pos 8) (capacity_dvd hw)

theorem toNat_toUInt64_ofInt (i : Int) :
    ((Int64.ofInt i).toUInt64.toNat : Int) = i % (capacity 8 : Nat) := by
  have hbits : (Int64.ofInt i).toUInt64.toNat = (BitVec.ofInt 64 i).toNat := rfl
  rw [hbits, BitVec.toNat_ofInt, Int.toNat_of_nonneg (Int.emod_nonneg i (by decide))]
  rfl

theorem fitsSigned_ofInt {width : Nat} (hw : width + 1 ≤ 8) (n : Nat) :
    fitsSigned (width + 1) (Int64.ofInt (Int.bmod n (capacity (width + 1)))) = true := by
  have hpos := LittleEndian.capacity_pos (width + 1)
  have hle : capacity (width + 1) ≤ 2 ^ 64 := Nat.le_of_dvd (by decide) (capacity_dvd hw)
  have heven : capacity (width + 1) = 2 * (capacity (width + 1) / 2) := by
    rw [capacity]
    omega
  have hlo := Int.le_bmod (x := n) hpos
  have hhi := Int.bmod_lt (x := n) hpos
  rw [fitsSigned_iff, Int64.toInt_ofInt_of_le (by omega) (by omega)]
  omega

theorem bytes_ofInt {width : Nat} {data : List UInt8} (hw : width + 1 ≤ 8)
    (h : width + 1 ≤ data.length) :
    LittleEndian.bytes (width + 1)
      (Int64.ofInt (Int.bmod (LittleEndian.value (data.take (width + 1)))
        (capacity (width + 1)))).toUInt64.toNat = data.take (width + 1) := by
  have hmod : (Int64.ofInt (Int.bmod (LittleEndian.value (data.take (width + 1)))
      (capacity (width + 1)))).toUInt64.toNat % capacity (width + 1)
      = LittleEndian.value (data.take (width + 1)) := by
    refine Int.natCast_inj.mp ?_
    rw [Int.natCast_emod, toNat_toUInt64_ofInt,
      Int.emod_emod_of_dvd _ (Int.natCast_dvd_natCast.mpr (capacity_dvd hw)), Int.bmod_emod,
      ← Int.natCast_emod, Nat.mod_eq_of_lt (LittleEndian.value_take_lt h)]
  rw [← LittleEndian.bytes_mod, hmod, LittleEndian.bytes_value_take h]

theorem countedAt_sound {width : Nat} {data : List UInt8} {v : Value} {used : Nat}
    (h : countedAt width data = .ok (v, used)) :
    used ≤ data.length ∧ ∃ bs, v = .bytes bs ∧ bs.length < capacity width
      ∧ LittleEndian.bytes width bs.length ++ bs = data.take used := by
  unfold countedAt at h
  split at h
  · exact absurd h nofun
  · next hlong =>
    dsimp only at h
    split at h
    · exact absurd h nofun
    · next hrest =>
      obtain ⟨rfl, rfl⟩ := Prod.mk.inj (Except.ok.inj h)
      have hwidth : width ≤ data.length := Nat.le_of_not_lt hlong
      rw [List.length_drop] at hrest
      have hlen : ((data.drop width).take (LittleEndian.value (data.take width))).length
          = LittleEndian.value (data.take width) := by
        rw [List.length_take, List.length_drop]
        omega
      refine ⟨by omega, _, rfl, ?_, ?_⟩
      · rw [hlen]
        exact LittleEndian.value_take_lt hwidth
      · rw [hlen, LittleEndian.bytes_value_take hwidth, List.take_add]

theorem decode_sound {t : FieldType} {data : List UInt8} {v : Value} {used : Nat}
    (h : t.decode data = .ok (v, used)) :
    used ≤ data.length ∧ t.check v = .ok () ∧ t.encode v = data.take used := by
  rw [check_eq_ok]
  -- a width of at most eight bytes fits the number, so that nothing is cut down
  have hunsigned : ∀ {width : Nat}, width ≤ 8 → ¬data.length < width →
      LittleEndian.bytes width (LittleEndian.value (data.take width)).toUInt64.toNat
        = data.take width
      ∧ (LittleEndian.value (data.take width)).toUInt64.toNat < capacity width := by
    intro width hw hlong
    rw [toNat_value_take hw (Nat.le_of_not_lt hlong)]
    exact ⟨LittleEndian.bytes_value_take (Nat.le_of_not_lt hlong),
      LittleEndian.value_take_lt (Nat.le_of_not_lt hlong)⟩
  cases t <;> simp only [decode, width?] at h
  case shortBytes | longBytes =>
    obtain ⟨hused, bs, rfl, hlen, hbytes⟩ := countedAt_sound h
    exact ⟨hused, by simp [fits?, hlen], hbytes⟩
  case remaining =>
    obtain ⟨rfl, rfl⟩ := Prod.mk.inj (Except.ok.inj h)
    exact ⟨Nat.le_refl _, rfl, List.take_length.symm⟩
  -- all others have a width
  all_goals
    split at h
    · exact absurd h nofun
  case u8 hlong | u16 hlong | u32 hlong =>
    obtain ⟨rfl, rfl⟩ := Prod.mk.inj (Except.ok.inj h)
    obtain ⟨hbytes, hfits⟩ := hunsigned (by decide) hlong
    exact ⟨Nat.le_of_not_lt hlong, congrArg some (decide_eq_true hfits), hbytes⟩
  case u64 hlong =>
    obtain ⟨rfl, rfl⟩ := Prod.mk.inj (Except.ok.inj h)
    exact ⟨Nat.le_of_not_lt hlong, rfl, (hunsigned (Nat.le_refl 8) hlong).1⟩
  case i8 hlong | i16 hlong | i32 hlong =>
    obtain ⟨rfl, rfl⟩ := Prod.mk.inj (Except.ok.inj h)
    exact ⟨Nat.le_of_not_lt hlong, congrArg some (fitsSigned_ofInt (by decide) _),
      bytes_ofInt (by decide) (Nat.le_of_not_lt hlong)⟩
  case bool hlong =>
    have hpos : 0 < data.length := Nat.lt_of_lt_of_le Nat.one_pos (Nat.le_of_not_lt hlong)
    obtain ⟨b, rest, rfl⟩ := List.exists_cons_of_length_pos hpos
    split at h
    · obtain ⟨rfl, rfl⟩ := Prod.mk.inj (Except.ok.inj h)
      simp_all [fits?, encode]
    · obtain ⟨rfl, rfl⟩ := Prod.mk.inj (Except.ok.inj h)
      simp_all [fits?, encode]
    · exact absurd h nofun
  case eui64 hlong =>
    obtain ⟨rfl, rfl⟩ := Prod.mk.inj (Except.ok.inj h)
    have hlen : (data.take 8).length = 8 := by
      rw [List.length_take]
      omega
    exact ⟨Nat.le_of_not_lt hlong, congrArg some (beq_iff_eq.mpr hlen), rfl⟩

theorem decode_eq_ok_iff {t : FieldType} {data : List UInt8} {v : Value} {used : Nat} :
    t.decode data = .ok (v, used)
      ↔ t.check v = .ok () ∧ used = (t.encode v).length
        ∧ ∃ rest, data = t.encode v ++ rest ∧ (t = .remaining → rest = []) := by
  constructor
  · intro h
    obtain ⟨hused, hcheck, hencode⟩ := decode_sound h
    have hlength : used = (t.encode v).length := by
      rw [hencode, List.length_take, Nat.min_eq_left hused]
    refine ⟨hcheck, hlength, data.drop used, ?_, ?_⟩
    · rw [hencode, List.take_append_drop]
    · rintro rfl
      have hall : data.length = used := (Prod.mk.inj (Except.ok.inj h)).2
      exact List.drop_eq_nil_of_le (Nat.le_of_eq hall)
  · rintro ⟨hcheck, rfl, rest, rfl, hrest⟩
    exact decode_encode hcheck hrest

/-- A value is accepted exactly if it comes back from its bytes whatever stands behind them, and one
that is refused comes back from no bytes at all, so not from its own either. Whatever bytes are read,
they are as many as there are, and they are how the value is written, which is accepted. -/
theorem check_iff_reads_back (t : FieldType) :
    (∀ v, t.check v = .ok () ↔ ∀ rest, (t = .remaining → rest = []) →
      t.decode (t.encode v ++ rest) = .ok (v, (t.encode v).length))
    ∧ (∀ v fault, t.check v = .error fault →
      t.decode (t.encode v) ≠ .ok (v, (t.encode v).length)
      ∧ ∀ data used, t.decode data ≠ .ok (v, used))
    ∧ ∀ data v used, t.decode data = .ok (v, used) →
      used ≤ data.length ∧ t.check v = .ok () ∧ t.encode v = data.take used := by
  have hrefused : ∀ v fault, t.check v = .error fault → ∀ data used,
      t.decode data ≠ .ok (v, used) := by
    intro v fault hfault data used h
    obtain ⟨hcheck, -, -⟩ := decode_eq_ok_iff.mp h
    exact absurd (hfault.symm.trans hcheck) nofun
  refine ⟨fun v => ⟨fun hcheck rest hrest => ?_, fun hback => ?_⟩,
    fun v fault hfault => ⟨hrefused v fault hfault _ _, hrefused v fault hfault⟩,
    fun data v used h => decode_sound h⟩
  · exact decode_eq_ok_iff.mpr ⟨hcheck, rfl, rest, rfl, hrest⟩
  · exact (decode_eq_ok_iff.mp (hback [] fun _ => rfl)).1

/-- Minus two in two bytes comes back in front of another byte; three hundred, which is too much for one
byte, comes back as forty-four. -/
theorem check_iff_reads_back_two_numbers :
    i16.check (.int (-2)) = .ok ()
    ∧ i16.decode (i16.encode (.int (-2)) ++ [7]) = .ok (.int (-2), 2)
    ∧ u8.check (.uint 300) = .error (.outOfRange u8 (.uint 300))
    ∧ u8.decode (u8.encode (.uint 300)) = .ok (.uint 44, 1)
    ∧ u8.decode (u8.encode (.uint 300)) ≠ .ok (.uint 300, 1) := by
  have hcheck : i16.check (.int (-2)) = .ok () := check_eq_ok.mpr (by decide +kernel)
  have hfault : u8.check (.uint 300) = .error (.outOfRange u8 (.uint 300)) := rfl
  refine ⟨hcheck, ((check_iff_reads_back i16).1 _).mp hcheck [7] nofun, hfault, rfl, ?_⟩
  exact ((check_iff_reads_back u8).2.1 _ _ hfault).1

end NcpHost.FieldType
