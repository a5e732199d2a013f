import Mathlib.Data.Nat.Bitwise
import NcpHost.Checksum

/-! The registers of both checksums are linear over exclusive or and lose nothing: a step has only
zero in its kernel. So the checksum of a sum of texts is the sum of theirs, and registers that
differ go on to differ whatever both take in. -/

namespace NcpHost

inductive OneByteOff : List UInt8 → List UInt8 → Prop where
  | here {x y : UInt8} {rest : List UInt8} : x ≠ y → OneByteOff (x :: rest) (y :: rest)
  | there {x : UInt8} {as bs : List UInt8} : OneByteOff as bs → OneByteOff (x :: as) (x :: bs)

namespace OneByteOff

theorem ne {as bs : List UInt8} (h : OneByteOff as bs) : as ≠ bs := by
  induction h with
  | here hxy => exact fun he => hxy (List.cons.inj he).1
  | there _ ih => exact fun he => ih (List.cons.inj he).2

theorem length_eq {as bs : List UInt8} (h : OneByteOff as bs) : bs.length = as.length := by
  induction h with
  | here _ => rfl
  | there _ ih => simp [ih]

theorem of_set {as : List UInt8} {i : Nat} {b : UInt8} (hi : i < as.length) (hb : as[i] ≠ b) :
    OneByteOff as (as.set i b) := by
  induction as generalizing i with
  | nil => exact absurd hi (Nat.not_lt_zero i)
  | cons a as ih =>
    cases i with
    | zero => exact here hb
    | succ i => exact there (ih (by simpa using hi) (by simpa using hb))

theorem split {a b ds : List UInt8} (h : OneByteOff (a ++ b) ds) :
    (∃ c, OneByteOff a c ∧ ds = c ++ b) ∨ ∃ c, OneByteOff b c ∧ ds = a ++ c := by
  induction a generalizing ds with
  | nil => exact Or.inr ⟨ds, h, rfl⟩
  | cons x a ih =>
    cases h with
    | @here _ y _ hxy => exact Or.inl ⟨y :: a, here hxy, rfl⟩
    | there h =>
      rcases ih h with ⟨c, hc, rfl⟩ | ⟨c, hc, rfl⟩
      · exact Or.inl ⟨x :: c, there hc, rfl⟩
      · exact Or.inr ⟨c, hc, rfl⟩

theorem append_cases {a b c d : List UInt8} (h : OneByteOff (a ++ b) (c ++ d))
    (hl : a.length = c.length) : (OneByteOff a c ∧ b = d) ∨ (a = c ∧ OneByteOff b d) := by
  rcases h.split with ⟨e, he, hd⟩ | ⟨e, he, hd⟩
  · obtain ⟨rfl, rfl⟩ := List.append_inj hd (by rw [he.length_eq, hl])
    exact Or.inl ⟨he, rfl⟩
  · obtain ⟨rfl, rfl⟩ := List.append_inj hd hl.symm
    exact Or.inr ⟨rfl, he⟩

end OneByteOff

inductive AdjacentOff : List UInt8 → List UInt8 → Prop where
  | here {x y x' y' : UInt8} {rest : List UInt8} :
    (x, y) ≠ (x', y') → AdjacentOff (x :: y :: rest) (x' :: y' :: rest)
  | there {x : UInt8} {as bs : List UInt8} : AdjacentOff as bs → AdjacentOff (x :: as) (x :: bs)

namespace AdjacentOff

theorem ne {as bs : List UInt8} (h : AdjacentOff as bs) : as ≠ bs := by
  induction h with
  | here hpair =>
    intro he
    obtain ⟨rfl, htail⟩ := List.cons.inj he
    exact hpair (congrArg (Prod.mk _) (List.cons.inj htail).1)
  | there _ ih => exact fun he => ih (List.cons.inj he).2

theorem length_eq {as bs : List UInt8} (h : AdjacentOff as bs) : bs.length = as.length := by
  induction h with
  | here _ => rfl
  | there _ ih => simp [ih]

theorem of_set {as : List UInt8} {i : Nat} {x y : UInt8} (hi : i + 1 < as.length)
    (h : (as.set i x).set (i + 1) y ≠ as) : AdjacentOff as ((as.set i x).set (i + 1) y) := by
  induction as generalizing i with
  | nil => exact absurd hi (Nat.not_lt_zero _)
  | cons a as ih =>
    cases i with
    | zero =>
      obtain ⟨b, rest, rfl⟩ : ∃ b rest, as = b :: rest :=
        List.exists_cons_of_length_pos (by simpa using hi)
      refine here fun he => h ?_
      obtain ⟨rfl, rfl⟩ := Prod.mk.inj he
      rfl
    | succ i => exact there (ih (by simpa using hi) fun he => h (congrArg (a :: ·) he))

end AdjacentOff

namespace Checksum

theorem toNat_and_one (r : UInt16) : (r &&& 1).toNat = r.toNat % 2 := by
  rw [UInt16.toNat_and]
  exact Nat.and_one_is_mod r.toNat

theorem toNat_shiftRight_one (r : UInt16) : (r >>> 1).toNat = r.toNat / 2 := by
  rw [UInt16.toNat_shiftRight]
  exact Nat.shiftRight_eq_div_pow r.toNat 1

theorem and_one_cases (r : UInt16) : r &&& 1 = 0 ∨ r &&& 1 = 1 := by
  have h := toNat_and_one r
  rcases Nat.mod_two_eq_zero_or_one r.toNat with h0 | h1
  · exact Or.inl (UInt16.toNat_inj.mp (h.trans h0))
  · exact Or.inr (UInt16.toNat_inj.mp (h.trans h1))

theorem and_high_cases (r : UInt8) : r &&& 0x80 = 0 ∨ r &&& 0x80 = 0x80 := by
  have h : (r &&& 0x80).toNat = (r.toNat.testBit 7).toNat * 128 := by
    rw [UInt8.toNat_and]
    exact Nat.and_two_pow r.toNat 7
  cases hb : r.toNat.testBit 7 with
  | false => exact Or.inl (UInt8.toNat_inj.mp (by rw [h, hb]; rfl))
  | true => exact Or.inr (UInt8.toNat_inj.mp (by rw [h, hb]; rfl))

theorem xor_and16 (a b mask : UInt16) : (a ^^^ b) &&& mask = (a &&& mask) ^^^ (b &&& mask) := by
  apply UInt16.toBitVec_inj.mp
  ext i hi
  simp [Bool.and_xor_distrib_right]

theorem xor_and8 (a b mask : UInt8) : (a ^^^ b) &&& mask = (a &&& mask) ^^^ (b &&& mask) := by
  apply UInt8.toBitVec_inj.mp
  ext i hi
  simp [Bool.and_xor_distrib_right]

theorem shift16_xor (a b : UInt16) : shift16 (a ^^^ b) = shift16 a ^^^ shift16 b := by
  simp only [shift16, xor_and16, UInt16.shiftRight_xor]
  rcases and_one_cases a with ha | ha <;> rcases and_one_cases b with hb | hb <;>
    simp only [ha, hb]
  · rfl
  · exact UInt16.xor_assoc _ _ _
  · rw [UInt16.xor_zero, if_pos (by decide), if_pos (by decide), if_neg (by decide),
      UInt16.xor_assoc, UInt16.xor_comm (b >>> 1), ← UInt16.xor_assoc]
  · rw [UInt16.xor_self, if_neg (by decide), if_pos (by decide), if_pos (by decide),
      UInt16.xor_comm (b >>> 1), UInt16.xor_assoc (a >>> 1),
      ← UInt16.xor_assoc (0x8408 : UInt16), UInt16.xor_self, UInt16.zero_xor]

theorem shift8_xor (a b : UInt8) : shift8 (a ^^^ b) = shift8 a ^^^ shift8 b := by
  simp only [shift8, xor_and8, UInt8.shiftLeft_xor]
  rcases and_high_cases a with ha | ha <;> rcases and_high_cases b with hb | hb <;>
    simp only [ha, hb]
  · rfl
  · exact UInt8.xor_assoc _ _ _
  · rw [UInt8.xor_zero, if_pos (by decide), if_pos (by decide), if_neg (by decide),
      UInt8.xor_assoc, UInt8.xor_comm (b <<< 1), ← UInt8.xor_assoc]
  · rw [UInt8.xor_self, if_neg (by decide), if_pos (by decide), if_pos (by decide),
      UInt8.xor_comm (b <<< 1), UInt8.xor_assoc (a <<< 1),
      ← UInt8.xor_assoc (0x07 : UInt8), UInt8.xor_self, UInt8.zero_xor]

theorem eq_zero_of_shift16 {r : UInt16} (h : shift16 r = 0) : r = 0 := by
  have half := toNat_shiftRight_one r
  have low := toNat_and_one r
  have bound := r.toNat_lt
  unfold shift16 at h
  apply UInt16.toNat_inj.mp
  rcases and_one_cases r with hr | hr
  · rw [hr, if_neg (by decide)] at h
    rw [hr] at low
    rw [h] at half
    simp only [UInt16.toNat_zero] at *
    omega
  · rw [hr, if_pos (by decide), UInt16.xor_eq_zero_iff] at h
    rw [h] at half
    have : (0x8408 : UInt16).toNat = 33800 := rfl
    omega

theorem eq_zero_of_shift8 {r : UInt8} (h : shift8 r = 0) : r = 0 := by
  have double : (r <<< 1).toNat = r.toNat * 2 % 256 := by
    rw [UInt8.toNat_shiftLeft, show (1 : UInt8).toNat % 8 = 1 from rfl, Nat.shiftLeft_eq, pow_one]
  have high : (r &&& 0x80).toNat = (r.toNat.testBit 7).toNat * 128 := by
    rw [UInt8.toNat_and]
    exact Nat.and_two_pow r.toNat 7
  have bound := r.toNat_lt
  unfold shift8 at h
  apply UInt8.toNat_inj.mp
  rcases and_high_cases r with hr | hr
  · rw [hr, if_neg (by decide)] at h
    rw [h] at double
    have clear : r.toNat.testBit 7 = false := by
      cases hb : r.toNat.testBit 7 with
      | false => rfl
      | true => rw [hr, hb] at high; exact absurd high (by decide)
    rw [Nat.testBit_eq_decide_div_mod_eq] at clear
    simp only [UInt8.toNat_zero, decide_eq_false_iff_not] at *
    omega
  · rw [hr, if_pos (by decide), UInt8.xor_eq_zero_iff] at h
    rw [h] at double
    have : (0x07 : UInt8).toNat = 7 := rfl
    omega

theorem shift16_injective : Function.Injective shift16 := by
  intro a b h
  refine UInt16.xor_eq_zero_iff.mp (eq_zero_of_shift16 ?_)
  rw [shift16_xor, h, UInt16.xor_self]

theorem shift8_injective : Function.Injective shift8 := by
  intro a b h
  refine UInt8.xor_eq_zero_iff.mp (eq_zero_of_shift8 ?_)
  rw [shift8_xor, h, UInt8.xor_self]

theorem absorb16_xor (r r' : UInt16) (b b' : UInt8) :
    absorb16 (r ^^^ r') (b ^^^ b') = absorb16 r b ^^^ absorb16 r' b' := by
  have hsum : r ^^^ r' ^^^ (b.toUInt16 ^^^ b'.toUInt16)
      = (r ^^^ b.toUInt16) ^^^ (r' ^^^ b'.toUInt16) := by ac_rfl
  simp only [absorb16, UInt8.toUInt16_xor, hsum, cycle16, shift16_xor]

theorem absorb8_xor (r r' b b' : UInt8) :
    absorb8 (r ^^^ r') (b ^^^ b') = absorb8 r b ^^^ absorb8 r' b' := by
  have hsum : r ^^^ r' ^^^ (b ^^^ b') = (r ^^^ b) ^^^ (r' ^^^ b') := by ac_rfl
  simp only [absorb8, hsum, cycle8, shift8_xor]

section Fold

variable {α β : Type} {absorb : α → β → α}

theorem foldl_injective (keeps : ∀ b, Function.Injective (absorb · b)) (bs : List β) :
    Function.Injective (bs.foldl absorb) := by
  induction bs with
  | nil => exact fun _ _ h => h
  | cons b bs ih => exact fun _ _ h => keeps b (ih h)

theorem foldl_xor [XorOp α] [XorOp β]
    (adds : ∀ r r' b b', absorb (r ^^^ r') (b ^^^ b') = absorb r b ^^^ absorb r' b')
    {as bs : List β} (hlen : as.length = bs.length) (r r' : α) :
    (List.zipWith (· ^^^ ·) as bs).foldl absorb (r ^^^ r')
      = as.foldl absorb r ^^^ bs.foldl absorb r' := by
  induction as generalizing bs r r' with
  | nil =>
    obtain rfl := List.eq_nil_of_length_eq_zero hlen.symm
    rfl
  | cons a as ih =>
    cases bs with
    | nil => cases hlen
    | cons b bs =>
      rw [List.zipWith_cons_cons, List.foldl_cons, adds, ih (Nat.succ.inj hlen)]
      rfl

end Fold

theorem crc16_xor {as bs : List UInt8} (hlen : as.length = bs.length) :
    crc16 (List.zipWith (· ^^^ ·) as bs) = crc16 as ^^^ crc16 bs :=
  foldl_xor absorb16_xor hlen 0 0

theorem crc8_xor {as bs : List UInt8} (hlen : as.length = bs.length) :
    crc8 (List.zipWith (· ^^^ ·) as bs) = crc8 as ^^^ crc8 bs :=
  foldl_xor absorb8_xor hlen 0 0

end Checksum

end NcpHost
