import Mathlib.Data.List.OfFn
import Mathlib.Logic.Function.Iterate
import NcpHost.Proofs.Checksum

/-! Both registers take a text in bit by bit, the 16-bit one from the least significant bit of each
byte on and the 8-bit one from the most significant. A row of bits that the register has room for
can as well be laid over it at once, before the steps are made. So two rows of that length leave
different registers behind, wherever they stand in a text and whatever follows: a checksum shows
every burst of differing bits that is not longer than its register. -/

namespace NcpHost.Checksum

def lowFirst (b : UInt8) : List Bool := List.ofFn fun i : Fin 8 => b.toBitVec.getLsbD i

def highFirst (b : UInt8) : List Bool := List.ofFn fun i : Fin 8 => b.toBitVec.getMsbD i

theorem length_lowFirst (b : UInt8) : (lowFirst b).length = 8 := List.length_ofFn

theorem length_highFirst (b : UInt8) : (highFirst b).length = 8 := List.length_ofFn

/-- All places in which two rows of bits differ are among so many consecutive ones. -/
def OffWithin (width : Nat) (as bs : List Bool) : Prop :=
  ∃ start, ∀ i, as[i]? ≠ bs[i]? → start ≤ i ∧ i < start + width

theorem offWithin_iff {width : Nat} {as bs : List Bool} (hlen : as.length = bs.length) :
    OffWithin width as bs ↔ ∃ before window window' after, as = before ++ window ++ after
      ∧ bs = before ++ window' ++ after ∧ window.length = window'.length
      ∧ window.length ≤ width := by
  constructor
  · rintro ⟨start, hoff⟩
    have hsame : ∀ i, i < start ∨ start + width ≤ i → as[i]? = bs[i]? := by
      intro i hi
      by_contra hne
      have := hoff i hne
      omega
    have hbefore : as.take start = bs.take start := by
      refine List.ext_getElem? fun i => ?_
      rw [List.getElem?_take, List.getElem?_take]
      split
      · next hi => exact hsame i (.inl hi)
      · rfl
    have hafter : as.drop (start + width) = bs.drop (start + width) := by
      refine List.ext_getElem? fun i => ?_
      rw [List.getElem?_drop, List.getElem?_drop]
      exact hsame _ (.inr (Nat.le_add_right _ _))
    -- every row is what is before the window, the window, and what is behind
    have hcut : ∀ cs : List Bool, cs = cs.take start ++ (cs.drop start).take width
        ++ cs.drop (start + width) := by
      intro cs
      rw [List.append_assoc, ← List.drop_drop, List.take_append_drop, List.take_append_drop]
    refine ⟨as.take start, (as.drop start).take width, (bs.drop start).take width,
      as.drop (start + width), hcut as, ?_, ?_, List.length_take_le ..⟩
    · rw [hbefore, hafter]
      exact hcut bs
    · rw [List.length_take, List.length_take, List.length_drop, List.length_drop, hlen]
  · rintro ⟨before, window, window', after, rfl, rfl, hwindow, hwidth⟩
    refine ⟨before.length, fun i hne => ?_⟩
    by_contra hout
    refine hne ?_
    by_cases hi : i < before.length
    · rw [List.append_assoc, List.append_assoc, List.getElem?_append_left hi,
        List.getElem?_append_left hi]
    · have hbehind : (before ++ window).length ≤ i := by
        rw [List.length_append]
        omega
      have hbehind' : (before ++ window').length ≤ i := by
        rw [List.length_append]
        omega
      rw [List.getElem?_append_right hbehind, List.getElem?_append_right hbehind',
        List.length_append, List.length_append, hwindow]

theorem OffWithin.mono {width wider : Nat} {as bs : List Bool} (h : OffWithin width as bs)
    (hle : width ≤ wider) : OffWithin wider as bs := by
  obtain ⟨start, hoff⟩ := h
  refine ⟨start, fun i hne => ?_⟩
  have := hoff i hne
  omega

theorem OffWithin.behind {width : Nat} {as bs : List Bool} (h : OffWithin width as bs)
    (front : List Bool) : OffWithin width (front ++ as) (front ++ bs) := by
  obtain ⟨start, hoff⟩ := h
  refine ⟨front.length + start, fun i hne => ?_⟩
  by_cases hi : i < front.length
  · rw [List.getElem?_append_left hi, List.getElem?_append_left hi] at hne
    exact absurd rfl hne
  · rw [List.getElem?_append_right (Nat.le_of_not_lt hi),
      List.getElem?_append_right (Nat.le_of_not_lt hi)] at hne
    have := hoff _ hne
    omega

theorem offWithin_front {width : Nat} {window window' : List Bool}
    (hlen : window.length = window'.length) (hwidth : window.length ≤ width) (after : List Bool) :
    OffWithin width (window ++ after) (window' ++ after) := by
  refine (offWithin_iff (by simp [hlen])).mpr ⟨[], window, window', after, ?_⟩
  exact ⟨rfl, rfl, hlen, hwidth⟩

section Order

variable {order : UInt8 → List Bool} (eight : ∀ b, (order b).length = 8)
include eight

theorem length_flatMap_order (bs : List UInt8) : (bs.flatMap order).length = 8 * bs.length := by
  induction bs with
  | nil => rfl
  | cons b bs ih => simp [eight, ih, Nat.mul_succ, Nat.add_comm]

theorem flatMap_order_injective (tells : Function.Injective order) {as bs : List UInt8}
    (h : as.flatMap order = bs.flatMap order) : as = bs := by
  induction as generalizing bs with
  | nil =>
    have hlen := length_flatMap_order eight bs
    rw [← h] at hlen
    exact (List.eq_nil_of_length_eq_zero (by simpa using hlen.symm)).symm
  | cons a as ih =>
    cases bs with
    | nil =>
      have hlen := length_flatMap_order eight (a :: as)
      rw [h] at hlen
      simp at hlen
    | cons b bs =>
      obtain ⟨hhead, htail⟩ := List.append_inj h ((eight a).trans (eight b).symm)
      rw [tells hhead, ih htail]

theorem offWithin_of_oneByteOff {as bs : List UInt8} (h : OneByteOff as bs) :
    OffWithin 8 (as.flatMap order) (bs.flatMap order) := by
  induction h with
  | here =>
    rw [List.flatMap_cons, List.flatMap_cons]
    exact offWithin_front (by rw [eight, eight]) (Nat.le_of_eq (eight _)) _
  | there _ ih =>
    rw [List.flatMap_cons, List.flatMap_cons]
    exact ih.behind _

theorem offWithin_of_adjacentOff {as bs : List UInt8} (h : AdjacentOff as bs) :
    OffWithin 16 (as.flatMap order) (bs.flatMap order) := by
  induction h with
  | here =>
    simp only [List.flatMap_cons, ← List.append_assoc]
    exact offWithin_front (by simp [eight]) (by simp [eight]) _
  | there _ ih =>
    rw [List.flatMap_cons, List.flatMap_cons]
    exact ih.behind _

end Order

/-- A row of bits in the 16-bit register, the first one where bits fall out. -/
def lay16 : List Bool → UInt16
  | [] => 0
  | b :: bits => (lay16 bits <<< 1) ^^^ if b then 1 else 0

def lay8 : List Bool → UInt8
  | [] => 0
  | b :: bits => (lay8 bits >>> 1) ^^^ if b then 0x80 else 0

theorem getLsbD_lay16 (bits : List Bool) {i : Nat} (hi : i < 16) :
    (lay16 bits).toBitVec.getLsbD i = bits.getD i false := by
  induction bits generalizing i with
  | nil => simp [lay16]
  | cons b bits ih =>
    cases i with
    | zero => cases b <;> simp [lay16]
    | succ i =>
      have hrest := ih (i := i) (by omega)
      cases b <;> simp_all [lay16]

theorem getMsbD_port8 {i : Nat} (hi : i + 1 < 8) : (128#8).getMsbD (i + 1) = false := by
  have hclear : ∀ i < 7, (128#8).getMsbD (i + 1) = false := by decide
  exact hclear i (by omega)

theorem getMsbD_lay8 (bits : List Bool) {i : Nat} (hi : i < 8) :
    (lay8 bits).toBitVec.getMsbD i = bits.getD i false := by
  induction bits generalizing i with
  | nil => simp [lay8]
  | cons b bits ih =>
    cases i with
    | zero => cases b <;> simp [lay8]
    | succ i =>
      have hrest := ih (i := i) (by omega)
      have hclear := getMsbD_port8 hi
      cases b <;> simp_all [lay8]

theorem lay16_injective {bits bits' : List Bool} (hlen : bits.length = bits'.length)
    (hwidth : bits.length ≤ 16) (h : lay16 bits = lay16 bits') : bits = bits' := by
  refine List.ext_getElem hlen fun i hi hi' => ?_
  have hbit := getLsbD_lay16 bits (Nat.lt_of_lt_of_le hi hwidth)
  rw [h, getLsbD_lay16 bits' (Nat.lt_of_lt_of_le hi hwidth)] at hbit
  simpa [hi, hi'] using hbit.symm

theorem lay8_injective {bits bits' : List Bool} (hlen : bits.length = bits'.length)
    (hwidth : bits.length ≤ 8) (h : lay8 bits = lay8 bits') : bits = bits' := by
  refine List.ext_getElem hlen fun i hi hi' => ?_
  have hbit := getMsbD_lay8 bits (Nat.lt_of_lt_of_le hi hwidth)
  rw [h, getMsbD_lay8 bits' (Nat.lt_of_lt_of_le hi hwidth)] at hbit
  simpa [hi, hi'] using hbit.symm

theorem lay16_lowFirst (b : UInt8) : lay16 (lowFirst b) = b.toUInt16 := by
  apply UInt16.toBitVec_inj.mp
  refine BitVec.eq_of_getLsbD_eq fun i hi => ?_
  rw [getLsbD_lay16 _ hi, List.getD_eq_getElem?_getD, lowFirst, List.getElem?_ofFn]
  by_cases hlow : i < 8
  · simp [hi, hlow]
  · simp [hlow, BitVec.getLsbD_of_ge b.toBitVec i (Nat.le_of_not_lt hlow)]

theorem lay8_highFirst (b : UInt8) : lay8 (highFirst b) = b := by
  apply UInt8.toBitVec_inj.mp
  refine BitVec.eq_of_getMsbD_eq fun i hi => ?_
  rw [getMsbD_lay8 _ hi, List.getD_eq_getElem?_getD, highFirst, List.getElem?_ofFn]
  simp [hi]

theorem lowFirst_injective : Function.Injective lowFirst := by
  intro a b h
  have hsame := lay16_lowFirst a
  rw [h, lay16_lowFirst] at hsame
  exact (UInt8.toUInt16_inj.mp hsame).symm

theorem highFirst_injective : Function.Injective highFirst := by
  intro a b h
  have hsame := lay8_highFirst a
  rw [h, lay8_highFirst] at hsame
  exact hsame.symm

theorem shift16_lay16 {bits : List Bool} (h : bits.length < 16) :
    shift16 (lay16 bits <<< 1) = lay16 bits := by
  have low : (lay16 bits <<< 1) &&& 1 = 0 := by
    apply UInt16.toBitVec_inj.mp
    ext i hi
    cases i <;> simp
  have top : (lay16 bits).toBitVec[15] = false := by
    rw [← BitVec.getLsbD_eq_getElem, getLsbD_lay16 bits (by decide),
      List.getD_eq_default _ _ (by omega)]
  rw [shift16, low, if_neg (by decide)]
  apply UInt16.toBitVec_inj.mp
  refine BitVec.eq_of_getLsbD_eq fun i hi => ?_
  by_cases hlast : i = 15
  · simp [hlast, top]
  · have : 1 + i < 16 := by omega
    simp [this, BitVec.getLsbD_eq_getElem hi]

theorem shift8_lay8 {bits : List Bool} (h : bits.length < 8) :
    shift8 (lay8 bits >>> 1) = lay8 bits := by
  have high : (lay8 bits >>> 1) &&& 0x80 = 0 := by
    apply UInt8.toBitVec_inj.mp
    refine BitVec.eq_of_getMsbD_eq fun i hi => ?_
    cases i with
    | zero => simp
    | succ i => simp [getMsbD_port8 hi]
  have low : (lay8 bits).toBitVec.getMsbD 7 = false := by
    rw [getMsbD_lay8 bits (by decide), List.getD_eq_default _ _ (by omega)]
  rw [shift8, high, if_neg (by decide)]
  apply UInt8.toBitVec_inj.mp
  refine BitVec.eq_of_getMsbD_eq fun i hi => ?_
  by_cases hlast : i = 7
  · simp [hlast, low]
  · have : i + 1 < 8 := by omega
    simp [this]

def feed16 (r : UInt16) (b : Bool) : UInt16 := shift16 (r ^^^ if b then 1 else 0)

def feed8 (r : UInt8) (b : Bool) : UInt8 := shift8 (r ^^^ if b then 0x80 else 0)

section Serial

variable {α : Type} {width : Nat} {feed : α → Bool → α} {shift : α → α}
variable (layOver : α → List Bool → α) (layOver_nil : ∀ r, layOver r [] = r)
  (layOver_feed : ∀ r b bits, bits.length < width →
    layOver (feed r b) bits = shift (layOver r (b :: bits)))
include layOver_nil layOver_feed

theorem foldl_feed {bits : List Bool} (hwidth : bits.length ≤ width) (r : α) :
    bits.foldl feed r = shift^[bits.length] (layOver r bits) := by
  induction bits generalizing r with
  | nil => exact (layOver_nil r).symm
  | cons b bits ih =>
    rw [List.length_cons] at hwidth ⊢
    rw [List.foldl_cons, ih (Nat.le_of_succ_le hwidth), layOver_feed r b bits hwidth,
      Function.iterate_succ_apply]

/-- Rows of bits that are the same but for a window no wider than the register are the same if they
leave the same behind. -/
theorem eq_of_foldl_feed (shift_injective : Function.Injective shift)
    (feed_injective : ∀ b, Function.Injective (feed · b))
    (layOver_injective : ∀ r bits bits', bits.length = bits'.length → bits.length ≤ width →
      layOver r bits = layOver r bits' → bits = bits')
    {as bs : List Bool} (hlen : as.length = bs.length) (h : OffWithin width as bs) {r : α}
    (hsame : as.foldl feed r = bs.foldl feed r) : as = bs := by
  obtain ⟨before, window, window', after, rfl, rfl, hwindow, hwidth⟩ := (offWithin_iff hlen).mp h
  simp only [List.foldl_append] at hsame
  have hleft := foldl_injective feed_injective after hsame
  have hwidth' : window'.length ≤ width := hwindow ▸ hwidth
  rw [foldl_feed layOver layOver_nil layOver_feed hwidth,
    foldl_feed layOver layOver_nil layOver_feed hwidth', ← hwindow] at hleft
  have hlaid := shift_injective.iterate _ hleft
  rw [layOver_injective _ _ _ hwindow hwidth hlaid]

end Serial

theorem over_feed16 (r : UInt16) (b : Bool) (bits : List Bool) (h : bits.length < 16) :
    feed16 r b ^^^ lay16 bits = shift16 (r ^^^ lay16 (b :: bits)) := by
  calc feed16 r b ^^^ lay16 bits
      = shift16 (r ^^^ if b then 1 else 0) ^^^ shift16 (lay16 bits <<< 1) := by
        rw [shift16_lay16 h, feed16]
    _ = shift16 (r ^^^ lay16 (b :: bits)) := by
        rw [← shift16_xor, UInt16.xor_assoc, UInt16.xor_comm (if b then 1 else 0), lay16]

theorem over_feed8 (r : UInt8) (b : Bool) (bits : List Bool) (h : bits.length < 8) :
    feed8 r b ^^^ lay8 bits = shift8 (r ^^^ lay8 (b :: bits)) := by
  calc feed8 r b ^^^ lay8 bits
      = shift8 (r ^^^ if b then 0x80 else 0) ^^^ shift8 (lay8 bits >>> 1) := by
        rw [shift8_lay8 h, feed8]
    _ = shift8 (r ^^^ lay8 (b :: bits)) := by
        rw [← shift8_xor, UInt8.xor_assoc, UInt8.xor_comm (if b then 0x80 else 0), lay8]

theorem feed16_injective (b : Bool) : Function.Injective (feed16 · b) :=
  fun _ _ h => (UInt16.xor_left_inj _).mp (shift16_injective h)

theorem feed8_injective (b : Bool) : Function.Injective (feed8 · b) :=
  fun _ _ h => (UInt8.xor_left_inj _).mp (shift8_injective h)

theorem foldl_feed16 (r : UInt16) (b : UInt8) : (lowFirst b).foldl feed16 r = absorb16 r b := by
  rw [foldl_feed (fun r bits => r ^^^ lay16 bits) (fun _ => UInt16.xor_zero) over_feed16
    (by rw [length_lowFirst]; decide), length_lowFirst, lay16_lowFirst]
  rfl

theorem foldl_feed8 (r b : UInt8) : (highFirst b).foldl feed8 r = absorb8 r b := by
  rw [foldl_feed (fun r bits => r ^^^ lay8 bits) (fun _ => UInt8.xor_zero) over_feed8
    (by simp [length_highFirst]), length_highFirst, lay8_highFirst]
  rfl

theorem crc16_eq (bs : List UInt8) : crc16 bs = (bs.flatMap lowFirst).foldl feed16 0 := by
  simp only [crc16, List.foldl_flatMap, foldl_feed16]

theorem crc8_eq (bs : List UInt8) : crc8 bs = (bs.flatMap highFirst).foldl feed8 0 := by
  simp only [crc8, List.foldl_flatMap, foldl_feed8]

theorem crc16_ne_of_offWithin {as bs : List UInt8} (hlen : as.length = bs.length) (hne : as ≠ bs)
    (h : OffWithin 16 (as.flatMap lowFirst) (bs.flatMap lowFirst)) : crc16 as ≠ crc16 bs := by
  intro hsame
  rw [crc16_eq, crc16_eq] at hsame
  refine hne (flatMap_order_injective length_lowFirst lowFirst_injective ?_)
  refine eq_of_foldl_feed (fun r bits => r ^^^ lay16 bits) (fun _ => UInt16.xor_zero)
    over_feed16 shift16_injective feed16_injective (fun r bits bits' hl hw hover => ?_) ?_ h hsame
  · exact lay16_injective hl hw ((UInt16.xor_right_inj r).mp hover)
  · rw [length_flatMap_order length_lowFirst, length_flatMap_order length_lowFirst, hlen]

theorem crc8_ne_of_offWithin {as bs : List UInt8} (hlen : as.length = bs.length) (hne : as ≠ bs)
    (h : OffWithin 8 (as.flatMap highFirst) (bs.flatMap highFirst)) : crc8 as ≠ crc8 bs := by
  intro hsame
  rw [crc8_eq, crc8_eq] at hsame
  refine hne (flatMap_order_injective length_highFirst highFirst_injective ?_)
  refine eq_of_foldl_feed (fun r bits => r ^^^ lay8 bits) (fun _ => UInt8.xor_zero)
    over_feed8 shift8_injective feed8_injective (fun r bits bits' hl hw hover => ?_) ?_ h hsame
  · exact lay8_injective hl hw ((UInt8.xor_right_inj r).mp hover)
  · rw [length_flatMap_order length_highFirst, length_flatMap_order length_highFirst, hlen]

theorem crc16_ne {as bs : List UInt8} (h : OneByteOff as bs) : crc16 as ≠ crc16 bs :=
  crc16_ne_of_offWithin h.length_eq.symm h.ne
    ((offWithin_of_oneByteOff length_lowFirst h).mono (by decide))

theorem crc8_ne {as bs : List UInt8} (h : OneByteOff as bs) : crc8 as ≠ crc8 bs :=
  crc8_ne_of_offWithin h.length_eq.symm h.ne (offWithin_of_oneByteOff length_highFirst h)

theorem crc16_ne_of_adjacent {as bs : List UInt8} (h : AdjacentOff as bs) :
    crc16 as ≠ crc16 bs :=
  crc16_ne_of_offWithin h.length_eq.symm h.ne (offWithin_of_adjacentOff length_lowFirst h)

/-- Texts of the same length that differ within sixteen consecutive bits, counted from the least
significant one of each byte on, have different 16-bit checksums; those that differ within eight,
counted from the most significant one on, have different 8-bit checksums. Either checksum of the sum
of two texts is the sum of their checksums. -/
theorem bursts_told_apart (as bs : List UInt8) (hlen : as.length = bs.length) :
    (as ≠ bs → OffWithin 16 (as.flatMap lowFirst) (bs.flatMap lowFirst) → crc16 as ≠ crc16 bs)
      ∧ (as ≠ bs → OffWithin 8 (as.flatMap highFirst) (bs.flatMap highFirst) → crc8 as ≠ crc8 bs)
      ∧ crc16 (List.zipWith (· ^^^ ·) as bs) = crc16 as ^^^ crc16 bs
      ∧ crc8 (List.zipWith (· ^^^ ·) as bs) = crc8 as ^^^ crc8 bs :=
  ⟨fun hne hoff => crc16_ne_of_offWithin hlen hne hoff,
    fun hne hoff => crc8_ne_of_offWithin hlen hne hoff, crc16_xor hlen, crc8_xor hlen⟩

/-- Bursts that are not aligned to bytes: sixteen bits from the sixth one on, and eight bits from
there on in the other order. -/
theorem bursts_told_apart_unaligned :
    let as : List UInt8 := [0x12, 0x34, 0x56, 0x78]
    let bs : List UInt8 := [0xF2, 0xCB, 0x49, 0x78]
    let cs : List UInt8 := [0x15, 0xCC, 0x56, 0x78]
    as.length = bs.length ∧ as ≠ bs ∧ OffWithin 16 (as.flatMap lowFirst) (bs.flatMap lowFirst)
      ∧ crc16 as ≠ crc16 bs
      ∧ as.length = cs.length ∧ as ≠ cs ∧ OffWithin 8 (as.flatMap highFirst) (cs.flatMap highFirst)
      ∧ crc8 as ≠ crc8 cs
      ∧ crc16 (List.zipWith (· ^^^ ·) as bs) = crc16 as ^^^ crc16 bs := by
  intro as bs cs
  have hbs : OffWithin 16 (as.flatMap lowFirst) (bs.flatMap lowFirst) := by
    refine (offWithin_iff (by decide)).mpr ⟨(as.flatMap lowFirst).take 5,
      ((as.flatMap lowFirst).drop 5).take 16, ((bs.flatMap lowFirst).drop 5).take 16,
      (as.flatMap lowFirst).drop 21, ?_⟩
    decide
  have hcs : OffWithin 8 (as.flatMap highFirst) (cs.flatMap highFirst) := by
    refine (offWithin_iff (by decide)).mpr ⟨(as.flatMap highFirst).take 5,
      ((as.flatMap highFirst).drop 5).take 8, ((cs.flatMap highFirst).drop 5).take 8,
      (as.flatMap highFirst).drop 13, ?_⟩
    decide
  obtain ⟨hburst, -, hsum, -⟩ := bursts_told_apart as bs rfl
  have hburst' := (bursts_told_apart as cs rfl).2.1
  have hne : as ≠ bs := by decide
  have hne' : as ≠ cs := by decide
  exact ⟨rfl, hne, hbs, hburst hne hbs, rfl, hne', hcs, hburst' hne' hcs, hsum⟩

/-- One bit more is too much for either: the registers' own polynomials go unnoticed. -/
example : crc16 [0x11, 0x08, 0x01] = crc16 [0, 0, 0] ∧ crc8 [0x83, 0x80] = crc8 [0, 0] := by
  decide +kernel

end NcpHost.Checksum
