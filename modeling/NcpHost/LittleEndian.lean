/-!
Numbers on the wire, least significant byte first. `bytes` writes a number into a fixed count of
bytes and drops what does not fit; `value` reads any count of bytes. Main statements: reading what
was written gives the number modulo the width, and writing what was read gives the bytes back.
-/

namespace NcpHost.LittleEndian

/-- The low `width` bytes of `n`, least significant first. -/
def bytes : (width : Nat) → (n : Nat) → List UInt8
  | 0, _ => []
  | width + 1, n => n.toUInt8 :: bytes width (n / 256)

def value : List UInt8 → Nat
  | [] => 0
  | b :: rest => b.toNat + 256 * value rest

def capacity : (width : Nat) → Nat
  | 0 => 1
  | width + 1 => 256 * capacity width

@[simp] theorem length_bytes (width n : Nat) : (bytes width n).length = width := by
  induction width generalizing n with
  | zero => rfl
  | succ width ih => simp [bytes, ih]

theorem value_bytes (width n : Nat) : value (bytes width n) = n % capacity width := by
  induction width generalizing n with
  | zero => simp [bytes, value, capacity, Nat.mod_one]
  | succ width ih =>
    simp only [bytes, value, capacity, ih, Nat.mod_mul]
    simp

theorem value_lt (bs : List UInt8) : value bs < capacity bs.length := by
  induction bs with
  | nil => simp [value, capacity]
  | cons b rest ih =>
    have := b.toNat_lt
    simp only [value, List.length_cons, capacity]
    omega

theorem bytes_value (bs : List UInt8) : bytes bs.length (value bs) = bs := by
  induction bs with
  | nil => rfl
  | cons b rest ih =>
    have hb := b.toNat_lt
    have hd : (b.toNat + 256 * value rest) / 256 = value rest := by omega
    have hm : (b.toNat + 256 * value rest).toUInt8 = b := by
      apply UInt8.toNat_inj.1
      simp
    simp [bytes, value, hd, hm, ih]

theorem capacity_pos (width : Nat) : 0 < capacity width := by
  induction width with
  | zero => exact Nat.one_pos
  | succ width ih => exact Nat.mul_pos (by decide) ih

theorem bytes_mod (width n : Nat) : bytes width (n % capacity width) = bytes width n := by
  induction width generalizing n with
  | zero => rfl
  | succ width ih =>
    have hlow : (n % (256 * capacity width)).toUInt8 = n.toUInt8 := by
      refine UInt8.toNat_inj.mp ?_
      simp
    rw [bytes, bytes, capacity, hlow, Nat.mod_mul_right_div_self, ih]

theorem value_take_lt {width : Nat} {data : List UInt8} (h : width ≤ data.length) :
    value (data.take width) < capacity width := by
  have hlt := value_lt (data.take width)
  rwa [List.length_take, Nat.min_eq_left h] at hlt

theorem bytes_value_take {width : Nat} {data : List UInt8} (h : width ≤ data.length) :
    bytes width (value (data.take width)) = data.take width := by
  have hback := bytes_value (data.take width)
  rwa [List.length_take, Nat.min_eq_left h] at hback

end NcpHost.LittleEndian
