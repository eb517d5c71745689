import Mathlib.Algebra.GroupWithZero.Nat
import Meet.Common.Memory

/-! Bit fields of a byte memory. The bits of a byte count from its most significant one, so
a field may begin in one byte and end in the next. -/
namespace Meet.Memory

def bit (m : Memory) (pos : Nat) : Nat := (m (pos / 8)).toNat / 2 ^ (7 - pos % 8) % 2

/-- The number that stands in the `length` bits from `pos` on. -/
def bits (m : Memory) (pos : Nat) : Nat → Nat
  | 0 => 0
  | length + 1 => m.bits pos length * 2 + m.bit (pos + length)

/-- A field that is cut in two. -/
theorem bits_add (m : Memory) (pos first second : Nat) :
    m.bits pos (first + second) = m.bits pos first * 2 ^ second + m.bits (pos + first) second := by
  induction second with
  | zero => simp [bits]
  | succ second ih =>
      rw [← Nat.add_assoc, bits, bits, ih, Nat.pow_succ, Nat.add_assoc pos, Nat.add_mul,
        Nat.mul_assoc, Nat.add_assoc]

/-- A field within one byte. -/
theorem bits_byte (m : Memory) (i offset length : Nat) (hFits : offset + length ≤ 8) :
    m.bits (8 * i + offset) length =
      (m i).toNat / 2 ^ (8 - (offset + length)) % 2 ^ length := by
  induction length with
  | zero => simp [bits, Nat.mod_one]
  | succ length ih =>
      have hByte : (8 * i + offset + length) / 8 = i := by omega
      have hShift : 7 - (8 * i + offset + length) % 8 = 8 - (offset + (length + 1)) := by omega
      have hPower : 2 ^ (8 - (offset + length)) = 2 ^ (8 - (offset + (length + 1))) * 2 := by
        rw [← Nat.pow_succ]
        congr 1
        omega
      rw [bits, bit, ih (by omega), hByte, hShift, hPower, ← Nat.div_div_eq_div_mul, Nat.pow_succ,
        Nat.mul_comm (2 ^ length), Nat.mod_mul]
      omega

/-- A field at the front of a byte. -/
theorem bits_front (m : Memory) (i length : Nat) (hFits : length ≤ 8) :
    m.bits (8 * i) length = (m i).toNat / 2 ^ (8 - length) := by
  have hByte := (m i).toNat_lt
  have hPower : 2 ^ (8 - length) * 2 ^ length = 256 := by
    rw [← Nat.pow_add, Nat.sub_add_cancel hFits]
  have hLess : (m i).toNat / 2 ^ (8 - length) < 2 ^ length := by
    apply Nat.div_lt_of_lt_mul
    omega
  have hField := m.bits_byte i 0 length (by omega)
  rwa [Nat.zero_add, Nat.add_zero, Nat.mod_eq_of_lt hLess] at hField

/-- A field that begins in one byte and ends in the next. -/
theorem bits_across (m : Memory) (i first second : Nat) (hFirst : first ≤ 8)
    (hSecond : second ≤ 8) :
    m.bits (8 * i + (8 - first)) (first + second) =
      (m i).toNat % 2 ^ first * 2 ^ second + (m (i + 1)).toNat / 2 ^ (8 - second) := by
  have hNext : 8 * i + (8 - first) + first = 8 * (i + 1) := by omega
  rw [bits_add, hNext, bits_front _ _ _ hSecond, bits_byte _ _ _ _ (by omega),
    Nat.sub_add_cancel hFirst, Nat.sub_self, Nat.pow_zero, Nat.div_one]

end Meet.Memory
