import Mathlib.Tactic

/-!
# ByteOrder — integers in memory

* `ByteOrder.bytes` — the bytes of a number, in the order of a machine;
* `ByteOrder.value` — the number that a machine of that order reads from bytes;
* `ByteOrder.value_bytes` — a machine reads what it has written;
* `toNat_roundUp` — sizes that are rounded up to a multiple of four.
-/

namespace Lib

inductive ByteOrder where
  | little
  | big
  deriving DecidableEq, Repr

namespace ByteOrder

/-- The low `w` bytes of a number, the lowest first. -/
def digits : (w n : Nat) → List UInt8
  | 0, _ => []
  | w + 1, n => UInt8.ofNat (n % 256) :: digits w (n / 256)

def ofDigits : List UInt8 → Nat
  | [] => 0
  | b :: bytes => b.toNat + 256 * ofDigits bytes

@[simp] theorem length_digits (w n : Nat) : (digits w n).length = w := by
  induction w generalizing n with
  | zero => rfl
  | succ w ih => rw [digits, List.length_cons, ih]

theorem ofDigits_digits {w n : Nat} (h : n < 256 ^ w) : ofDigits (digits w n) = n := by
  induction w generalizing n with
  | zero =>
      rw [pow_zero] at h
      exact (Nat.lt_one_iff.1 h).symm
  | succ w ih =>
      have hdiv : n / 256 < 256 ^ w := by
        rw [Nat.div_lt_iff_lt_mul (by norm_num)]
        exact h.trans_eq (pow_succ 256 w)
      have hbyte : (UInt8.ofNat (n % 256)).toNat = n % 256 :=
        UInt8.toNat_ofNat_of_lt' (Nat.mod_lt n (by norm_num))
      calc
        ofDigits (digits (w + 1) n)
            = n % 256 + 256 * (n / 256) := by rw [digits, ofDigits, hbyte, ih hdiv]
        _ = n := Nat.mod_add_div n 256

def bytes (order : ByteOrder) (w n : Nat) : List UInt8 :=
  match order with
  | .little => digits w n
  | .big => (digits w n).reverse

def value (order : ByteOrder) (bytes : List UInt8) : Nat :=
  match order with
  | .little => ofDigits bytes
  | .big => ofDigits bytes.reverse

variable (order : ByteOrder)

@[simp] theorem length_bytes (w n : Nat) : (order.bytes w n).length = w := by
  cases order with
  | little => exact length_digits w n
  | big => rw [bytes, List.length_reverse, length_digits]

/-- A machine reads what it has written. -/
theorem value_bytes {w n : Nat} (h : n < 256 ^ w) : order.value (order.bytes w n) = n := by
  cases order with
  | little => exact ofDigits_digits h
  | big => rw [bytes, value, List.reverse_reverse, ofDigits_digits h]

end ByteOrder

/-! ## Alignment -/

theorem and_not_three {m : Nat} (hm : m < 2 ^ 32) : m &&& 4294967292 = m / 4 * 4 := by
  have hmask : 4294967292 = (2 ^ 30 - 1) <<< 2 := rfl
  have hround : m / 4 * 4 = (m >>> 2) <<< 2 := by
    rw [Nat.shiftRight_eq_div_pow, Nat.shiftLeft_eq]
  rw [hmask, hround]
  apply Nat.eq_of_testBit_eq
  intro i
  rw [Nat.testBit_and, Nat.testBit_shiftLeft, Nat.testBit_shiftLeft, Nat.testBit_two_pow_sub_one,
    Nat.testBit_shiftRight]
  by_cases hi : 2 ≤ i
  · by_cases hlt : i < 32
    · have h30 : i - 2 < 30 := by omega
      simp [hi, h30]
    · have hbit : m.testBit i = false :=
        Nat.testBit_lt_two_pow (hm.trans_le (Nat.pow_le_pow_right (by norm_num) (not_lt.1 hlt)))
      simp [hi, hbit]
  · simp [hi]

/-- A size is rounded up, if it does not come near the end of the range. -/
theorem toNat_roundUp {n : UInt32} (h : n.toNat < 2 ^ 31) :
    ((n + 3) &&& ~~~3).toNat = (n.toNat + 3) / 4 * 4 := by
  have hthree : (3 : UInt32).toNat = 3 := rfl
  have hmask : (~~~3 : UInt32).toNat = 4294967292 := rfl
  have hsum : (n + 3).toNat = n.toNat + 3 := by
    rw [UInt32.toNat_add, hthree]
    exact Nat.mod_eq_of_lt (by omega)
  rw [UInt32.toNat_and, hmask, hsum, and_not_three (by omega)]

end Lib
