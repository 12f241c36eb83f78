import Mathlib.Data.Nat.ModEq
import Mathlib.Tactic.Linarith
import Mathlib.Tactic.Ring

/-!
# Words as bytes in big-endian order

`beBytes value n` are the `n` lowest bytes of a word, the most significant one
first, and `ofBytes` puts bytes together again. Each undoes the other when the
word has as many bits as the bytes.
-/

namespace MrsOptimization

/-- The lowest `n` bytes of a word, the most significant one first. -/
def beBytes {bits : ℕ} (value : BitVec bits) : ℕ → List (BitVec 8)
  | 0 => []
  | n + 1 => (value >>> (8 * n)).setWidth 8 :: beBytes value n

/-- A byte added to a word, which it shifts. -/
def appendByte {bits : ℕ} (value : BitVec bits) (byte : BitVec 8) : BitVec bits :=
  (value <<< 8) + byte.setWidth bits

/-- The word that bytes make when each one shifts the bytes before it. -/
def ofBytes (bits : ℕ) (bytes : List (BitVec 8)) : BitVec bits :=
  bytes.foldl appendByte (BitVec.ofNat bits 0)

/-- The number that bytes are the digits of. -/
def digitsValue : List (BitVec 8) → ℕ
  | [] => 0
  | byte :: rest => byte.toNat * 256 ^ rest.length + digitsValue rest

@[simp]
theorem length_beBytes {bits : ℕ} (value : BitVec bits) (n : ℕ) :
    (beBytes value n).length = n := by
  induction n with
  | zero => rfl
  | succ n ih => simp [beBytes, ih]

theorem digitsValue_beBytes {bits : ℕ} (value : BitVec bits) (n : ℕ) :
    digitsValue (beBytes value n) = value.toNat % 256 ^ n := by
  induction n with
  | zero => simp [beBytes, digitsValue, Nat.mod_one]
  | succ n ih =>
      have shift : 2 ^ (8 * n) = 256 ^ n := by rw [pow_mul]; rfl
      have byte : 2 ^ 8 = 256 := rfl
      simp only [beBytes, digitsValue, ih, length_beBytes, BitVec.toNat_setWidth,
        BitVec.toNat_ushiftRight, Nat.shiftRight_eq_div_pow, shift, byte]
      rw [pow_succ, Nat.mod_mul, mul_comm (256 ^ n), add_comm]

theorem toNat_appendByte {bits : ℕ} (value : BitVec bits) (byte : BitVec 8) :
    (appendByte value byte).toNat ≡ value.toNat * 256 + byte.toNat [MOD 2 ^ bits] := by
  simp only [appendByte, BitVec.toNat_add, BitVec.toNat_shiftLeft, BitVec.toNat_setWidth,
    Nat.shiftLeft_eq, Nat.ModEq, Nat.add_mod, Nat.mod_mod]

theorem toNat_foldl_appendByte {bits : ℕ} (bytes : List (BitVec 8)) (start : BitVec bits) :
    (bytes.foldl appendByte start).toNat =
      (start.toNat * 256 ^ bytes.length + digitsValue bytes) % 2 ^ bits := by
  induction bytes generalizing start with
  | nil => simp [digitsValue, Nat.mod_eq_of_lt start.isLt]
  | cons byte rest ih =>
      rw [List.foldl_cons, ih]
      apply (((toNat_appendByte start byte).mul_right _).add_right _).trans
      have digits : (start.toNat * 256 + byte.toNat) * 256 ^ rest.length + digitsValue rest =
          start.toNat * 256 ^ (byte :: rest).length + digitsValue (byte :: rest) := by
        simp only [digitsValue, List.length_cons, pow_succ]
        ring
      rw [digits]

theorem toNat_ofBytes (bits : ℕ) (bytes : List (BitVec 8)) :
    (ofBytes bits bytes).toNat = digitsValue bytes % 2 ^ bits := by
  simp [ofBytes, toNat_foldl_appendByte]

/-- Enough bytes of a word say which word it is. -/
theorem ofBytes_beBytes {bits n : ℕ} (enough : bits ≤ 8 * n) (value : BitVec bits) :
    ofBytes bits (beBytes value n) = value := by
  have small : value.toNat < 256 ^ n := by
    have power : (2 : ℕ) ^ bits ≤ 2 ^ (8 * n) := Nat.pow_le_pow_right (by decide) enough
    rw [pow_mul] at power
    apply lt_of_lt_of_le value.isLt
    exact power
  apply BitVec.eq_of_toNat_eq
  rw [toNat_ofBytes, digitsValue_beBytes, Nat.mod_eq_of_lt small, Nat.mod_eq_of_lt value.isLt]

end MrsOptimization
