import Mathlib.Algebra.Ring.Nat
import Mathlib.Data.List.Basic

/-!
# Numbers in bytes

Numbers in network byte order, in a fixed number of bytes.
-/

namespace Bytes

/-- The lowest `k` bytes of a number. -/
def spell : ℕ → ℕ → List UInt8
  | 0, _ => []
  | k + 1, n => UInt8.ofNat (n / 256 ^ k) :: spell k n

/-- The number that bytes spell. -/
def value : List UInt8 → ℕ
  | [] => 0
  | b :: bs => 256 ^ bs.length * b.toNat + value bs

@[simp] lemma length_spell (k n : ℕ) : (spell k n).length = k := by
  induction k with
  | zero => rfl
  | succ k ih => rw [spell, List.length_cons, ih]

lemma value_spell (k n : ℕ) : value (spell k n) = n % 256 ^ k := by
  induction k with
  | zero => simp [spell, value, Nat.mod_one]
  | succ k ih =>
    have hbyte : (UInt8.ofNat (n / 256 ^ k)).toNat = n / 256 ^ k % 256 := by simp
    rw [spell, value, ih, hbyte, length_spell, Nat.mod_pow_succ, Nat.add_comm]

lemma value_spell_of_lt {k n : ℕ} (h : n < 256 ^ k) : value (spell k n) = n := by
  rw [value_spell, Nat.mod_eq_of_lt h]

end Bytes
