import Mathlib.Data.Nat.ModEq
import Mathlib.Data.Nat.Prime.Basic

/-!
# Fnv — xor-and-multiply hashes

An FNV-1a hash takes a state of `w` bits through the bytes of a message: each byte is xored into the low bits, and the
state is multiplied by a constant, modulo `2 ^ w`.  The constant is odd, so no round loses anything: two states that
differ before a byte differ after it (`round_inj`), and so do two states that take different bytes
(`round_byte_inj`).  Hence messages that differ in one byte have different hashes, and a common end neither makes nor
resolves a collision (`hash_append_inj`).
-/

structure Fnv (w : ℕ) where
  basis : BitVec w
  prime : BitVec w
  prime_odd : Odd prime.toNat
  byte_le : 8 ≤ w

namespace Fnv

variable {w : ℕ} (F : Fnv w)

def round (state : BitVec w) (byte : UInt8) : BitVec w := (state ^^^ byte.toBitVec.setWidth w) * F.prime

/-- The state behind the bytes. -/
def run (state : BitVec w) (bytes : List UInt8) : BitVec w := bytes.foldl F.round state

def hash (bytes : List UInt8) : BitVec w := F.run F.basis bytes

variable {F} {state state' : BitVec w} {b c : UInt8} {x y p s : List UInt8}

theorem mul_prime_inj (h : state * F.prime = state' * F.prime) : state = state' := by
  have hcop : Nat.gcd (2 ^ w) F.prime.toNat = 1 := (Nat.coprime_two_left.mpr F.prime_odd).pow_left w
  have hmul : state.toNat * F.prime.toNat ≡ state'.toNat * F.prime.toNat [MOD 2 ^ w] := congrArg BitVec.toNat h
  exact BitVec.eq_of_toNat_eq (Nat.ModEq.eq_of_lt_of_lt (hmul.cancel_right_of_coprime hcop) state.isLt state'.isLt)

theorem round_inj : F.round state b = F.round state' b ↔ state = state' := by
  refine ⟨fun h => ?_, fun h => h ▸ rfl⟩
  exact (BitVec.xor_left_inj _).mp (mul_prime_inj h)

theorem round_byte_inj : F.round state b = F.round state c ↔ b = c := by
  refine ⟨fun h => ?_, fun h => h ▸ rfl⟩
  have hwide : b.toBitVec.setWidth w = c.toBitVec.setWidth w := (BitVec.xor_right_inj _).mp (mul_prime_inj h)
  have hnat := congrArg BitVec.toNat hwide
  have hlt : ∀ d : UInt8, d.toBitVec.toNat < 2 ^ w := fun d =>
    Nat.lt_of_lt_of_le d.toBitVec.isLt (Nat.pow_le_pow_right (by decide) F.byte_le)
  rw [BitVec.toNat_setWidth, BitVec.toNat_setWidth, Nat.mod_eq_of_lt (hlt b), Nat.mod_eq_of_lt (hlt c)] at hnat
  exact UInt8.toNat_inj.mp hnat

theorem run_append (state : BitVec w) (x y : List UInt8) : F.run state (x ++ y) = F.run (F.run state x) y :=
  List.foldl_append

theorem hash_append (x y : List UInt8) : F.hash (x ++ y) = F.run (F.hash x) y := run_append F.basis x y

theorem run_inj : F.run state s = F.run state' s ↔ state = state' := by
  induction s generalizing state state' with
  | nil => exact Iff.rfl
  | cons b s ih => exact ih.trans round_inj

/-- A common end keeps two hashes apart, and together. -/
theorem hash_append_inj : F.hash (x ++ s) = F.hash (y ++ s) ↔ F.hash x = F.hash y := by
  rw [hash_append, hash_append, run_inj]

/-- One byte makes a difference. -/
theorem hash_byte_inj : F.hash (p ++ b :: s) = F.hash (p ++ c :: s) ↔ b = c := by
  rw [hash_append, hash_append]
  exact run_inj.trans round_byte_inj

end Fnv
