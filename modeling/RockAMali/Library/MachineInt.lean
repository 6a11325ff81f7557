import Mathlib.Algebra.Ring.Int.Defs
import Mathlib.Algebra.Ring.Nat

/-!
Integers in machine words of 32 bits: unsigned arithmetic modulo 2^32, and
signed arithmetic without a result past the range.
-/

namespace MachineInt

theorem toNat_ofInt (n : Int) : (UInt32.ofInt n).toNat = (n % 2 ^ 32).toNat := by
  have bound : (n % 2 ^ 32).toNat < 2 ^ 32 := by omega
  rw [UInt32.ofInt, UInt32.toNat_ofNat_of_lt' bound]

theorem toNat_ofInt_of_lt {n : Int} (nonneg : 0 ≤ n) (small : n < 2 ^ 32) :
    ((UInt32.ofInt n).toNat : Int) = n := by
  rw [toNat_ofInt]
  omega

theorem toInt32_ofInt (n : Int) : (UInt32.ofInt n).toInt32 = Int32.ofInt n := by
  rw [← Int32.toInt_inj, Int32.toInt_ofInt, ← Int32.toInt_toBitVec, UInt32.toBitVec_toInt32,
    BitVec.toInt_eq_toNat_bmod, UInt32.toNat_toBitVec, toNat_ofInt,
    Int.toNat_of_nonneg (Int.emod_nonneg n (by omega))]
  exact Int.emod_bmod n (2 ^ 32)

theorem ofInt_toInt (n : Int32) : UInt32.ofInt n.toInt = n.toUInt32 := by
  have same := toInt32_ofInt n.toInt
  rw [Int32.ofInt_toInt] at same
  rw [← UInt32.toUInt32_toInt32 (UInt32.ofInt n.toInt), same]

def Fits (n : Int) : Prop := -2 ^ 31 ≤ n ∧ n < 2 ^ 31

instance (n : Int) : Decidable (Fits n) := inferInstanceAs (Decidable (_ ∧ _))

def int (n : Int) : Option Int := if Fits n then some n else none

theorem int_eq_some {n m : Int} : int n = some m ↔ Fits n ∧ n = m := by
  rw [int]
  split
  · simp [*]
  · simp [*]

theorem int_of_fits {n : Int} (fits : Fits n) : int n = some n := if_pos fits

theorem Fits.toInt_ofInt {n : Int} (fits : Fits n) : (UInt32.ofInt n).toInt32.toInt = n := by
  rw [toInt32_ofInt]
  exact Int32.toInt_ofInt_of_le fits.1 fits.2

end MachineInt
