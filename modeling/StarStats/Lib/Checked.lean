import Mathlib.Algebra.Group.Nat.Defs
import Mathlib.Algebra.Ring.Int.Defs
import Mathlib.Data.Int.Order.Basic

/-!
# Checked 64-bit arithmetic

An operation is checked on its exact result: `i64 x` and `u64 x` are `x` if the type has it, and
nothing on an overflow. A checked value is the one that the wrapping operation of the machine type
has.
-/

namespace Checked

/-- The integers of `i64`. -/
def InI64 (x : Int) : Prop := -9223372036854775808 ≤ x ∧ x < 9223372036854775808

/-- The integers of `u64`. -/
def InU64 (x : Int) : Prop := 0 ≤ x ∧ x < 18446744073709551616

instance : DecidablePred InI64 := fun _ => inferInstanceAs (Decidable (_ ∧ _))

instance : DecidablePred InU64 := fun _ => inferInstanceAs (Decidable (_ ∧ _))

def i64 (x : Int) : Option Int := if InI64 x then some x else none

def u64 (x : Int) : Option Int := if InU64 x then some x else none

/-- `as u64` -/
def asU64 (x : Int) : Int := x % 18446744073709551616

/-- `as i64`, of a value of `u64`. -/
def asI64 (x : Int) : Int := if x < 9223372036854775808 then x else x - 18446744073709551616

theorem i64_eq_some {x v : Int} : i64 x = some v ↔ InI64 x ∧ v = x := by
  unfold i64
  split <;> simp [*, eq_comm]

theorem u64_eq_some {x v : Int} : u64 x = some v ↔ InU64 x ∧ v = x := by
  unfold u64
  split <;> simp [*, eq_comm]

theorem i64_bind {α : Type} {x : Int} {f : Int → Option α} {v : α} :
    (i64 x >>= f) = some v ↔ InI64 x ∧ f x = some v := by
  unfold i64
  split <;> simp [*]

theorem u64_bind {α : Type} {x : Int} {f : Int → Option α} {v : α} :
    (u64 x >>= f) = some v ↔ InU64 x ∧ f x = some v := by
  unfold u64
  split <;> simp [*]

theorem i64_of {x : Int} (h : InI64 x) : i64 x = some x := if_pos h

theorem u64_of {x : Int} (h : InU64 x) : u64 x = some x := if_pos h

theorem asU64_of {x : Int} (h : InU64 x) : asU64 x = x := Int.emod_eq_of_lt h.1 h.2

/-! ## Machine integers -/

theorem bmod_eq {x : Int} (h : InI64 x) : x.bmod (2 ^ 64) = x := by
  obtain ⟨hlow, hhigh⟩ := h
  refine Int.bmod_eq_of_le ?_ ?_ <;> omega

theorem toInt_add {a b : Int64} (h : InI64 (a.toInt + b.toInt)) :
    (a + b).toInt = a.toInt + b.toInt := by
  rw [Int64.toInt_add, bmod_eq h]

theorem toInt_sub {a b : Int64} (h : InI64 (a.toInt - b.toInt)) :
    (a - b).toInt = a.toInt - b.toInt := by
  rw [Int64.toInt_sub, bmod_eq h]

theorem toInt_mul {a b : Int64} (h : InI64 (a.toInt * b.toInt)) :
    (a * b).toInt = a.toInt * b.toInt := by
  rw [Int64.toInt_mul, bmod_eq h]

theorem toNat_add {a b : UInt64} (h : InU64 (a.toNat + b.toNat)) :
    ((a + b).toNat : Int) = a.toNat + b.toNat := by
  obtain ⟨-, hhigh⟩ := h
  rw [UInt64.toNat_add]
  omega

theorem toNat_sub {a b : UInt64} (h : InU64 (a.toNat - b.toNat)) :
    ((a - b).toNat : Int) = a.toNat - b.toNat := by
  have ha := a.toNat_lt
  obtain ⟨hlow, -⟩ := h
  rw [UInt64.toNat_sub]
  omega

theorem toNat_mul {a b : UInt64} (h : InU64 (a.toNat * b.toNat)) :
    ((a * b).toNat : Int) = a.toNat * b.toNat := by
  obtain ⟨-, hhigh⟩ := h
  rw [← Int.natCast_mul] at hhigh
  have hlt : a.toNat * b.toNat < 2 ^ 64 := Int.ofNat_lt.1 hhigh
  rw [UInt64.toNat_mul, Nat.mod_eq_of_lt hlt]
  exact Int.natCast_mul _ _

theorem toInt_toInt64 (a : UInt64) : a.toInt64.toInt = asI64 a.toNat := by
  have hcond := BitVec.toInt_eq_toNat_cond a.toBitVec
  have hint : a.toInt64.toInt = a.toBitVec.toInt := rfl
  have hnat : a.toBitVec.toNat = a.toNat := rfl
  rw [hint, hcond, hnat, asI64]
  split <;> split <;> omega

theorem toNat_toUInt64 (a : Int64) : (a.toUInt64.toNat : Int) = asU64 a.toInt := by
  have hback : a.toInt = asI64 a.toUInt64.toNat := toInt_toInt64 a.toUInt64
  have hlt := a.toUInt64.toNat_lt
  rw [hback, asU64, asI64]
  split <;> omega

end Checked
