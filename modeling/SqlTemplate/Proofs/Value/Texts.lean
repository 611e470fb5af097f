import Mathlib.Algebra.Group.Int.Defs
import Mathlib.Algebra.Group.Nat.Defs
import SqlTemplate.Value.Format

set_option autoImplicit false

/-! # Values that have a text -/

namespace SqlTemplate

namespace Value

theorem maxDigits_lt_length_iff (n : Int) :
    Decimal.maxDigits < (Decimal.ofNat n.natAbs).length ↔ 10 ^ Decimal.maxDigits ≤ n.natAbs := by
  rw [← Nat.not_le, Decimal.ofNat, Nat.length_toDigits_le_iff (by decide) (by decide),
    Nat.not_lt]

/-- A whole number has no text exactly when it has more digits than are written. -/
theorem format_int_eq_error_iff (n : Int) :
    (int n).format = .error .tooManyDigits ↔ 10 ^ Decimal.maxDigits ≤ n.natAbs := by
  have hinspect : (int n).format = (inspectInt n).result := rfl
  rw [← maxDigits_lt_length_iff, hinspect, inspectInt]
  split
  · rename_i hlong
    exact iff_of_true rfl hlong
  · rename_i hshort
    exact iff_of_false nofun hshort

theorem inspectInt_eq_leaf {n : Int} (h : n.natAbs < 10 ^ Decimal.maxDigits) :
    inspectInt n = .leaf (Decimal.ofInt n) := by
  rw [inspectInt, if_neg]
  rw [maxDigits_lt_length_iff]
  exact Nat.not_le.mpr h

theorem format_pow_eq_error {k : Nat} (h : Decimal.maxDigits ≤ k) :
    (int (10 ^ k)).format = .error .tooManyDigits := by
  rw [format_int_eq_error_iff, Int.natAbs_pow]
  exact Nat.pow_le_pow_right (by decide) h

/-- Whether a whole number has a text or not, the calls that look for it are as many. -/
@[simp] theorem write_calls_int (n : Int) : (int n).write.calls = 3 := by
  simp only [write, display, inspect, inspectInt, Counted.within]
  split <;> rfl

end Value

end SqlTemplate
