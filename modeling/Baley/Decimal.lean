import Mathlib.Data.List.Basic
import Mathlib.Data.Nat.Digits.Defs
import Mathlib.Order.Defs.LinearOrder

/-!
# Decimal digits of a fixed width

A number written in a fixed number of digits, its leading zeros kept.  Among numbers of one width
the order of the bytes is the order of the numbers.
-/

namespace Decimal

/-- The last digits of a number, in ASCII. -/
def fixed : Nat → Nat → List UInt8
  | 0, _ => []
  | width + 1, n => fixed width (n / 10) ++ [UInt8.ofNat (48 + n % 10)]

@[simp]
theorem length_fixed (width n : Nat) : (fixed width n).length = width := by
  induction width generalizing n with
  | zero => rfl
  | succ width ih => rw [fixed, List.length_append, ih, List.length_singleton]

theorem toNat_digit {n : Nat} (small : n < 10) : (UInt8.ofNat (48 + n)).toNat = 48 + n := by
  rw [UInt8.toNat_ofNat']
  omega

/-- Lists that share the length of their first parts are ordered by these, then by the rest. -/
theorem append_lt_append_iff {first second : List UInt8} (length_eq : first.length = second.length)
    (rest rest' : List UInt8) :
    first ++ rest < second ++ rest' ↔ first < second ∨ first = second ∧ rest < rest' := by
  induction first generalizing second with
  | nil =>
      obtain rfl := List.length_eq_zero_iff.mp length_eq.symm
      simp
  | cons byte first ih =>
      cases second with
      | nil => cases length_eq
      | cons other second =>
          rw [List.cons_append, List.cons_append, List.cons_lt_cons_iff, List.cons_lt_cons_iff,
            ih (Nat.succ.inj length_eq), List.cons_eq_cons]
          tauto

theorem div_lt_of_lt_pow {n width : Nat} (inside : n < 10 ^ (width + 1)) : n / 10 < 10 ^ width := by
  rw [Nat.pow_succ] at inside
  omega

/-- Numbers that fit a width are told apart by their digits. -/
theorem fixed_inj {width n m : Nat} (n_fits : n < 10 ^ width) (m_fits : m < 10 ^ width) :
    fixed width n = fixed width m ↔ n = m := by
  refine ⟨fun same => ?_, fun same => by rw [same]⟩
  induction width generalizing n m with
  | zero =>
      rw [Nat.pow_zero] at n_fits m_fits
      omega
  | succ width ih =>
      obtain ⟨front_eq, last_eq⟩ := List.append_inj' same rfl
      have quotient_eq := ih (div_lt_of_lt_pow n_fits) (div_lt_of_lt_pow m_fits) front_eq
      have digit_eq := congrArg UInt8.toNat (List.cons.inj last_eq).1
      rw [toNat_digit (Nat.mod_lt n (by norm_num)), toNat_digit (Nat.mod_lt m (by norm_num))]
        at digit_eq
      omega

/-- Numbers that fit a width are in the order of their digits. -/
theorem fixed_lt_iff {width n m : Nat} (n_fits : n < 10 ^ width) (m_fits : m < 10 ^ width) :
    fixed width n < fixed width m ↔ n < m := by
  induction width generalizing n m with
  | zero =>
      rw [Nat.pow_zero] at n_fits m_fits
      simp only [fixed, List.lt_irrefl, false_iff]
      omega
  | succ width ih =>
      have n_front := div_lt_of_lt_pow n_fits
      have m_front := div_lt_of_lt_pow m_fits
      rw [fixed, fixed, append_lt_append_iff (by simp), ih n_front m_front, fixed_inj n_front m_front,
        List.cons_lt_cons_iff, UInt8.lt_iff_toNat_lt, toNat_digit (Nat.mod_lt n (by norm_num)),
        toNat_digit (Nat.mod_lt m (by norm_num))]
      simp only [List.lt_irrefl, and_false, or_false]
      omega

/-- One field of a fixed width after another: the first one that differs decides. -/
theorem fixed_append_lt_iff {width n m : Nat} (n_fits : n < 10 ^ width) (m_fits : m < 10 ^ width)
    (rest rest' : List UInt8) :
    fixed width n ++ rest < fixed width m ++ rest' ↔ n < m ∨ n = m ∧ rest < rest' := by
  rw [append_lt_append_iff (by simp), fixed_lt_iff n_fits m_fits, fixed_inj n_fits m_fits]

end Decimal
