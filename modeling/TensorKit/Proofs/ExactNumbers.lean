import Mathlib
import TensorKit.Arithmetic
/-!
# Exact numbers

The rational numbers with the operations that rules are written for.  Sums, products and comparisons are exact, a
quotient fails for the divisor zero only, and every number counts as a floating one.  What has no exact value fails:
powers with broken exponents, exponentials, logarithms and cosines.  The decimal that stands for half the circumference
of the unit circle is the one that computed numbers have.
-/

namespace TensorKit

open Arithmetic

instance instArithmeticRat : Arithmetic ℚ where
  whole i := i
  decimal m k := m / 10 ^ k
  pi := 3141592653589793 / 10 ^ 15
  isWhole a := a.isInt
  isFloating _ := true
  extent? _ := none
  floating a := .ok a
  ceil a := .ok ⌈a⌉
  truncate a := .ok (if a < 0 then ⌈a⌉ else ⌊a⌋)
  count a := if a.isInt then .ok a.num else .error .type
  add a b := .ok (a + b)
  sub a b := .ok (a - b)
  mul a b := .ok (a * b)
  div a b := if b = 0 then .error .zeroDivision else .ok (a / b)
  floorDiv a b := if b = 0 then .error .zeroDivision else .ok ⌊a / b⌋
  mod a b := if b = 0 then .error .zeroDivision else .ok (a - b * ⌊a / b⌋)
  pow a b := if b.isInt then if a = 0 ∧ b < 0 then .error .zeroDivision else .ok (a ^ b.num) else .error .notImplemented
  exp _ := .error .notImplemented
  cos _ := .error .notImplemented
  log _ := .error .notImplemented
  eq a b := a = b
  lt a b := .ok (a < b)
  le a b := .ok (a ≤ b)
  text a := toString a
  className _ := "<class 'float'>"

namespace Arithmetic

variable (a b : ℚ)

@[simp] theorem whole_rat (i : Int) : (whole i : ℚ) = i := rfl

@[simp] theorem decimal_rat (m : Int) (k : Nat) : (decimal m k : ℚ) = m / 10 ^ k := rfl

@[simp] theorem isNumber_rat : isNumber a := by simp [isNumber, isFloating]

@[simp] theorem extent?_rat : extent? a = none := rfl

@[simp] theorem floating_rat : floating a = .ok a := rfl

@[simp] theorem truncate_rat (h : 0 ≤ a) : truncate a = .ok ⌊a⌋ := congrArg Except.ok (if_neg h.not_gt)

@[simp] theorem add_rat : add a b = .ok (a + b) := rfl

@[simp] theorem sub_rat : sub a b = .ok (a - b) := rfl

@[simp] theorem mul_rat : mul a b = .ok (a * b) := rfl

@[simp] theorem div_rat (h : b ≠ 0) : div a b = .ok (a / b) := if_neg h

@[simp] theorem lt_rat : lt a b = .ok (decide (a < b)) := rfl

@[simp] theorem le_rat : le a b = .ok (decide (a ≤ b)) := rfl

theorem eq_rat : eq a b = decide (a = b) := rfl

theorem sum_rat (xs : List ℚ) : sum xs = .ok xs.sum := by
  have hfrom (a : ℚ) : xs.foldlM add a = (.ok (a + xs.sum) : Fallible ℚ) := by
    induction xs generalizing a with
    | nil =>
      rw [List.sum_nil, add_zero]
      rfl
    | cons x xs ih =>
      rw [List.foldlM_cons, add_rat, List.sum_cons, ← add_assoc]
      exact ih (a + x)
  rw [sum, hfrom, whole_rat, Int.cast_zero, zero_add]

@[simp] theorem max_rat : max a b = .ok (Max.max a b) := by
  rw [max, lt_rat]
  rcases lt_or_ge a b with h | h
  · rw [max_eq_right h.le, decide_eq_true h]
    rfl
  · rw [max_eq_left h, decide_eq_false h.not_gt]
    rfl

end Arithmetic

end TensorKit
