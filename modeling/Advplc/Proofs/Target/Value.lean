import Advplc.Lowering.Expr
import Mathlib.Algebra.Order.Field.Rat

/-!
# The values of generated arithmetic

Generated code holds some arithmetic that is not in the program: a start or a bound is shifted by
one.  `Expr.value` evaluates sums and differences of integers, and takes the value of everything
else from a valuation, so that what is said about the arithmetic is said for all values of its
operands.

`value_shift` says that shifting by a number adds it, whether the sum is written out or was computed
on the spot.
-/

set_option autoImplicit false

namespace Advplc

namespace Target

/-- The value of an expression.  `values` gives the values of the expressions that are neither
integers nor sums nor differences. -/
def Expr.value (values : Expr → ℚ) : Expr → ℚ
  | .integer i => i
  | .number t =>
    match t.natural? with
    | some n => n
    | none => values (.number t)
  | .binary op l r =>
    if op = "+" then l.value values + r.value values
    else if op = "-" then l.value values - r.value values
    else values (.binary op l r)
  | e => values e

section Value

variable (values : Expr → ℚ) (l r : Expr)

@[simp] theorem Expr.value_integer (i : Int) : (Expr.integer i).value values = i := by
  rw [Expr.value]

theorem Expr.value_number {t : Text} {n : Nat} (h : t.natural? = some n) :
    (Expr.number t).value values = n := by
  rw [Expr.value, h]

@[simp] theorem Expr.value_plus :
    (Expr.binary "+" l r).value values = l.value values + r.value values := by
  rw [Expr.value, if_pos rfl]

@[simp] theorem Expr.value_minus :
    (Expr.binary "-" l r).value values = l.value values - r.value values := by
  rw [Expr.value, if_neg (by decide), if_pos rfl]

end Value

end Target

namespace Lowering

variable {values : Target.Expr → ℚ} {node : Script.Expr} {e : Target.Expr}

/-- An integer literal is turned into the numeral it is. -/
theorem exists_number_of_natural? {n : Nat} (hnode : natural? node = some n)
    (h : lower node = .ok e) : ∃ t : Text, e = .number t ∧ t.natural? = some n := by
  rw [natural?.eq_def] at hnode
  split at hnode
  · rw [lower] at h
    cases h
    exact ⟨_, rfl, hnode⟩
  · cases hnode

theorem value_of_natural? {n : Nat} (hnode : natural? node = some n) (h : lower node = .ok e) :
    e.value values = n := by
  obtain ⟨t, rfl, ht⟩ := exists_number_of_natural? hnode h
  exact Target.Expr.value_number values ht

/-- **Shifting an expression adds to its value.** -/
theorem value_shift (h : lower node = .ok e) (delta : Int) :
    (shift node e delta).value values = e.value values + delta := by
  rw [shift]
  split
  · rename_i n hnode
    rw [value_of_natural? hnode h, Target.Expr.value_integer]
    push_cast
    rfl
  · split
    · rename_i hpos
      rw [Target.Expr.value_plus, Target.Expr.value_integer, Int.natAbs_of_nonneg (le_of_lt hpos)]
    · rename_i hneg
      rw [Target.Expr.value_minus, Target.Expr.value_integer,
        Int.ofNat_natAbs_of_nonpos (not_lt.mp hneg)]
      push_cast
      exact sub_neg_eq_add _ _

end Lowering

end Advplc
