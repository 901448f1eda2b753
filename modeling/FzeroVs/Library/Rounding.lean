import Mathlib.Algebra.Order.Floor.Ring
import Mathlib.Tactic.Linarith

namespace FzeroVs
variable {α : Type*} [Field α] [LinearOrder α] [IsStrictOrderedRing α] [FloorRing α]

/-- The nearest integer, halves away from zero. -/
def lround (x : α) : ℤ := if 0 ≤ x then ⌊x + 1 / 2⌋ else ⌈x - 1 / 2⌉

theorem lround_le {x : α} {n : ℤ} (below : x ≤ n) : lround x ≤ n := by
  unfold lround
  split
  · rw [Int.floor_le_iff]
    linarith
  · rw [Int.ceil_le]
    linarith

theorem le_lround {x : α} {n : ℤ} (above : (n : α) ≤ x) : n ≤ lround x := by
  unfold lround
  split
  · rw [Int.le_floor]
    linarith
  · rw [Int.le_ceil_iff]
    linarith

@[simp] theorem lround_intCast (n : ℤ) : lround (n : α) = n :=
  le_antisymm (lround_le le_rfl) (le_lround le_rfl)

/-- A fraction of a step up, rounded, stays within the step. -/
theorem lround_up {a step : ℤ} {fraction : α} (least : 0 ≤ fraction) (most : fraction ≤ 1) (up : 0 ≤ step) :
    a ≤ lround (a + step * fraction) ∧ lround ((a : α) + step * fraction) ≤ a + step := by
  have positive : (0 : α) ≤ step := Int.cast_nonneg up
  have lower : 0 ≤ (step : α) * fraction := mul_nonneg positive least
  have upper : (step : α) * fraction ≤ step := mul_le_of_le_one_right positive most
  refine ⟨le_lround ?_, lround_le ?_⟩
  · linarith
  · push_cast
    linarith

/-- The same for a step down. -/
theorem lround_down {a step : ℤ} {fraction : α} (least : 0 ≤ fraction) (most : fraction ≤ 1) (down : step ≤ 0) :
    a + step ≤ lround ((a : α) + step * fraction) ∧ lround ((a : α) + step * fraction) ≤ a := by
  have negative : (step : α) ≤ 0 := Int.cast_nonpos.mpr down
  have upper : (step : α) * fraction ≤ 0 := mul_nonpos_of_nonpos_of_nonneg negative least
  have lower : (step : α) ≤ step * fraction := le_mul_of_le_one_right negative most
  refine ⟨le_lround ?_, lround_le ?_⟩
  · push_cast
    linarith
  · linarith

end FzeroVs
