import Mathlib.Data.BitVec

namespace FzeroVs.Serial
variable {w : Nat}

/-- Half-range comparison of wrapping counters: `a` is newer than `b` when it
is reached from `b` by fewer than half of all increments. The relation is not
transitive on the whole circle, only inside a half-range window. -/
def newer (a b : BitVec w) : Bool := a != b && (a - b).toNat < 2 ^ (w - 1)

theorem newer_iff {a b : BitVec w} :
    newer a b = true ↔ a ≠ b ∧ (a - b).toNat < 2 ^ (w - 1) := by
  simp [newer]

theorem half_add_half (positive : 0 < w) : 2 ^ (w - 1) + 2 ^ (w - 1) = 2 ^ w := by
  obtain ⟨v, rfl⟩ := Nat.exists_eq_succ_of_ne_zero positive.ne'
  simp only [Nat.succ_eq_add_one, Nat.add_sub_cancel, Nat.pow_succ]
  omega

@[simp] theorem newer_self (a : BitVec w) : newer a a = false := by
  simp [newer]

/-- The immediate successor is newer at every value of the counter, the
wrapping one included. -/
theorem newer_add_one (wide : 1 < w) (a : BitVec w) : newer (a + 1) a = true := by
  have half : 2 ^ 1 ≤ 2 ^ (w - 1) := Nat.pow_le_pow_right (by decide) (by omega)
  have whole := half_add_half (show 0 < w by omega)
  have one : (1 : BitVec w).toNat = 1 := by
    simp only [BitVec.ofNat_eq_ofNat, BitVec.toNat_ofNat]
    exact Nat.mod_eq_of_lt (by omega)
  have difference : a + 1 - a = 1 := by
    rw [BitVec.add_comm, BitVec.add_sub_cancel]
  refine newer_iff.mpr ⟨?_, ?_⟩
  · intro same
    have zero : (1 : BitVec w) = 0 := by rw [← difference, same, BitVec.sub_self]; rfl
    have value := congrArg BitVec.toNat zero
    rw [one] at value
    simp at value
  · rw [difference, one]
    omega

/-- Below the half-way mark serial order is the order of the numbers. -/
theorem newer_iff_lt (positive : 0 < w) {a b : BitVec w}
    (lowA : a.toNat < 2 ^ (w - 1)) (lowB : b.toNat < 2 ^ (w - 1)) :
    newer a b = true ↔ b.toNat < a.toNat := by
  have whole := half_add_half positive
  rw [newer_iff, BitVec.toNat_sub, ← whole]
  constructor
  · rintro ⟨different, near⟩
    by_contra above
    have apart : a.toNat ≠ b.toNat := fun same => different (BitVec.eq_of_toNat_eq same)
    rw [Nat.mod_eq_of_lt (by omega)] at near
    omega
  · intro below
    refine ⟨fun same => by simp [same] at below, ?_⟩
    rw [show 2 ^ (w - 1) + 2 ^ (w - 1) - b.toNat + a.toNat =
      (a.toNat - b.toNat) + (2 ^ (w - 1) + 2 ^ (w - 1)) by omega, Nat.add_mod_right,
      Nat.mod_eq_of_lt (by omega)]
    omega

/-- A counter that starts at zero as "nothing seen yet" recognises only the
lower half of the numbers as news. -/
theorem newer_zero_iff (positive : 0 < w) {a : BitVec w} :
    newer a 0 = true ↔ 0 < a.toNat ∧ a.toNat < 2 ^ (w - 1) := by
  have whole := half_add_half positive
  rw [newer_iff]
  simp only [BitVec.ofNat_eq_ofNat, BitVec.sub_zero]
  refine and_congr_left fun _ => ?_
  rw [Nat.pos_iff_ne_zero, ne_eq, ne_eq, ← BitVec.toNat_inj]
  simp

end FzeroVs.Serial
