import FzeroVs.Library.Run
import Mathlib.Tactic.ByContra

namespace FzeroVs.System
variable {σ ε : Type*} {S : System σ ε}

/-- Weak fairness: a party that stays ready from some moment on acts at that
moment or later. -/
def Behaviour.Fair (run : S.Behaviour) (ready : σ → Prop) (acts : σ → σ → Prop) : Prop :=
  ∀ n, (∀ m, n ≤ m → ready (run.state m)) → ∃ m, n ≤ m ∧ acts (run.state m) (run.state (m + 1))

/-- What makes a goal inevitable. No event raises the rank, an event that leaves
it as it is keeps the parties ready, and a party that acts lowers it. -/
structure Descent (S : System σ ε) {ι : Type*} (ready : ι → σ → Prop) (acts : ι → σ → σ → Prop) (during goal : σ → Prop)
    (rank : σ → Nat) : Prop where
  kept : ∀ s e, S.enabled s e → during s → during (S.step s e)
  bounded : ∀ s e, S.enabled s e → during s → rank (S.step s e) ≤ rank s
  patient : ∀ i s e, S.enabled s e → during s → rank (S.step s e) = rank s → ready i s → ready i (S.step s e)
  lowered : ∀ i s t, during s → acts i s t → rank t < rank s
  someone : ∀ s, during s → ¬ goal s → ∃ i, ready i s

namespace Descent
variable {ι : Type*} {ready : ι → σ → Prop} {acts : ι → σ → σ → Prop} {during goal : σ → Prop} {rank : σ → Nat}

theorem during_next (d : S.Descent ready acts during goal rank) (run : S.Behaviour) {n : Nat}
    (now : during (run.state n)) :
    during (run.state (n + 1)) ∧ rank (run.state (n + 1)) ≤ rank (run.state n) := by
  rcases run.moves n with same | ⟨e, enabled, moved⟩
  · rw [same]
    exact ⟨now, Nat.le_refl _⟩
  · rw [moved]
    exact ⟨d.kept _ e enabled now, d.bounded _ e enabled now⟩

theorem during_later (d : S.Descent ready acts during goal rank) (run : S.Behaviour) {n m : Nat} (later : n ≤ m)
    (now : during (run.state n)) :
    during (run.state m) ∧ rank (run.state m) ≤ rank (run.state n) := by
  induction later with
  | refl => exact ⟨now, Nat.le_refl _⟩
  | step _ ih =>
    obtain ⟨still, below⟩ := ih
    have next := d.during_next run still
    exact ⟨next.1, Nat.le_trans next.2 below⟩

/-- As long as the rank stays as it is, so does whoever is ready. -/
theorem ready_later (d : S.Descent ready acts during goal rank) (run : S.Behaviour) {n m : Nat} {i : ι} (later : n ≤ m)
    (now : during (run.state n)) (constant : ∀ k, n ≤ k → rank (run.state (k + 1)) = rank (run.state k))
    (waiting : ready i (run.state n)) : ready i (run.state m) := by
  induction later with
  | refl => exact waiting
  | @step m later ih =>
    have same := constant m later
    rcases run.moves m with stutter | ⟨e, enabled, moved⟩
    · rw [stutter]
      exact ih
    · rw [moved] at same ⊢
      exact d.patient i _ e enabled (d.during_later run later now).1 same ih

/-- Where every party is treated fairly the goal is reached. -/
theorem eventually (d : S.Descent ready acts during goal rank) (run : S.Behaviour)
    (fair : ∀ i, run.Fair (ready i) (acts i)) {n : Nat} (now : during (run.state n)) :
    ∃ m, n ≤ m ∧ goal (run.state m) := by
  induction bound : rank (run.state n) using Nat.strongRecOn generalizing n with
  | ind r ih =>
    by_contra never
    have unreached : ∀ m, n ≤ m → ¬ goal (run.state m) := fun m later reached => never ⟨m, later, reached⟩
    -- A fall of the rank would reach the goal by induction, so there is none.
    have constant : ∀ k, n ≤ k → rank (run.state (k + 1)) = rank (run.state k) := by
      intro k later
      by_contra other
      have still := d.during_later run later now
      have next := d.during_next run still.1
      obtain ⟨m, after, reached⟩ := ih _ (by omega) next.1 rfl
      exact unreached m (by omega) reached
    obtain ⟨i, waiting⟩ := d.someone _ now (unreached n (Nat.le_refl n))
    obtain ⟨m, later, acted⟩ := fair i n fun m later => d.ready_later run later now constant waiting
    have falls := d.lowered i _ _ (d.during_later run later now).1 acted
    have same := constant m later
    omega

end Descent

end FzeroVs.System
