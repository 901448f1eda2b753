import FzeroVs.Library.Run
import Mathlib.Order.Basic

namespace FzeroVs
variable {τ σ ε : Type*} [Preorder τ]

/-- Successive readings of a clock that does not go back. -/
def Onward : τ → List τ → Prop
  | _, [] => True
  | now, t :: rest => now ≤ t ∧ Onward t rest

/-- What the clock showed last. -/
def latest (now : τ) (readings : List τ) : τ := readings.getLastD now

omit [Preorder τ] in
theorem latest_cons (now t : τ) (rest : List τ) : latest now (t :: rest) = latest t rest := by
  cases rest <;> rfl

omit [Preorder τ] in
theorem latest_append (now : τ) (first second : List τ) :
    latest now (first ++ second) = latest (latest now first) second := by
  induction first generalizing now with
  | nil => rfl
  | cons t rest ih => rw [List.cons_append, latest_cons, latest_cons, ih]

theorem Onward.le_latest {now : τ} {readings : List τ} (onward : Onward now readings) :
    now ≤ latest now readings := by
  induction readings generalizing now with
  | nil => exact le_refl now
  | cons t rest ih =>
    rw [latest_cons]
    exact onward.1.trans (ih onward.2)

theorem onward_append {now : τ} {first second : List τ} :
    Onward now (first ++ second) ↔ Onward now first ∧ Onward (latest now first) second := by
  induction first generalizing now with
  | nil => exact ⟨fun onward => ⟨trivial, onward⟩, fun both => both.2⟩
  | cons t rest ih =>
    rw [List.cons_append, latest_cons]
    exact ⟨fun onward => ⟨⟨onward.1, (ih.mp onward.2).1⟩, (ih.mp onward.2).2⟩,
      fun both => ⟨both.1.1, ih.mpr ⟨both.1.2, both.2⟩⟩⟩

/-- The system together with a clock, which the events read in this order. -/
def System.clocked (S : System σ ε) (born : σ → τ → Prop) (readings : ε → List τ) : System (σ × τ) ε where
  init s := S.init s.1 ∧ born s.1 s.2
  enabled s e := S.enabled s.1 e ∧ Onward s.2 (readings e)
  step s e := (S.step s.1 e, latest s.2 (readings e))

/-- What is never later than the clock. -/
theorem System.clocked_invariant {S : System σ ε} {born : σ → τ → Prop} {readings : ε → List τ}
    (past : σ → τ → Prop) {s : σ × τ} (reach : (S.clocked born readings).Reachable s)
    (initial : ∀ s now, S.init s → born s now → past s now)
    (preserved : ∀ s now e, S.enabled s e → Onward now (readings e) → past s now →
      past (S.step s e) (latest now (readings e))) : past s.1 s.2 :=
  reach.invariant (P := fun s => past s.1 s.2) (fun s init => initial s.1 s.2 init.1 init.2)
    fun s e _ enabled _ holds => preserved s.1 s.2 e enabled.1 enabled.2 holds

end FzeroVs
