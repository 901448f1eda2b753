import FzeroVs.Library.Clock

namespace FzeroVs.System
variable {σ ε τ : Type*} (S : System σ ε) (allow : σ → ε → Prop)

/-- From the first state the environment can bring about the second, by events
that `allow` admits. -/
inductive Leads : σ → σ → Prop
  | refl (s) : Leads s s
  | step {s t} (e : ε) : S.enabled s e → allow s e → Leads (S.step s e) t → Leads s t

variable {S allow}

theorem Leads.trans {s t u : σ} (first : S.Leads allow s t) (second : S.Leads allow t u) : S.Leads allow s u := by
  induction first with
  | refl s => exact second
  | step e enabled allowed _ ih => exact .step e enabled allowed (ih second)

theorem Leads.one {s : σ} (e : ε) (enabled : S.enabled s e) (allowed : allow s e) : S.Leads allow s (S.step s e) :=
  .step e enabled allowed (.refl _)

theorem Leads.reachable {s t : σ} (leads : S.Leads allow s t) (reach : S.Reachable s) : S.Reachable t := by
  induction leads with
  | refl s => exact reach
  | step e enabled _ _ ih => exact ih (reach.next e enabled trivial)

/-- The events, one after the other. -/
theorem Leads.events {s t : σ} (leads : S.Leads allow s t) :
    ∃ events, S.Admits allow s events ∧ events.foldl S.step s = t := by
  induction leads with
  | refl s => exact ⟨[], trivial, rfl⟩
  | step e enabled allowed _ ih =>
    obtain ⟨events, admits, ends⟩ := ih
    exact ⟨e :: events, ⟨enabled, allowed, admits⟩, ends⟩

/-- Without its clock the system does the same. -/
theorem clocked_reachable [Preorder τ] {born : σ → τ → Prop} {readings : ε → List τ} {s : σ × τ}
    (reach : (S.clocked born readings).Reachable s) : S.Reachable s.1 :=
  S.clocked_invariant (fun s _ => S.Reachable s) reach (fun _ _ init _ => .start init)
    fun _ _ e enabled _ reach => reach.next e enabled trivial

end FzeroVs.System
