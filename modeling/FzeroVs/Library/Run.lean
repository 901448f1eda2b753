import Mathlib.Logic.Basic

namespace FzeroVs

/-- A deterministic transition system whose nondeterminism is carried by the
events: `enabled` says which events the environment may produce in a state. -/
structure System (σ ε : Type*) where
  init : σ → Prop
  enabled : σ → ε → Prop
  step : σ → ε → σ

namespace System
variable {σ ε : Type*} (S : System σ ε)

/-- States reached by finitely many events, each of which the environment may
produce and the side condition `allow` admits. -/
inductive Reach (allow : σ → ε → Prop) : σ → Prop
  | start {s} : S.init s → Reach allow s
  | next {s} (e : ε) : Reach allow s → S.enabled s e → allow s e → Reach allow (S.step s e)

/-- Every run is admitted. -/
abbrev Reachable : σ → Prop := S.Reach fun _ _ => True

variable {S} {allow : σ → ε → Prop}

theorem Reach.invariant {P : σ → Prop} {s : σ} (reach : S.Reach allow s)
    (initial : ∀ s, S.init s → P s)
    (preserved : ∀ s e, S.Reach allow s → S.enabled s e → allow s e → P s → P (S.step s e)) :
    P s := by
  induction reach with
  | start init => exact initial _ init
  | next e previous enabled allowed ih => exact preserved _ e previous enabled allowed ih

theorem Reach.mono {weaker : σ → ε → Prop} {s : σ} (reach : S.Reach allow s)
    (implied : ∀ s e, allow s e → weaker s e) : S.Reach weaker s := by
  induction reach with
  | start init => exact .start init
  | next e _ enabled allowed ih => exact .next e ih enabled (implied _ _ allowed)

theorem Reach.reachable {s : σ} (reach : S.Reach allow s) : S.Reachable s :=
  reach.mono fun _ _ _ => trivial

variable (S allow) in
/-- The environment may produce these events one after the other. -/
def Admits : σ → List ε → Prop
  | _, [] => True
  | s, e :: rest => S.enabled s e ∧ allow s e ∧ Admits (S.step s e) rest

instance Admits.decidable [∀ s e, Decidable (S.enabled s e)] [∀ s e, Decidable (allow s e)] :
    (s : σ) → (events : List ε) → Decidable (S.Admits allow s events)
  | _, [] => .isTrue trivial
  | s, e :: rest =>
    have := Admits.decidable (S.step s e) rest
    inferInstanceAs (Decidable (S.enabled s e ∧ allow s e ∧ S.Admits allow (S.step s e) rest))

theorem Reach.run {s : σ} (reach : S.Reach allow s) {events : List ε} (admits : S.Admits allow s events) :
    S.Reach allow (events.foldl S.step s) := by
  induction events generalizing s with
  | nil => exact reach
  | cons e rest ih => exact ih (reach.next e admits.1 admits.2.1) admits.2.2

theorem Admits.enabled_at {s : σ} {events : List ε} (admits : S.Admits allow s events) {n : Nat} {e : ε}
    (atN : events[n]? = some e) : S.enabled ((events.take n).foldl S.step s) e := by
  induction events generalizing s n with
  | nil => exact nomatch atN
  | cons first rest ih =>
    cases n with
    | zero =>
      cases atN
      exact admits.1
    | succ n => exact ih admits.2.2 atN

variable (S)

/-- A behaviour over time. Repeating a state stands for a moment in which
nothing happens, so a finite run is a behaviour that repeats its last state. -/
structure Behaviour where
  state : Nat → σ
  starts : S.init (state 0)
  moves : ∀ n, state (n + 1) = state n ∨
    ∃ e, S.enabled (state n) e ∧ state (n + 1) = S.step (state n) e

variable {S}

theorem Behaviour.reachable (run : S.Behaviour) (n : Nat) : S.Reachable (run.state n) := by
  induction n with
  | zero => exact .start run.starts
  | succ n ih =>
    rcases run.moves n with same | ⟨e, enabled, moved⟩
    · rw [same]
      exact ih
    · rw [moved]
      exact .next e ih enabled trivial

/-- A finite run, after which nothing happens any more. -/
def Behaviour.ofRun {s : σ} (init : S.init s) (events : List ε)
    (admits : S.Admits (fun _ _ => True) s events) : S.Behaviour where
  state n := (events.take n).foldl S.step s
  starts := init
  moves n := by
    cases atN : events[n]? with
    | none =>
      have past : events.length ≤ n := List.getElem?_eq_none_iff.mp atN
      exact .inl (by rw [List.take_of_length_le past, List.take_of_length_le (Nat.le_succ_of_le past)])
    | some e =>
      refine .inr ⟨e, admits.enabled_at atN, ?_⟩
      rw [List.take_add_one, atN, Option.toList_some, List.foldl_append]
      rfl

theorem Behaviour.ofRun_succ {s : σ} {init : S.init s} {events : List ε}
    {admits : S.Admits (fun _ _ => True) s events} {n : Nat} {e : ε} (atN : events[n]? = some e) :
    (Behaviour.ofRun init events admits).state (n + 1) =
      S.step ((Behaviour.ofRun init events admits).state n) e := by
  simp only [Behaviour.ofRun]
  rw [List.take_add_one, atN, Option.toList_some, List.foldl_append]
  rfl

/-- After its last event nothing happens any more. -/
theorem Behaviour.ofRun_end {s : σ} {init : S.init s} {events : List ε}
    {admits : S.Admits (fun _ _ => True) s events} (n : Nat) :
    (Behaviour.ofRun init events admits).state (n + events.length) = events.foldl S.step s := by
  simp only [Behaviour.ofRun]
  rw [List.take_of_length_le (Nat.le_add_left events.length n)]

end System

end FzeroVs
