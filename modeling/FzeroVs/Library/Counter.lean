import Mathlib.Data.List.Nodup
import Mathlib.Data.Nat.ModEq

/-! A counter of one 64-bit word that numbers the members of a history. -/

namespace FzeroVs.Counter

theorem succ (n : Nat) : UInt64.ofNat n + 1 = UInt64.ofNat (n + 1) := (UInt64.ofNat_add n 1).symm

/-- Below 2^64 members the word is their number. -/
theorem toNat_of_lt {n : Nat} (few : n < 2 ^ 64) : (UInt64.ofNat n).toNat = n := by
  rw [UInt64.toNat_ofNat', Nat.mod_eq_of_lt few]

theorem lt_succ {n : Nat} (few : n + 1 < 2 ^ 64) : UInt64.ofNat n < UInt64.ofNat n + 1 := by
  rw [succ, UInt64.lt_iff_toNat_lt, toNat_of_lt (Nat.lt_of_succ_lt few), toNat_of_lt few]
  exact Nat.lt_succ_self n

theorem inj {m n : Nat} : UInt64.ofNat m = UInt64.ofNat n ↔ m ≡ n [MOD 2 ^ 64] := by
  rw [← UInt64.toNat_inj, UInt64.toNat_ofNat', UInt64.toNat_ofNat']
  rfl

/-- Two of 2^64 members in a row never share a number. -/
theorem eq_of_near {m n : Nat} (same : UInt64.ofNat m = UInt64.ofNat n) (order : m ≤ n) (near : n < m + 2 ^ 64) :
    m = n := by
  have apart := (Nat.modEq_iff_dvd' order).mp (inj.mp same)
  have none := Nat.eq_zero_of_dvd_of_lt apart (by omega)
  omega

/-- After 2^64 members the numbers come again. -/
theorem period (n : Nat) : UInt64.ofNat (n + 2 ^ 64) = UInt64.ofNat n :=
  inj.mpr (Nat.add_modEq_right)

section
variable {α β : Type} {key : α → β} {name : UInt64 → β} {l : List α}

/-- The members of a history carry the names that the counter gave them, from one on. -/
def Given (key : α → β) (name : UInt64 → β) (l : List α) : Prop :=
  ∀ k a, l[k]? = some a → key a = name (.ofNat (k + 1))

theorem Given.nil (key : α → β) (name : UInt64 → β) : Given key name [] := fun k a member => by
  rw [List.getElem?_nil] at member
  cases member

theorem Given.concat (given : Given key name l) {a : α} (next : key a = name (.ofNat (l.length + 1))) :
    Given key name (l ++ [a]) := by
  intro k b atK
  rcases Nat.lt_trichotomy k l.length with old | last | beyond
  · rw [List.getElem?_append_left old] at atK
    exact given k b atK
  · rw [last, List.getElem?_concat_length] at atK
    obtain rfl := Option.some.inj atK
    rw [last]
    exact next
  · rw [List.getElem?_eq_none] at atK
    · cases atK
    · rw [List.length_append, List.length_singleton]
      exact beyond

theorem Given.name_eq (given : Given key name l) (injective : Function.Injective name) {i j : Nat} {a : α}
    (atI : l[i]? = some a) (same : key a = name (.ofNat (j + 1))) : UInt64.ofNat (i + 1) = UInt64.ofNat (j + 1) :=
  injective ((given i a atI).symm.trans same)

/-- Among 2^64 members no name is given twice. -/
theorem Given.nodup (given : Given key name l) (injective : Function.Injective name) (few : l.length ≤ 2 ^ 64) :
    (l.map key).Nodup := by
  rw [List.nodup_iff_getElem?_ne_getElem?]
  intro i j before inside same
  rw [List.length_map] at inside
  rw [List.getElem?_map, List.getElem?_map, List.getElem?_eq_getElem inside,
    List.getElem?_eq_getElem (before.trans inside), Option.map_some, Option.map_some, Option.some.injEq] at same
  have atI := List.getElem?_eq_getElem (before.trans inside)
  have atJ := given j _ (List.getElem?_eq_getElem inside)
  have := eq_of_near (given.name_eq injective atI (same.trans atJ)) (by omega) (by omega)
  omega

/-- Nor is the next one among those of fewer members. -/
theorem Given.fresh (given : Given key name l) (injective : Function.Injective name) (few : l.length < 2 ^ 64) {a : α}
    (member : a ∈ l) : key a ≠ name (.ofNat (l.length + 1)) := by
  intro same
  obtain ⟨k, inside, here⟩ := List.getElem_of_mem member
  have atK : l[k]? = some a := by rw [List.getElem?_eq_getElem inside, here]
  have := eq_of_near (given.name_eq injective atK same) (by omega) (by omega)
  omega

/-- Below 2^64 members the name says which of them it is. -/
theorem Given.last (given : Given key name l) (injective : Function.Injective name) (few : l.length < 2 ^ 64) {a : α}
    (member : a ∈ l) (same : key a = name (.ofNat l.length)) : l.getLast? = some a := by
  obtain ⟨k, inside, here⟩ := List.getElem_of_mem member
  have atK : l[k]? = some a := by rw [List.getElem?_eq_getElem inside, here]
  have words : UInt64.ofNat (k + 1) = UInt64.ofNat l.length := injective ((given k a atK).symm.trans same)
  have index : k + 1 = l.length := eq_of_near words inside (by omega)
  rw [List.getLast?_eq_getElem?, ← index]
  exact atK

end

end FzeroVs.Counter
