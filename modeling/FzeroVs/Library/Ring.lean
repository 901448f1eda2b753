import Mathlib.Data.Nat.ModEq
import Mathlib.Logic.Function.Basic

namespace FzeroVs

/-- A queue in a fixed array: `count` cells in use, the oldest at `head`, the
others after it and around the end. -/
structure Ring (α : Type*) (n : Nat) where
  cells : Fin n → α
  head : Nat := 0
  count : Nat := 0

namespace Ring
variable {α : Type*} {n : Nat} [NeZero n]

/-- The cell of the `k`-th element, wherever the array ends. -/
def slot (r : Ring α n) (k : Nat) : Fin n := Fin.ofNat n (r.head + k)

/-- The elements, oldest first. -/
def contents (r : Ring α n) : List α := (List.range r.count).map fun k => r.cells (r.slot k)

def front (r : Ring α n) : α := r.cells (r.slot 0)

/-- Give up the oldest element. -/
def shift (r : Ring α n) : Ring α n := { r with head := (r.head + 1) % n, count := r.count - 1 }

/-- Write behind the newest element. -/
def put (r : Ring α n) (x : α) : Ring α n :=
  { r with cells := Function.update r.cells (r.slot r.count) x, count := r.count + 1 }

/-- Append to the queue, at the expense of its oldest element when it is full. -/
def push (r : Ring α n) (x : α) : Ring α n := if r.count = n then r.shift.put x else r.put x

def pop (r : Ring α n) : Option α × Ring α n :=
  if r.count = 0 then (none, r) else (some r.front, r.shift)

/-- Head and count stay inside the array. -/
structure Sound (r : Ring α n) : Prop where
  head : r.head < n
  count : r.count ≤ n

omit [NeZero n] in
theorem length_pos (r : Ring α n) (sound : r.Sound) : 0 < n := Nat.zero_lt_of_lt sound.head

theorem contents_length (r : Ring α n) : r.contents.length = r.count := by
  rw [contents, List.length_map, List.length_range]

theorem contents_empty {r : Ring α n} (empty : r.count = 0) : r.contents = [] :=
  List.length_eq_zero_iff.mp (r.contents_length.trans empty)

/-- Two elements less than a revolution apart never share a cell. -/
theorem slot_ne (r : Ring α n) {j k : Nat} (before : j < k) (within : k < n) : r.slot j ≠ r.slot k := by
  intro same
  have residues : (r.head + j) % n = (r.head + k) % n := congrArg Fin.val same
  have congruent : j ≡ k [MOD n] := Nat.ModEq.add_left_cancel' r.head residues
  have equal := congruent.eq_of_lt_of_lt (before.trans within) within
  exact absurd equal before.ne

/-- What a ring that is not full holds after a write. -/
theorem contents_put {r : Ring α n} (room : r.count < n) (x : α) :
    (r.put x).contents = r.contents ++ [x] := by
  have kept : ∀ k ∈ List.range r.count, (r.put x).cells ((r.put x).slot k) = r.cells (r.slot k) := by
    intro k member
    have earlier := List.mem_range.mp member
    exact Function.update_of_ne (r.slot_ne earlier room) x r.cells
  have written : (r.put x).cells ((r.put x).slot r.count) = x := by
    change Function.update r.cells (r.slot r.count) x (r.slot r.count) = x
    exact Function.update_self _ _ _
  change (List.range (r.count + 1)).map (fun k => (r.put x).cells ((r.put x).slot k)) = _
  rw [List.range_succ, List.map_append, List.map_congr_left kept, List.map_singleton, written]
  rfl

theorem slot_shift (r : Ring α n) (k : Nat) : r.shift.slot k = r.slot (k + 1) := by
  apply Fin.ext
  change ((r.head + 1) % n + k) % n = (r.head + (k + 1)) % n
  rw [Nat.mod_add_mod, Nat.add_assoc, Nat.add_comm 1 k]

/-- The oldest element goes and all others stay in order. -/
theorem contents_shift {r : Ring α n} (nonempty : 0 < r.count) : r.contents = r.front :: r.shift.contents := by
  obtain ⟨rest, count⟩ := Nat.exists_eq_add_of_lt nonempty
  rw [Nat.zero_add] at count
  have left : r.shift.contents = (List.range rest).map fun k => r.cells (r.slot (k + 1)) := by
    have shifted : r.shift.count = rest := by
      change r.count - 1 = rest
      omega
    rw [contents, shifted]
    exact List.map_congr_left fun k _ => congrArg r.cells (r.slot_shift k)
  rw [left, contents, count, List.range_succ_eq_map, List.map_cons, List.map_map]
  rfl

omit [NeZero n] in
theorem Sound.shift {r : Ring α n} (sound : r.Sound) : r.shift.Sound where
  head := Nat.mod_lt _ (r.length_pos sound)
  count := (Nat.sub_le _ _).trans sound.count

theorem Sound.put {r : Ring α n} (sound : r.Sound) (room : r.count < n) (x : α) : (r.put x).Sound where
  head := sound.head
  count := room

theorem Sound.push {r : Ring α n} (sound : r.Sound) (x : α) : (r.push x).Sound := by
  unfold Ring.push
  split
  next full =>
    have positive := r.length_pos sound
    refine sound.shift.put ?_ x
    change r.count - 1 < n
    omega
  next room => exact sound.put (lt_of_le_of_ne sound.count room) x

theorem Sound.pop {r : Ring α n} (sound : r.Sound) : r.pop.2.Sound := by
  unfold Ring.pop
  split
  · exact sound
  · exact sound.shift

/-- The queue that a ring stands for: past `n` elements the oldest goes. -/
def bounded (n : Nat) (queue : List α) (x : α) : List α :=
  if queue.length = n then queue.tail ++ [x] else queue ++ [x]

theorem contents_push {r : Ring α n} (sound : r.Sound) (x : α) :
    (r.push x).contents = bounded n r.contents x := by
  have positive := r.length_pos sound
  rw [push, bounded, contents_length]
  split
  next full =>
    have room : r.shift.count < n := by
      change r.count - 1 < n
      omega
    have nonempty : 0 < r.count := by omega
    rw [contents_put room, contents_shift nonempty, List.tail_cons]
  next room => exact contents_put (lt_of_le_of_ne sound.count room) x

theorem pop_front (r : Ring α n) : r.pop.1 = r.contents.head? := by
  unfold pop
  split
  next empty =>
    rw [contents_empty empty]
    rfl
  next some => rw [contents_shift (Nat.pos_of_ne_zero some), List.head?_cons]

theorem pop_contents (r : Ring α n) : r.pop.2.contents = r.contents.tail := by
  unfold pop
  split
  next empty =>
    rw [contents_empty empty]
    rfl
  next some => rw [contents_shift (Nat.pos_of_ne_zero some), List.tail_cons]

end Ring

end FzeroVs
