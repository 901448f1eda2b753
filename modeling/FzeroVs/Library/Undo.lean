import Mathlib.Data.List.Nodup
import Mathlib.Logic.Function.Basic

namespace FzeroVs

section
variable {α β : Type*} [DecidableEq α]

/-- Write cells into a memory, one after the other. -/
def writeAll (m : α → β) (cells : List (α × β)) : α → β :=
  cells.foldl (fun m cell => Function.update m cell.1 cell.2) m

theorem writeAll_append (m : α → β) (xs ys : List (α × β)) :
    writeAll m (xs ++ ys) = writeAll (writeAll m xs) ys := List.foldl_append

theorem writeAll_of_not_mem {m : α → β} {cells : List (α × β)} {a : α} (absent : a ∉ cells.map Prod.fst) :
    writeAll m cells a = m a := by
  induction cells generalizing m with
  | nil => rfl
  | cons cell rest ih =>
    rw [List.map_cons, List.mem_cons, not_or] at absent
    exact (ih absent.2).trans (Function.update_of_ne absent.1 _ _)

/-- What the cells held before they are written does not matter. -/
theorem writeAll_congr {m m' : α → β} {cells : List (α × β)}
    (same : ∀ a, a ∉ cells.map Prod.fst → m a = m' a) : writeAll m cells = writeAll m' cells := by
  induction cells generalizing m m' with
  | nil => exact funext fun a => same a (List.not_mem_nil)
  | cons cell rest ih =>
    refine ih fun a absent => ?_
    dsimp only
    by_cases written : a = cell.1
    · subst written
      simp only [Function.update_self]
    · rw [Function.update_of_ne written, Function.update_of_ne written]
      exact same a (by simp [written, absent])

theorem writeAll_update_of_not_mem {m : α → β} {cells : List (α × β)} {a : α} (v : β)
    (absent : a ∉ cells.map Prod.fst) :
    writeAll (Function.update m a v) cells = Function.update (writeAll m cells) a v := by
  induction cells generalizing m with
  | nil => rfl
  | cons cell rest ih =>
    rw [List.map_cons, List.mem_cons, not_or] at absent
    refine Eq.trans ?_ (ih absent.2)
    exact congrArg (writeAll · rest) (Function.update_comm absent.1 v cell.2 m)

/-- Writes to different places can be made in either order. -/
theorem writeAll_comm {m : α → β} {xs ys : List (α × β)}
    (apart : ∀ a, a ∈ xs.map Prod.fst → a ∉ ys.map Prod.fst) :
    writeAll (writeAll m xs) ys = writeAll (writeAll m ys) xs := by
  induction xs generalizing m with
  | nil => rfl
  | cons cell rest ih =>
    have single : writeAll (Function.update m cell.1 cell.2) ys = Function.update (writeAll m ys) cell.1 cell.2 :=
      writeAll_update_of_not_mem cell.2 (apart cell.1 (List.mem_cons_self ..))
    calc writeAll (writeAll m (cell :: rest)) ys
        = writeAll (writeAll (Function.update m cell.1 cell.2) ys) rest :=
          ih fun a written => apart a (List.mem_cons_of_mem _ written)
      _ = writeAll (writeAll m ys) (cell :: rest) := congrArg (writeAll · rest) single

/-- Writing what is there already changes nothing. -/
theorem writeAll_self {m : α → β} {cells : List (α × β)} (held : ∀ cell ∈ cells, m cell.1 = cell.2) :
    writeAll m cells = m := by
  induction cells with
  | nil => rfl
  | cons cell rest ih =>
    have first : Function.update m cell.1 cell.2 = m := by
      rw [← held cell (List.mem_cons_self ..), Function.update_eq_self]
    change writeAll (Function.update m cell.1 cell.2) rest = m
    rw [first]
    exact ih fun other member => held other (List.mem_cons_of_mem _ member)

/-- What cells of a memory held at some time, at most once for each cell. -/
structure Undo (α β : Type*) where
  cells : List (α × β)
  distinct : (cells.map Prod.fst).Nodup

namespace Undo

def empty : Undo α β := ⟨[], List.nodup_nil⟩

def keys (u : Undo α β) : List α := u.cells.map Prod.fst

/-- The first value saved for a cell stays. -/
def save (u : Undo α β) (a : α) (v : β) : Undo α β :=
  if present : a ∈ u.keys then u
  else
    { cells := u.cells ++ [(a, v)]
      distinct := by
        rw [List.map_append, List.map_singleton, List.nodup_append]
        refine ⟨u.distinct, List.nodup_singleton a, ?_⟩
        rintro b old _ new rfl
        rw [List.mem_singleton] at new
        subst new
        exact present old }

/-- The last value saved for a cell stays. -/
def assign (u : Undo α β) (a : α) (v : β) : Undo α β where
  cells := u.cells.filter (fun cell => cell.1 ≠ a) ++ [(a, v)]
  distinct := by
    rw [List.map_append, List.map_singleton, List.nodup_append]
    refine ⟨u.distinct.sublist (List.filter_sublist.map Prod.fst), List.nodup_singleton a, ?_⟩
    rintro b old _ new rfl
    rw [List.mem_singleton] at new
    obtain ⟨cell, kept, rfl⟩ := List.mem_map.mp old
    simpa [new] using (List.mem_filter.mp kept).2

theorem save_of_mem {u : Undo α β} {a : α} (v : β) (present : a ∈ u.keys) : u.save a v = u := dif_pos present

theorem save_cells {u : Undo α β} {a : α} (v : β) (absent : a ∉ u.keys) :
    (u.save a v).cells = u.cells ++ [(a, v)] := by
  rw [save, dif_neg absent]

theorem mem_save_keys {u : Undo α β} {a b : α} {v : β} (member : b ∈ (u.save a v).keys) :
    b ∈ u.keys ∨ b = a := by
  by_cases present : a ∈ u.keys
  · rw [save_of_mem v present] at member
    exact .inl member
  · rw [keys, save_cells v present] at member
    simpa [keys] using member

theorem assign_cells {u : Undo α β} {a : α} (v : β) (absent : a ∉ u.keys) :
    (u.assign a v).cells = u.cells ++ [(a, v)] := by
  refine congrArg (· ++ [(a, v)]) (List.filter_eq_self.mpr fun cell member => ?_)
  refine decide_eq_true fun same => absent ?_
  rw [← same]
  exact List.mem_map_of_mem member

theorem assign_keys {u : Undo α β} {a : α} (v : β) (absent : a ∉ u.keys) :
    (u.assign a v).keys = u.keys ++ [a] := by
  rw [keys, assign_cells v absent, List.map_append]
  rfl

/-- A write to a cell that has not been saved yet, and its undoing. -/
theorem writeAll_saved {m : α → β} {cells : List (α × β)} {a : α} (v : β) (absent : a ∉ cells.map Prod.fst) :
    writeAll (Function.update m a v) (cells ++ [(a, m a)]) = writeAll m cells := by
  rw [writeAll_append, writeAll_update_of_not_mem v absent]
  change Function.update (Function.update (writeAll m cells) a v) a (m a) = writeAll m cells
  rw [Function.update_idem, ← writeAll_of_not_mem (m := m) absent, Function.update_eq_self]

/-- Whatever is written to a saved cell, undoing gives the same memory. -/
theorem writeAll_save (u : Undo α β) (m : α → β) (a : α) (v : β) :
    writeAll (Function.update m a v) (u.save a (m a)).cells = writeAll m u.cells := by
  by_cases present : a ∈ u.keys
  · rw [save_of_mem _ present]
    refine writeAll_congr fun b absent => Function.update_of_ne ?_ _ _
    rintro rfl
    exact absent present
  · rw [save_cells _ present]
    exact writeAll_saved v present

theorem writeAll_assign {u : Undo α β} {m : α → β} {a : α} (v : β) (absent : a ∉ u.keys) :
    writeAll (Function.update m a v) (u.assign a (m a)).cells = writeAll m u.cells := by
  rw [assign_cells _ absent]
  exact writeAll_saved v absent

end Undo

end

end FzeroVs
