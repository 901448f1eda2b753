import FzeroVs.Bridge.Dispatch

namespace FzeroVs.Bridge

/-- The cells that a region of bytes occupies. -/
def cells : Nat → Bytes → List (Nat × UInt8)
  | _, [] => []
  | address, value :: rest => (address, value) :: cells (address + 1) rest

theorem cells_keys (address : Nat) (bytes : Bytes) :
    (cells address bytes).map Prod.fst = List.range' address bytes.length := by
  induction bytes generalizing address with
  | nil => rfl
  | cons value rest ih =>
    rw [cells, List.map_cons, ih]
    rfl

theorem mem_cells_keys {address a : Nat} {bytes : Bytes} :
    a ∈ (cells address bytes).map Prod.fst ↔ address ≤ a ∧ a < address + bytes.length := by
  rw [cells_keys, List.mem_range'_1]

/-- A region reads back as it was written. -/
theorem read_writeAll_cells (m : Nat → UInt8) (address : Nat) (bytes : Bytes) :
    (List.range' address bytes.length).map (writeAll m (cells address bytes)) = bytes := by
  induction bytes generalizing m address with
  | nil => rfl
  | cons value rest ih =>
    have first : writeAll (Function.update m address value) (cells (address + 1) rest) address = value := by
      rw [writeAll_of_not_mem fun member => ?_, Function.update_self]
      rw [mem_cells_keys] at member
      omega
    rw [List.length_cons, List.range'_succ, List.map_cons]
    exact congrArg₂ List.cons first (ih (Function.update m address value) (address + 1))

theorem writeAll_cells_self (m : Nat → UInt8) (address size : Nat) :
    writeAll m (cells address ((List.range' address size).map m)) = m := by
  refine writeAll_self ?_
  induction size generalizing address with
  | zero => exact nofun
  | succ size ih =>
    rw [List.range'_succ, List.map_cons]
    intro cell member
    rcases List.mem_cons.mp member with rfl | later
    · rfl
    · exact ih (address + 1) cell later

namespace Rom

theorem programAll_frame (r : Rom) (offset : Nat) (bytes : Bytes) (fits : offset + bytes.length ≤ 2 ^ 24) :
    (r.programAll offset bytes).cells = writeAll r.cells (Bridge.cells offset bytes) ∧
      (r.programAll offset bytes).size = r.size := by
  induction bytes generalizing r offset with
  | nil => exact ⟨rfl, rfl⟩
  | cons value rest ih =>
    rw [List.length_cons] at fits
    obtain ⟨written, size⟩ := ih (r.program offset value) (offset + 1) (by omega)
    refine ⟨written.trans ?_, size⟩
    have exact' : offset % 2 ^ 24 = offset := Nat.mod_eq_of_lt (by omega)
    rw [program, exact']
    rfl

theorem readAll_eq (r : Rom) {offset size : Nat} (fits : offset + size ≤ 2 ^ 24) :
    r.readAll offset size = (List.range' offset size).map r.cells := by
  refine List.map_congr_left fun a member => ?_
  rw [List.mem_range'_1] at member
  rw [read, Nat.mod_eq_of_lt (by omega)]

end Rom

theorem emplace_split {α : Type} (key : α → Bytes) (x : α) (l : List α) (fresh : ∀ y ∈ l, key y ≠ key x) :
    ∃ l₁ l₂, l = l₁ ++ l₂ ∧ emplace key x l = l₁ ++ x :: l₂ := by
  induction l with
  | nil => exact ⟨[], [], rfl, rfl⟩
  | cons y rest ih =>
    have other : key x ≠ key y := (fresh y (List.mem_cons_self ..)).symm
    rw [emplace, if_neg other]
    split
    · exact ⟨[], y :: rest, rfl, rfl⟩
    · obtain ⟨l₁, l₂, same, placed⟩ := ih fun z member => fresh z (List.mem_cons_of_mem _ member)
      exact ⟨y :: l₁, l₂, by rw [same]; rfl, by rw [placed]; rfl⟩

theorem bytes_lt_of_not {a b : Bytes} (other : ¬ a = b) (after : ¬ a < b) : b < a := by
  by_contra before
  exact other (List.le_antisymm (List.not_lt.mp before) (List.not_lt.mp after))

theorem mem_emplace {α : Type} {key : α → Bytes} {x y : α} {l : List α} (member : y ∈ emplace key x l) :
    y = x ∨ y ∈ l := by
  induction l with
  | nil => exact .inl (List.mem_singleton.mp member)
  | cons z rest ih =>
    rw [emplace] at member
    split at member
    · exact .inr member
    split at member
    · exact List.mem_cons.mp member
    · rcases List.mem_cons.mp member with first | later
      · exact .inr (first ▸ List.mem_cons_self ..)
      · exact (ih later).imp (fun same => same) (List.mem_cons_of_mem _)

/-- In the order of the keys a key that is there is found, and nothing changes. -/
theorem emplace_known {α : Type} {key : α → Bytes} {x : α} {l : List α}
    (sorted : l.Pairwise fun y z => key y < key z) (known : ∃ y ∈ l, key y = key x) : emplace key x l = l := by
  induction l with
  | nil =>
    obtain ⟨y, member, _⟩ := known
    exact nomatch member
  | cons z rest ih =>
    obtain ⟨first, sorted⟩ := List.pairwise_cons.mp sorted
    rw [emplace]
    split
    · rfl
    rename_i other
    obtain ⟨y, member, same⟩ := known
    rcases List.mem_cons.mp member with here | later
    · exact absurd (here ▸ same).symm other
    · have before : key z < key x := same ▸ first y later
      rw [if_neg fun after => List.lt_irrefl _ (List.lt_trans before after), ih sorted ⟨y, later, same⟩]

theorem emplace_sorted {α : Type} {key : α → Bytes} {x : α} {l : List α}
    (sorted : l.Pairwise fun y z => key y < key z) : (emplace key x l).Pairwise fun y z => key y < key z := by
  induction l with
  | nil => exact List.pairwise_singleton _ _
  | cons z rest ih =>
    obtain ⟨first, later⟩ := List.pairwise_cons.mp sorted
    rw [emplace]
    split
    · exact sorted
    rename_i other
    split
    · rename_i before
      refine List.pairwise_cons.mpr ⟨fun y member => ?_, sorted⟩
      rcases List.mem_cons.mp member with same | after
      · exact same ▸ before
      · exact List.lt_trans before (first y after)
    · rename_i after
      refine List.pairwise_cons.mpr ⟨fun y member => ?_, ih later⟩
      rcases mem_emplace member with same | old
      · exact same ▸ bytes_lt_of_not other after
      · exact first y old

/-- A number is written in characters that fit a byte. -/
theorem decimal_chars (n : Nat) : (decimal n).map (fun b => Char.ofNat b.toNat) = Nat.toDigits 10 n := by
  rw [decimal, List.map_map]
  conv_rhs => rw [← List.map_id (Nat.toDigits 10 n)]
  refine List.map_congr_left fun c member => ?_
  have digit := Nat.isDigit_of_mem_toDigits (by decide) (by decide) member
  have small : c.toNat ≤ 57 := by
    simp only [Char.isDigit, Bool.and_eq_true, decide_eq_true_eq] at digit
    exact UInt32.le_iff_toNat_le.mp digit.2
  have byte : (UInt8.ofNat c.toNat).toNat = c.toNat := UInt8.toNat_ofNat_of_lt' (show c.toNat < 256 by omega)
  change Char.ofNat (UInt8.ofNat c.toNat).toNat = c
  rw [byte, Char.ofNat_toNat]

theorem decimal_injective : Function.Injective decimal := by
  intro m n same
  have chars : Nat.toDigits 10 m = Nat.toDigits 10 n := by
    rw [← decimal_chars, same, decimal_chars]
  have value := congrArg (fun l => Nat.ofDigitChars 10 l 0) chars
  simpa using value

theorem patchId_injective : Function.Injective patchId := fun _ _ same =>
  decimal_injective (List.append_cancel_left same)

/-- The regions have no byte in common. -/
def Patch.Apart (p q : Patch) : Prop :=
  p.offset + p.replacement.length ≤ q.offset ∨ q.offset + q.replacement.length ≤ p.offset

theorem Patch.Apart.symm {p q : Patch} (apart : p.Apart q) : q.Apart p := Or.symm apart

/-- The cartridge as it was loaded, with the replacements of the patches over it. -/
def overlay (m : Nat → UInt8) (patches : List Patch) : Nat → UInt8 :=
  writeAll m (patches.flatMap fun p => cells p.offset p.replacement)

theorem mem_overlay_keys {patches : List Patch} {a : Nat} :
    a ∈ (patches.flatMap fun p => cells p.offset p.replacement).map Prod.fst ↔
      ∃ p ∈ patches, p.offset ≤ a ∧ a < p.offset + p.replacement.length := by
  simp only [List.map_flatMap, List.mem_flatMap, mem_cells_keys]

theorem overlay_append (m : Nat → UInt8) (l₁ l₂ : List Patch) :
    overlay m (l₁ ++ l₂) = overlay (overlay m l₁) l₂ := by
  rw [overlay, List.flatMap_append, writeAll_append]
  rfl

theorem overlay_of_clear {m : Nat → UInt8} {patches : List Patch} {a : Nat}
    (clear : ∀ p ∈ patches, ¬ (p.offset ≤ a ∧ a < p.offset + p.replacement.length)) : overlay m patches a = m a := by
  refine writeAll_of_not_mem fun member => ?_
  obtain ⟨p, active, within⟩ := mem_overlay_keys.mp member
  exact clear p active within

/-- A patch apart from all others can be laid over them last. -/
theorem overlay_middle {m : Nat → UInt8} {l₁ l₂ : List Patch} {p : Patch} (apart : ∀ q ∈ l₂, p.Apart q) :
    overlay m (l₁ ++ p :: l₂) = writeAll (overlay m (l₁ ++ l₂)) (cells p.offset p.replacement) := by
  rw [overlay_append, overlay_append, overlay, List.flatMap_cons, writeAll_append]
  refine writeAll_comm fun a mine theirs => ?_
  obtain ⟨q, active, within⟩ := mem_overlay_keys.mp theirs
  have inside := mem_cells_keys.mp mine
  rcases apart q active with before | after <;> omega

end FzeroVs.Bridge
