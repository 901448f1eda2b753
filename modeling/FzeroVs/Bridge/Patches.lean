import FzeroVs.Library.Counter
import FzeroVs.Bridge.Overlay

namespace FzeroVs.Bridge

/-- The patches are what the store says they are, however often its counter has wrapped. -/
structure Sound (s : State) : Prop where
  size : s.rom.size = s.loaded.size
  apart : s.patches.Pairwise Patch.Apart
  shape : ∀ p ∈ s.patches, 0 < p.replacement.length ∧ p.original.length = p.replacement.length ∧
    p.replacement.length ≤ maximumTransfer ∧ p.offset + p.replacement.length ≤ s.rom.size
  held : ∀ p ∈ s.patches, (List.range' p.offset p.replacement.length).map s.rom.cells = p.replacement
  sorted : s.patches.Pairwise fun p q => p.id < q.id
  known : ∀ p ∈ s.patches, p.id ∈ s.given
  next : s.nextPatchId = UInt64.ofNat (s.given.length + 1)
  given : Counter.Given id (fun n => patchId n.toNat) s.given
  game : s.patches ≠ [] → s.gameLoaded = true ∧ s.emulator = some superFamicom

theorem Sound.ids {s : State} (sound : Sound s) : (s.patches.map Patch.id).Nodup := by
  rw [List.nodup_iff_pairwise_ne, List.pairwise_map]
  refine sound.sorted.imp fun {p q} before same => ?_
  rw [same] at before
  exact List.lt_irrefl _ before

theorem patchId_word_injective : Function.Injective fun n : UInt64 => patchId n.toNat :=
  patchId_injective.comp fun _ _ => UInt64.toNat_inj.mp

/-- Among 2^64 patches no id is given out twice. -/
theorem Sound.once {s : State} (sound : Sound s) (few : s.given.length ≤ 2 ^ 64) : s.given.Nodup := by
  have distinct := sound.given.nodup patchId_word_injective few
  rwa [List.map_id] at distinct

/-- The next id is none that was given out. -/
theorem Sound.fresh {s : State} (sound : Sound s) (few : s.given.length < 2 ^ 64) :
    patchId s.nextPatchId.toNat ∉ s.given := by
  intro old
  rw [sound.next] at old
  exact sound.given.fresh patchId_word_injective few old rfl

/-- The cartridge is the one that was loaded, with the patches over it. -/
structure Overlaid (s : State) : Prop where
  original : ∀ p ∈ s.patches, p.original = (List.range' p.offset p.replacement.length).map s.loaded.cells
  live : s.rom.cells = overlay s.loaded.cells s.patches

/-- Nothing that the store depends on differs. -/
structure Untouched (s t : State) : Prop where
  rom : t.rom = s.rom
  loaded : t.loaded = s.loaded
  patches : t.patches = s.patches
  given : t.given = s.given
  nextPatchId : t.nextPatchId = s.nextPatchId
  gameLoaded : t.gameLoaded = s.gameLoaded
  emulator : t.emulator = s.emulator
  romSha256 : t.romSha256 = s.romSha256

theorem Untouched.refl (s : State) : Untouched s s := ⟨rfl, rfl, rfl, rfl, rfl, rfl, rfl, rfl⟩

theorem Sound.untouched {s t : State} (sound : Sound s) (untouched : Untouched s t) : Sound t := by
  obtain ⟨rom, loaded, patches, given, next, game, emulator, _⟩ := untouched
  constructor
  case size => rw [rom, loaded, sound.size]
  case apart => exact patches ▸ sound.apart
  case shape => exact patches ▸ rom ▸ sound.shape
  case held => exact patches ▸ rom ▸ sound.held
  case sorted => exact patches ▸ sound.sorted
  case known => exact patches ▸ given ▸ sound.known
  case next => rw [next, given, sound.next]
  case given => exact given ▸ sound.given
  case game => exact patches ▸ game ▸ emulator ▸ sound.game

theorem Overlaid.untouched {s t : State} (overlaid : Overlaid s) (untouched : Untouched s t) : Overlaid t where
  original := untouched.patches ▸ untouched.loaded ▸ overlaid.original
  live := by rw [untouched.rom, untouched.loaded, untouched.patches, overlaid.live]

/-- The bridge has nothing to remember of the game before. -/
theorem Sound.emptied {s t : State} (sound : Sound s) (rom : t.rom = t.loaded) (patches : t.patches = [])
    (given : t.given = s.given) (next : t.nextPatchId = s.nextPatchId) : Sound t := by
  constructor
  case size => rw [rom]
  case apart =>
    rw [patches]
    exact List.Pairwise.nil
  case shape =>
    rw [patches]
    exact nofun
  case held =>
    rw [patches]
    exact nofun
  case sorted =>
    rw [patches]
    exact List.Pairwise.nil
  case known =>
    rw [patches]
    exact nofun
  case next => rw [next, given, sound.next]
  case given => exact given ▸ sound.given
  case game => exact fun some => absurd patches some

theorem Overlaid.emptied {t : State} (rom : t.rom = t.loaded) (patches : t.patches = []) : Overlaid t := by
  constructor
  case original =>
    rw [patches]
    exact nofun
  case live =>
    rw [rom, patches]
    rfl

/-- The tests that a `rom.patch` passes. -/
structure Applies (s : State) (p : Patch) : Prop where
  id : p.id = patchId s.nextPatchId.toNat
  nonempty : 0 < p.replacement.length
  sized : p.original.length = p.replacement.length
  limited : p.replacement.length ≤ maximumTransfer
  fits : p.offset + p.replacement.length ≤ s.rom.size
  apart : ∀ q ∈ s.patches, p.Apart q
  original : p.original = s.rom.readAll p.offset p.replacement.length
  game : s.gameLoaded = true ∧ s.emulator = some superFamicom

theorem Applies.programmed {s : State} {p : Patch} (applies : Applies s p) :
    (s.apply p).rom.cells = writeAll s.rom.cells (cells p.offset p.replacement) ∧ (s.apply p).rom.size = s.rom.size := by
  have small := s.rom.small
  exact s.rom.programAll_frame p.offset p.replacement (Nat.le_trans applies.fits small)

/-- A patch leaves the bytes of the others as they are. -/
theorem Applies.others {s : State} {p : Patch} (applies : Applies s p) {q : Patch} (active : q ∈ s.patches) :
    (List.range' q.offset q.replacement.length).map (s.apply p).rom.cells =
      (List.range' q.offset q.replacement.length).map s.rom.cells := by
  refine List.map_congr_left fun a inside => ?_
  rw [List.mem_range'_1] at inside
  rw [applies.programmed.1]
  refine writeAll_of_not_mem fun member => ?_
  rw [mem_cells_keys] at member
  rcases applies.apart q active with before | after <;> omega

theorem Sound.apply {s : State} {p : Patch} (sound : Sound s) (applies : Applies s p) : Sound (s.apply p) := by
  obtain ⟨written, size⟩ := applies.programmed
  have active {q : Patch} (member : q ∈ (s.apply p).patches) : q = p ∨ q ∈ s.patches := mem_emplace member
  constructor
  case size => exact size.trans sound.size
  case apart =>
    by_cases clash : ∃ q ∈ s.patches, q.id = p.id
    · have same : (s.apply p).patches = s.patches := emplace_known sound.sorted clash
      rw [same]
      exact sound.apart
    · obtain ⟨l₁, l₂, same, placed⟩ := emplace_split Patch.id p s.patches fun q active same => clash ⟨q, active, same⟩
      have perm : (s.apply p).patches.Perm (p :: s.patches) := by
        change (emplace Patch.id p s.patches).Perm _
        rw [placed, same]
        exact List.perm_middle
      exact (perm.pairwise_iff fun apart => apart.symm).mpr (List.pairwise_cons.mpr ⟨applies.apart, sound.apart⟩)
  case shape =>
    intro q member
    rw [size]
    rcases active member with rfl | old
    · exact ⟨applies.nonempty, applies.sized, applies.limited, applies.fits⟩
    · exact sound.shape q old
  case held =>
    intro q member
    rcases active member with rfl | old
    · rw [written]
      exact read_writeAll_cells _ _ _
    · rw [applies.others old]
      exact sound.held q old
  case sorted => exact emplace_sorted sound.sorted
  case known =>
    intro q member
    rcases active member with rfl | old
    · exact List.mem_append_right _ (List.mem_singleton_self _)
    · exact List.mem_append_left _ (sound.known q old)
  case next =>
    change s.nextPatchId + 1 = UInt64.ofNat ((s.given ++ [p.id]).length + 1)
    rw [sound.next, Counter.succ, List.length_append, List.length_singleton]
  case given =>
    refine sound.given.concat (a := p.id) ?_
    rw [← sound.next]
    exact applies.id
  case game => exact fun _ => applies.game

/-- While its id is new, a patch is laid over the cartridge and recorded. -/
theorem Overlaid.apply {s : State} {p : Patch} (overlaid : Overlaid s) (sound : Sound s) (applies : Applies s p)
    (few : s.given.length < 2 ^ 64) : Overlaid (s.apply p) := by
  have fresh : p.id ∉ s.given := applies.id ▸ sound.fresh few
  obtain ⟨l₁, l₂, same, placed⟩ := emplace_split Patch.id p s.patches
    fun q active clash => fresh (clash ▸ sound.known q active)
  have small := s.rom.small
  constructor
  case original =>
    intro q member
    rcases mem_emplace member with rfl | old
    · rw [applies.original, Rom.readAll_eq _ (Nat.le_trans applies.fits small)]
      refine List.map_congr_left fun a inside => ?_
      rw [List.mem_range'_1] at inside
      rw [overlaid.live]
      refine overlay_of_clear fun other present within => ?_
      rcases applies.apart other present with before | after <;> omega
    · exact overlaid.original q old
  case live =>
    change (s.apply p).rom.cells = overlay s.loaded.cells (emplace Patch.id p s.patches)
    rw [applies.programmed.1, placed,
      overlay_middle fun q member => applies.apart q (by rw [same]; exact List.mem_append_right _ member),
      ← same, overlaid.live]

/-- What undoing a patch leaves: the rest of the patches, and the bytes that
were there before it. -/
structure Undone (s : State) (p : Patch) : Prop where
  patches : (s.revert p).patches = s.patches.erase p
  restored : (List.range' p.offset p.original.length).map (s.revert p).rom.cells = p.original
  others : ∀ a, ¬ (p.offset ≤ a ∧ a < p.offset + p.replacement.length) →
    (s.revert p).rom.cells a = s.rom.cells a

theorem Sound.split {s : State} (sound : Sound s) {p : Patch} (active : p ∈ s.patches) :
    ∃ l₁ l₂, s.patches = l₁ ++ p :: l₂ ∧ (s.revert p).patches = l₁ ++ l₂ ∧
      (∀ q ∈ l₁ ++ l₂, p.Apart q) ∧ p ∉ l₁ := by
  obtain ⟨l₁, l₂, same⟩ := List.append_of_mem active
  have ids := sound.ids
  have apart := sound.apart
  rw [same] at ids apart
  have perm : (l₁ ++ p :: l₂).Perm (p :: (l₁ ++ l₂)) := List.perm_middle
  obtain ⟨only, _⟩ := List.nodup_cons.mp ((perm.map Patch.id).nodup_iff.mp ids)
  obtain ⟨clear, _⟩ := List.pairwise_cons.mp ((perm.pairwise_iff fun apart => apart.symm).mp apart)
  have kept (q : Patch) (member : q ∈ l₁ ++ l₂) : q.id ≠ p.id := by
    intro clash
    exact only (clash ▸ List.mem_map_of_mem member)
  refine ⟨l₁, l₂, same, ?_, clear, fun member => only (List.mem_map_of_mem (List.mem_append_left _ member))⟩
  have keep (l : List Patch) (within : ∀ q ∈ l, q ∈ l₁ ++ l₂) : l.filter (fun q => q.id ≠ p.id) = l :=
    List.filter_eq_self.mpr fun q member => decide_eq_true (kept q (within q member))
  simp only [State.revert, same, List.filter_append]
  rw [keep l₁ fun q member => List.mem_append_left _ member, List.filter_cons_of_neg (by simp),
    keep l₂ fun q member => List.mem_append_right _ member]

theorem Sound.revert_cells {s : State} (sound : Sound s) {p : Patch} (active : p ∈ s.patches) :
    (s.revert p).rom.cells = writeAll s.rom.cells (cells p.offset p.original) ∧ (s.revert p).rom.size = s.rom.size := by
  obtain ⟨_, sized, _, fits⟩ := sound.shape p active
  have small := s.rom.small
  exact s.rom.programAll_frame p.offset p.original (by omega)

theorem Sound.undone {s : State} (sound : Sound s) {p : Patch} (active : p ∈ s.patches) : Undone s p := by
  obtain ⟨l₁, l₂, same, rest, clear, first⟩ := sound.split active
  obtain ⟨_, sized, _, fits⟩ := sound.shape p active
  constructor
  case patches =>
    rw [rest, same, List.erase_append_right _ first, List.erase_cons_head]
  case restored =>
    rw [(sound.revert_cells active).1]
    exact read_writeAll_cells _ _ _
  case others =>
    intro a outside
    rw [(sound.revert_cells active).1]
    refine writeAll_of_not_mem fun member => outside ?_
    rw [mem_cells_keys, sized] at member
    exact member

theorem Sound.revert {s : State} (sound : Sound s) {p : Patch} (active : p ∈ s.patches) : Sound (s.revert p) := by
  have fewer : (s.revert p).patches.Sublist s.patches := List.filter_sublist
  have size := (sound.revert_cells active).2
  obtain ⟨l₁, l₂, _, rest, clear, _⟩ := sound.split active
  constructor
  case size => exact size.trans sound.size
  case apart => exact sound.apart.sublist fewer
  case shape =>
    intro q member
    rw [size]
    exact sound.shape q (fewer.mem member)
  case held =>
    intro q member
    refine Eq.trans ?_ (sound.held q (fewer.mem member))
    refine List.map_congr_left fun a inside => ?_
    rw [List.mem_range'_1] at inside
    refine (sound.undone active).others a fun within => ?_
    rcases clear q (rest ▸ member) with before | after <;> omega
  case sorted => exact sound.sorted.sublist fewer
  case known => exact fun q member => sound.known q (fewer.mem member)
  case next => exact sound.next
  case given => exact sound.given
  case game => exact fun _ => sound.game (List.ne_nil_of_mem active)

theorem Overlaid.revert {s : State} (overlaid : Overlaid s) (sound : Sound s) {p : Patch} (active : p ∈ s.patches) :
    Overlaid (s.revert p) := by
  obtain ⟨l₁, l₂, same, rest, clear, _⟩ := sound.split active
  obtain ⟨_, sized, _, fits⟩ := sound.shape p active
  -- Without the patch its region is as it was loaded.
  have held : p.original = (List.range' p.offset p.replacement.length).map (overlay s.loaded.cells (l₁ ++ l₂)) := by
    rw [overlaid.original p active]
    refine List.map_congr_left fun a inside => ?_
    rw [List.mem_range'_1] at inside
    refine (overlay_of_clear fun other present within => ?_).symm
    rcases clear other present with before | after <;> omega
  have both (a : Nat) : a ∈ (cells p.offset p.original).map Prod.fst ↔
      a ∈ (cells p.offset p.replacement).map Prod.fst := by
    rw [cells_keys, cells_keys, sized]
  constructor
  case original =>
    have fewer : (s.revert p).patches.Sublist s.patches := List.filter_sublist
    exact fun q member => overlaid.original q (fewer.mem member)
  case live =>
    change (s.revert p).rom.cells = overlay s.loaded.cells (s.revert p).patches
    rw [(sound.revert_cells active).1, rest, overlaid.live, same,
      overlay_middle fun q member => clear q (List.mem_append_right _ member)]
    calc writeAll (writeAll (overlay s.loaded.cells (l₁ ++ l₂)) (cells p.offset p.replacement))
          (cells p.offset p.original)
        = writeAll (overlay s.loaded.cells (l₁ ++ l₂)) (cells p.offset p.original) :=
          writeAll_congr fun a absent => writeAll_of_not_mem fun member => absent ((both a).mpr member)
      _ = overlay s.loaded.cells (l₁ ++ l₂) := by
          rw [held]
          exact writeAll_cells_self _ _ _

/-- Without its patch a region is as it was loaded. -/
theorem Overlaid.restored {s : State} (overlaid : Overlaid s) (sound : Sound s) {p : Patch} (active : p ∈ s.patches)
    (a : Nat) (within : p.offset ≤ a ∧ a < p.offset + p.replacement.length) :
    (s.revert p).rom.cells a = s.loaded.cells a := by
  obtain ⟨l₁, l₂, _, rest, clear, _⟩ := sound.split active
  have live : (s.revert p).rom.cells = overlay s.loaded.cells (s.revert p).patches :=
    (overlaid.revert sound active).live
  rw [live, rest]
  refine overlay_of_clear fun other present inside => ?_
  rcases clear other present with before | after <;> omega

def Response.code : Response → Option Code
  | .success _ _ => none
  | .failure _ code _ => some code

theorem regionValid_iff {address size limit : Nat} : regionValid address size limit = true ↔
    0 < size ∧ size ≤ maximumTransfer ∧ address + size ≤ limit := by
  simp only [regionValid, Bool.and_eq_true, decide_eq_true_eq]
  omega

theorem patchArguments_lengths {s : State} {document : Document} {offset : Nat} {sha expected replacement : Bytes}
    (arguments : s.patchArguments document = some (offset, sha, expected, replacement)) :
    expected.length = replacement.length := by
  unfold State.patchArguments at arguments
  split at arguments
  · split at arguments
    · exact nomatch arguments
    next sizes =>
      simp only [Option.some.injEq, Prod.mk.injEq] at arguments
      obtain ⟨_, _, rfl, rfl⟩ := arguments
      simp only [not_or, ne_eq, not_not] at sizes
      exact sizes.1
  · exact nomatch arguments

/-- What a request does to the store, and how it is answered. -/
inductive Turn (s : State) (r : Response) (t : State) : Prop
  | idle : Untouched s t → r.code ≠ some .patchConflict → Turn s r t
  | apply (p : Patch) : Applies s p → t = s.apply p → r.code = none → Turn s r t
  | revert (p : Patch) : p ∈ s.patches → t = s.revert p → r.code = none → Turn s r t
  | conflict (p : Patch) : p ∈ s.patches → s.rom.readAll p.offset p.replacement.length ≠ p.replacement →
      t = s → Turn s r t

theorem Turn.stay {s : State} {r : Response} (other : r.code ≠ some .patchConflict) : Turn s r s :=
  .idle (.refl s) other

theorem State.romPatch_turn {s : State} (game : s.gameLoaded = true ∧ s.emulator = some superFamicom)
    (document : Document) (id : Nat) : Turn s (s.romPatch document id).1 (s.romPatch document id).2 := by
  unfold State.romPatch
  split
  · exact .stay nofun
  next offset sha expected replacement arguments =>
    have lengths := patchArguments_lengths arguments
    split
    · exact .stay nofun
    split
    · exact .stay nofun
    next region =>
      split
      · exact .stay nofun
      next clear =>
        split
        · exact .stay nofun
        next read =>
          simp only [Bool.not_eq_true', Bool.not_eq_false] at region
          obtain ⟨nonempty, limited, fits⟩ := regionValid_iff.mp region
          have small := s.rom.small
          have offset32 : offset % 2 ^ 32 = offset := Nat.mod_eq_of_lt (by omega)
          refine .apply ⟨patchId s.nextPatchId.toNat, offset % 2 ^ 32, _, replacement⟩ ?_ rfl rfl
          rw [offset32]
          constructor
          case id => rfl
          case nonempty => exact lengths ▸ nonempty
          case sized =>
            rw [ne_eq, not_not] at read
            rw [read, lengths]
          case limited => exact lengths ▸ limited
          case fits => exact lengths ▸ fits
          case apart =>
            intro q active
            have apart : ¬ overlaps offset expected.length q = true := fun shared =>
              clear (List.any_eq_true.mpr ⟨q, active, shared⟩)
            simp only [overlaps, Bool.and_eq_true, decide_eq_true_eq, not_and_or, Nat.not_lt] at apart
            change offset + replacement.length ≤ q.offset ∨ q.offset + q.replacement.length ≤ offset
            omega
          case original => rw [lengths]
          case game => exact game

theorem State.romPatchRevert_turn (s : State) (document : Document) (id : Nat) :
    Turn s (s.romPatchRevert document id).1 (s.romPatchRevert document id).2 := by
  unfold State.romPatchRevert
  split
  · split
    · exact .stay nofun
    split
    · exact .stay nofun
    next p found =>
      have active := List.mem_of_find?_eq_some found
      split
      next differs => exact .conflict p active differs rfl
      next => exact .revert p active rfl rfl
  · exact .stay nofun

theorem State.memoryRead_code (s : State) (document : Document) (id : Nat) :
    (s.memoryRead document id).code ≠ some .patchConflict := by
  unfold State.memoryRead
  split
  · split
    · exact nofun
    split <;> exact nofun
  · exact nofun

theorem State.romRead_code (s : State) (document : Document) (id : Nat) :
    (s.romRead document id).code ≠ some .patchConflict := by
  unfold State.romRead
  dsimp only
  split
  · split <;> exact nofun
  · exact nofun

theorem State.disassemble_code (s : State) (document : Document) (id : Nat) :
    (s.disassemble document id).code ≠ some .patchConflict := by
  unfold State.disassemble
  split <;> exact nofun

theorem State.memoryWrite_turn (s : State) (document : Document) (id : Nat) :
    Turn s (s.memoryWrite document id).1 (s.memoryWrite document id).2 := by
  unfold State.memoryWrite
  split
  · split
    · exact .stay nofun
    split
    · exact .stay nofun
    split
    · exact .stay nofun
    · exact .idle ⟨rfl, rfl, rfl, rfl, rfl, rfl, rfl, rfl⟩ nofun
  · exact .stay nofun

theorem State.savestateCreate_turn (s : State) (document : Document) (id : Nat) :
    Turn s (s.savestateCreate document id).1 (s.savestateCreate document id).2 := by
  unfold State.savestateCreate
  dsimp only
  split
  · exact .stay nofun
  split
  · exact .stay nofun
  · exact .idle ⟨rfl, rfl, rfl, rfl, rfl, rfl, rfl, rfl⟩ nofun

theorem State.savestateRestore_code (s : State) (document : Document) (id : Nat) :
    (s.savestateRestore document id).code ≠ some .patchConflict := by
  unfold State.savestateRestore
  split
  · exact nofun
  split
  · exact nofun
  split
  · exact nofun
  split <;> exact nofun

theorem State.savestateDelete_turn (s : State) (document : Document) (id : Nat) :
    Turn s (s.savestateDelete document id).1 (s.savestateDelete document id).2 := by
  unfold State.savestateDelete
  split
  · exact .stay nofun
  split
  · exact .stay nofun
  · exact .idle ⟨rfl, rfl, rfl, rfl, rfl, rfl, rfl, rfl⟩ nofun

theorem State.screenCapture_turn (s : State) (id : Nat) : Turn s (s.screenCapture id).1 (s.screenCapture id).2 := by
  unfold State.screenCapture
  split
  · exact .stay nofun
  split
  · exact .stay nofun
  split
  · exact .stay nofun
  dsimp only
  split <;> exact .idle ⟨rfl, rfl, rfl, rfl, rfl, rfl, rfl, rfl⟩ nofun

/-- A command is told from the others by its name. -/
theorem Turn.ite {c : Prop} [Decidable c] {s : State} {x y : Response × State} (yes : c → Turn s x.1 x.2)
    (no : ¬ c → Turn s y.1 y.2) : Turn s (if c then x else y).1 (if c then x else y).2 := by
  by_cases holds : c
  · rw [if_pos holds]
    exact yes holds
  · rw [if_neg holds]
    exact no holds

theorem State.debug_turn {s : State} (game : s.gameLoaded = true ∧ s.emulator = some superFamicom) (document : Document)
    (id : Nat) (command : Bytes) : Turn s (s.debug document id command).1 (s.debug document id command).2 := by
  refine .ite (fun _ => .stay nofun) fun _ => ?_
  refine .ite (fun _ => .stay (s.disassemble_code document id)) fun _ => ?_
  refine .ite (fun _ => .stay (s.memoryRead_code document id)) fun _ => ?_
  refine .ite (fun _ => s.memoryWrite_turn document id) fun _ => ?_
  refine .ite (fun _ => .stay (s.romRead_code document id)) fun _ => ?_
  refine .ite (fun _ => State.romPatch_turn game document id) fun _ => ?_
  refine .ite (fun _ => .stay nofun) fun _ => ?_
  refine .ite (fun _ => s.romPatchRevert_turn document id) fun _ => ?_
  refine .ite (fun _ => s.savestateCreate_turn document id) fun _ => ?_
  refine .ite (fun _ => .stay (s.savestateRestore_code document id)) fun _ => ?_
  refine .ite (fun _ => s.savestateDelete_turn document id) fun _ => ?_
  exact .ite (fun _ => s.screenCapture_turn id) fun _ => .stay nofun

theorem State.execute_turn (s : State) (document : Document) (id : Nat) (command : Bytes) :
    Turn s (s.execute document id command).1 (s.execute document id command).2 := by
  have paused (paused : Bool) : Untouched s (s.setPaused paused) := ⟨rfl, rfl, rfl, rfl, rfl, rfl, rfl, rfl⟩
  refine .ite (fun _ => .stay nofun) fun _ => .ite (fun _ => .stay nofun) fun present => ?_
  refine .ite (fun _ => .idle (paused true) nofun) fun _ => .ite (fun _ => .idle (paused false) nofun) fun _ => ?_
  refine .ite (fun _ => .stay nofun) fun _ => .ite (fun _ => .stay nofun) fun console => ?_
  simp only [not_or, Bool.not_eq_false] at present
  exact State.debug_turn ⟨present.1, not_not.mp console⟩ document id command

/-- One request does one of four things to the store. -/
theorem State.dispatch_turn (s : State) (document : Option Document) :
    Turn s (s.dispatch document).1 (s.dispatch document).2 := by
  unfold State.dispatch
  split
  · exact .stay nofun
  split
  · exact .stay nofun
  split
  · exact .stay nofun
  split
  · exact .stay nofun
  · exact s.execute_turn _ _ _

theorem Sound.readback {s : State} (sound : Sound s) {p : Patch} (active : p ∈ s.patches) :
    s.rom.readAll p.offset p.replacement.length = p.replacement := by
  obtain ⟨_, _, _, fits⟩ := sound.shape p active
  have small := s.rom.small
  rw [Rom.readAll_eq _ (by omega), sound.held p active]

theorem Sound.dispatch {s : State} (sound : Sound s) (document : Option Document) :
    Sound (s.dispatch document).2 ∧ (s.dispatch document).1.code ≠ some .patchConflict := by
  rcases s.dispatch_turn document with ⟨untouched, other⟩ | ⟨p, applies, same, done⟩ | ⟨p, active, same, done⟩ |
    ⟨p, active, differs, _⟩
  · exact ⟨sound.untouched untouched, other⟩
  · rw [same, done]
    exact ⟨sound.apply applies, nofun⟩
  · rw [same, done]
    exact ⟨sound.revert active, nofun⟩
  · exact absurd (sound.readback active) differs

theorem Sound.step {s : State} (sound : Sound s) (e : State.Event) : Sound (s.step e) := by
  cases e with
  | gameLoaded active emulator =>
    simp only [State.step, State.load]
    split <;> exact sound.emptied rfl rfl rfl rfl
  | gameUnloaded => exact sound.emptied rfl rfl rfl rfl
  | captureFrame data pitch width height =>
    simp only [State.step, State.captureFrame]
    split
    · exact sound
    · exact sound.untouched ⟨rfl, rfl, rfl, rfl, rfl, rfl, rfl, rfl⟩
  | run machine => exact sound.untouched ⟨rfl, rfl, rfl, rfl, rfl, rfl, rfl, rfl⟩
  | request document => exact (sound.dispatch document).1

theorem reachable_sound {s : State} (reach : State.system.Reachable s) : Sound s := by
  refine reach.invariant ?_ fun _ e _ _ _ sound => sound.step e
  rintro s ⟨machine, rfl⟩
  exact ⟨rfl, .nil, nofun, nofun, .nil, nofun, rfl, .nil _ _, fun some => absurd rfl some⟩

/-- As long as the counter has not wrapped, the record of the patches is complete. -/
theorem Overlaid.step {s : State} (overlaid : s.given.length ≤ 2 ^ 64 → Overlaid s) (sound : Sound s) (e : State.Event)
    (few : (s.step e).given.length ≤ 2 ^ 64) : Overlaid (s.step e) := by
  cases e with
  | gameLoaded active emulator =>
    simp only [State.step, State.load]
    split <;> exact .emptied rfl rfl
  | gameUnloaded => exact .emptied rfl rfl
  | captureFrame data pitch width height =>
    simp only [State.step, State.captureFrame] at few ⊢
    split at few
    · rw [if_pos ‹_›]
      exact overlaid few
    · rw [if_neg ‹_›]
      exact (overlaid few).untouched ⟨rfl, rfl, rfl, rfl, rfl, rfl, rfl, rfl⟩
  | run machine => exact (overlaid few).untouched ⟨rfl, rfl, rfl, rfl, rfl, rfl, rfl, rfl⟩
  | request document =>
    change Overlaid (s.dispatch document).2
    change (s.dispatch document).2.given.length ≤ 2 ^ 64 at few
    rcases s.dispatch_turn document with ⟨untouched, _⟩ | ⟨p, applies, same, _⟩ | ⟨p, active, same, _⟩ |
      ⟨p, active, differs, same⟩
    · exact (overlaid (untouched.given ▸ few)).untouched untouched
    · rw [same] at few ⊢
      have less : s.given.length + 1 ≤ 2 ^ 64 := by
        change (s.given ++ [p.id]).length ≤ 2 ^ 64 at few
        rwa [List.length_append, List.length_singleton] at few
      exact (overlaid (Nat.le_of_succ_le less)).apply sound applies less
    · rw [same] at few ⊢
      exact (overlaid few).revert sound active
    · rw [same] at few ⊢
      exact overlaid few

theorem reachable_overlaid {s : State} (reach : State.system.Reachable s) (few : s.given.length ≤ 2 ^ 64) :
    Overlaid s := by
  revert few
  refine reach.invariant (P := fun s => s.given.length ≤ 2 ^ 64 → Overlaid s) ?_ ?_
  · rintro s ⟨machine, rfl⟩ _
    exact .emptied rfl rfl
  · exact fun s e before _ _ overlaid few => Overlaid.step overlaid (reachable_sound before) e few

/-- The request asks to revert the patch, and knows the cartridge. -/
structure Reverts (s : State) (document : Document) (p : Patch) : Prop where
  id : ∃ n, unsignedField document "id" 0 maximumRequestId = some n
  command : stringField document "command" = some (ascii "rom.patch.revert")
  patch : stringField document "patch_id" = some p.id
  sha : (stringField document "expected_rom_sha256").bind normalizeSha256 = some s.romSha256

theorem find_of_distinct {l : List Patch} (ids : (l.map Patch.id).Nodup) {p : Patch} (active : p ∈ l) :
    l.find? (fun q => q.id == p.id) = some p := by
  induction l with
  | nil => exact nomatch active
  | cons q rest ih =>
    obtain ⟨only, ids⟩ := List.nodup_cons.mp ids
    rcases List.mem_cons.mp active with rfl | later
    · exact List.find?_cons_of_pos (beq_self_eq_true _)
    · rw [List.find?_cons_of_neg, ih ids later]
      intro clash
      rw [beq_iff_eq] at clash
      exact only (clash ▸ List.mem_map_of_mem later)

theorem State.present {s : State} (game : s.gameLoaded = true ∧ s.emulator = some superFamicom) :
    ¬ (s.gameLoaded = false ∨ s.emulator = none) := by
  rw [game.1, game.2]
  exact not_or.mpr ⟨nofun, nofun⟩

/-- While a game runs, `debug` sees every command but the first five. -/
theorem State.dispatch_debug {s : State} (game : s.gameLoaded = true ∧ s.emulator = some superFamicom)
    {document : Document} {id : Nat} {command : Bytes}
    (numbered : unsignedField document "id" 0 maximumRequestId = some id)
    (named : stringField document "command" = some command)
    (debugs : command ∉ [[], ascii "emulator.status", ascii "emulator.pause", ascii "emulator.resume",
      ascii "emulator.reset"]) : s.dispatch (some document) = s.debug document id command := by
  simp only [List.mem_cons, not_or] at debugs
  obtain ⟨some, status, pause, resume, reset, _⟩ := debugs
  rw [dispatch, numbered]
  dsimp only
  rw [named]
  dsimp only
  rw [if_neg some, execute, if_neg status, if_neg (present game), if_neg pause, if_neg resume, if_neg reset,
    if_neg (not_not.mpr game.2)]

/-- Reverting an active patch succeeds. -/
theorem Reverts.reverted {s : State} {document : Document} {p : Patch} (reverts : Reverts s document p)
    (sound : Sound s) (active : p ∈ s.patches) :
    (s.dispatch (some document)).1.code = none ∧ (s.dispatch (some document)).2 = s.revert p := by
  obtain ⟨n, id⟩ := reverts.id
  have game := sound.game (List.ne_nil_of_mem active)
  have found := find_of_distinct sound.ids active
  have held := sound.readback active
  have reached : s.dispatch (some document) = s.romPatchRevert document n := by
    rw [State.dispatch_debug game id reverts.command (by decide), State.debug, if_neg (by decide), if_neg (by decide),
      if_neg (by decide), if_neg (by decide), if_neg (by decide), if_neg (by decide), if_neg (by decide), if_pos rfl]
  rw [reached]
  simp only [State.romPatchRevert, reverts.patch, reverts.sha, found, held]
  simp [Response.code]

/-- Every active patch is reverted once, in whatever order. -/
theorem revert_all {s : State} (sound : Sound s) (overlaid : Overlaid s) {order : List Patch}
    (all : order.Perm s.patches) {documents : List Document} (asked : List.Forall₂ (Reverts s) documents order) :
    let t := documents.foldl (fun s document => (s.dispatch (some document)).2) s
    t.patches = [] ∧ t.rom.size = s.loaded.size ∧ t.rom.cells = s.loaded.cells := by
  induction order generalizing s documents with
  | nil =>
    cases asked
    have none : s.patches = [] := List.nil_perm.mp all
    have live := overlaid.live
    rw [none] at live
    exact ⟨none, sound.size, live⟩
  | cons p rest ih =>
    obtain ⟨document, later, first, others, rfl⟩ := List.forall₂_cons_right_iff.mp asked
    have active : p ∈ s.patches := all.mem_iff.mp (List.mem_cons_self ..)
    have done := (first.reverted sound active).2
    have remaining : rest.Perm (s.revert p).patches := by
      rw [(sound.undone active).patches]
      exact (List.cons_perm_iff_perm_erase.mp all).2
    -- A revert leaves the digest as it is, so the other requests still know it.
    have asking : List.Forall₂ (Reverts (s.revert p)) later rest :=
      others.imp fun _ _ reverts => ⟨reverts.id, reverts.command, reverts.patch, reverts.sha⟩
    rw [List.foldl_cons, done]
    exact ih (sound.revert active) (overlaid.revert sound active) remaining asking

/-- In every run: the active patches lie apart, inside the cartridge and under
distinct ids; no revert meets a conflict, and a revert that knows the cartridge
succeeds and puts back just the bytes that its patch found. As long as the
counter has not come round, no id is given out twice; the cartridge is what was
loaded with exactly the replacements of the active patches over it; a revert
restores its region as it was loaded, and all reverts together, in any order,
give back the cartridge as it was loaded. -/
theorem patch_store {s : State} (reach : State.system.Reachable s) :
    (s.patches.Pairwise Patch.Apart ∧
      (∀ p ∈ s.patches, 0 < p.replacement.length ∧ p.original.length = p.replacement.length ∧
        p.offset + p.replacement.length ≤ s.rom.size) ∧
      (s.patches.map Patch.id).Nodup ∧ ∀ p ∈ s.patches, p.id ∈ s.given) ∧
    (∀ document, (s.dispatch document).1.code ≠ some .patchConflict) ∧
    (∀ p ∈ s.patches, ∀ document, Reverts s document p →
      (s.dispatch (some document)).1.code = none ∧
      (s.dispatch (some document)).2.patches = s.patches.erase p ∧
      (List.range' p.offset p.original.length).map (s.dispatch (some document)).2.rom.cells = p.original ∧
      ∀ a, ¬ (p.offset ≤ a ∧ a < p.offset + p.replacement.length) →
        (s.dispatch (some document)).2.rom.cells a = s.rom.cells a) ∧
    (s.given.length ≤ 2 ^ 64 →
      s.given.Nodup ∧
      (s.rom.size = s.loaded.size ∧ s.rom.cells = overlay s.loaded.cells s.patches) ∧
      (∀ p ∈ s.patches, ∀ document, Reverts s document p →
        ∀ a, p.offset ≤ a → a < p.offset + p.replacement.length →
          (s.dispatch (some document)).2.rom.cells a = s.loaded.cells a) ∧
      ∀ order documents, order.Perm s.patches → List.Forall₂ (Reverts s) documents order →
        let t := documents.foldl (fun s document => (s.dispatch (some document)).2) s
        t.patches = [] ∧ t.rom.size = s.loaded.size ∧ t.rom.cells = s.loaded.cells) := by
  have sound := reachable_sound reach
  refine ⟨⟨sound.apart, ?_, sound.ids, sound.known⟩, fun document => (sound.dispatch document).2, ?_, fun few => ?_⟩
  · intro p active
    obtain ⟨nonempty, sized, _, fits⟩ := sound.shape p active
    exact ⟨nonempty, sized, fits⟩
  · intro p active document reverts
    obtain ⟨succeeds, done⟩ := reverts.reverted sound active
    have undone := sound.undone active
    rw [done]
    exact ⟨succeeds, undone.patches, undone.restored, undone.others⟩
  · have overlaid := reachable_overlaid reach few
    refine ⟨sound.once few, ⟨sound.size, overlaid.live⟩, fun p active document reverts a from' below => ?_,
      fun order documents all asked => revert_all sound overlaid all asked⟩
    rw [(reverts.reverted sound active).2]
    exact overlaid.restored sound active a ⟨from', below⟩

/-! A cartridge of eight bytes, each holding its address, and a patch of two. -/

def sampleMachine : Machine where
  paused := true
  pc := 0x8000
  pb := 0
  db := 0
  a := 0
  x := 0
  y := 0
  s := 0x1ff
  d := 0
  p := 0x34
  e := true
  wram _ := 0
  vram := none
  oam := none
  cgram := none
  bus _ := 0
  readDisassembler _ := 0xea
  disassembleInstruction _ := (ascii "nop", 1)
  serialized := none
  unserialize _ := false
  createDirectory := false
  secureDirectory := false
  encodePng := false
  processId := 1

def sampleDigest : Digest := ⟨List.replicate 64 48, by decide⟩

theorem sampleRom_small : 8 ≤ 2 ^ 24 := by decide

def sampleGame : Emulator where
  name := superFamicom
  game := some (ascii "sample.sfc")
  rom := some (⟨8, fun address => UInt8.ofNat address, sampleRom_small⟩, sampleDigest)

def sampleDocument (fields : List (String × Bytes)) : Document := fun name => fields.lookup name

def sampleApply : Document :=
  sampleDocument [("id", ascii "1"), ("command", ascii "rom.patch"), ("offset", ascii "2"),
    ("expected", ascii "0203"), ("replacement", ascii "EAEA"), ("expected_rom_sha256", sampleDigest.text)]

def sampleRevert : Document :=
  sampleDocument [("id", ascii "2"), ("command", ascii "rom.patch.revert"), ("patch_id", ascii "patch-1"),
    ("expected_rom_sha256", sampleDigest.text)]

def sampleStore : State :=
  [State.Event.gameLoaded true sampleGame, .request (some sampleApply)].foldl State.step { machine := sampleMachine }

theorem sampleStore_reachable : State.system.Reachable sampleStore := by
  have started : State.system.Reachable { machine := sampleMachine } := .start ⟨sampleMachine, rfl⟩
  exact started.run ⟨trivial, trivial, trivial, trivial, trivial⟩

def samplePatch : Patch := ⟨ascii "patch-1", 2, [2, 3], [0xea, 0xea]⟩

theorem sampleStore_reverted : sampleStore.rom.cells 3 = 0xea ∧
    (sampleStore.dispatch (some sampleRevert)).1.code = none ∧
    (sampleStore.dispatch (some sampleRevert)).2.rom.cells 3 = 3 := by
  obtain ⟨_, _, reverted, once⟩ := patch_store sampleStore_reachable
  obtain ⟨_, _, loaded, _⟩ := once (by decide +kernel)
  have active : samplePatch ∈ sampleStore.patches := by decide +kernel
  have asks : Reverts sampleStore sampleRevert samplePatch :=
    ⟨⟨2, by decide +kernel⟩, by decide +kernel, by decide +kernel, by decide +kernel⟩
  obtain ⟨succeeds, _⟩ := reverted samplePatch active sampleRevert asks
  have restored := loaded samplePatch active sampleRevert asks 3 (by decide) (by decide)
  exact ⟨by decide +kernel, succeeds, restored.trans (by decide +kernel)⟩

/-! The same byte is patched with itself and reverted, until the counter of the
patches comes round. -/

def wearApply : Document :=
  sampleDocument [("id", ascii "1"), ("command", ascii "rom.patch"), ("offset", ascii "4"),
    ("expected", ascii "04"), ("replacement", ascii "04"), ("expected_rom_sha256", sampleDigest.text)]

def wearRevert (id : Bytes) : Document :=
  sampleDocument [("id", ascii "2"), ("command", ascii "rom.patch.revert"), ("patch_id", id),
    ("expected_rom_sha256", sampleDigest.text)]

theorem wearRevert_fields (id : Bytes) :
    wearRevert id "id" = some (ascii "2") ∧ wearRevert id "command" = some (ascii "rom.patch.revert") ∧
      wearRevert id "patch_id" = some id ∧ wearRevert id "expected_rom_sha256" = some sampleDigest.text := by
  simp [wearRevert, sampleDocument, List.lookup_cons]

/-- The sample store after so many patches. -/
structure Worn (n : Nat) (s : State) : Prop where
  reach : State.system.Reachable s
  game : s.gameLoaded = true ∧ s.emulator = some superFamicom
  sha : s.romSha256 = sampleDigest.text
  rom : s.rom = sampleStore.rom
  loaded : s.loaded = sampleStore.loaded
  patches : s.patches = [samplePatch]
  given : s.given.length = n
  first : patchId 1 ∈ s.given

/-- A one-byte patch of the sample store, off its patch, is taken. -/
theorem Worn.applied {n : Nat} {s : State} (worn : Worn n s) {document : Document} {offset : Nat} {old new : UInt8}
    (id : unsignedField document "id" 0 maximumRequestId = some 1)
    (command : stringField document "command" = some (ascii "rom.patch"))
    (arguments : sampleStore.patchArguments document = some (offset, sampleDigest.text, [old], [new]))
    (room : 4 ≤ offset ∧ offset < 8) (expected : sampleStore.rom.read offset = old) :
    (s.dispatch (some document)).2 = s.apply ⟨patchId s.nextPatchId.toNat, offset, [old], [new]⟩ := by
  have reached : s.dispatch (some document) = s.romPatch document 1 := by
    rw [State.dispatch_debug worn.game id command (by decide), State.debug, if_neg (by decide), if_neg (by decide),
      if_neg (by decide), if_neg (by decide), if_neg (by decide), if_pos rfl]
  have asked : s.patchArguments document = some (offset, sampleDigest.text, [old], [new]) := by
    rw [← arguments]
    simp only [State.patchArguments, worn.rom]
  have size : s.rom.size = 8 := by
    rw [worn.rom]
    decide +kernel
  have valid : regionValid offset [old].length s.rom.size = true := by
    rw [size]
    exact regionValid_iff.mpr ⟨Nat.one_pos, show 1 ≤ maximumTransfer by decide, room.2⟩
  have apart : s.patches.any (overlaps offset [old].length) = false := by
    rw [worn.patches, List.any_eq_false]
    intro p active both
    rw [List.mem_singleton.mp active] at both
    have before : offset < 2 + 2 := of_decide_eq_true (Bool.and_eq_true_iff.mp both).1
    omega
  have held : s.rom.readAll offset [old].length = [old] := by
    rw [worn.rom]
    exact congrArg (fun b => [b]) expected
  rw [reached, State.romPatch, asked]
  simp only [worn.sha, valid, apart, held, Nat.mod_eq_of_lt (show offset < 2 ^ 32 by omega)]
  simp

theorem Worn.next {n : Nat} {s : State} (worn : Worn n s) (few : n < 2 ^ 64) : ∃ t, Worn (n + 1) t := by
  have sound := reachable_sound worn.reach
  let p : Patch := ⟨patchId s.nextPatchId.toNat, 4, [4], [4]⟩
  have fresh : p.id ∉ s.given := sound.fresh (worn.given.symm ▸ few)
  have other : p.id ≠ samplePatch.id := fun same =>
    fresh (same ▸ sound.known samplePatch (worn.patches.symm ▸ List.mem_singleton_self _))
  -- The patch writes the byte that is there, and so does its revert.
  have blank : s.rom.programAll 4 [4] = s.rom := by
    have here : s.rom.cells 4 = 4 := by
      rw [worn.rom]
      decide +kernel
    have same : Function.update s.rom.cells 4 4 = s.rom.cells := Function.update_eq_self_iff.mpr here.symm
    rw [Rom.programAll, Rom.programAll, Rom.program]
    exact congrArg (fun cells => ({ s.rom with cells := cells } : Rom)) same
  have applied : (s.dispatch (some wearApply)).2 = s.apply p :=
    worn.applied (by decide +kernel) (by decide +kernel) (by decide +kernel) (by decide) (by decide +kernel)
  have patched : State.system.Reachable (s.apply p) := by
    rw [← applied]
    exact worn.reach.next (.request (some wearApply)) trivial trivial
  have active : p ∈ (s.apply p).patches := by
    obtain ⟨l₁, l₂, _, placed⟩ := emplace_split Patch.id p s.patches
      fun q active same => fresh (same ▸ sound.known q active)
    change p ∈ emplace Patch.id p s.patches
    rw [placed]
    exact List.mem_append_right _ (List.mem_cons_self ..)
  have asks : Reverts (s.apply p) (wearRevert p.id) p := by
    obtain ⟨atId, atCommand, atPatch, atSha⟩ := wearRevert_fields p.id
    constructor
    case id =>
      rw [unsignedField, atId]
      exact ⟨2, by decide +kernel⟩
    case command =>
      rw [stringField, atCommand]
      decide +kernel
    case patch =>
      rw [stringField, atPatch]
      refine if_neg fun same => ?_
      have first : p.id.head? = some 112 := rfl
      rw [same] at first
      exact absurd first (by decide)
    case sha =>
      have sha : (s.apply p).romSha256 = sampleDigest.text := worn.sha
      rw [stringField, atSha, sha]
      decide +kernel
  have undone := (asks.reverted (reachable_sound patched) active).2
  refine ⟨(s.apply p).revert p, ?_⟩
  constructor
  case reach =>
    rw [← undone]
    exact patched.next (.request (some (wearRevert p.id))) trivial trivial
  case game => exact worn.game
  case sha => exact worn.sha
  case rom =>
    change (s.rom.programAll 4 [4]).programAll 4 [4] = sampleStore.rom
    rw [blank, blank, worn.rom]
  case loaded => exact worn.loaded
  case patches =>
    change (emplace Patch.id p s.patches).filter (fun q => q.id ≠ p.id) = [samplePatch]
    have kept (l : List Patch) : (samplePatch :: l).filter (fun q => q.id ≠ p.id) =
        samplePatch :: l.filter (fun q => q.id ≠ p.id) := List.filter_cons_of_pos (decide_eq_true other.symm)
    have gone (l : List Patch) : (p :: l).filter (fun q => q.id ≠ p.id) = l.filter (fun q => q.id ≠ p.id) :=
      List.filter_cons_of_neg (by simp)
    rw [worn.patches, emplace, if_neg other]
    split
    · rw [gone, kept, List.filter_nil]
    · rw [emplace, kept, gone, List.filter_nil]
  case given => exact List.length_append.trans (congrArg (· + 1) worn.given)
  case first => exact List.mem_append_left _ worn.first

theorem worn_out (n : Nat) (few : n ≤ 2 ^ 64) (some : 1 ≤ n) : ∃ s, Worn n s := by
  induction n, some using Nat.le_induction with
  | base =>
    refine ⟨sampleStore, sampleStore_reachable, ⟨rfl, ?_⟩, ?_, rfl, rfl, ?_, ?_, ?_⟩ <;> decide +kernel
  | succ n some ih =>
    obtain ⟨s, worn⟩ := ih (Nat.le_of_succ_le few)
    exact worn.next few

def wearClash : Document :=
  sampleDocument [("id", ascii "1"), ("command", ascii "rom.patch"), ("offset", ascii "5"),
    ("expected", ascii "05"), ("replacement", ascii "EA"), ("expected_rom_sha256", sampleDigest.text)]

/-- After 2^64 patches the counter gives out its first id again: the patch is
written to the cartridge and not recorded. -/
theorem patch_ids_wrap : ∃ s, State.system.Reachable s ∧ ¬ s.given.Nodup ∧
    s.rom.cells ≠ overlay s.loaded.cells s.patches := by
  obtain ⟨s, worn⟩ := worn_out (2 ^ 64) (Nat.le_refl _) Nat.one_le_two_pow
  have next : s.nextPatchId = 1 := by
    rw [(reachable_sound worn.reach).next, worn.given, Nat.add_comm]
    exact Counter.period 1
  let p : Patch := ⟨patchId 1, 5, [5], [0xea]⟩
  have applied : (s.dispatch (some wearClash)).2 = s.apply p := by
    have asked : (s.dispatch (some wearClash)).2 = s.apply ⟨patchId s.nextPatchId.toNat, 5, [5], [0xea]⟩ :=
      worn.applied (by decide +kernel) (by decide +kernel) (by decide +kernel) (by decide) (by decide +kernel)
    rwa [next] at asked
  have known : (s.apply p).patches = [samplePatch] := by
    change emplace Patch.id p s.patches = [samplePatch]
    rw [worn.patches]
    decide +kernel
  refine ⟨s.apply p, ?_, ?_, ?_⟩
  · rw [← applied]
    exact worn.reach.next (.request (some wearClash)) trivial trivial
  · intro distinct
    exact (List.nodup_append.mp distinct).2.2 _ worn.first _ (List.mem_singleton_self _) rfl
  · intro same
    have here := congrFun same 5
    rw [known] at here
    change (s.rom.programAll 5 [0xea]).cells 5 = overlay s.loaded.cells [samplePatch] 5 at here
    rw [worn.rom, worn.loaded] at here
    exact absurd here (by decide +kernel)

end FzeroVs.Bridge
