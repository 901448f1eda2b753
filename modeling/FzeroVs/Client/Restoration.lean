import FzeroVs.Client.Accept
import FzeroVs.Client.Cartridge

namespace FzeroVs

namespace Client

/-- The connection and the cartridge stay as they are, and no game ends. -/
structure Steady (c d : Client) : Prop where
  memory : d.memory = c.memory
  socket : d.socket = c.socket
  playing : d.game = .disconnected → c.game = .disconnected

theorem Steady.refl (c : Client) : Steady c c := ⟨rfl, rfl, fun ended => ended⟩

theorem Steady.game {c d : Client} (steady : Steady c d) {game : Game} (on : game ≠ .disconnected) :
    Steady c { d with game := game } :=
  ⟨steady.memory, steady.socket, fun ended => absurd ended on⟩

theorem Idle.steady {c d : Client} (idle : Idle c d) : Steady c d :=
  ⟨idle.memory, idle.socket, fun ended => idle.game ▸ ended⟩

theorem send_steady (c : Client) (packet : Packet) : Steady c (c.send packet) := by
  unfold send
  split <;> exact ⟨rfl, rfl, fun ended => ended⟩

theorem queue_steady (c : Client) (command : List UInt8) : Steady c (c.queue command) := by
  unfold queue
  split
  · exact .refl c
  · exact ⟨rfl, rfl, fun ended => ended⟩

theorem serve_steady (c : Client) (t : UInt64) : Steady c (c.serve t) where
  memory := serve_keeps Client.memory (fun _ _ _ _ _ _ _ _ _ => rfl) c t
  socket := serve_keeps Client.socket (fun _ _ _ _ _ _ _ _ _ => rfl) c t
  playing ended := (serve_keeps Client.game (fun _ _ _ _ _ _ _ _ _ => rfl) c t).symm.trans ended

theorem accept_steady (c : Client) (t : UInt64) (p : Packet) (v : Picture) : Steady c (c.accept t p v) := by
  refine ⟨?_, (c.accept_took t p v).socket, ?_⟩
  · rw [accept, arm_keeps Client.memory (fun _ _ _ _ _ => rfl), settle]
    simp only [newRace, display, bufferSnapshot, resetGame]
    split <;> rfl
  · rw [accept, arm_keeps Client.game (fun _ _ _ _ _ => rfl)]
    rcases (c.settle_game t p v).2 with same | fresh
    · rw [same]
      exact fun ended => ended
    · rw [fresh]
      intro ended
      cases ended

theorem select_steady (c : Client) : Steady c c.select := by
  unfold select
  split
  · exact { c.queue_steady _ with }
  · exact .refl c

theorem load_steady (c : Client) (ram : UInt32 → UInt8) : Steady c (c.load ram) := by
  unfold load
  split
  · exact { c.queue_steady _ with }
  · exact .refl c

theorem finish_steady (c : Client) : Steady c c.finish := by
  unfold finish
  split
  · exact { c.queue_steady _ with }
  · exact .refl c

theorem frame_steady (c : Client) (ram : UInt32 → UInt8) (due : Bool) (now : UInt64) :
    Steady c (c.frame ram due now) := by
  unfold frame
  split
  · exact .refl c
  split
  · refine (Steady.refl c).game ?_
    split <;> exact nofun
  split
  case h_1 => exact (Steady.refl c).game nofun
  case h_2 =>
    have picked : Steady c (if ram 0x55 = 3 then { c with car := menu (ram 0x5a) } else c) := by
      split <;> exact ⟨rfl, rfl, fun ended => ended⟩
    dsimp only
    split
    · exact picked.game nofun
    · exact picked
  case h_3 =>
    dsimp only
    split
    · exact c.select_steady.game nofun
    · exact c.select_steady
  case h_4 => exact (Steady.refl c).game nofun
  case h_5 =>
    split
    · dsimp only
      split
      · exact (c.load_steady ram).game nofun
      · exact c.load_steady ram
    · exact .refl c
  case h_6 =>
    split
    · exact c.finish_steady.game nofun
    · exact (c.sendState_idle ram).steady
  case h_7 =>
    split
    · exact (Steady.mk rfl rfl (fun ended => ended) : Steady c { c with resultsTime := now }).game nofun
    · exact .refl c
  case h_8 =>
    split
    · exact { c.queue_steady _ with }
    · exact .refl c
  case h_9 => exact .refl c

end Client

namespace Console

/-- The client inside the console is the client of before. -/
theorem accept_client (k : Console) (t : UInt64) (p : Packet) (v : Picture) :
    (k.accept t p v).client = k.client.accept t p v := by
  unfold accept
  split <;> rfl

theorem receive_client (k : Console) (t : UInt64) (p : Packet) : (k.receive t p).client = k.client.receive t p := by
  unfold receive Client.receive
  split
  · rfl
  split
  · cases k.client.id <;> rfl
  split
  · rfl
  split
  · rfl
  split
  · rfl
  split
  · dsimp only
    split <;> rfl
  · unfold receiveSnapshot Client.receiveSnapshot
    cases readPicture p with
    | none => rfl
    | some v =>
      dsimp only
      split
      · exact k.accept_client t p v
      · rfl

theorem hear_client (k : Console) (t : UInt64) (data : List UInt8) : (k.hear t data).client = k.client.hear t data := by
  unfold hear Client.hear
  split
  · cases decode data with
    | none => rfl
    | some p => exact k.receive_client t p
  · rfl

theorem pulse_client (k : Console) (t : UInt64) : (k.pulse t).client = k.client.pulse t := by
  unfold pulse Client.pulse
  exact apply_ite Console.client _ _ _

theorem tick_client (k : Console) (incoming : List (UInt64 × List UInt8)) (t : UInt64) :
    (k.tick incoming t).client = k.client.tick incoming t := by
  have heard (l : List (UInt64 × List UInt8)) (k : Console) :
      (l.foldl (fun k d => k.hear d.1 d.2) k).client = l.foldl (fun c d => c.hear d.1 d.2) k.client := by
    induction l generalizing k with
    | nil => rfl
    | cons d rest ih =>
      rw [List.foldl_cons, List.foldl_cons, ih, hear_client]
  unfold tick Client.tick
  split
  · rfl
  · simp only [← heard]
    split
    · rfl
    · exact pulse_client _ t

/-- The cells written and saved by patches below the title tiles: undoing them
gives the cartridge of before. -/
structure Patches (k k' : Console) : Prop where
  client : k'.client = k.client
  attached : k'.attached = k.attached
  title : k'.titleOriginals = k.titleOriginals
  undone : writeAll k'.rom k'.originals.cells = writeAll k.rom k.originals.cells
  low : ∀ a ∈ k'.originals.keys, a ∈ k.originals.keys ∨ a < 0x20000

theorem Patches.refl (k : Console) : Patches k k := ⟨rfl, rfl, rfl, rfl, fun _ member => .inl member⟩

theorem Patches.trans {k k' k'' : Console} (first : Patches k k') (second : Patches k' k'') : Patches k k'' where
  client := second.client.trans first.client
  attached := second.attached.trans first.attached
  title := second.title.trans first.title
  undone := second.undone.trans first.undone
  low a member := by
    rcases second.low a member with earlier | low
    · exact first.low a earlier
    · exact .inr low

theorem patchCell_patches (k : Console) {address : UInt32} (value : UInt8) (low : address < 0x20000) :
    Patches k (k.patchCell address value) := by
  refine ⟨rfl, rfl, rfl, k.originals.writeAll_save k.rom address value, fun a member => ?_⟩
  rcases Undo.mem_save_keys member with old | rfl
  · exact .inl old
  · exact .inr low

theorem patch_patches (k : Console) (address : UInt32) (values : List UInt8)
    (fits : address.toNat + values.length ≤ 0x20000) : Patches k (k.patch address values) := by
  induction values generalizing k address with
  | nil => exact .refl k
  | cons value values ih =>
    rw [List.length_cons] at fits
    have low : address < 0x20000 := UInt32.lt_iff_toNat_lt.mpr (by
      change address.toNat < 0x20000
      omega)
    have next : (address + 1).toNat = address.toNat + 1 := by
      rw [UInt32.toNat_add]
      change (address.toNat + 1) % 2 ^ 32 = address.toNat + 1
      omega
    exact (k.patchCell_patches value low).trans (ih _ _ (by omega))

theorem prepareRace_patches (k : Console) (i : Fin 4) : Patches k (k.prepareRace i) := by
  have sites (l : List UInt32) (low : ∀ a ∈ l, a.toNat + 3 ≤ 0x20000) (k : Console) :
      Patches k (l.foldl (fun k address => k.patch address [0xea, 0xea, 0xea]) k) := by
    induction l generalizing k with
    | nil => exact .refl k
    | cons a rest ih =>
      have first := k.patch_patches a [0xea, 0xea, 0xea] (low a (List.mem_cons_self ..))
      exact first.trans (ih (fun b member => low b (List.mem_cons_of_mem _ member)) _)
  unfold prepareRace
  dsimp only
  refine .trans ?_ (patch_patches _ 0x1851f _ (by decide))
  refine .trans ?_ (patch_patches _ 0x4d84 _ (by decide))
  refine .trans ?_ (patch_patches _ 0x48ff _ (by decide))
  refine .trans ?_ (patch_patches _ 0xd3f _ (by decide))
  refine .trans ?_ (sites raceSites (by simp [raceSites]) _)
  -- The selector does not matter, only that it is one byte.
  have two (a b : UInt8) : [a, b].length = 2 := rfl
  refine .trans ?_ (patch_patches _ 0x572b _ (by rw [two]; decide))
  refine .trans ?_ (patch_patches _ 0x52ef _ (by rw [two]; decide))
  refine .trans ?_ (patch_patches _ 0x532b _ (by decide))
  exact k.patch_patches 0x5486 _ (by decide)

theorem patchFrame_patches (k : Console) (ram : UInt32 → UInt8) (due : Bool) : Patches k (k.patchFrame ram due) := by
  unfold patchFrame
  split
  case h_1 => exact (k.patch_patches 0x18176 _ (by decide)).trans (patch_patches _ 0x18143 _ (by decide))
  case h_2 =>
    split
    · exact k.patch_patches 0x1851f _ (by decide)
    · exact .refl k
  case h_3 =>
    split
    next i _ =>
      split
      · exact k.prepareRace_patches i
      · exact .refl k
    next => exact .refl k
  case h_4 => exact (k.patch_patches 0x18795 _ (by decide)).trans (patch_patches _ 0x187fe _ (by decide))
  case h_5 =>
    have blocked := k.patch_patches 0xab1 [0xea, 0xea, 0xea, 0xea, 0xea, 0xea] (by decide)
    dsimp only
    split
    · exact blocked.trans (patch_patches _ 0xab1 _ (by decide))
    · exact blocked
  case h_6 => exact .refl k

/-- The tiles of the menu line that `patchTitleMenu` redraws. -/
def TitleTile (a : UInt32) : Prop := 0x67800 ≤ a ∧ a < 0x678a0 ∨ 0x67a00 ≤ a ∧ a < 0x67aa0

instance (a : UInt32) : Decidable (TitleTile a) := inferInstanceAs (Decidable (_ ∨ _))

theorem titleMenu_tiles : ∀ a ∈ titleMenu.map Prod.fst, TitleTile a := by
  have all : ((titleMenu.map Prod.fst).all fun a => decide (TitleTile a)) = true := by decide +kernel
  exact fun a member => of_decide_eq_true (List.all_eq_true.mp all a member)

/-- Two rows of five tiles, 32 cells each. -/
theorem titleMenu_cells : (titleMenu.map Prod.fst).map UInt32.toNat =
    (List.range 5).flatMap fun x => List.range' (0x67800 + x * 32) 32 ++ List.range' (0x67a00 + x * 32) 32 := by
  decide +kernel

theorem titleMenu_distinct : (titleMenu.map Prod.fst).Nodup := by
  apply List.Nodup.of_map UInt32.toNat
  rw [titleMenu_cells, List.nodup_flatMap]
  constructor
  · intro x within
    rw [List.mem_range] at within
    refine List.nodup_append.mpr ⟨List.nodup_range', List.nodup_range', fun a upper b lower => ?_⟩
    rw [List.mem_range'_1] at upper lower
    omega
  · refine List.pairwise_lt_range.imp_of_mem fun inX inY less a first second => ?_
    simp only [List.mem_range, List.mem_append, List.mem_range'_1] at inX inY first second
    omega

/-- Title cells, none of them saved before. -/
theorem foldl_patchTitleCell (k : Console) (cells : List (UInt32 × UInt8)) (distinct : (cells.map Prod.fst).Nodup)
    (unsaved : ∀ a ∈ cells.map Prod.fst, a ∉ k.titleOriginals.keys)
    (unpatched : ∀ a ∈ cells.map Prod.fst, a ∉ k.originals.keys) :
    let k' := cells.foldl patchTitleCell k
    k'.client = k.client ∧ k'.attached = k.attached ∧ k'.originals = k.originals ∧
      k'.titleOriginals.keys = k.titleOriginals.keys ++ cells.map Prod.fst ∧
      writeAll (writeAll k'.rom k'.originals.cells) k'.titleOriginals.cells =
        writeAll (writeAll k.rom k.originals.cells) k.titleOriginals.cells := by
  induction cells generalizing k with
  | nil => exact ⟨rfl, rfl, rfl, (List.append_nil _).symm, rfl⟩
  | cons cell rest ih =>
    rw [List.map_cons, List.nodup_cons] at distinct
    have fresh := unsaved cell.1 (List.mem_cons_self ..)
    have clear := unpatched cell.1 (List.mem_cons_self ..)
    have keys : (k.patchTitleCell cell).titleOriginals.keys = k.titleOriginals.keys ++ [cell.1] :=
      Undo.assign_keys _ fresh
    -- The cell is saved as the cartridge without its patches has it.
    have undone : writeAll (writeAll (k.patchTitleCell cell).rom k.originals.cells)
        (k.patchTitleCell cell).titleOriginals.cells =
          writeAll (writeAll k.rom k.originals.cells) k.titleOriginals.cells := by
      have held : writeAll k.rom k.originals.cells cell.1 = k.rom cell.1 := writeAll_of_not_mem clear
      simp only [patchTitleCell]
      rw [writeAll_update_of_not_mem _ clear, ← held]
      exact Undo.writeAll_assign cell.2 fresh
    obtain ⟨client, attached, originals, keys', undone'⟩ := ih (k.patchTitleCell cell) distinct.2
      (fun a member => by
        rw [keys, List.mem_append, List.mem_singleton, not_or]
        refine ⟨unsaved a (List.mem_cons_of_mem _ member), ?_⟩
        rintro rfl
        exact distinct.1 member)
      (fun a member => unpatched a (List.mem_cons_of_mem _ member))
    refine ⟨client, attached, originals, ?_, undone'.trans undone⟩
    rw [List.foldl_cons, keys', keys, List.append_assoc]
    rfl

/-- The two undo maps lead back to the cartridge that was attached, and they
are empty when there is nothing to undo. -/
structure Restorable (k : Console) : Prop where
  undone : writeAll (writeAll k.rom k.originals.cells) k.titleOriginals.cells = k.attached
  low : ∀ a ∈ k.originals.keys, a < 0x20000
  title : ∀ a ∈ k.titleOriginals.keys, TitleTile a
  bare : k.client.memory = false ∨ k.client.game = .disconnected →
    k.originals.cells = [] ∧ k.titleOriginals.cells = []
  ended : k.client.game = .disconnected → k.client.socket = false

theorem Restorable.of_steady {k : Console} (restorable : Restorable k) {c : Client}
    (steady : Client.Steady k.client c) : Restorable { k with client := c } where
  undone := restorable.undone
  low := restorable.low
  title := restorable.title
  bare idle := by
    refine restorable.bare (idle.imp ?_ steady.playing)
    intro detached
    exact steady.memory.symm.trans detached
  ended played := steady.socket.trans (restorable.ended (steady.playing played))

theorem Restorable.patches {k k' : Console} (restorable : Restorable k) (patches : Patches k k')
    (running : ¬ (k.client.memory = false ∨ k.client.game = .disconnected)) : Restorable k' where
  undone := by
    rw [patches.undone, patches.title, patches.attached]
    exact restorable.undone
  low a member := by
    rcases patches.low a member with old | low
    · exact restorable.low a old
    · exact low
  title := by
    rw [patches.title]
    exact restorable.title
  bare idle := by
    rw [patches.client] at idle
    exact absurd idle running
  ended played := by
    rw [patches.client] at played
    exact absurd (.inr played) running

theorem Restorable.restore_rom {k : Console} (restorable : Restorable k) :
    k.restore.rom = writeAll k.rom k.originals.cells := by
  simp only [restore]
  split
  · rfl
  next detached =>
    rw [(restorable.bare (.inl (by simpa using detached))).1]
    rfl

theorem Restorable.restore {k : Console} (restorable : Restorable k) : Restorable k.restore where
  undone := by
    rw [restorable.restore_rom]
    exact restorable.undone
  low := nofun
  title := restorable.title
  bare idle := ⟨rfl, (restorable.bare idle).2⟩
  ended := restorable.ended

/-- Both maps written back, the cartridge is the attached one. -/
theorem Restorable.mended {k : Console} (restorable : Restorable k) :
    k.restore.restoreTitle.rom = k.attached := by
  have undone := restorable.undone
  rw [← restorable.restore_rom] at undone
  simp only [restoreTitle]
  split
  · exact undone
  next detached =>
    have empty := (restorable.bare (.inl (by simpa [Console.restore] using detached))).2
    rw [empty] at undone
    exact undone

/-- Nothing is patched. -/
theorem Restorable.of_blank {k : Console} (originals : k.originals = .empty) (title : k.titleOriginals = .empty)
    (rom : k.rom = k.attached) (ended : k.client.game = .disconnected → k.client.socket = false) :
    Restorable k where
  undone := by
    rw [originals, title, rom]
    rfl
  low := by
    rw [originals]
    exact nofun
  title := by
    rw [title]
    exact nofun
  bare _ := by
    rw [originals, title]
    exact ⟨rfl, rfl⟩
  ended := ended

theorem Restorable.failure {k : Console} (restorable : Restorable k) : Restorable k.failure :=
  .of_blank rfl rfl restorable.mended fun _ => rfl

theorem Restorable.detach {k : Console} (restorable : Restorable k) : Restorable k.detach :=
  .of_blank rfl rfl restorable.mended nofun

theorem Restorable.resetGame {k : Console} (restorable : Restorable k) : Restorable k.resetGame := by
  have restored := restorable.restore
  refine ⟨restored.undone, restored.low, restored.title, fun idle => restored.bare ?_, nofun⟩
  exact .inl (idle.resolve_right nofun)

/-- Without the patches only the title differs from the attached cartridge. -/
theorem Restorable.resetGame_rom {k : Console} (restorable : Restorable k) {a : UInt32} (other : ¬ TitleTile a) :
    k.resetGame.rom a = k.attached a := by
  change k.restore.rom a = k.attached a
  rw [restorable.restore_rom, ← restorable.undone]
  exact (writeAll_of_not_mem (fun member => other (restorable.title a member))).symm

/-- No patch lies in the title. -/
theorem Restorable.apart {k : Console} (restorable : Restorable k) {a : UInt32} (tile : TitleTile a) :
    a ∉ k.originals.keys := by
  intro member
  have low : a.toNat < 0x20000 := UInt32.lt_iff_toNat_lt.mp (restorable.low a member)
  rcases tile with ⟨above, _⟩ | ⟨above, _⟩
  · have high : 0x67800 ≤ a.toNat := UInt32.le_iff_toNat_le.mp above
    omega
  · have high : 0x67a00 ≤ a.toNat := UInt32.le_iff_toNat_le.mp above
    omega

theorem Restorable.patchTitleMenu {k : Console} (restorable : Restorable k)
    (playing : k.client.game ≠ .disconnected) : Restorable k.patchTitleMenu := by
  unfold Console.patchTitleMenu
  split
  · exact restorable
  next ready =>
    simp only [not_or, ne_eq, not_not, Bool.not_eq_false] at ready
    obtain ⟨attached, empty⟩ := ready
    have unsaved : k.titleOriginals.keys = [] := by
      rw [Undo.keys, empty]
      rfl
    obtain ⟨client, same, originals, keys, undone⟩ := k.foldl_patchTitleCell titleMenu titleMenu_distinct
      (fun a _ => by rw [unsaved]; exact List.not_mem_nil) fun a member => restorable.apart (titleMenu_tiles a member)
    rw [unsaved, List.nil_append] at keys
    constructor
    case undone => rw [undone, same, restorable.undone]
    case low =>
      rw [originals]
      exact restorable.low
    case title =>
      rw [keys]
      exact titleMenu_tiles
    case bare =>
      rw [client, attached]
      exact fun idle => absurd idle (by simpa using playing)
    case ended =>
      rw [client]
      exact fun played => absurd played playing

theorem attach_restorable (k : Console) (cartridge : Option Rom) (random : Option UInt64) (now : UInt64) :
    Restorable (k.attach cartridge random now) := by
  have fresh : (k.insert cartridge).client.game = .init := rfl
  have playing : (k.insert cartridge).client.game ≠ .disconnected := by
    rw [fresh]
    exact nofun
  have ready : Restorable (k.insert cartridge) := .of_blank rfl rfl rfl fun played => absurd played playing
  cases random with
  | none => exact ready.failure
  | some random =>
    simp only [Console.attach]
    split
    · exact ready.failure
    · have connected : Restorable ((k.insert cartridge).lift fun c => connect c random now) :=
        .of_blank rfl rfl rfl fun played => absurd played playing
      exact (connected.patchTitleMenu playing).resetGame

theorem resetGame_client (k : Console) : k.resetGame.client = k.client.resetGame := rfl

theorem resetGame_attached (k : Console) : k.resetGame.attached = k.attached := rfl

theorem patchTitleMenu_frame (k : Console) :
    k.patchTitleMenu.client = k.client ∧ k.patchTitleMenu.attached = k.attached := by
  have cells (l : List (UInt32 × UInt8)) (k : Console) :
      (l.foldl patchTitleCell k).client = k.client ∧ (l.foldl patchTitleCell k).attached = k.attached := by
    induction l generalizing k with
    | nil => exact ⟨rfl, rfl⟩
    | cons cell rest ih => exact ih (k.patchTitleCell cell)
  unfold patchTitleMenu
  split
  · exact ⟨rfl, rfl⟩
  · exact cells titleMenu k

theorem attach_attached (k : Console) (cartridge : Option Rom) (random : Option UInt64) (now : UInt64) :
    (k.attach cartridge random now).attached = cartridge.getD k.detach.rom := by
  cases random with
  | none => rfl
  | some random =>
    simp only [Console.attach]
    split
    · rfl
    · rw [resetGame_attached, (patchTitleMenu_frame _).2]
      rfl

/-- A new connection has patched the title at most. -/
theorem attach_rom (k : Console) (cartridge : Option Rom) (random : Option UInt64) (now : UInt64) {a : UInt32}
    (other : ¬ TitleTile a) :
    (k.attach cartridge random now).rom a = (k.attach cartridge random now).attached a := by
  have attached := k.attach_restorable cartridge random now
  have saved : (k.attach cartridge random now).originals.cells = [] := by
    cases random with
    | none => rfl
    | some random =>
      simp only [Console.attach]
      split <;> rfl
  rw [← attached.undone, saved]
  exact (writeAll_of_not_mem fun member => other (attached.title a member)).symm

theorem Restorable.accept {k : Console} (restorable : Restorable k) (t : UInt64) (p : Packet) (v : Picture) :
    Restorable (k.accept t p v) := by
  unfold Console.accept
  split
  · exact restorable.restore.of_steady (k.client.accept_steady t p v)
  · exact restorable.of_steady (k.client.accept_steady t p v)

theorem Restorable.receive {k : Console} (restorable : Restorable k) (t : UInt64) (p : Packet) :
    Restorable (k.receive t p) := by
  unfold Console.receive
  split
  · exact restorable.failure
  split
  · split
    · exact restorable
    · exact restorable.of_steady ⟨rfl, rfl, fun played => played⟩
  split
  · exact restorable
  split
  · exact restorable.failure
  split
  · exact restorable.of_steady { k.client.send_steady _ with }
  split
  · dsimp only
    split
    · exact restorable
    · exact restorable.of_steady ⟨rfl, rfl, fun played => played⟩
  · unfold receiveSnapshot
    split
    · exact restorable
    next v _ =>
      split
      · exact restorable.accept t p v
      · exact restorable.of_steady ⟨rfl, rfl, fun played => played⟩

theorem Restorable.hear {k : Console} (restorable : Restorable k) (t : UInt64) (data : List UInt8) :
    Restorable (k.hear t data) := by
  unfold Console.hear
  split
  · split
    next p _ => exact restorable.receive t p
    next => exact restorable
  · exact restorable

theorem Restorable.pulse {k : Console} (restorable : Restorable k) (t : UInt64) : Restorable (k.pulse t) := by
  have served := restorable.of_steady (k.client.serve_steady t)
  unfold Console.pulse
  exact iteInduction (fun _ => served.failure) fun _ => served

theorem Restorable.frame {k : Console} (restorable : Restorable k) (ram : UInt32 → UInt8) (due : Bool)
    (now : UInt64) : Restorable (k.frame ram due now) := by
  unfold Console.frame
  split
  · exact restorable
  next running =>
    split
    · exact restorable.of_steady (k.client.frame_steady ram due now)
    · have patched := restorable.patches (k.patchFrame_patches ram due) running
      exact patched.of_steady (Client.frame_steady _ ram due now)

theorem Restorable.step {k : Console} (restorable : Restorable k) (e : Event) : Restorable (k.step e) := by
  cases e with
  | configure config => exact restorable.of_steady ⟨rfl, rfl, fun played => played⟩
  | attach cartridge random now => exact k.attach_restorable cartridge random now
  | request command data => exact restorable.of_steady (k.client.request_idle command data).steady
  | hear t data => exact restorable.hear t data
  | pulse t =>
    simp only [Console.step]
    split
    · exact restorable
    · exact restorable.pulse t
  | frame ram due now => exact restorable.frame ram due now
  | failure => exact restorable.failure
  | detach => exact restorable.detach

theorem reachable_restorable {k : Console} (reach : system.Reachable k) : Restorable k := by
  refine reach.invariant ?_ fun _ e _ _ _ restorable => restorable.step e
  rintro k ⟨config, rom, rfl⟩
  exact .of_blank rfl rfl rfl nofun

/-- A tick is a sequence of datagrams and a pulse. -/
theorem tick_reachable {k : Console} (reach : system.Reachable k) (incoming : List (UInt64 × List UInt8))
    (t : UInt64) : system.Reachable (k.tick incoming t) := by
  have heard (l : List (UInt64 × List UInt8)) {k : Console} (reach : system.Reachable k) :
      system.Reachable (l.foldl (fun k d => k.hear d.1 d.2) k) := by
    induction l generalizing k with
    | nil => exact reach
    | cons d rest ih =>
      have next : system.Reachable (k.step (.hear d.1 d.2)) := reach.next (Event.hear d.1 d.2) trivial trivial
      exact ih next
  unfold tick
  split
  · exact reach
  · have pulsed := (heard (incoming.take 128) reach).next (.pulse t) trivial trivial
    exact pulsed

/-- The client alone takes every step as it does with a cartridge. -/
theorem step_client (k : Console) (e : Event) : (k.step e).client = e.follow k.client := by
  cases e with
  | configure config => rfl
  | attach cartridge random now =>
    cases random with
    | none => rfl
    | some random =>
      simp only [step, attach, Event.follow, Client.step, Client.attach]
      split
      next long => exact (if_pos long).symm
      next short =>
        refine Eq.trans ?_ (if_neg short).symm
        rw [resetGame_client, (patchTitleMenu_frame _).1]
        rfl
  | request command data => rfl
  | hear t data => exact k.hear_client t data
  | pulse t =>
    simp only [step, Event.follow, Client.step]
    split
    · rfl
    · exact k.pulse_client t
  | frame ram due now =>
    simp only [step, frame, Event.follow, Client.step]
    split
    next idle => exact (if_pos idle).symm
    split
    · rfl
    · change Client.frame (k.patchFrame ram due).client ram due now = _
      rw [(k.patchFrame_patches ram due).client]
  | failure => rfl
  | detach => rfl

/-- In every run, at every moment: both undo maps written back, in either
order, give the cartridge as it was attached; a failure and a detach do write
them back, a reset leaves no difference outside the title, and a disconnected
game is left alone by frames and ticks. -/
theorem cartridge_restored {k : Console} (reach : system.Reachable k) :
    writeAll (writeAll k.rom k.originals.cells) k.titleOriginals.cells = k.attached ∧
    writeAll (writeAll k.rom k.titleOriginals.cells) k.originals.cells = k.attached ∧
    k.failure.rom = k.attached ∧ k.detach.rom = k.attached ∧
    (∀ a, ¬ TitleTile a → k.resetGame.rom a = k.attached a) ∧
    (∀ cartridge random now a, ¬ TitleTile a →
      (k.attach cartridge random now).rom a = (k.attach cartridge random now).attached a) ∧
    (∀ random now, (k.attach none random now).attached = k.attached) ∧
    (k.client.game = .disconnected → k.rom = k.attached ∧
      (∀ ram due now, k.frame ram due now = k) ∧ ∀ incoming t, k.tick incoming t = k) := by
  have restorable := reachable_restorable reach
  have either : writeAll (writeAll k.rom k.titleOriginals.cells) k.originals.cells = k.attached := by
    rw [← restorable.undone]
    exact writeAll_comm fun a tile member => restorable.apart (restorable.title a tile) member
  refine ⟨restorable.undone, either, restorable.mended, restorable.mended, fun a => restorable.resetGame_rom, ?_, ?_, ?_⟩
  · intro cartridge random now a other
    exact k.attach_rom cartridge random now other
  · intro random now
    rw [attach_attached]
    exact restorable.mended
  · intro played
    obtain ⟨originals, title⟩ := restorable.bare (.inr played)
    refine ⟨?_, fun ram due now => if_pos (.inr played), fun incoming t => if_pos (.inr played)⟩
    have undone := restorable.undone
    rw [originals, title] at undone
    exact undone

/-- A blank cartridge, attached and patched by the first frame. -/
def samplePatched : Console :=
  [.attach none (some 9) 1000000, .frame (fun _ => 0) false 1000000].foldl step
    { client := {}, rom := fun _ => 0x42, attached := fun _ => 0x42 }

theorem samplePatched_reachable : system.Reachable samplePatched := by
  have fresh : system.Reachable { client := {}, rom := fun _ => 0x42, attached := fun _ => 0x42 } :=
    .start ⟨{}, _, rfl⟩
  exact fresh.run ⟨trivial, trivial, trivial, trivial, trivial⟩

theorem samplePatched_restored : samplePatched.rom 0x18176 = 0xea ∧ samplePatched.rom 0x67800 = 0xff ∧
    samplePatched.failure.rom = samplePatched.attached ∧ samplePatched.attached 0x18176 = 0x42 := by
  obtain ⟨_, _, failed, _⟩ := cartridge_restored samplePatched_reachable
  exact ⟨by decide +kernel, by decide +kernel, failed, by decide +kernel⟩

end Console

end FzeroVs
