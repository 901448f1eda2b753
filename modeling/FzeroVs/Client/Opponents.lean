import FzeroVs.Client.Interpolation
import FzeroVs.Client.Marks

namespace FzeroVs

/-- The emulated memory as `memory.ram` reads it. -/
abbrev Ram := UInt32 → UInt8

/-- Row `id` of the table `slots`: the player behind each machine on the screen
of player `id`, his own first. -/
def slots (id slot : Fin 4) : Fin 4 :=
  ([[0, 3, 2, 1], [1, 3, 2, 0], [2, 3, 1, 0], [3, 2, 1, 0]].getD id.val []).getD slot.val 0

def palettes (id slot : Fin 4) : UInt8 :=
  ([[14, 12, 10, 8], [8, 12, 10, 14], [10, 12, 8, 14], [12, 10, 8, 14]].getD id.val []).getD slot.val 0

namespace Ram

def write (ram : Ram) (address : UInt32) (value : UInt8) : Ram := Function.update ram address value

def putWord (ram : Ram) (address : UInt32) (value : UInt16) : Ram :=
  (ram.write address value.toUInt8).write (address + 1) (value >>> 8).toUInt8

end Ram

/-- `base+slot*2`. -/
def cell (base : UInt32) (slot : Fin 4) : UInt32 := base + UInt32.ofNat slot.val * 2

namespace Client

/-- A machine is shown from its report on the grid to its finish. -/
def visible (p : Peer) : Bool := p.status == .loaded || p.status == .racing

/-- The loop of `opponents` for one machine. -/
def opponent (c : Client) (id : Fin 4) (rendered : Fin 4 → Peer) (ram : Ram) (slot : Fin 4) : Ram :=
  let shown := visible (c.peers (slots id slot))
  let position := rendered (slots id slot)
  let ram := ram.putWord (cell 0xb70 slot) (if shown then position.x else 0)
  let ram := ram.putWord (cell 0xb90 slot) (if shown then position.y else 0)
  ram.write (cell 0xbd1 slot) (if shown then position.orientation else 0)

/-- `none` stands for a table read at a negative index. -/
def opponents (c : Client) (delay serverTime : UInt64) (ram : Ram) : Option Ram := do
  let id ← c.id
  let rendered ← renderedPeers c.peers c.snapshotBuffer delay serverTime
  let ram := [(1 : Fin 4), 2, 3].foldl (c.opponent id rendered) ram
  return (ram.putWord 0xb78 0).putWord 0xb98 0

/-- What `prepareRace` writes into the memory. -/
def prepareRam (c : Client) (ram : Ram) : Option Ram := do
  let id ← c.id
  return [(0 : Fin 4), 1, 2, 3].foldl (fun ram slot =>
    let ram := if slot ≠ 0 then ram.write (cell 0x1131 slot) (c.peers (slots id slot)).car else ram
    ram.write (cell 0xc41 slot) (palettes id slot)) ram

/-- The two sprites of the title that are left over from the original entry. -/
def hideTitle (ram : Ram) : Ram :=
  if ram 0x54 = 0 ∧ ram 0x55 = 1 ∧ ram 0x56 = 0 then (ram.write 0x26d 0xf0).write 0x271 0xf0 else ram

/-- What `frame` writes into the memory, state by state of the automaton. -/
def frameRam (c : Client) (ram : Ram) (due : Bool) (delay serverTime : UInt64) : Option Ram :=
  if c.memory = false ∨ c.game = .disconnected then some ram
  else
    let ram := hideTitle ram
    if c.config.baseline then some ram
    else
      match c.game with
      | .waiting => if c.id ≠ none ∧ c.phase = .loading then c.prepareRam ram else some ram
      | .prepare => some ((ram.write 0x53 c.track).write 0x5a c.league)
      | .location =>
        if ram 0x54 = 2 ∧ ram 0x55 = 0 ∧ ram 0x56 = 2 then
          let ram' := ram.write 0x53 0
          if (c.load ram).released due then c.opponents delay serverTime ram' else some ram'
        else some ram
      | .race => if ram 0x54 = 3 then some ram else c.opponents delay serverTime ram
      | .finished => c.opponents delay serverTime ram
      | _ => some ram

/-- Where `opponents` writes. -/
def drawnCells : List UInt32 :=
  [0xb72, 0xb73, 0xb74, 0xb75, 0xb76, 0xb77, 0xb78, 0xb79, 0xb92, 0xb93, 0xb94, 0xb95, 0xb96, 0xb97, 0xb98, 0xb99,
    0xbd3, 0xbd5, 0xbd7]

def preparedCells : List UInt32 := [0x1133, 0x1135, 0x1137, 0xc41, 0xc43, 0xc45, 0xc47]

/-- Where `frame` writes at all. -/
def frameCells : List UInt32 := [0x26d, 0x271, 0x53, 0x5a] ++ drawnCells ++ preparedCells

theorem write_self (ram : Ram) (a : UInt32) (v : UInt8) : ram.write a v a = v := Function.update_self ..

theorem write_ne {a b : UInt32} (other : b ≠ a) (ram : Ram) (v : UInt8) : ram.write a v b = ram b :=
  Function.update_of_ne other ..

/-- Every machine but the own one stands for another player. -/
theorem slots_self (id : Fin 4) : slots id 0 = id := by revert id; decide

theorem slots_bijective (id : Fin 4) : Function.Bijective (slots id) := by revert id; decide

theorem putWord_ne {a b : UInt32} (low : b ≠ a) (high : b ≠ a + 1) (ram : Ram) (v : UInt16) :
    ram.putWord a v b = ram b := by
  rw [Ram.putWord, write_ne high, write_ne low]

theorem word_putWord (ram : Ram) (a : UInt32) (v : UInt16) : word (ram.putWord a v) a = v := by
  have other : a ≠ a + 1 := by simp
  simp only [word, Ram.putWord]
  rw [write_self, write_ne other, write_self]
  exact u16_put16_self v

theorem word_congr {ram after : Ram} {a : UInt32} (low : after a = ram a) (high : after (a + 1) = ram (a + 1)) :
    word after a = word ram a := by rw [word, word, low, high]

/-- A loop whose turns each write at places of their own does what every turn
does, and nothing else. -/
theorem foldl_apart (turn : Ram → Fin 4 → Ram) (cells : Fin 4 → List UInt32) (P : Ram → Fin 4 → Prop)
    (frame : ∀ ram slot, ∀ a ∉ cells slot, turn ram slot a = ram a) (done : ∀ ram slot, P (turn ram slot) slot)
    (congr : ∀ ram after slot, P ram slot → (∀ a ∈ cells slot, after a = ram a) → P after slot)
    (apart : ∀ slot other, other ≠ slot → ∀ a ∈ cells slot, a ∉ cells other) {l : List (Fin 4)} (distinct : l.Nodup)
    (ram : Ram) :
    (∀ slot ∈ l, P (l.foldl turn ram) slot) ∧ ∀ a, (∀ slot ∈ l, a ∉ cells slot) → l.foldl turn ram a = ram a := by
  induction l generalizing ram with
  | nil => exact ⟨List.forall_mem_nil _, fun _ _ => rfl⟩
  | cons first rest ih =>
    obtain ⟨alone, distinct⟩ := List.nodup_cons.mp distinct
    obtain ⟨all, unchanged⟩ := ih distinct (turn ram first)
    rw [List.foldl_cons]
    refine ⟨List.forall_mem_cons.mpr ⟨?_, all⟩, fun a outside => ?_⟩
    · refine congr _ _ first (done ram first) fun a own => unchanged a fun other member => ?_
      have different : other ≠ first := fun same : other = first => alone (same ▸ member)
      exact apart first other different a own
    · obtain ⟨here, later⟩ := List.forall_mem_cons.mp outside
      rw [unchanged a later, frame ram first a here]

/-- Where `opponents` writes for one machine. -/
def machineCells (slot : Fin 4) : List UInt32 :=
  [cell 0xb70 slot, cell 0xb70 slot + 1, cell 0xb90 slot, cell 0xb90 slot + 1, cell 0xbd1 slot]

theorem machineCells_nodup (slot : Fin 4) : (machineCells slot).Nodup := by revert slot; decide

/-- A fact about some cells is checked one by one. -/
theorem of_cells {l : List UInt32} {P : UInt32 → Prop} [DecidablePred P] (checked : (l.all fun a => P a) = true) :
    ∀ a ∈ l, P a := by
  simpa using checked

theorem machineCells_apart {slot other : Fin 4} (different : other ≠ slot) :
    ∀ a ∈ machineCells slot, a ∉ machineCells other := by
  have checked : ∀ slot other : Fin 4, other ≠ slot →
      ((machineCells slot).all fun a => a ∉ machineCells other) = true := by
    decide
  exact of_cells (checked slot other different)

/-- What the game reads of a machine. -/
structure Placed (ram : Ram) (slot : Fin 4) (x y : UInt16) (orientation : UInt8) : Prop where
  x : word ram (cell 0xb70 slot) = x
  y : word ram (cell 0xb90 slot) = y
  orientation : ram (cell 0xbd1 slot) = orientation

theorem Placed.congr {ram after : Ram} {slot : Fin 4} {x y : UInt16} {orientation : UInt8}
    (placed : Placed ram slot x y orientation) (same : ∀ a ∈ machineCells slot, after a = ram a) :
    Placed after slot x y orientation where
  x := (word_congr (same _ (by simp [machineCells])) (same _ (by simp [machineCells]))).trans placed.x
  y := (word_congr (same _ (by simp [machineCells])) (same _ (by simp [machineCells]))).trans placed.y
  orientation := (same _ (by simp [machineCells])).trans placed.orientation

/-- A machine that takes part is where its player has been rendered, any other
one is off the track. -/
def Drawn (c : Client) (id : Fin 4) (rendered : Fin 4 → Peer) (ram : Ram) (slot : Fin 4) : Prop :=
  if visible (c.peers (slots id slot)) then
    Placed ram slot (rendered (slots id slot)).x (rendered (slots id slot)).y (rendered (slots id slot)).orientation
  else Placed ram slot 0 0 0

theorem opponent_frame (c : Client) (id : Fin 4) (rendered : Fin 4 → Peer) (ram : Ram) {slot : Fin 4} {a : UInt32}
    (outside : a ∉ machineCells slot) : c.opponent id rendered ram slot a = ram a := by
  simp only [machineCells, List.mem_cons, List.not_mem_nil, or_false, not_or] at outside
  obtain ⟨x, x', y, y', orientation⟩ := outside
  rw [opponent, write_ne orientation, putWord_ne y y', putWord_ne x x']

theorem opponent_drawn (c : Client) (id : Fin 4) (rendered : Fin 4 → Peer) (ram : Ram) (slot : Fin 4) :
    c.Drawn id rendered (c.opponent id rendered ram slot) slot := by
  have distinct := machineCells_nodup slot
  simp only [machineCells, List.nodup_cons, List.mem_cons, List.not_mem_nil, or_false, not_or] at distinct
  obtain ⟨⟨_, x_y, x_y', x_o⟩, ⟨x'_y, x'_y', x'_o⟩, ⟨_, y_o⟩, y'_o, _⟩ := distinct
  have placed (x y : UInt16) (orientation : UInt8) :
      Placed (((ram.putWord (cell 0xb70 slot) x).putWord (cell 0xb90 slot) y).write (cell 0xbd1 slot) orientation) slot
        x y orientation := by
    constructor
    case x =>
      refine Eq.trans (word_congr ?_ ?_) (word_putWord ram _ x)
      · rw [write_ne x_o, putWord_ne x_y x_y']
      · rw [write_ne x'_o, putWord_ne x'_y x'_y']
    case y =>
      refine Eq.trans (word_congr ?_ ?_) (word_putWord (ram.putWord (cell 0xb70 slot) x) _ y)
      · rw [write_ne y_o]
      · rw [write_ne y'_o]
    case orientation => exact write_self ..
  unfold Drawn opponent
  by_cases shown : visible (c.peers (slots id slot)) = true
  · rw [if_pos shown]
    simpa only [shown, if_true] using placed _ _ _
  · rw [if_neg shown]
    simpa only [shown, Bool.false_eq_true, if_false] using placed 0 0 0

theorem Drawn.congr {c : Client} {id : Fin 4} {rendered : Fin 4 → Peer} {ram after : Ram} {slot : Fin 4}
    (drawn : c.Drawn id rendered ram slot) (same : ∀ a ∈ machineCells slot, after a = ram a) :
    c.Drawn id rendered after slot := by
  unfold Drawn at drawn ⊢
  by_cases shown : visible (c.peers (slots id slot)) = true
  · rw [if_pos shown] at drawn ⊢
    exact drawn.congr same
  · rw [if_neg shown] at drawn ⊢
    exact drawn.congr same

/-- The loop draws every machine that it comes to. -/
theorem opponents_loop (c : Client) (id : Fin 4) (rendered : Fin 4 → Peer) (ram : Ram) {l : List (Fin 4)}
    (distinct : l.Nodup) :
    (∀ slot ∈ l, c.Drawn id rendered (l.foldl (c.opponent id rendered) ram) slot) ∧
      ∀ a, (∀ slot ∈ l, a ∉ machineCells slot) → l.foldl (c.opponent id rendered) ram a = ram a :=
  foldl_apart (c.opponent id rendered) machineCells (c.Drawn id rendered)
    (fun ram _ _ outside => c.opponent_frame id rendered ram outside) (c.opponent_drawn id rendered)
    (fun _ _ _ drawn same => drawn.congr same) (fun _ _ => machineCells_apart) distinct ram

theorem machineCells_drawn : ∀ slot ∈ [(1 : Fin 4), 2, 3], machineCells slot ⊆ drawnCells := by decide

/-- Nothing that the client draws touches what it reports of its own machine. -/
theorem position_congr {ram after : Ram} (same : ∀ a ∉ frameCells, after a = ram a) (command : UInt8) :
    position after command = position ram command := by
  have x := word_congr (same 0xb70 (by decide)) (same 0xb71 (by decide))
  have y := word_congr (same 0xb90 (by decide)) (same 0xb91 (by decide))
  rw [position, position, x, y, same 0xbd1 (by decide)]

/-- The pictures that the client can draw from. -/
def points (peers : Fin 4 → Peer) (snapshotBuffer : List Snapshot) : List (Fin 4 → Peer) :=
  peers :: snapshotBuffer.map Snapshot.peers

theorem between_self (a : UInt16) : Between a a a := ⟨Nat.min_le_left _ _, Nat.le_max_left _ _⟩

/-- There are peers for every frame, and each of them is between two pictures. -/
theorem renderedPeers_points (peers : Fin 4 → Peer) (snapshotBuffer : List Snapshot) (delay serverTime : UInt64) :
    ∃ rendered, renderedPeers peers snapshotBuffer delay serverTime = some rendered ∧
      ∃ before ∈ points peers snapshotBuffer, ∃ after ∈ points peers snapshotBuffer, ∀ player,
        Between (before player).x (after player).x (rendered player).x ∧
        Between (before player).y (after player).y (rendered player).y := by
  have alone {rendered : Fin 4 → Peer} (member : rendered ∈ points peers snapshotBuffer) :
      ∃ before ∈ points peers snapshotBuffer, ∃ after ∈ points peers snapshotBuffer, ∀ player,
        Between (before player).x (after player).x (rendered player).x ∧
        Between (before player).y (after player).y (rendered player).y :=
    ⟨rendered, member, rendered, member, fun player => ⟨between_self _, between_self _⟩⟩
  have held {s : Snapshot} (member : s ∈ snapshotBuffer) : s.peers ∈ points peers snapshotBuffer :=
    List.mem_cons_of_mem peers (List.mem_map_of_mem member)
  cases buffer : snapshotBuffer with
  | nil => exact ⟨peers, rfl, buffer ▸ alone List.mem_cons_self⟩
  | cons front rest =>
    have time : (if delay < serverTime then elapsed serverTime delay else some 0) =
        some (renderTime delay serverTime) := by
      unfold renderTime
      by_cases later : delay < serverTime
      · rw [if_pos later, if_pos later, elapsed_of_le (UInt64.le_of_lt later)]
      · rw [if_neg later, if_neg later]
    have last : rest.getLastD front ∈ front :: rest := List.getLastD_mem_cons
    simp only [renderedPeers, time, Option.bind_some]
    rw [buffer] at alone held
    by_cases early : renderTime delay serverTime ≤ front.time
    · exact ⟨_, if_pos early, alone (held List.mem_cons_self)⟩
    rw [if_neg early]
    by_cases late : (rest.getLastD front).time ≤ renderTime delay serverTime
    · exact ⟨_, if_pos late, alone (held last)⟩
    rw [if_neg late]
    obtain ⟨rendered, found, between⟩ :=
      search_rendered (List.nil_append (front :: rest)).symm last (UInt64.not_le.mp early)
    refine ⟨rendered, found, ?_⟩
    cases between with
    | held s member same => exact same ▸ alone (held member)
    | between left right before after split path =>
      have first : before ∈ front :: rest := by
        rw [split]
        exact List.mem_append_right left List.mem_cons_self
      have second : after ∈ front :: rest := by
        rw [split]
        exact List.mem_append_right left (List.mem_cons_of_mem before List.mem_cons_self)
      exact ⟨_, held first, _, held second, fun player => ⟨path.x player, path.y player⟩⟩

/-- `opponents` ends with the rival of the single player game off the track. -/
theorem opponents_run {c : Client} {id : Fin 4} (joined : c.id = some id) (delay serverTime : UInt64) (ram : Ram) :
    ∃ rendered, renderedPeers c.peers c.snapshotBuffer delay serverTime = some rendered ∧
      c.opponents delay serverTime ram =
        some ((([(1 : Fin 4), 2, 3].foldl (c.opponent id rendered) ram).putWord 0xb78 0).putWord 0xb98 0) := by
  obtain ⟨rendered, run, _⟩ := renderedPeers_points c.peers c.snapshotBuffer delay serverTime
  refine ⟨rendered, run, ?_⟩
  rw [opponents, joined, run]
  rfl

/-- Where it is put. -/
def rivalCells : List UInt32 := [0xb78, 0xb79, 0xb98, 0xb99]

theorem rival_frame {a : UInt32} (outside : a ∉ rivalCells) (ram : Ram) :
    ((ram.putWord 0xb78 0).putWord 0xb98 0) a = ram a := by
  simp only [rivalCells, List.mem_cons, List.not_mem_nil, or_false, not_or] at outside
  obtain ⟨x, x', y, y'⟩ := outside
  rw [putWord_ne y y', putWord_ne x x']

theorem opponents_frame {c : Client} {id : Fin 4} (joined : c.id = some id) (delay serverTime : UInt64) (ram : Ram) :
    ∃ after, c.opponents delay serverTime ram = some after ∧ ∀ a ∉ drawnCells, after a = ram a := by
  obtain ⟨rendered, _, run⟩ := opponents_run joined delay serverTime ram
  have distinct : [(1 : Fin 4), 2, 3].Nodup := by decide
  have inside : rivalCells ⊆ drawnCells := by decide
  refine ⟨_, run, fun a outside => ?_⟩
  have out : a ∉ rivalCells := fun member => outside (inside member)
  rw [rival_frame out]
  exact (c.opponents_loop id rendered ram distinct).2 a fun slot member own =>
    outside (machineCells_drawn slot member own)

/-- The fifth machine is put off the track last. -/
theorem opponents_fifth {c : Client} {delay serverTime : UInt64} {ram after : Ram}
    (run : c.opponents delay serverTime ram = some after) : word after 0xb78 = 0 ∧ word after 0xb98 = 0 := by
  unfold opponents at run
  simp only [Option.bind_eq_bind, Option.bind_eq_some_iff] at run
  obtain ⟨_, _, _, _, same⟩ := run
  obtain rfl := Option.some.inj same
  refine ⟨?_, word_putWord _ _ _⟩
  rw [word_congr (putWord_ne (by decide) (by decide) _ _) (putWord_ne (by decide) (by decide) _ _), word_putWord]

/-- Every machine but the own one has been drawn. -/
theorem opponents_slots {c : Client} {id : Fin 4} (joined : c.id = some id) (delay serverTime : UInt64) (ram : Ram) :
    ∃ rendered after, renderedPeers c.peers c.snapshotBuffer delay serverTime = some rendered ∧
      c.opponents delay serverTime ram = some after ∧ ∀ slot ≠ 0, c.Drawn id rendered after slot := by
  obtain ⟨rendered, some_, run⟩ := opponents_run joined delay serverTime ram
  have distinct : [(1 : Fin 4), 2, 3].Nodup := by decide
  have others : ∀ slot : Fin 4, slot ≠ 0 → slot ∈ [(1 : Fin 4), 2, 3] := by decide
  have apart : ∀ slot ∈ [(1 : Fin 4), 2, 3], ((machineCells slot).all fun a => a ∉ rivalCells) = true := by decide
  refine ⟨rendered, _, some_, run, fun slot opponent => ?_⟩
  have drawn := (c.opponents_loop id rendered ram distinct).1 slot (others slot opponent)
  exact drawn.congr fun a own => rival_frame (of_cells (apart slot (others slot opponent)) a own) _

/-- Every other player has one machine on the screen. It is where its player has
been rendered, between his loading and his finish, and else off the track, where
the fifth machine is too. -/
theorem opponents_drawn {c : Client} {id : Fin 4} (joined : c.id = some id) (delay serverTime : UInt64) (ram : Ram) :
    ∃ rendered after, renderedPeers c.peers c.snapshotBuffer delay serverTime = some rendered ∧
      c.opponents delay serverTime ram = some after ∧
      (∀ player ≠ id, ∃! slot, slots id slot = player ∧ slot ≠ 0 ∧ c.Drawn id rendered after slot) ∧
      (word after 0xb78 = 0 ∧ word after 0xb98 = 0) ∧ ∀ a ∉ drawnCells, after a = ram a := by
  obtain ⟨rendered, after, some_, run, drawn⟩ := opponents_slots joined delay serverTime ram
  obtain ⟨_, ends, frame⟩ := opponents_frame joined delay serverTime ram
  cases run.symm.trans ends
  refine ⟨rendered, after, some_, run, fun player other => ?_, opponents_fifth run, frame⟩
  obtain ⟨slot, stands⟩ := (slots_bijective id).surjective player
  have opponent : slot ≠ 0 := by
    rintro rfl
    exact other (stands.symm.trans (slots_self id))
  exact ⟨slot, ⟨stands, opponent, drawn slot opponent⟩, fun later holds =>
    (slots_bijective id).injective (holds.1.trans stands.symm)⟩

/-! The second of two players, behind the first. -/

def sampleDriver : Client where
  id := some 1
  peers player := if player = 0 then { status := .racing, car := 2, x := 0x1234, y := 7 } else {}

theorem sampleDriver_drawn : ∃ after, sampleDriver.opponents 50000 0 (fun _ => 9) = some after ∧
    Placed after 3 0x1234 7 0 ∧ after 0xb70 = 9 := by
  have joined : sampleDriver.id = some 1 := rfl
  obtain ⟨rendered, after, found, run, drawn, _, frame⟩ := opponents_drawn joined 50000 0 (fun _ => 9)
  obtain rfl : sampleDriver.peers = rendered := Option.some.inj found
  obtain ⟨slot, ⟨stands, _, placed⟩, _⟩ := drawn 0 (by decide)
  obtain rfl : slot = 3 := (slots_bijective 1).injective stands
  exact ⟨after, run, placed, frame 0xb70 (by decide)⟩

/-- The palette of each player, whoever looks at him. -/
def palette (player : Fin 4) : UInt8 := palettes player 0

theorem palettes_slots (id slot : Fin 4) : palettes id slot = palette (slots id slot) := by revert id slot; decide

/-- The turn of one machine in the loop of `prepareRace`. -/
def paint (c : Client) (id : Fin 4) (ram : Ram) (slot : Fin 4) : Ram :=
  (if slot ≠ 0 then ram.write (cell 0x1131 slot) (c.peers (slots id slot)).car else ram).write (cell 0xc41 slot)
    (palettes id slot)

def paintCells (slot : Fin 4) : List UInt32 :=
  if slot = 0 then [cell 0xc41 slot] else [cell 0x1131 slot, cell 0xc41 slot]

theorem paintCells_apart {slot other : Fin 4} (different : other ≠ slot) :
    ∀ a ∈ paintCells slot, a ∉ paintCells other := by
  have checked : ∀ slot other : Fin 4, other ≠ slot → ((paintCells slot).all fun a => a ∉ paintCells other) = true := by
    decide
  exact of_cells (checked slot other different)

theorem paintCells_prepared : ∀ slot, paintCells slot ⊆ preparedCells := by decide

/-- The machine and the colours of the player that a slot stands for. -/
structure Painted (c : Client) (id : Fin 4) (ram : Ram) (slot : Fin 4) : Prop where
  colour : ram (cell 0xc41 slot) = palette (slots id slot)
  car : slot ≠ 0 → ram (cell 0x1131 slot) = (c.peers (slots id slot)).car

theorem paint_frame (c : Client) (id : Fin 4) (ram : Ram) (slot : Fin 4) {a : UInt32} (outside : a ∉ paintCells slot) :
    c.paint id ram slot a = ram a := by
  unfold paintCells at outside
  unfold paint
  by_cases own : slot = 0
  · rw [if_pos own, List.mem_singleton] at outside
    rw [if_neg (not_not.mpr own), write_ne outside]
  · rw [if_neg own, List.mem_cons, List.mem_singleton, not_or] at outside
    rw [if_pos own, write_ne outside.2, write_ne outside.1]

theorem paint_painted (c : Client) (id : Fin 4) (ram : Ram) (slot : Fin 4) :
    c.Painted id (c.paint id ram slot) slot where
  colour := by rw [paint, write_self, palettes_slots]
  car other := by
    have apart : cell 0x1131 slot ≠ cell 0xc41 slot := by revert slot; decide
    rw [paint, write_ne apart, if_pos other, write_self]

theorem Painted.congr {c : Client} {id : Fin 4} {ram after : Ram} {slot : Fin 4} (painted : c.Painted id ram slot)
    (same : ∀ a ∈ paintCells slot, after a = ram a) : c.Painted id after slot where
  colour := by
    have own : ∀ slot, cell 0xc41 slot ∈ paintCells slot := by decide
    rw [same _ (own slot), painted.colour]
  car other := by
    have own : cell 0x1131 slot ∈ paintCells slot := by
      rw [paintCells, if_neg other]
      exact List.mem_cons_self
    rw [same _ own, painted.car other]

theorem paint_loop (c : Client) (id : Fin 4) (ram : Ram) :
    (∀ slot, c.Painted id ([(0 : Fin 4), 1, 2, 3].foldl (c.paint id) ram) slot) ∧
      ∀ a ∉ preparedCells, [(0 : Fin 4), 1, 2, 3].foldl (c.paint id) ram a = ram a := by
  have distinct : [(0 : Fin 4), 1, 2, 3].Nodup := by decide
  have every : ∀ slot : Fin 4, slot ∈ [(0 : Fin 4), 1, 2, 3] := by decide
  obtain ⟨painted, frame⟩ := foldl_apart (c.paint id) paintCells (c.Painted id)
    (fun ram slot a outside => c.paint_frame id ram slot outside)
    (c.paint_painted id) (fun _ _ _ painted same => painted.congr same) (fun _ _ => paintCells_apart) distinct ram
  refine ⟨fun slot => painted slot (every slot), fun a outside => ?_⟩
  exact frame a fun slot _ own => outside (paintCells_prepared slot own)

theorem prepareRam_run {c : Client} {id : Fin 4} (joined : c.id = some id) (ram : Ram) :
    c.prepareRam ram = some ([(0 : Fin 4), 1, 2, 3].foldl (c.paint id) ram) := by
  rw [prepareRam, joined]
  rfl

/-- Every slot gets the colours of its player, and every slot but the own one the
machine that the client has been told of. -/
theorem prepareRam_painted {c : Client} {id : Fin 4} (joined : c.id = some id) (ram : Ram) :
    ∃ after, c.prepareRam ram = some after ∧ (∀ slot, c.Painted id after slot) ∧
      ∀ a ∉ preparedCells, after a = ram a :=
  ⟨_, prepareRam_run joined ram, c.paint_loop id ram⟩

theorem palette_injective : Function.Injective palette := by decide

/-- A client has its number as long as its automaton has left the waiting room. -/
theorem reachable_seated {c : Client} (reach : system.Reachable c) :
    c.config.baseline = false → seatedGame c.game = true → c.id ≠ none := by
  refine reach.invariant (P := fun c => c.config.baseline = false → seatedGame c.game = true → c.id ≠ none)
    (fun c start => ?_) fun c e _ _ _ seated => ?_
  · obtain ⟨config, rfl⟩ := start
    exact fun _ moved => by cases moved
  · change (c.step e).config.baseline = false → seatedGame (c.step e).game = true → (c.step e).id ≠ none
    cases c.step_turn e with
    | path path _ _ => exact Path.seated path seated
    | join t data p isHear decoded admits joins =>
      rw [joins]
      exact fun _ _ left => by cases left
    | accept t data p v isHear decoded accepts same =>
      rw [same, (c.accept_took t p v).id]
      exact fun _ _ => accepts.joined
    | attach random now isAttach =>
      subst isAttach
      intro _ moved
      have left : seatedGame (c.step (.attach random now)).game = false := (c.attach_marks random now).1
      rw [left] at moved
      cases moved
    | detach isDetach =>
      subst isDetach
      exact fun _ moved => by cases moved

theorem hideTitle_frame (ram : Ram) {a : UInt32} (outside : a ∉ frameCells) : hideTitle ram a = ram a := by
  simp only [frameCells, List.mem_append, List.mem_cons, not_or] at outside
  unfold hideTitle
  split
  next => rw [write_ne outside.1.1.2.1, write_ne outside.1.1.1]
  next => rfl

/-- A frame draws once it has come to draw, and paints once it has come to paint. -/
theorem confined_trans {ram between after : Ram} {cells : List UInt32} (first : ∀ a ∉ frameCells, between a = ram a)
    (later : ∀ a ∉ cells, after a = between a) (within : cells ⊆ frameCells) :
    ∀ a ∉ frameCells, after a = ram a := fun a outside =>
  (later a fun member => outside (within member)).trans (first a outside)

/-- In every run the tables of the machines are read for a client that has its
number. A frame writes to a few cells: the state of the game, which the automaton
follows, and the position of the own machine, which it reports, are not among
them. -/
theorem frame_confined {c : Client} (reach : system.Reachable c) (ram : Ram) (due : Bool) (delay serverTime : UInt64) :
    ∃ after, c.frameRam ram due delay serverTime = some after ∧ (∀ a ∉ frameCells, after a = ram a) ∧
      (after 0x54 = ram 0x54 ∧ after 0x55 = ram 0x55 ∧ after 0x56 = ram 0x56) ∧
      ∀ command, position after command = position ram command := by
  have seated := reachable_seated reach
  suffices confined : ∃ after, c.frameRam ram due delay serverTime = some after ∧ ∀ a ∉ frameCells, after a = ram a by
    obtain ⟨after, run, frame⟩ := confined
    have state := And.intro (frame 0x54 (by decide)) (And.intro (frame 0x55 (by decide)) (frame 0x56 (by decide)))
    exact ⟨after, run, frame, state, position_congr frame⟩
  have hidden (a : UInt32) (outside : a ∉ frameCells) : hideTitle ram a = ram a := hideTitle_frame ram outside
  have drawn : drawnCells ⊆ frameCells := by decide
  have prepared : preparedCells ⊆ frameCells := by decide
  unfold frameRam
  by_cases away : c.memory = false ∨ c.game = .disconnected
  · rw [if_pos away]
    exact ⟨ram, rfl, fun _ _ => rfl⟩
  rw [if_neg away]
  dsimp only
  cases baseline : c.config.baseline with
  | true => exact ⟨_, rfl, hidden⟩
  | false =>
    rw [if_neg Bool.false_ne_true]
    have joined (place : seatedGame c.game = true) : ∃ id, c.id = some id :=
      Option.ne_none_iff_exists'.mp (seated baseline place)
    cases game : c.game with
    | waiting =>
      dsimp only
      split
      next here =>
        obtain ⟨id, has⟩ := Option.ne_none_iff_exists'.mp here.1
        exact ⟨_, prepareRam_run has (hideTitle ram), confined_trans hidden (c.paint_loop id _).2 prepared⟩
      next => exact ⟨_, rfl, hidden⟩
    | prepare =>
      have menu : ∀ a ∉ [(0x53 : UInt32), 0x5a],
          (((hideTitle ram).write 0x53 c.track).write 0x5a c.league) a = hideTitle ram a := by
        intro a outside
        rw [List.mem_cons, List.mem_singleton, not_or] at outside
        rw [write_ne outside.2, write_ne outside.1]
      exact ⟨_, rfl, confined_trans hidden menu (by decide)⟩
    | location =>
      dsimp only
      split
      next grid =>
        have reset : ∀ a ∉ [(0x53 : UInt32)], ((hideTitle ram).write 0x53 0) a = hideTitle ram a := fun a outside =>
          write_ne (List.ne_of_not_mem_cons outside) ..
        have confined := confined_trans hidden reset (by decide)
        split
        next started =>
          obtain ⟨id, has⟩ := joined (by rw [game]; rfl)
          obtain ⟨after, run, frame⟩ := opponents_frame has delay serverTime ((hideTitle ram).write 0x53 0)
          exact ⟨after, run, confined_trans confined frame drawn⟩
        next => exact ⟨_, rfl, confined⟩
      next => exact ⟨_, rfl, hidden⟩
    | race =>
      dsimp only
      split
      next => exact ⟨_, rfl, hidden⟩
      next =>
        obtain ⟨id, has⟩ := joined (by rw [game]; rfl)
        obtain ⟨after, run, frame⟩ := opponents_frame has delay serverTime (hideTitle ram)
        exact ⟨after, run, confined_trans hidden frame drawn⟩
    | finished =>
      obtain ⟨id, has⟩ := joined (by rw [game]; rfl)
      obtain ⟨after, run, frame⟩ := opponents_frame has delay serverTime (hideTitle ram)
      exact ⟨after, run, confined_trans hidden frame drawn⟩
    | init | carSelect | results | disconnected => exact ⟨_, rfl, hidden⟩

/-! A client that has just been attached hides two sprites of the title. -/

def sampleTitle : Ram := fun a => if a = 0x55 then 1 else 0

def sampleAttached : Client := Client.step {} (.attach (some 9) 1000000)

theorem sampleAttached_reachable : system.Reachable sampleAttached := by
  have start : system.Reachable {} := .start ⟨{}, rfl⟩
  exact .next (Event.attach (some 9) 1000000) start trivial trivial

theorem sampleAttached_confined : ∃ after, sampleAttached.frameRam sampleTitle true 50000 0 = some after ∧
    after 0x55 = 1 := by
  obtain ⟨after, run, _, ⟨_, menu, _⟩, _⟩ := frame_confined sampleAttached_reachable sampleTitle true 50000 0
  exact ⟨after, run, menu⟩

end Client

end FzeroVs
