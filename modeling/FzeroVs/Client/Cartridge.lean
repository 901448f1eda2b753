import FzeroVs.Client.Moves
import FzeroVs.Library.Undo

namespace FzeroVs

/-- The cartridge as `memory.rom` reads it. -/
abbrev Rom := UInt32 → UInt8

/-- The client together with the cartridge that it alone writes. `attached` is
history: the cartridge as the last `attach` found it. -/
structure Console where
  client : Client
  rom : Rom
  originals : Undo UInt32 UInt8 := .empty
  titleOriginals : Undo UInt32 UInt8 := .empty
  attached : Rom

/-- Drawings of the letters, 16 rows of 8 pixels, a digit for a colour. -/
structure Glyph where
  character : Char
  rows : List String

def glyphs : List Glyph :=
  [⟨'I', ["..5555..", ".533335.", ".553355.", "..5335..", "..5335..", "..5335..", "..5225..", "..5115..",
      "..5225..", "..5335..", "..5445..", "..5335..", "..5335..", ".553355.", ".533335.", ".555555."]⟩,
    ⟨'L', ["5555....", "5335....", "5335....", "5335....", "5335....", "5335....", "5225....", "5115....",
      "5225....", "5335....", "5445....", "5335....", "5335....", "53355555", "53333335", "55555555"]⟩,
    ⟨'M', ["55555555", "53333335", "53333335", "53355335", "53333335", "53355335", "52255225", "51155115",
      "52255225", "53355335", "54455445", "53355335", "53355335", "53355335", "53355335", "55555555"]⟩,
    ⟨'T', ["55555555", "53333335", "55533555", "..5335..", "..5335..", "..5335..", "..5225..", "..5115..",
      "..5225..", "..5335..", "..5445..", "..5335..", "..5335..", "..5335..", ".533335.", ".555555."]⟩,
    ⟨'U', ["55555555", "53355335", "53355335", "53355335", "53355335", "53355335", "52255225", "51155115",
      "52255225", "53355335", "54455445", "53355335", "53355335", "53333335", ".533335.", ".555555."]⟩]

def glyph (character : Char) : Option Glyph := glyphs.find? fun g => g.character == character

/-- The letters side by side; one without a drawing takes no room. -/
def drawings : List Glyph := "MULTI".toList.filterMap glyph

/-- `pixels[y][x]`, zero where nothing is drawn. -/
def pixel (y x : Nat) : UInt8 :=
  match drawings[x / 8]? with
  | none => 0
  | some drawing =>
    let cell := (drawing.rows.getD y "").toList.getD (x % 8) '.'
    if cell = '.' then 0 else UInt8.ofNat (cell.toNat - '0'.toNat)

/-- Byte `n` of an encoded tile: one plane of one row, the leftmost pixel in
the highest bit. Planes 0 and 1 alternate in the first half, 2 and 3 in the second. -/
def tileByte (tileX tileY n : Nat) : UInt8 :=
  let plane := n / 16 * 2 + n % 2
  let y := n % 16 / 2
  (List.range 8).foldl (fun byte x =>
    if pixel (tileY * 8 + y) (tileX * 8 + x) >>> UInt8.ofNat plane &&& 1 = 1 then
      byte ||| 1 <<< UInt8.ofNat (7 - x)
    else byte) 0

def patchTile (tileX tileY : Nat) (address : UInt32) : List (UInt32 × UInt8) :=
  (List.range 32).map fun n => (address + UInt32.ofNat n, tileByte tileX tileY n)

/-- What `patchTitleMenu` writes, in its order. -/
def titleMenu : List (UInt32 × UInt8) :=
  (List.range 5).flatMap fun x =>
    patchTile x 0 (0x67800 + UInt32.ofNat (x * 32)) ++ patchTile x 1 (0x67a00 + UInt32.ofNat (x * 32))

def selector (i : Fin 4) : UInt8 := [3, 0, 1, 2].getD i.val 0

namespace Console

/-- A change of the client that leaves the cartridge alone. -/
def lift (k : Console) (f : Client → Client) : Console := { k with client := f k.client }

def patchCell (k : Console) (address : UInt32) (value : UInt8) : Console :=
  { k with
    rom := Function.update k.rom address value
    originals := k.originals.save address (k.rom address) }

def patch (k : Console) (address : UInt32) : List UInt8 → Console
  | [] => k
  | value :: values => (k.patchCell address value).patch (address + 1) values

def patchTitleCell (k : Console) (cell : UInt32 × UInt8) : Console :=
  { k with
    rom := Function.update k.rom cell.1 cell.2
    titleOriginals := k.titleOriginals.assign cell.1 (k.rom cell.1) }

def patchTitleMenu (k : Console) : Console :=
  if k.client.memory = false ∨ k.titleOriginals.cells ≠ [] then k else titleMenu.foldl patchTitleCell k

def restore (k : Console) : Console :=
  { k with
    rom := if k.client.memory then writeAll k.rom k.originals.cells else k.rom
    originals := .empty }

def restoreTitle (k : Console) : Console :=
  { k with
    rom := if k.client.memory then writeAll k.rom k.titleOriginals.cells else k.rom
    titleOriginals := .empty }

def failure (k : Console) : Console := k.restore.restoreTitle.lift Client.failure

def resetGame (k : Console) : Console := k.restore.lift Client.resetGame

def detach (k : Console) : Console := k.restore.restoreTitle.lift Client.detach

/-- `attach` once the socket is connected, up to the title menu. -/
def connect (c : Client) (random now : UInt64) : Client :=
  { c with
    socket := true
    nonce := if c.config.ownerNonce ≠ 0 then c.config.ownerNonce else random
    session := 0
    token := 0
    id := none
    race := 0
    commandSeq := 0
    stateSeq := 0
    snapshotSeq := 0
    phase := .lobby
    lastRecv := now
    lastHello := 0
    lastPing := 0
    stale := 0
    retries := 0
    gaps := 0
    snapshots := 0
    peers := fun _ => {}
    pending := [] }

/-- The cartridge of before, or another one, takes its place. -/
def insert (k : Console) (cartridge : Option Rom) : Console :=
  let k := k.detach
  let rom := cartridge.getD k.rom
  { k.lift fun c => { c with memory := true, sent := [], issued := [], accepted := [] } with
    rom := rom
    attached := rom }

def attach (k : Console) (cartridge : Option Rom) (random : Option UInt64) (now : UInt64) : Console :=
  let k := k.insert cartridge
  match random with
  | some random =>
    if keyMax < k.client.config.key.length then k.failure
    else (k.lift fun c => connect c random now).patchTitleMenu.resetGame
  | none => k.failure

/-- Another generation resets the game, and with it the cartridge. -/
def accept (k : Console) (t : UInt64) (p : Packet) (v : Picture) : Console :=
  (if p.race ≠ k.client.race then k.restore else k).lift fun c => c.accept t p v

def receiveSnapshot (k : Console) (t : UInt64) (p : Packet) : Console :=
  match readPicture p with
  | none => k
  | some v => if k.client.fresh p then k.accept t p v else k.lift fun c => { c with stale := c.stale + 1 }

def receive (k : Console) (t : UInt64) (p : Packet) : Console :=
  if k.client.id = none ∧ p.is .joinReject ∧ p.length = 9 ∧ u64 p.payload = k.client.nonce then k.failure
  else if p.is .welcome ∧ p.length = 9 ∧ u64 (p.payload.drop 1) = k.client.nonce ∧ p.byte 0 < 4 ∧
      p.session ≠ 0 ∧ p.token ≠ 0 then
    match k.client.id with
    | some _ => k
    | none => k.lift fun c => c.join t p (Fin.ofNat 4 (p.byte 0).toNat)
  else if k.client.id = none ∨ p.session ≠ k.client.session ∨ p.token ≠ k.client.token then k
  else if p.is .roomClosed ∧ p.length = 1 then k.failure
  else if p.is .ping ∧ p.length = 8 then
    k.lift fun c =>
      { c.send { type := Kind.pong.code, length := 8, payload := p.payload.take 8 } with lastRecv := t }
  else if p.is .pong ∧ p.length = 16 then
    let sent := u64 p.payload
    if t < sent ∨ 5000000 < t - sent then k else k.lift fun c => { c with lastRecv := t }
  else k.receiveSnapshot t p

def hear (k : Console) (t : UInt64) (data : List UInt8) : Console :=
  if k.client.socket then
    match decode data with
    | some p => k.receive t p
    | none => k
  else k

def pulse (k : Console) (t : UInt64) : Console :=
  let k := k.lift fun c => c.serve t
  if (if k.client.id = none then 10000000 else 5000000) < t - k.client.lastRecv then k.failure else k

def tick (k : Console) (incoming : List (UInt64 × List UInt8)) (t : UInt64) : Console :=
  if k.client.socket = false ∨ k.client.game = .disconnected then k
  else
    let k := (incoming.take 128).foldl (fun k d => k.hear d.1 d.2) k
    if k.client.socket = false ∨ k.client.game = .disconnected then k else k.pulse t

/-- Everything in the race but the players is switched off. -/
def raceSites : List UInt32 :=
  [0x5dfc, 0x5dda, 0xdb6, 0x3db2, 0x3dd5, 0x3def, 0x3dfe, 0x3dae, 0x3dcb, 0x3de5]

def prepareRace (k : Console) (i : Fin 4) : Console :=
  let k := (k.patch 0x5486 [0x4c, 0xa7, 0xd4]).patch 0x532b [0xea, 0xea, 0xea]
  let k := (k.patch 0x52ef [0xa9, selector i]).patch 0x572b [0xa9, selector i]
  let k := raceSites.foldl (fun k address => k.patch address [0xea, 0xea, 0xea]) k
  (((k.patch 0xd3f [0]).patch 0x48ff [0x80]).patch 0x4d84 [0x80]).patch 0x1851f [0xa5, 0x55, 0xf0, 0x74]

/-- What `frame` writes into the cartridge, state by state of the automaton. -/
def patchFrame (k : Console) (ram : UInt32 → UInt8) (due : Bool) : Console :=
  match k.client.game with
  | .init => (k.patch 0x18176 [0xea]).patch 0x18143 [0x80]
  | .carSelect => if ram 0x55 = 5 then k.patch 0x1851f [0x5c, 0x1f, 0x85, 0x03] else k
  | .waiting =>
    match k.client.id with
    | some i => if k.client.phase = .loading then k.prepareRace i else k
    | none => k
  | .prepare => (k.patch 0x18795 [0x80]).patch 0x187fe [0x80]
  | .location =>
    let k := k.patch 0xab1 [0xea, 0xea, 0xea, 0xea, 0xea, 0xea]
    if ram 0x54 = 2 ∧ ram 0x55 = 0 ∧ ram 0x56 = 2 ∧ (k.client.load ram).released due then
      k.patch 0xab1 [0xe6, 0x55, 0xe6, 0x55, 0x64, 0x56]
    else k
  | _ => k

/-- The cartridge and the client's own state do not meet inside a frame, so
the two sides of it can be taken one after the other. -/
def frame (k : Console) (ram : UInt32 → UInt8) (due : Bool) (now : UInt64) : Console :=
  if k.client.memory = false ∨ k.client.game = .disconnected then k
  else if k.client.config.baseline then k.lift fun c => c.frame ram due now
  else (k.patchFrame ram due).lift fun c => c.frame ram due now

/-- The ways in which the program drives its client, with those that concern
the cartridge or the whole session. -/
inductive Event
  | configure (config : ClientConfig)
  | attach (cartridge : Option Rom) (random : Option UInt64) (now : UInt64)
  | request (command : UInt8) (data : List UInt8)
  | hear (t : UInt64) (data : List UInt8)
  | pulse (t : UInt64)
  | frame (ram : UInt32 → UInt8) (due : Bool) (now : UInt64)
  | failure
  | detach

def step (k : Console) : Event → Console
  | .configure config => k.lift fun c => { c with config := config }
  | .attach cartridge random now => k.attach cartridge random now
  | .request command data => k.lift fun c => c.request command data
  | .hear t data => k.hear t data
  | .pulse t => if k.client.socket = false ∨ k.client.game = .disconnected then k else k.pulse t
  | .frame ram due now => k.frame ram due now
  | .failure => k.failure
  | .detach => k.detach

/-- Any cartridge, before the first attach. -/
def system : System Console Event where
  init k := ∃ config rom, k = { client := { config := config }, rom := rom, attached := rom }
  enabled _ _ := True
  step := step

/-- The client's own part of an event. -/
def Event.follow (c : Client) : Event → Client
  | .configure config => { c with config := config }
  | .attach _ random now => c.step (.attach random now)
  | .request command data => c.step (.request command data)
  | .hear t data => c.step (.hear t data)
  | .pulse t => c.step (.pulse t)
  | .frame ram due now => c.step (.frame ram due now)
  | .failure => c.failure
  | .detach => c.step .detach

end Console

end FzeroVs
