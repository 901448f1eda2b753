import FzeroVs.Bridge.State

namespace FzeroVs.Bridge.State

def field (name : String) (value : Bytes) : Bytes := ascii ",\"" ++ ascii name ++ ascii "\":" ++ value

def status (s : State) (id : Nat) : Response :=
  let loaded := s.gameLoaded && s.emulator.isSome
  let state := if !loaded then ascii "empty" else if s.machine.paused then ascii "paused" else ascii "running"
  .success id
    (field "protocol_version" (decimal 1) ++ field "bridge_version" (quoted (ascii "0.1.0")) ++
      field "game_loaded" (jsonBool loaded) ++
      field "system" (if loaded then quoted (s.emulator.getD []) else ascii "null") ++
      field "rom_name" (if loaded then quoted s.romName else ascii "null") ++
      field "rom_sha256" (if s.romSha256 ≠ [] then quoted s.romSha256 else ascii "null") ++
      field "running" (jsonBool (loaded && !s.machine.paused)) ++
      field "paused" (jsonBool (loaded && s.machine.paused)) ++ field "state" (quoted state) ++
      field "frame" (decimal s.frameCounter.toNat))

/-- `hex(value, digits)`. -/
def lowerHexDigits (value digits : Nat) : Bytes :=
  (List.range digits).map fun k =>
    (ascii "0123456789abcdef").getD (value / 16 ^ (digits - 1 - k) % 16) 0

def registers (s : State) (id : Nat) : Response :=
  let m := s.machine
  .success id
    (field "pc" (decimal m.pc.toNat) ++ field "pb" (decimal m.pb.toNat) ++ field "db" (decimal m.db.toNat) ++
      field "a" (decimal m.a.toNat) ++ field "x" (decimal m.x.toNat) ++ field "y" (decimal m.y.toNat) ++
      field "s" (decimal m.s.toNat) ++ field "d" (decimal m.d.toNat) ++ field "p" (decimal m.p.toNat) ++
      field "e" (jsonBool m.e) ++
      field "pc_formatted" (quoted (ascii "$" ++ lowerHexDigits m.pb.toNat 2 ++ ascii ":" ++
        lowerHexDigits m.pc.toNat 4)) ++
      field "flags" (ascii "\x7b\"n\":" ++ jsonBool (m.flag 7) ++ field "v" (jsonBool (m.flag 6)) ++
        field "m" (jsonBool (m.flag 5)) ++ field "x" (jsonBool (m.flag 4)) ++
        field "d" (jsonBool (m.flag 3)) ++ field "i" (jsonBool (m.flag 2)) ++
        field "z" (jsonBool (m.flag 1)) ++ field "c" (jsonBool (m.flag 0)) ++ ascii "\x7d"))

/-- The address `length` bytes on, in the same bank. -/
def following (current length : Nat) : Nat := current / 2 ^ 16 * 2 ^ 16 + (current % 2 ^ 16 + length) % 2 ^ 16

/-- Reading these registers has an effect, so they are left alone. -/
def sensitive (address : Nat) : Bool :=
  let masked := address &&& 0x40ffff
  decide (0x2000 ≤ masked) && decide (masked ≤ 0x5fff)

/-- Address, bytes and text of `count` instructions. -/
def listing (m : Machine) : Nat → Nat → List (Nat × Bytes × Bytes)
  | 0, _ => []
  | count + 1, current =>
    let decoded := m.disassembleInstruction current
    let length := if decoded.2 < 1 ∨ 4 < decoded.2 then 1 else decoded.2
    let bytes := (List.range length).map fun offset =>
      let address := following current offset
      if sensitive address then 0 else m.readDisassembler address
    (current, bytes, decoded.1) :: listing m count (following current length)

def instruction (entry : Nat × Bytes × Bytes) : Bytes :=
  ascii "\x7b\"address\":" ++ decimal entry.1 ++ field "bytes" (quoted (encodeHexSpaced entry.2.1)) ++
    field "instruction" (quoted entry.2.2) ++ ascii "\x7d"

/-- Elements of a JSON array, separated by commas. -/
def separated : List Bytes → Bytes
  | [] => []
  | [x] => x
  | x :: rest => x ++ ascii "," ++ separated rest

def jsonArray (elements : List Bytes) : Bytes := ascii "[" ++ separated elements ++ ascii "]"

def disassemble (s : State) (document : Document) (id : Nat) : Response :=
  match unsignedField document "address" 0 0xffffff, unsignedField document "count" 1 256 with
  | some address, some count =>
    .success id
      (field "address" (decimal address) ++ field "count" (decimal count) ++
        field "mode" (ascii "\x7b\"e\":" ++ jsonBool s.machine.e ++ field "m" (jsonBool (s.machine.flag 5)) ++
          field "x" (jsonBool (s.machine.flag 4)) ++ ascii "\x7d") ++
        field "instructions" (jsonArray ((listing s.machine count address).map instruction)))
  | _, _ => .failure (some id) .invalidArgument (ascii "address must be 24-bit and count must be 1..256")

def domainLimit (s : State) (domain : Bytes) : Nat :=
  let size (node : Option Memory) := (node.map Memory.size).getD 0
  if domain = ascii "wram" then wramSize
  else if domain = ascii "vram" then size s.machine.vram
  else if domain = ascii "oam" then size s.machine.oam
  else if domain = ascii "cgram" then size s.machine.cgram
  else if domain = ascii "rom" then s.rom.size
  else if domain = ascii "bus" then 2 ^ 24
  else 0

def domainByte (s : State) (domain : Bytes) (address : Nat) : UInt8 :=
  let byte (node : Option Memory) := (node.map fun memory => memory.read address).getD 0
  if domain = ascii "wram" then s.machine.wram address
  else if domain = ascii "vram" then byte s.machine.vram
  else if domain = ascii "oam" then byte s.machine.oam
  else if domain = ascii "cgram" then byte s.machine.cgram
  else if domain = ascii "rom" then s.rom.read address
  else if domain = ascii "bus" then s.machine.bus (address % 2 ^ 24)
  else 0

def memoryRead (s : State) (document : Document) (id : Nat) : Response :=
  match stringField document "domain", unsignedField document "address" 0 0xffffff,
      unsignedField document "size" 1 maximumTransfer with
  | some domain, some address, some size =>
    if s.domainLimit domain = 0 then
      .failure (some id) .invalidDomain (ascii "domain must be wram, vram, oam, cgram, rom, or bus")
    else if !regionValid address size (s.domainLimit domain) then
      .failure (some id) .invalidAddress (ascii "requested region is outside the memory domain")
    else
      .success id
        (field "domain" (quoted domain) ++ field "address" (decimal address) ++ field "size" (decimal size) ++
          field "data" (quoted (encodeHex ((List.range' address size).map (s.domainByte domain)))))
  | _, _, _ => .failure (some id) .invalidArgument (ascii "domain, address, and size are required")

def writeWram (s : State) (address : Nat) (replacement : Bytes) : State :=
  { s with machine := { s.machine with
      wram := fun a =>
        if address ≤ a ∧ a < address + replacement.length then replacement.getD (a - address) 0
        else s.machine.wram a } }

def memoryWrite (s : State) (document : Document) (id : Nat) : Response × State :=
  match stringField document "domain", (stringField document "data").bind decodeHex,
      unsignedField document "address" 0 wramSize with
  | some domain, some replacement, some address =>
    if maximumTransfer < replacement.length then
      (.failure (some id) .invalidArgument
        (ascii "domain/address and 1..65536 bytes of compact hex data are required"), s)
    else if domain ≠ ascii "wram" then
      (.failure (some id) .unsupportedDomain
        (ascii "memory.write currently supports only wram; use rom.patch for ROM"), s)
    else if !regionValid address replacement.length wramSize then
      (.failure (some id) .invalidAddress (ascii "write is outside WRAM"), s)
    else
      let original := (List.range' address replacement.length).map s.machine.wram
      (.success id
        (ascii ",\"domain\":\"wram\"" ++ field "address" (decimal address) ++
          field "written" (decimal replacement.length) ++ field "original" (quoted (encodeHex original)) ++
          field "resulting" (quoted (encodeHex replacement))), s.writeWram address replacement)
  | _, _, _ =>
    (.failure (some id) .invalidArgument
      (ascii "domain/address and 1..65536 bytes of compact hex data are required"), s)

def romRead (s : State) (document : Document) (id : Nat) : Response :=
  let refused := Response.failure (some id) .invalidAddress
    (ascii "ROM offset/size is outside the loaded image or exceeds 64 KiB")
  match unsignedField document "offset" 0 s.rom.size, unsignedField document "size" 1 maximumTransfer with
  | some offset, some size =>
    if !regionValid offset size s.rom.size then refused
    else
      .success id
        (field "offset" (decimal offset) ++ field "size" (decimal size) ++
          field "data" (quoted (encodeHex (s.rom.readAll offset size))))
  | _, _ => refused

/-- Offset, digest, expected and replacement bytes of a `rom.patch`. -/
def patchArguments (s : State) (document : Document) : Option (Nat × Bytes × Bytes × Bytes) :=
  match unsignedField document "offset" 0 s.rom.size,
      (stringField document "expected_rom_sha256").bind normalizeSha256,
      (stringField document "expected").bind decodeHex,
      (stringField document "replacement").bind decodeHex with
  | some offset, some sha, some expected, some replacement =>
    if expected.length ≠ replacement.length ∨ maximumTransfer < expected.length then none
    else some (offset, sha, expected, replacement)
  | _, _, _, _ => none

def hashMismatch (id : Nat) : Response :=
  .failure (some id) .romHashMismatch (ascii "loaded ROM SHA-256 does not match expected_rom_sha256")

/-- The fields by which a patch is reported. -/
def patchFields (s : State) (p : Patch) : Bytes :=
  ascii "\"patch_id\":" ++ quoted p.id ++ field "offset" (decimal p.offset) ++
    field "original" (quoted (encodeHex p.original)) ++ field "replacement" (quoted (encodeHex p.replacement)) ++
    field "rom_sha256" (quoted s.romSha256)

/-- Record a patch and program its bytes. -/
def apply (s : State) (p : Patch) : State :=
  { s with
    nextPatchId := s.nextPatchId + 1
    rom := s.rom.programAll p.offset p.replacement
    patches := emplace Patch.id p s.patches
    given := s.given ++ [p.id] }

def romPatch (s : State) (document : Document) (id : Nat) : Response × State :=
  match s.patchArguments document with
  | none =>
    (.failure (some id) .invalidArgument
      (ascii "offset, ROM SHA-256, and equal 1..65536-byte expected/replacement hex are required"), s)
  | some (offset, sha, expected, replacement) =>
    if sha ≠ s.romSha256 then (hashMismatch id, s)
    else if !regionValid offset expected.length s.rom.size then
      (.failure (some id) .invalidAddress (ascii "patch is outside the loaded ROM image"), s)
    else if s.patches.any (overlaps offset expected.length) then
      (.failure (some id) .patchOverlap (ascii "patch overlaps an active runtime patch"), s)
    else if s.rom.readAll offset expected.length ≠ expected then
      (.failure (some id) .expectedMismatch (ascii "current ROM bytes do not match expected"), s)
    else
      let p : Patch := ⟨patchId s.nextPatchId.toNat, offset % 2 ^ 32, s.rom.readAll offset expected.length, replacement⟩
      (.success id (ascii "," ++ s.patchFields p), s.apply p)

def patchList (s : State) (id : Nat) : Response :=
  .success id
    (field "patches" (jsonArray (s.patches.map fun p => ascii "\x7b" ++ s.patchFields p ++ ascii "\x7d")))

/-- Program the original bytes and forget the patch. -/
def revert (s : State) (p : Patch) : State :=
  { s with
    rom := s.rom.programAll p.offset p.original
    patches := s.patches.filter fun q => q.id ≠ p.id }

def romPatchRevert (s : State) (document : Document) (id : Nat) : Response × State :=
  match stringField document "patch_id", (stringField document "expected_rom_sha256").bind normalizeSha256 with
  | some patchId, some sha =>
    if sha ≠ s.romSha256 then (hashMismatch id, s)
    else
      match s.patches.find? fun q => q.id == patchId with
      | none => (.failure (some id) .patchNotFound (ascii "no active patch has that ID"), s)
      | some p =>
        if s.rom.readAll p.offset p.replacement.length ≠ p.replacement then
          (.failure (some id) .patchConflict (ascii "live ROM bytes no longer match this patch's replacement"), s)
        else (.success id (ascii "," ++ s.patchFields p ++ ascii ",\"reverted\":true"), s.revert p)
  | _, _ =>
    (.failure (some id) .invalidArgument (ascii "patch_id and expected_rom_sha256 are required"), s)

/-- The name of a state, which may be missing or null. -/
def stateName (document : Document) : Bytes :=
  match document "name" with
  | none => []
  | some text => if text = ascii "null" then [] else text

def savestateCreate (s : State) (document : Document) (id : Nat) : Response × State :=
  let name := stateName document
  if 80 < name.length then
    (.failure (some id) .invalidArgument (ascii "state name exceeds 80 characters"), s)
  else
    match s.machine.serialized with
    | none => (.failure (some id) .savestateFailed (ascii "ares could not serialize the machine"), s)
    | some data =>
      let stateId := ascii "state-" ++ decimal s.nextStateId.toNat
      (.success id
        (field "state_id" (quoted stateId) ++ field "name" (if name = [] then ascii "null" else quoted name) ++
          field "size" (decimal data.length) ++ field "rom_sha256" (quoted s.romSha256)),
        { s with
          nextStateId := s.nextStateId + 1
          states := emplace SaveState.id ⟨stateId, name, s.romSha256, data⟩ s.states })

/-- What the restored machine looks like is left to the emulator. -/
def savestateRestore (s : State) (document : Document) (id : Nat) : Response :=
  match stringField document "state_id" with
  | none => .failure (some id) .invalidArgument (ascii "state_id is required")
  | some stateId =>
    match s.states.find? fun state => state.id == stateId with
    | none => .failure (some id) .savestateNotFound (ascii "no in-memory state has that ID")
    | some state =>
      if state.romSha256 ≠ s.romSha256 then
        .failure (some id) .romHashMismatch (ascii "save state belongs to a different ROM")
      else if !s.machine.unserialize state.data then
        .failure (some id) .savestateFailed (ascii "ares rejected the serialized state")
      else .success id (field "state_id" (quoted stateId) ++ ascii ",\"restored\":true")

def savestateDelete (s : State) (document : Document) (id : Nat) : Response × State :=
  match stringField document "state_id" with
  | none => (.failure (some id) .invalidArgument (ascii "state_id is required"), s)
  | some stateId =>
    if s.states.all fun state => state.id != stateId then
      (.failure (some id) .savestateNotFound (ascii "no in-memory state has that ID"), s)
    else
      (.success id (field "state_id" (quoted stateId) ++ ascii ",\"deleted\":true"),
        { s with states := s.states.filter fun state => state.id ≠ stateId })

def screenCapture (s : State) (id : Nat) : Response × State :=
  if s.frame = false ∨ s.frameWidth = 0 ∨ s.frameHeight = 0 then
    (.failure (some id) .noFrame (ascii "no completed video frame is available yet"), s)
  else if !s.machine.createDirectory then
    (.failure (some id) .captureFailed (ascii "could not create the controlled capture directory"), s)
  else if !s.machine.secureDirectory then
    (.failure (some id) .captureFailed (ascii "could not secure the controlled capture directory"), s)
  else
    let path := ascii "/tmp/ares-debug-captures/ares-" ++ decimal s.machine.processId.toNat ++ ascii "-" ++
      decimal s.nextCaptureId.toNat ++ ascii ".png"
    let s := { s with nextCaptureId := s.nextCaptureId + 1 }
    if !s.machine.encodePng then (.failure (some id) .captureFailed (ascii "ares PNG encoder failed"), s)
    else
      (.success id
        (field "path" (quoted path) ++ field "width" (decimal s.frameWidth.toNat) ++
          field "height" (decimal s.frameHeight.toNat) ++ field "frame" (decimal s.frameCounter.toNat)), s)

def unknownCommand (id : Nat) (command : Bytes) : Response :=
  .failure (some id) .unknownCommand (ascii "unknown command: " ++ command)

def setPaused (s : State) (paused : Bool) : State := { s with machine := { s.machine with paused := paused } }

/-- The commands that look into a Super Famicom. -/
def debug (s : State) (document : Document) (id : Nat) (command : Bytes) : Response × State :=
  if command = ascii "cpu.registers" then (s.registers id, s)
  else if command = ascii "cpu.disassemble" then (s.disassemble document id, s)
  else if command = ascii "memory.read" then (s.memoryRead document id, s)
  else if command = ascii "memory.write" then s.memoryWrite document id
  else if command = ascii "rom.read" then (s.romRead document id, s)
  else if command = ascii "rom.patch" then s.romPatch document id
  else if command = ascii "rom.patch.list" then (s.patchList id, s)
  else if command = ascii "rom.patch.revert" then s.romPatchRevert document id
  else if command = ascii "savestate.create" then s.savestateCreate document id
  else if command = ascii "savestate.restore" then (s.savestateRestore document id, s)
  else if command = ascii "savestate.delete" then s.savestateDelete document id
  else if command = ascii "screen.capture" then s.screenCapture id
  else (unknownCommand id command, s)

def execute (s : State) (document : Document) (id : Nat) (command : Bytes) : Response × State :=
  if command = ascii "emulator.status" then (s.status id, s)
  else if s.gameLoaded = false ∨ s.emulator = none then
    (.failure (some id) .noGame (ascii "no game is loaded"), s)
  else if command = ascii "emulator.pause" then (.success id (ascii ",\"paused\":true"), s.setPaused true)
  else if command = ascii "emulator.resume" then (.success id (ascii ",\"paused\":false"), s.setPaused false)
  else if command = ascii "emulator.reset" then (.success id (ascii ",\"reset\":true"), s)
  else if s.emulator ≠ some superFamicom then
    (.failure (some id) .unsupportedSystem (ascii "initial debug support requires Super Famicom"), s)
  else s.debug document id command

/-- `dispatch`, from what the JSON parser makes of the line: nothing, or a document. -/
def dispatch (s : State) : Option Document → Response × State
  | none => (.failure none .malformedJson (ascii "request is not valid JSON"), s)
  | some document =>
    match unsignedField document "id" 0 maximumRequestId with
    | none =>
      (.failure none .invalidRequestId (ascii "id must be a non-negative JSON-safe integer"), s)
    | some id =>
      match stringField document "command" with
      | none => (.failure (some id) .invalidCommand (ascii "command must be a non-empty string"), s)
      | some command =>
        if command = [] then
          (.failure (some id) .invalidCommand (ascii "command must be a non-empty string"), s)
        else s.execute document id command

/-- Everything about the game before is forgotten. -/
def clear (s : State) : State :=
  { s with
    romName := []
    romSha256 := []
    frameCounter := 0
    patches := []
    states := []
    frame := false
    frameWidth := 0
    frameHeight := 0 }

/-- `active` is whether the bridge is listening. -/
def load (s : State) (active : Bool) (emulator : Emulator) : State :=
  let rom := (emulator.rom.map Prod.fst).getD .none
  let s := { s.clear with emulator := some emulator.name, rom := rom, loaded := rom, gameLoaded := active }
  if !active then s
  else
    { s with
      romName := emulator.game.getD []
      romSha256 :=
        match emulator.rom with
        | some (_, digest) => if emulator.name = superFamicom then digest.text else []
        | none => [] }

def unload (s : State) : State :=
  { s.clear with emulator := none, rom := .none, loaded := .none, gameLoaded := false }

def captureFrame (s : State) (data : Bool) (pitch width height : UInt32) : State :=
  if data = false ∨ width = 0 ∨ height = 0 ∨ pitch < width * 4 then s
  else
    { s with
      frame := true
      frameWidth := width
      frameHeight := height
      frameCounter := s.frameCounter + 1 }

/-- Between two requests the emulator does as it likes with everything but the cartridge. -/
inductive Event
  | gameLoaded (active : Bool) (emulator : Emulator)
  | gameUnloaded
  | captureFrame (data : Bool) (pitch width height : UInt32)
  | run (machine : Machine)
  | request (document : Option Document)

def step (s : State) : Event → State
  | .gameLoaded active emulator => s.load active emulator
  | .gameUnloaded => s.unload
  | .captureFrame data pitch width height => s.captureFrame data pitch width height
  | .run machine => { s with machine := machine }
  | .request document => (s.dispatch document).2

/-- The bridge from the start of the process on. -/
def system : System State Event where
  init s := ∃ machine, s = { machine := machine }
  enabled _ _ := True
  step := step

end FzeroVs.Bridge.State
