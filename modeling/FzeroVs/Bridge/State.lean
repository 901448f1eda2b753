import FzeroVs.Bridge.Text
import FzeroVs.Library.Run
import FzeroVs.Library.Undo

namespace FzeroVs.Bridge

/-- `MaximumRequestId`, `MaximumTransfer` and the size of WRAM. -/
def maximumRequestId : Nat := 9007199254740991

def maximumTransfer : Nat := 64 * 1024

def wramSize : Nat := 128 * 1024

/-- `Hash::SHA256` prints its digest as 64 hexadecimal digits in lower case. -/
structure Digest where
  text : Bytes
  valid : isDigest text = true

/-- A cartridge image. Its addresses have 24 bits. -/
structure Rom where
  size : Nat
  cells : Nat → UInt8
  small : size ≤ 2 ^ 24

namespace Rom

def none : Rom := ⟨0, fun _ => 0, by decide⟩

/-- `n24` cuts an address down to 24 bits. -/
def read (r : Rom) (address : Nat) : UInt8 := r.cells (address % 2 ^ 24)

def program (r : Rom) (address : Nat) (value : UInt8) : Rom :=
  { r with cells := Function.update r.cells (address % 2 ^ 24) value }

def readAll (r : Rom) (offset size : Nat) : Bytes := (List.range' offset size).map r.read

def programAll (r : Rom) (offset : Nat) : Bytes → Rom
  | [] => r
  | value :: rest => (r.program offset value).programAll (offset + 1) rest

end Rom

structure Patch where
  id : Bytes
  offset : Nat
  original : Bytes
  replacement : Bytes
  deriving DecidableEq, Repr

structure SaveState where
  id : Bytes
  name : Bytes
  romSha256 : Bytes
  data : Bytes

/-- A memory node of the debugger. -/
structure Memory where
  size : Nat
  read : Nat → UInt8

/-- What a request finds in the emulator besides the cartridge, and what the
calls into it answer. -/
structure Machine where
  paused : Bool
  pc : UInt16
  pb : UInt8
  db : UInt8
  a : UInt16
  x : UInt16
  y : UInt16
  s : UInt16
  d : UInt16
  p : UInt8
  e : Bool
  wram : Nat → UInt8
  vram : Option Memory
  oam : Option Memory
  cgram : Option Memory
  bus : Nat → UInt8
  readDisassembler : Nat → UInt8
  -- The stripped text of an instruction and its length.
  disassembleInstruction : Nat → Bytes × Nat
  serialized : Option Bytes
  unserialize : Bytes → Bool
  createDirectory : Bool
  secureDirectory : Bool
  encodePng : Bool
  processId : UInt64

/-- A flag of the status register `nvmxdizc`. -/
def Machine.flag (m : Machine) (bit : Nat) : Bool := m.p.toNat.testBit bit

structure Emulator where
  name : Bytes
  game : Option Bytes
  rom : Option (Rom × Digest)

/-- The bridge and the emulator that it looks into. -/
structure State where
  emulator : Option Bytes := none
  rom : Rom := .none
  machine : Machine
  gameLoaded : Bool := false
  romName : Bytes := []
  romSha256 : Bytes := []
  frameCounter : UInt64 := 0
  nextPatchId : UInt64 := 1
  nextStateId : UInt64 := 1
  nextCaptureId : UInt64 := 1
  patches : List Patch := []
  states : List SaveState := []
  frame : Bool := false
  frameWidth : UInt32 := 0
  frameHeight : UInt32 := 0
  -- History: the cartridge when the game was loaded, every patch id given out.
  loaded : Rom := .none
  given : List Bytes := []

inductive Code
  | malformedJson | invalidRequestId | invalidCommand | noGame | unsupportedSystem | invalidArgument
  | invalidDomain | invalidAddress | unsupportedDomain | romHashMismatch | patchOverlap
  | expectedMismatch | patchNotFound | patchConflict | savestateFailed | savestateNotFound | noFrame
  | captureFailed | unknownCommand
  deriving DecidableEq, Repr

def Code.text : Code → Bytes
  | .malformedJson => ascii "MALFORMED_JSON"
  | .invalidRequestId => ascii "INVALID_REQUEST_ID"
  | .invalidCommand => ascii "INVALID_COMMAND"
  | .noGame => ascii "NO_GAME"
  | .unsupportedSystem => ascii "UNSUPPORTED_SYSTEM"
  | .invalidArgument => ascii "INVALID_ARGUMENT"
  | .invalidDomain => ascii "INVALID_DOMAIN"
  | .invalidAddress => ascii "INVALID_ADDRESS"
  | .unsupportedDomain => ascii "UNSUPPORTED_DOMAIN"
  | .romHashMismatch => ascii "ROM_HASH_MISMATCH"
  | .patchOverlap => ascii "PATCH_OVERLAP"
  | .expectedMismatch => ascii "EXPECTED_MISMATCH"
  | .patchNotFound => ascii "PATCH_NOT_FOUND"
  | .patchConflict => ascii "PATCH_CONFLICT"
  | .savestateFailed => ascii "SAVESTATE_FAILED"
  | .savestateNotFound => ascii "SAVESTATE_NOT_FOUND"
  | .noFrame => ascii "NO_FRAME"
  | .captureFailed => ascii "CAPTURE_FAILED"
  | .unknownCommand => ascii "UNKNOWN_COMMAND"

/-- An answer before it is written down. An unknown id is written as null. -/
inductive Response
  | success (id : Nat) (fields : Bytes)
  | failure (id : Option Nat) (code : Code) (message : Bytes)
  deriving DecidableEq, Repr

def idText : Option Nat → Bytes
  | none => ascii "null"
  | some id => decimal id

def Response.encode : Response → Bytes
  | .success id fields => ascii "\x7b\"id\":" ++ decimal id ++ ascii ",\"ok\":true" ++ fields ++ ascii "\x7d"
  | .failure id code message =>
    ascii "\x7b\"id\":" ++ idText id ++ ascii ",\"ok\":false,\"error\":\x7b\"code\":" ++ quoted code.text ++
      ascii ",\"message\":" ++ quoted message ++ ascii "\x7d\x7d"

def regionValid (address size limit : Nat) : Bool :=
  decide (0 < size) && decide (size ≤ maximumTransfer) && decide (address ≤ limit) &&
    decide (size ≤ limit - address)

/-- `std::map::emplace`: kept in the order of the keys, and no key twice. -/
def emplace {α : Type} (key : α → Bytes) (x : α) : List α → List α
  | [] => [x]
  | y :: rest =>
    if key x = key y then y :: rest
    else if key x < key y then x :: y :: rest
    else y :: emplace key x rest

def superFamicom : Bytes := ascii "Super Famicom"

def patchId (n : Nat) : Bytes := ascii "patch-" ++ decimal n

/-- Two half-open regions share a byte. -/
def overlaps (offset size : Nat) (p : Patch) : Bool :=
  decide (offset < p.offset + p.replacement.length) && decide (p.offset < offset + size)

end FzeroVs.Bridge
