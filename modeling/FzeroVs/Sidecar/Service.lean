import FzeroVs.Bridge.Dispatch
import FzeroVs.Library.Run

namespace FzeroVs.Sidecar

open Bridge

/-- What a `memory.read` is answered: the bytes, or the code and the message of
the refusal. -/
def readRegion (s : Bridge.State) (domain : Bytes) (address size : Nat) : Except (Code × Bytes) Bytes :=
  if s.gameLoaded = false ∨ s.emulator = none then .error (.noGame, ascii "no game is loaded")
  else if s.emulator ≠ some superFamicom then
    .error (.unsupportedSystem, ascii "initial debug support requires Super Famicom")
  else if s.domainLimit domain = 0 then
    .error (.invalidDomain, ascii "domain must be wram, vram, oam, cgram, rom, or bus")
  else if !regionValid address size (s.domainLimit domain) then
    .error (.invalidAddress, ascii "requested region is outside the memory domain")
  else .ok ((List.range' address size).map (s.domainByte domain))

/-- `validate_region`. A ROM is bounded by the bridge alone. -/
def regionKnown (domain : Bytes) (address size : Nat) : Bool :=
  let limit :=
    if domain = ascii "wram" then some (128 * 1024)
    else if domain = ascii "vram" then some (64 * 1024)
    else if domain = ascii "oam" then some 544
    else if domain = ascii "cgram" then some 512
    else if domain = ascii "bus" then some (2 ^ 24)
    else none
  (limit.isSome || domain = ascii "rom") && decide (1 ≤ size) && decide (size ≤ 64 * 1024) &&
    limit.all fun limit => decide (address ≤ limit) && decide (size ≤ limit - address)

/-- `MemorySnapshot`, and from which ROM its bytes were read. -/
structure Snapshot where
  snapshotId : String
  name : Option String
  domain : Bytes
  address : Nat
  data : Bytes
  romSha256 : Bytes
  -- History: the identity at the bridge when the bytes were read.
  readFrom : Bytes
  deriving DecidableEq, Repr

/-- `display_address`, for the domains that there are. -/
def displayAddress (domain : Bytes) (address : Nat) : Bytes :=
  let hex (value digits : Nat) := (List.range digits).map fun k => hexDigit (value / 16 ^ (digits - 1 - k) % 16)
  if domain = ascii "wram" ∧ address < 128 * 1024 then
    ascii "$" ++ hex (0x7e + address / 0x10000) 2 ++ ascii ":" ++ hex (address % 0x10000) 4
  else if domain = ascii "bus" then ascii "$" ++ hex (address / 0x10000) 2 ++ ascii ":" ++ hex (address % 0x10000) 4
  else if domain = ascii "vram" then ascii "VRAM+0x" ++ hex address 4
  else if domain = ascii "oam" then ascii "OAM+0x" ++ hex address 4
  else if domain = ascii "cgram" then ascii "CGRAM+0x" ++ hex address 4
  else ascii "ROM+0x" ++ hex address 6

structure Change where
  address : Nat
  displayAddress : Bytes
  before : UInt8
  after : UInt8
  deriving DecidableEq, Repr

/-- What `memory_diff` returns. -/
structure Diff where
  snapshot : Snapshot
  changeCount : Nat
  truncated : Bool
  changes : List Change
  -- History: the identity at the bridge when the live bytes were read.
  readFrom : Bytes
  deriving DecidableEq, Repr

inductive Failure
  | command (code : Code) (message : Bytes)
  | connection
  deriving DecidableEq, Repr

/-- Which request a call is waiting for. -/
inductive Task
  | reading (domain : Bytes) (address size : Nat) (name : Option String)
  | identifying (domain : Bytes) (address : Nat) (name : Option String) (data readFrom : Bytes)
  | checking (snapshot : Snapshot) (maxChanges : Nat)
  | rereading (snapshot : Snapshot) (maxChanges : Nat) (checked : Bytes)
  deriving DecidableEq, Repr

/-- The service, and the bridge at the other end. -/
structure Service where
  bridge : Bridge.State
  snapshots : List Snapshot := []
  snapshotNames : List (String × String) := []
  nextSnapshotId : Nat := 1
  tasks : List Task := []
  -- History: what was returned and what was raised by calls that got as far as a request.
  results : List Diff := []
  raised : List Failure := []

def compare (snapshot : Snapshot) (maxChanges : Nat) (current readFrom : Bytes) : Diff :=
  let changes := ((snapshot.data.zip current).zipIdx snapshot.address).filterMap fun entry =>
    if entry.1.1 ≠ entry.1.2 then some ⟨entry.2, displayAddress snapshot.domain entry.2, entry.1.1, entry.1.2⟩ else none
  { snapshot := snapshot
    changeCount := changes.length
    truncated := decide ((changes.take maxChanges).length < changes.length)
    changes := changes.take maxChanges
    readFrom := readFrom }

namespace Service

/-- `memory_snapshot` up to its first request. `name` has been stripped. -/
def memorySnapshot (s : Service) (domain : Bytes) (address size : Nat) (name : Option String) : Service :=
  if name.all (fun name => decide (1 ≤ name.length ∧ name.length ≤ 80)) && regionKnown domain address size then
    { s with tasks := s.tasks ++ [.reading domain address size name] }
  else s

/-- `memory_diff` up to its first request. An alias goes before an id. -/
def memoryDiff (s : Service) (snapshotId : String) (maxChanges : Nat) : Service :=
  let resolved := (s.snapshotNames.lookup snapshotId).getD snapshotId
  if 1 ≤ maxChanges ∧ maxChanges ≤ 65536 then
    match s.snapshots.find? fun x => x.snapshotId == resolved with
    | some snapshot => { s with tasks := s.tasks ++ [.checking snapshot maxChanges] }
    | none => s
  else s

def raise (s : Service) (f : Failure) : Service := { s with raised := s.raised ++ [f] }

def store (s : Service) (domain : Bytes) (address : Nat) (name : Option String) (data readFrom identity : Bytes) : Service :=
  let snapshotId := "snapshot-" ++ toString s.nextSnapshotId
  { s with
    nextSnapshotId := s.nextSnapshotId + 1
    snapshots := s.snapshots ++ [⟨snapshotId, name, domain, address, data, identity, readFrom⟩]
    snapshotNames := (name.map fun name => (name, snapshotId)).toList ++ s.snapshotNames }

/-- The bridge answers a request, and the call goes on to its next or to its end.
`emulator.status` is always answered, with the identity of the ROM. -/
def answer (s : Service) (i : Nat) : Task → Service
  | .reading domain address size name =>
    match readRegion s.bridge domain address size with
    | .ok data => { s with tasks := s.tasks.set i (.identifying domain address name data s.bridge.romSha256) }
    | .error (code, message) => { s.raise (.command code message) with tasks := s.tasks.eraseIdx i }
  | .identifying domain address name data readFrom =>
    { s.store domain address name data readFrom s.bridge.romSha256 with tasks := s.tasks.eraseIdx i }
  | .checking snapshot maxChanges =>
    if s.bridge.romSha256 ≠ snapshot.romSha256 then
      { s.raise (.command .romHashMismatch (ascii "the loaded ROM differs from the ROM used for this snapshot")) with
        tasks := s.tasks.eraseIdx i }
    else { s with tasks := s.tasks.set i (.rereading snapshot maxChanges s.bridge.romSha256) }
  | .rereading snapshot maxChanges _ =>
    match readRegion s.bridge snapshot.domain snapshot.address snapshot.data.length with
    | .ok current =>
      { s with
        tasks := s.tasks.eraseIdx i
        results := s.results ++ [compare snapshot maxChanges current s.bridge.romSha256] }
    | .error (code, message) => { s.raise (.command code message) with tasks := s.tasks.eraseIdx i }

/-- A call begins, its request is answered, its request is lost, or it is
cancelled; or something happens in the emulator. -/
inductive Event
  | bridge (e : Bridge.State.Event)
  | memorySnapshot (domain : Bytes) (address size : Nat) (name : Option String)
  | memoryDiff (snapshotId : String) (maxChanges : Nat)
  | answered (i : Nat)
  | lost (i : Nat)
  | cancelled (i : Nat)

def step (s : Service) : Event → Service
  | .bridge e => { s with bridge := s.bridge.step e }
  | .memorySnapshot domain address size name => s.memorySnapshot domain address size name
  | .memoryDiff snapshotId maxChanges => s.memoryDiff snapshotId maxChanges
  | .answered i =>
    match s.tasks[i]? with
    | some t => s.answer i t
    | none => s
  | .lost i => { s.raise .connection with tasks := s.tasks.eraseIdx i }
  | .cancelled i => { s with tasks := s.tasks.eraseIdx i }

/-- Any calls, in any order, against a bridge in which games come and go. -/
def system : System Service Event where
  init s := ∃ machine, s = { bridge := { machine := machine } }
  enabled s
    | .answered i | .lost i | .cancelled i => i < s.tasks.length
    | _ => True
  step := step

instance system.decidable (s : Service) : (e : Event) → Decidable (system.enabled s e)
  | .answered i | .lost i | .cancelled i => inferInstanceAs (Decidable (i < s.tasks.length))
  | .bridge _ | .memorySnapshot .. | .memoryDiff .. => inferInstanceAs (Decidable True)

end Service

/-- The request that the service sends for a region. -/
structure ReadRequest (document : Document) (id : Nat) (domain : Bytes) (address size : Nat) : Prop where
  id : unsignedField document "id" 0 maximumRequestId = some id
  command : stringField document "command" = some (ascii "memory.read")
  domain : stringField document "domain" = some domain
  address : unsignedField document "address" 0 0xffffff = some address
  size : unsignedField document "size" 1 maximumTransfer = some size

/-- What the service makes of the answer is what the bridge has written into it. -/
theorem dispatch_read (s : Bridge.State) {document : Document} {id : Nat} {domain : Bytes} {address size : Nat}
    (request : ReadRequest document id domain address size) :
    s.dispatch (some document) =
      (match readRegion s domain address size with
        | .ok data =>
          .success id
            (State.field "domain" (quoted domain) ++ State.field "address" (decimal address) ++
              State.field "size" (decimal size) ++ State.field "data" (quoted (encodeHex data)))
        | .error (code, message) => .failure (some id) code message, s) := by
  have named : ascii "memory.read" ≠ [] := by decide
  rw [State.dispatch, request.id]
  dsimp only
  rw [request.command]
  dsimp only
  rw [if_neg named, State.execute, if_neg (by decide)]
  unfold readRegion
  split
  · rfl
  rw [if_neg (by decide), if_neg (by decide), if_neg (by decide)]
  split
  · rfl
  rw [State.debug, if_neg (by decide), if_neg (by decide), if_pos rfl, State.memoryRead, request.domain, request.address,
    request.size]
  dsimp only
  split
  · rfl
  split <;> rfl

end FzeroVs.Sidecar
