import FzeroVs.Protocol.Packet
import Mathlib.Logic.Function.Basic

namespace FzeroVs

/-- A reading of the monotonic microsecond clock. The kernel keeps it in a
signed count of nanoseconds, so a reading never reaches the upper half. -/
structure Micros where
  val : UInt64
  below : val.toNat < 2 ^ 63

theorem Micros.second_below : (1000000 : UInt64).toNat < 2 ^ 63 := by decide

/-- The successive `now_us()` values of one `receive_packet` call: at a LOADED
position, at the sender's heartbeat, for `advance` and for `snapshot`. -/
structure Readings where
  applied : Micros
  seen : Micros
  advanced : Micros
  sampled : Micros
  applied_le : applied.val ≤ seen.val
  seen_le : seen.val ≤ advanced.val
  advanced_le : advanced.val ≤ sampled.val

/-- A call that takes less than a microsecond. -/
def Readings.at (now : Micros) : Readings :=
  ⟨now, now, now, now, UInt64.le_refl _, UInt64.le_refl _, UInt64.le_refl _⟩

/-- `sockaddr_in`, as far as `same_address` compares it. -/
structure Endpoint where
  addr : UInt32 := 0
  port : UInt16 := 0
  deriving DecidableEq, Repr

structure Datagram where
  address : Endpoint
  data : List UInt8
  deriving DecidableEq, Repr

/-- A slot of the room; the default value is the zeroed record. -/
structure Player where
  address : Endpoint := {}
  token : UInt64 := 0
  nonce : UInt64 := 0
  seen : UInt64 := 0
  updated : UInt64 := 0
  armed : UInt64 := 0
  commandSeq : UInt32 := 0
  stateSeq : UInt32 := 0
  x : UInt16 := 0
  y : UInt16 := 0
  status : Status := .empty
  car : UInt8 := 0
  orientation : UInt8 := 0
  packets : UInt64 := 0
  bytes : UInt64 := 0
  ping : UInt64 := 0
  deriving DecidableEq, Repr

def Player.occupied (p : Player) : Bool := p.status != .empty && p.status != .disconnected

/-- A command that `receive_packet` took as the next of its stream. -/
structure Consumed where
  token : UInt64
  race : UInt32
  seq : UInt32
  payload : List UInt8
  deriving DecidableEq, Repr

structure Server where
  session : UInt64
  port : Nat
  ownerNonce : UInt64
  key : List UInt8
  socket : Bool := true
  closed : Bool := false
  tick : UInt64 := 0
  summary : UInt64 := 0
  start : UInt64 := 0
  rx : UInt64 := 0
  rejected : UInt64 := 0
  stale : UInt64 := 0
  race : UInt32 := 1
  snapshotSeq : UInt32 := 0
  phase : Phase := .lobby
  expected : UInt8
  host : UInt8 := 255
  track : UInt8
  league : UInt8
  players : Fin 4 → Player := fun _ => {}
  -- History, which no function of the server reads: every datagram handed to
  -- the socket, every command taken, every token given out and to whom.
  sent : List Datagram := []
  consumed : List Consumed := []
  drawn : List (UInt64 × Endpoint) := []

namespace Server

def slots : List (Fin 4) := [0, 1, 2, 3]

theorem mem_slots (i : Fin 4) : i ∈ slots := by
  revert i
  decide

/-- Rewrite one slot in place. -/
def modify (s : Server) (i : Fin 4) (f : Player → Player) : Server :=
  { s with players := Function.update s.players i (f (s.players i)) }

def count (s : Server) : Nat := slots.countP fun i => (s.players i).occupied

def transmit (s : Server) (address : Endpoint) (packet : Packet) : Server :=
  { s with sent := s.sent ++ [⟨address, encode maxPacket packet⟩] }

/-- The header fields that `send_player` fills in for slot `i`. -/
def addressed (s : Server) (i : Fin 4) (packet : Packet) : Packet :=
  { packet with
    session := s.session
    race := s.race
    token := (s.players i).token
    ack := (s.players i).commandSeq }

def sendPlayer (s : Server) (i : Fin 4) (packet : Packet) : Server :=
  s.transmit (s.players i).address (s.addressed i packet)

/-- Bit `i` is set when slot `i` has acknowledged the current start time. -/
def armedFor (s : Server) (i : Fin 4) : Bool :=
  (s.players i).occupied && (s.players i).armed == s.start && s.start != 0

def armedMask (s : Server) : UInt8 :=
  slots.foldl (fun mask i => if s.armedFor i then mask ||| 1 <<< UInt8.ofNat i.val else mask) 0

/-- Milliseconds since the last position, saturated to 32 bits. -/
def age (p : Player) (now : UInt64) : UInt32 :=
  let age := if p.updated ≠ 0 then (now - p.updated) / 1000 else 0
  if 0xffffffff < age then 0xffffffff else age.toUInt32

def record (p : Player) (now : UInt64) : List UInt8 :=
  [p.status.code, p.car] ++ put16 p.x ++ put16 p.y ++ [p.orientation, 0] ++ put32 p.stateSeq ++
    put32 (age p now)

def snapshotPacket (s : Server) (now : UInt64) : Packet where
  type := Kind.snapshot.code
  length := 88
  seq := s.snapshotSeq
  payload := [s.phase.code, s.expected, s.host, s.track, s.league, s.armedMask, 0, 0] ++
    put64 now ++ put64 s.start ++ slots.flatMap fun i => record (s.players i) now

def occupiedSlots (s : Server) : List (Fin 4) := slots.filter fun i => (s.players i).occupied

/-- One numbered picture of the room, sent to everybody in it. -/
def snapshot (s : Server) (now : UInt64) : Server :=
  let s := { s with snapshotSeq := s.snapshotSeq + 1 }
  let packet := s.snapshotPacket now
  s.occupiedSlots.foldl (fun s i => s.sendPlayer i packet) s

/-- A slot at the start of the next race: whoever stayed has only joined. -/
def relobby (p : Player) : Player :=
  if p.occupied then
    { p with status := .joined, x := 0, y := 0, armed := 0, updated := 0, stateSeq := 0 }
  else {}

def beginLobby (s : Server) : Server :=
  { s with race := s.race + 1, start := 0, phase := .lobby, players := fun i => relobby (s.players i) }

/-- The first occupied slot, or 255 in an empty room. -/
def electHost (s : Server) : UInt8 :=
  match slots.find? fun i => (s.players i).occupied with
  | some i => UInt8.ofNat i.val
  | none => 255

def disconnect (s : Server) (i : Fin 4) : Server :=
  s.modify i fun p => { p with status := .disconnected, x := 0, y := 0 }

/-- Pass on the host role and, in the lobby, clear the record for reuse. -/
def vacate (s : Server) (i : Fin 4) : Server :=
  { s with
    host := if s.host.toNat = i.val then s.electHost else s.host
    players := if s.phase = .lobby then Function.update s.players i {} else s.players }

/-- The owner takes the whole room along; any other player only a slot, and
the last one leaves a fresh lobby behind. -/
def drop (s : Server) (i : Fin 4) : Server :=
  let s := s.disconnect i
  if s.ownerNonce ≠ 0 ∧ i = 0 then { s with closed := true }
  else
    let s := s.vacate i
    if s.count = 0 then { s.beginLobby with host := 255 } else s

def allAtLeast (s : Server) (status : Status) : Bool :=
  s.count != 0 && slots.all fun i =>
    !(s.players i).occupied || decide (status.rank ≤ (s.players i).status.rank)

/-- Five seconds of silence. -/
def silent (s : Server) (now : UInt64) (i : Fin 4) : Bool :=
  (s.players i).occupied && decide (5000000 ≤ now - (s.players i).seen)

/-- The timeout loop of `advance`, over any list of slots. -/
def dropEach (now : UInt64) (l : List (Fin 4)) (s : Server) : Server :=
  l.foldl (fun s i => if s.silent now i then s.drop i else s) s

def dropSilent (s : Server) (now : UInt64) : Server := dropEach now slots s

def enterLoading (s : Server) : Server :=
  if s.phase = .lobby ∧ s.count = s.expected.toNat ∧ s.allAtLeast .selected then
    { s with phase := .loading }
  else s

def enterCountdown (s : Server) (now : UInt64) : Server :=
  if s.phase = .loading ∧ s.allAtLeast .loaded then
    { s with
      start := now + 2000000
      phase := .countdown
      players := fun i => { s.players i with armed := 0 } }
  else s

def allArmed (s : Server) : Bool :=
  slots.all fun i => !(s.players i).occupied || (s.players i).armed == s.start

def release (p : Player) : Player := if p.occupied then { p with status := .racing } else p

/-- Reschedule a deadline that is not acknowledged half a second before it, or
start the race once everybody has acknowledged it and it has passed. -/
def countdown (s : Server) (now : UInt64) : Server :=
  if s.phase = .countdown then
    if ¬ s.allArmed ∧ s.start ≤ now + 500000 then { s with start := now + 2000000 }
    else if s.allArmed ∧ s.start ≤ now then
      { s with phase := .racing, players := fun i => release (s.players i) }
    else s
  else s

def enterResults (s : Server) : Server :=
  if s.phase = .racing ∧ s.allAtLeast .finished then { s with phase := .results } else s

def passBarriers (s : Server) (now : UInt64) : Server :=
  ((s.enterLoading.enterCountdown now).countdown now).enterResults

def advance (s : Server) (now : UInt64) : Server :=
  let s := s.dropSilent now
  if s.closed then s else s.passBarriers now

end Server

end FzeroVs
