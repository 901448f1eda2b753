import FzeroVs.Client.State

namespace FzeroVs

/-- Record `i` of a SNAPSHOT, if its status and car are in range. -/
def readPeer (p : Packet) (i : Fin 4) : Option Peer :=
  let q := p.payload.drop (24 + i.val * 16)
  match Status.ofCode (q.getD 0 0) with
  | none => none
  | some status =>
    if 3 < q.getD 1 0 then none
    else
      some
        { status := status
          car := q.getD 1 0
          orientation := q.getD 6 0
          x := u16 (q.drop 2)
          y := u16 (q.drop 4)
          seq := u32 (q.drop 8)
          age := u32 (q.drop 12) }

def readPeers (p : Packet) : Option (Fin 4 → Peer) :=
  if ∀ i, (readPeer p i).isSome then some fun i => (readPeer p i).getD {} else none

/-- The range checks of `receive` on a SNAPSHOT. -/
def readPicture (p : Packet) : Option Picture :=
  if p.type ≠ Kind.snapshot.code ∨ p.length ≠ 88 ∨ p.byte 1 < 2 ∨ 4 < p.byte 1 ∨
      (3 < p.byte 2 ∧ p.byte 2 ≠ 255) ∨ 4 < p.byte 3 ∨ 2 < p.byte 4 then none
  else
    match Phase.ofCode (p.byte 0), readPeers p with
    | some phase, some peers =>
      some
        { phase := phase
          expected := p.byte 1
          host := p.byte 2
          track := p.byte 3
          league := p.byte 4
          armedMask := p.byte 5
          time := u64 (p.payload.drop 8)
          start := u64 (p.payload.drop 16)
          peers := peers }
    | _, _ => none

namespace Client

def join (c : Client) (t : UInt64) (p : Packet) (i : Fin 4) : Client :=
  { c with
    id := some i
    session := p.session
    token := p.token
    race := p.race
    commandSeq := p.ack
    lastRecv := t }

/-- Whether the acknowledgement covers the command. -/
def covered (ack : UInt32) (p : Pending) : Bool := ack == p.packet.seq || newer ack p.packet.seq

/-- A SNAPSHOT of another generation starts the client over. -/
def newRace (c : Client) (p : Packet) : Client :=
  if p.race ≠ c.race then
    { c with race := p.race, commandSeq := p.ack, stateSeq := 0, pending := [] }.resetGame
  else c

/-- The newest at most sixteen pictures. -/
def bufferSnapshot (c : Client) (time : UInt64) : Client :=
  let buffer := c.snapshotBuffer ++ [⟨time, c.peers⟩]
  { c with snapshotBuffer := buffer.drop (buffer.length - 16) }

def display (c : Client) (v : Picture) : Client :=
  { c with
    phase := v.phase
    expected := v.expected
    host := v.host
    track := v.track
    league := v.league
    armedMask := v.armedMask
    startTime := v.start
    peers := v.peers }

/-- Acknowledge a start time that has not been acknowledged yet. -/
def arm (c : Client) : Client :=
  if c.phase = .countdown ∧ c.startTime ≠ c.armedTime then
    { c.queue (Command.arm.code :: put64 c.startTime) with armedTime := c.startTime }
  else c

/-- Take over an accepted SNAPSHOT. -/
def settle (c : Client) (t : UInt64) (p : Packet) (v : Picture) : Client :=
  let delta := p.seq - c.snapshotSeq
  let c :=
    { c with
      gaps := if c.snapshotSeq ≠ 0 ∧ delta < 10000 then c.gaps + (delta - 1).toUInt64 else c.gaps
      snapshotSeq := p.seq
      snapshots := c.snapshots + 1
      lastRecv := t
      pending := c.pending.dropWhile (covered p.ack)
      accepted := c.accepted ++ [p] }
  ((c.newRace p).display v).bufferSnapshot v.time

def accept (c : Client) (t : UInt64) (p : Packet) (v : Picture) : Client := (c.settle t p v).arm

/-- The sequence and generation test of `receive`. -/
def fresh (c : Client) (p : Packet) : Bool :=
  newer p.seq c.snapshotSeq && (p.race == c.race || newer p.race c.race)

def receiveSnapshot (c : Client) (t : UInt64) (p : Packet) : Client :=
  match readPicture p with
  | none => c
  | some v => if c.fresh p then c.accept t p v else { c with stale := c.stale + 1 }

def receive (c : Client) (t : UInt64) (p : Packet) : Client :=
  if c.id = none ∧ p.is .joinReject ∧ p.length = 9 ∧ u64 p.payload = c.nonce then c.failure
  else if p.is .welcome ∧ p.length = 9 ∧ u64 (p.payload.drop 1) = c.nonce ∧ p.byte 0 < 4 ∧
      p.session ≠ 0 ∧ p.token ≠ 0 then
    match c.id with
    | some _ => c
    | none => c.join t p (Fin.ofNat 4 (p.byte 0).toNat)
  else if c.id = none ∨ p.session ≠ c.session ∨ p.token ≠ c.token then c
  else if p.is .roomClosed ∧ p.length = 1 then c.failure
  else if p.is .ping ∧ p.length = 8 then
    { c.send { type := Kind.pong.code, length := 8, payload := p.payload.take 8 } with lastRecv := t }
  else if p.is .pong ∧ p.length = 16 then
    let sent := u64 p.payload
    if t < sent ∨ 5000000 < t - sent then c else { c with lastRecv := t }
  else c.receiveSnapshot t p

/-- One datagram of the receive loop, which ends with the socket. -/
def hear (c : Client) (t : UInt64) (data : List UInt8) : Client :=
  if c.socket then
    match decode data with
    | some p => c.receive t p
    | none => c
  else c

def hello (c : Client) (t : UInt64) : Client :=
  if 250000 < t - c.lastHello then
    { c.send
        { type := Kind.hello.code
          length := UInt16.ofNat (9 + c.config.key.length)
          payload := put64 c.nonce ++ [UInt8.ofNat c.config.key.length] ++ c.config.key } with
      lastHello := t }
  else c

/-- Queue what the user interface has asked for. -/
def takeRequests (c : Client) : Client :=
  c.requests.foldl queue { c with requests := [] }

/-- Send the first waiting command, four times a second. -/
def retransmit (c : Client) (t : UInt64) : Client :=
  match c.pending with
  | [] => c
  | p :: rest =>
    if 250000 ≤ t - p.sent then
      { (if p.sent ≠ 0 then { c with retries := c.retries + 1 } else c).send p.packet with
        pending := { p with sent := t } :: rest }
    else c

def ping (c : Client) (t : UInt64) : Client :=
  if 500000 ≤ t - c.lastPing then
    { c.send { type := Kind.ping.code, length := 8, payload := put64 t } with lastPing := t }
  else c

/-- Ask for admission, or serve the command queue and the clock. -/
def serve (c : Client) (t : UInt64) : Client :=
  match c.id with
  | none => c.hello t
  | some _ => (c.takeRequests.retransmit t).ping t

/-- `tick` after its receive loop. -/
def pulse (c : Client) (t : UInt64) : Client :=
  let c := c.serve t
  if (if c.id = none then 10000000 else 5000000) < t - c.lastRecv then c.failure else c

/-- What the socket yields, each datagram with the clock at which it is handled. -/
def tick (c : Client) (incoming : List (UInt64 × List UInt8)) (t : UInt64) : Client :=
  if c.socket = false ∨ c.game = .disconnected then c
  else
    let c := (incoming.take 128).foldl (fun c d => c.hear d.1 d.2) c
    if c.socket = false ∨ c.game = .disconnected then c else c.pulse t

end Client

end FzeroVs
