import FzeroVs.Protocol.Packet
import Mathlib.Logic.Function.Basic

namespace FzeroVs

/-- The part of the client's configuration that the protocol reads. -/
structure ClientConfig where
  key : List UInt8 := []
  ownerNonce : UInt64 := 0
  autoNext : Bool := false
  baseline : Bool := false
  deriving DecidableEq, Repr

inductive Game
  | init | carSelect | waiting | prepare | location | race | finished | results | disconnected
  deriving DecidableEq, Repr

structure Peer where
  status : Status := .empty
  car : UInt8 := 0
  orientation : UInt8 := 0
  x : UInt16 := 0
  y : UInt16 := 0
  seq : UInt32 := 0
  age : UInt32 := 0
  deriving DecidableEq, Repr

def Peer.occupied (p : Peer) : Bool := p.status != .empty && p.status != .disconnected

structure Snapshot where
  time : UInt64
  peers : Fin 4 → Peer

/-- A command waiting for its acknowledgement and when it was last sent. -/
structure Pending where
  packet : Packet
  sent : UInt64 := 0
  deriving DecidableEq, Repr

/-- A command the client has numbered, with the generation it was in. -/
structure Issued where
  race : UInt32
  seq : UInt32
  payload : List UInt8
  deriving DecidableEq, Repr

/-- The fields of a SNAPSHOT that passes the client's range checks. -/
structure Picture where
  phase : Phase
  expected : UInt8
  host : UInt8
  track : UInt8
  league : UInt8
  armedMask : UInt8
  time : UInt64
  start : UInt64
  peers : Fin 4 → Peer

structure Client where
  config : ClientConfig := {}
  memory : Bool := false
  socket : Bool := false
  id : Option (Fin 4) := none
  session : UInt64 := 0
  token : UInt64 := 0
  nonce : UInt64 := 0
  lastRecv : UInt64 := 0
  lastHello : UInt64 := 0
  lastPing : UInt64 := 0
  startTime : UInt64 := 0
  armedTime : UInt64 := 0
  resultsTime : UInt64 := 0
  race : UInt32 := 0
  commandSeq : UInt32 := 0
  stateSeq : UInt32 := 0
  snapshotSeq : UInt32 := 0
  phase : Phase := .lobby
  host : UInt8 := 255
  expected : UInt8 := 2
  track : UInt8 := 0
  league : UInt8 := 0
  armedMask : UInt8 := 0
  car : UInt8 := 0
  stale : UInt64 := 0
  retries : UInt64 := 0
  gaps : UInt64 := 0
  snapshots : UInt64 := 0
  peers : Fin 4 → Peer := fun _ => {}
  snapshotBuffer : List Snapshot := []
  game : Game := .init
  loadedSent : Bool := false
  selectedSent : Bool := false
  finishedSent : Bool := false
  pending : List Pending := []
  requests : List (List UInt8) := []
  -- History since the attach, which no function of the client reads: every
  -- datagram sent, every command numbered, every snapshot accepted.
  sent : List (List UInt8) := []
  issued : List Issued := []
  accepted : List Packet := []

namespace Client

/-- A user interface action, kept for the next tick. -/
def request (c : Client) (command : UInt8) (data : List UInt8) : Client :=
  if c.requests.length < 8 then { c with requests := c.requests ++ [command :: data] } else c

/-- The header fields that `send` fills in. -/
def stamped (c : Client) (packet : Packet) : Packet :=
  { packet with session := c.session, token := c.token, race := c.race }

def send (c : Client) (packet : Packet) : Client :=
  if c.socket then { c with sent := c.sent ++ [encode maxPacket (c.stamped packet)] } else c

def commandPacket (seq : UInt32) (command : List UInt8) : Packet where
  type := Kind.command.code
  length := UInt16.ofNat command.length
  seq := seq
  payload := command

/-- Number a command and remember it. -/
def issue (c : Client) (command : List UInt8) : Client :=
  { c with
    commandSeq := c.commandSeq + 1
    issued := c.issued ++ [⟨c.race, c.commandSeq + 1, command⟩] }

/-- Nothing is queued by a client that has not joined, behind eight waiting
commands, or beyond the payload of a packet. -/
def queue (c : Client) (command : List UInt8) : Client :=
  if c.id = none ∨ 8 ≤ c.pending.length ∨ maxPacket - headerSize < command.length then c
  else
    { c.issue command with
      pending := c.pending ++ [{ packet := commandPacket (c.commandSeq + 1) command }] }

def failure (c : Client) : Client :=
  { c with socket := false, snapshotBuffer := [], game := .disconnected }

def resetGame (c : Client) : Client :=
  { c with
    snapshotBuffer := []
    game := .init
    selectedSent := false
    loadedSent := false
    finishedSent := false
    armedTime := 0
    startTime := 0
    car := 0 }

def detach (c : Client) : Client :=
  let c :=
    if c.socket then
      let c :=
        if c.id ≠ none ∧ c.pending = [] then
          (c.issue [Command.leave.code]).send (commandPacket (c.commandSeq + 1) [Command.leave.code])
        else c
      { c with socket := false }
    else c
  { c with
    memory := false
    id := none
    pending := []
    snapshotBuffer := []
    game := .init
    requests := [] }

/-- `random` is the nonce read from the random source, `none` when the address,
the socket or the random source fails. The new socket has a history of its own. -/
def attach (c : Client) (random : Option UInt64) (now : UInt64) : Client :=
  let c := { c.detach with memory := true, sent := [], issued := [], accepted := [] }
  match random with
  | some random =>
    if keyMax < c.config.key.length then c.failure
    else
      { c with
        socket := true
        nonce := if c.config.ownerNonce ≠ 0 then c.config.ownerNonce else random
        session := 0
        token := 0
        id := none
        race := 0
        commandSeq := 0
        stateSeq := 0
        snapshotSeq := 0
        phase := .lobby
        lastRecv := now
        lastHello := 0
        lastPing := 0
        stale := 0
        retries := 0
        gaps := 0
        snapshots := 0
        peers := fun _ => {}
        pending := [] }.resetGame
  | none => c.failure

end Client

end FzeroVs
