import FzeroVs.Server.State

namespace FzeroVs.Server

def reject (s : Server) : Server := { s with rejected := s.rejected + 1 }

def countRx (s : Server) : Server := { s with rx := s.rx + 1 }

def countStale (s : Server) : Server := { s with stale := s.stale + 1 }

def welcomePacket (s : Server) (i : Fin 4) : Packet where
  type := Kind.welcome.code
  length := 9
  payload := UInt8.ofNat i.val :: put64 (s.players i).nonce

def welcome (s : Server) (i : Fin 4) : Server := s.sendPlayer i (s.welcomePacket i)

def joinError (s : Server) (address : Endpoint) (nonce : UInt64) (reason : Reject) : Server :=
  s.reject.transmit address
    { type := Kind.joinReject.code
      length := 9
      payload := put64 nonce ++ [reason.code] }

/-- A HELLO that is well formed except for its protocol version. -/
def versionMismatch (data : List UInt8) : Bool :=
  decide (headerSize + 9 ≤ data.length) && decide (data.length ≤ maxPacket) &&
    data.take 4 == magic && data.getD 5 0 == Kind.hello.code && data.getD 4 0 != version &&
    (u16 (data.drop 6)).toNat == data.length - headerSize

/-- The record of a newcomer in slot `i`, who hosts a room that has no host. -/
def seat (s : Server) (r : Readings) (token : UInt64) (address : Endpoint) (nonce : UInt64)
    (i : Fin 4) : Server :=
  let s := s.modify i fun _ =>
    { address := address, token := token, nonce := nonce, seen := r.seen.val, status := .joined }
  { s with
    host := if s.host = 255 then UInt8.ofNat i.val else s.host
    drawn := s.drawn ++ [(token, address)] }

/-- Put a newcomer into the free slot `i`. `random` is what `random_id`
returned, zero standing for an unreadable random source: the slot, already
cleared and addressed, then stays empty. -/
def enroll (s : Server) (r : Readings) (random : UInt64) (address : Endpoint) (nonce : UInt64)
    (i : Fin 4) : Server :=
  if random = 0 then s.modify i fun _ => { address := address }
  else ((s.seat r random address nonce i).welcome i).snapshot r.sampled.val

def receiveHello (s : Server) (r : Readings) (random : UInt64) (address : Endpoint)
    (packet : Packet) : Server :=
  if packet.length.toNat < 9 ∨ keyMax < (packet.byte 8).toNat ∨
      packet.length.toNat ≠ 9 + (packet.byte 8).toNat then s.reject
  else
    let nonce := u64 packet.payload
    if (packet.byte 8).toNat ≠ s.key.length ∨
        (packet.payload.drop 9).take (packet.byte 8).toNat ≠ s.key then
      s.joinError address nonce .password
    else if s.ownerNonce ≠ 0 ∧ ¬ (s.players 0).occupied ∧ nonce ≠ s.ownerNonce then
      s.joinError address nonce .starting
    else
      match slots.find? fun i => (s.players i).occupied && address == (s.players i).address with
      | some i => if nonce = (s.players i).nonce then s.welcome i else s
      | none =>
        if s.phase ≠ .lobby then s.joinError address nonce .racing
        else if s.expected.toNat ≤ s.count then s.joinError address nonce .full
        else
          match slots.find? fun i => !(s.players i).occupied with
          | some i => s.enroll r random address nonce i
          | none => s

/-- The slot whose session, token and endpoint the packet carries. -/
def authenticate (s : Server) (address : Endpoint) (packet : Packet) : Option (Fin 4) :=
  slots.find? fun i => (s.players i).occupied && packet.session == s.session &&
    packet.token == (s.players i).token && address == (s.players i).address

def receiveState (s : Server) (r : Readings) (i : Fin 4) (packet : Packet) (size : Nat) : Server :=
  if packet.length ≠ 5 ∨ s.phase ≠ .racing ∨ (s.players i).status ≠ .racing then s.reject
  else if ¬ newer packet.seq (s.players i).stateSeq then s.countStale
  else
    s.modify i fun p =>
      { p with
        stateSeq := packet.seq
        x := u16 packet.payload
        y := u16 (packet.payload.drop 2)
        orientation := packet.byte 4
        updated := r.seen.val
        seen := r.seen.val
        packets := p.packets + 1
        bytes := p.bytes + UInt64.ofNat size }

/-- Whether the command in the packet may be applied in the present state. -/
def commandValid (s : Server) (i : Fin 4) (packet : Packet) : Bool :=
  match Command.ofCode (packet.byte 0) with
  | some .select => packet.length == 2 && decide (packet.byte 1 < 4) && s.phase == .lobby
  | some .loaded => packet.length == 6 && s.phase == .loading
  | some .arm => packet.length == 9 && s.phase == .countdown && u64 (packet.payload.drop 1) == s.start
  | some .finish =>
    packet.length == 1 && s.phase == .racing && (s.players i).status == .racing
  | some .next =>
    packet.length == 1 && i.val == s.host.toNat && (s.phase == .results || s.phase == .lobby)
  | some .config =>
    packet.length == 4 && i.val == s.host.toNat && s.phase == .lobby &&
      decide (2 ≤ packet.byte 1) && decide (packet.byte 1 ≤ 4) &&
      decide (s.count ≤ (packet.byte 1).toNat) && decide (packet.byte 2 < 5) &&
      decide (packet.byte 3 < 3)
  | some .leave => packet.length == 1
  | none => false

/-- The assignments of the `switch` for a valid command. -/
def commandEffect (s : Server) (r : Readings) (i : Fin 4) (packet : Packet) : Server :=
  match Command.ofCode (packet.byte 0) with
  | some .select => s.modify i fun p => { p with car := packet.byte 1, status := .selected }
  | some .loaded =>
    s.modify i fun p =>
      { p with
        x := u16 (packet.payload.drop 1)
        y := u16 (packet.payload.drop 3)
        orientation := packet.byte 5
        status := .loaded
        updated := r.applied.val }
  | some .arm => s.modify i fun p => { p with armed := s.start }
  | some .finish => s.modify i fun p => { p with status := .finished, x := 0, y := 0 }
  | some .config =>
    { s with expected := packet.byte 1, track := packet.byte 2, league := packet.byte 3 }
  | some .next => s
  | some .leave => s
  | none => s

/-- Advance the sender's command sequence, whether or not the command is valid. -/
def acknowledge (s : Server) (r : Readings) (i : Fin 4) (packet : Packet) : Server :=
  { s.modify i fun p => { p with commandSeq := packet.seq, seen := r.seen.val } with
    consumed := s.consumed ++ [⟨(s.players i).token, packet.race, packet.seq, packet.body⟩] }

/-- NEXT and LEAVE act after the acknowledgement. -/
def commandTail (s : Server) (i : Fin 4) (packet : Packet) : Server :=
  match Command.ofCode (packet.byte 0) with
  | some .next => s.beginLobby
  | some .leave => s.drop i
  | _ => s

def commandError (s : Server) (i : Fin 4) (packet : Packet) : Server :=
  s.reject.sendPlayer i
    { type := Kind.error.code
      length := 2
      payload := [packet.byte 0, 1] }

/-- Apply or refuse the next command of slot `i`. -/
def takeCommand (s : Server) (r : Readings) (i : Fin 4) (packet : Packet) : Server :=
  if s.commandValid i packet then
    ((s.commandEffect r i packet).acknowledge r i packet).commandTail i packet
  else (s.acknowledge r i packet).commandError i packet

def receiveCommand (s : Server) (r : Readings) (i : Fin 4) (packet : Packet) : Server :=
  ((s.takeCommand r i packet).advance r.advanced.val).snapshot r.sampled.val

def receivePong (s : Server) (r : Readings) (i : Fin 4) : Server :=
  s.modify i fun p => { p with ping := 0, seen := r.seen.val }

def receivePing (s : Server) (r : Readings) (i : Fin 4) (packet : Packet) : Server :=
  (s.modify i fun p => { p with seen := r.seen.val }).sendPlayer i
    { type := Kind.pong.code
      length := 16
      payload := packet.payload.take 8 ++ put64 r.seen.val }

/-- A packet that slot `i` has authenticated. -/
def receiveFrom (s : Server) (r : Readings) (i : Fin 4) (packet : Packet) (size : Nat) : Server :=
  if packet.is .pong ∧ packet.length = 8 ∧ (s.players i).ping ≠ 0 ∧
      u64 packet.payload = (s.players i).ping then s.receivePong r i
  else if packet.is .ping ∧ packet.length = 8 then s.receivePing r i packet
  else if packet.race ≠ s.race then s.countStale
  else if packet.is .state then s.receiveState r i packet size
  else if ¬ packet.is .command ∨ packet.length.toNat < 1 then s.reject
  else if ¬ newer packet.seq (s.players i).commandSeq then s.countStale
  else if packet.seq ≠ (s.players i).commandSeq + 1 then s.reject
  else s.receiveCommand r i packet

def receivePacket (s : Server) (r : Readings) (random : UInt64) (address : Endpoint)
    (data : List UInt8) : Server :=
  match decode data with
  | none =>
    if versionMismatch data then s.joinError address (u64 (data.drop headerSize)) .version
    else s.reject
  | some packet =>
    if s.closed then s
    else
      let s := s.countRx
      if packet.is .hello then s.receiveHello r random address packet
      else
        match s.authenticate address packet with
        | none => s.reject
        | some i => s.receiveFrom r i packet data.length

end FzeroVs.Server
