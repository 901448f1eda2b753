import FzeroVs.Library.Run
import FzeroVs.Server.Receive

namespace FzeroVs

structure ServerConfig where
  key : List UInt8
  port : Nat
  players : Nat
  track : Nat
  league : Nat
  ownerNonce : UInt64

namespace Server

/-- `fz_server_create` once the socket is bound. `session` is what `random_id`
returned. -/
def create (c : ServerConfig) (session : UInt64) (now : Micros) : Option Server :=
  if c.port < 1 ∨ 65535 < c.port ∨ c.port = 12001 ∨ c.players < 2 ∨ 4 < c.players ∨ 4 < c.track ∨
      2 < c.league ∨ keyMax < c.key.length then none
  else if session = 0 then none
  else
    some
      { session := session
        port := c.port
        ownerNonce := c.ownerNonce
        key := c.key
        tick := now.val
        summary := now.val
        expected := UInt8.ofNat c.players
        track := UInt8.ofNat c.track
        league := UInt8.ofNat c.league }

/-- The 60 Hz barrier and broadcast. `sampled` is the clock inside `snapshot`. -/
def timer (s : Server) (now sampled : Micros) : Server :=
  if s.tick ≤ now.val then
    let s := s.advance now.val
    let s := if s.closed then s else s.snapshot sampled.val
    { s with tick := now.val + 16667 }
  else s

/-- The five-second statistics round with its round-trip probes. -/
def probe (s : Server) (now : Micros) : Server :=
  if 5000000 ≤ now.val - s.summary then
    let s := s.occupiedSlots.foldl (fun s i =>
      (s.modify i fun p => { p with packets := 0, bytes := 0, ping := now.val }).sendPlayer i
        { type := Kind.ping.code, length := 8, payload := put64 now.val }) s
    { s with summary := now.val }
  else s

/-- `fz_server_close`: tell everybody and stop. -/
def close (s : Server) : Server :=
  if s.socket then
    { s.occupiedSlots.foldl (fun s i =>
        s.sendPlayer i { type := Kind.roomClosed.code, length := 1, payload := [1] }) s with
      closed := true
      socket := false }
  else s

structure Incoming where
  readings : Readings
  random : UInt64
  address : Endpoint
  data : List UInt8

/-- The receive loop stops at the first call that closes the room. -/
def drain (s : Server) : List Incoming → Server
  | [] => s
  | d :: rest =>
    if s.closed then s
    else (s.receivePacket d.readings d.random d.address d.data).drain rest

/-- `fz_server_poll` on what the socket yields within the budget. -/
def poll (s : Server) (incoming : List Incoming) (now sampled : Micros) : Server :=
  if s.closed then s else ((s.drain (incoming.take 128)).timer now sampled).probe now

/-- What one call of `fz_server_poll` meets: a `poll` that fails, the datagrams
that the socket yields, and a `recvfrom` that fails once these are read. -/
structure Waiting where
  failed : Bool
  incoming : List Incoming
  broken : Bool
  now : Micros
  sampled : Micros

/-- `fz_server_poll` with its return value: 1 for an open room, 0 for a closed
one and -1 for a broken socket. The socket is read once more after the last
datagram, unless the budget is spent or the room closed. -/
def pollReport (s : Server) (w : Waiting) : Int × Server :=
  if s.closed then (0, s)
  else if w.failed then (-1, s)
  else
    let t := s.drain (w.incoming.take 128)
    if w.broken ∧ w.incoming.length < 128 ∧ t.closed = false then (-1, t)
    else
      let u := (t.timer w.now w.sampled).probe w.now
      (if u.closed then 0 else 1, u)

/-- One call of `receive_packet`, one timer round, one statistics round, or the
end of the room. -/
inductive Event
  | packet (d : Incoming)
  | timer (now sampled : Micros)
  | probe (now : Micros)
  | close

def step (s : Server) : Event → Server
  | .packet d => s.receivePacket d.readings d.random d.address d.data
  | .timer now sampled => s.timer now sampled
  | .probe now => s.probe now
  | .close => s.close

/-- The server against an arbitrary environment: any bytes from any endpoint,
any random numbers, any clock. -/
def system : System Server Event where
  init s := ∃ c session now, create c session now = some s
  enabled _ _ := True
  step := step

theorem drain_reachable {s : Server} (incoming : List Incoming) (reach : system.Reachable s) :
    system.Reachable (s.drain incoming) := by
  induction incoming generalizing s with
  | nil => exact reach
  | cons d rest ih =>
    unfold drain
    split
    · exact reach
    · have received := reach.next (.packet d) trivial trivial
      exact ih received

/-- Whole polls reach nothing that single events do not. -/
theorem poll_reachable {s : Server} (incoming : List Incoming) (now sampled : Micros)
    (reach : system.Reachable s) : system.Reachable (s.poll incoming now sampled) := by
  unfold poll
  split
  · exact reach
  · have drained := drain_reachable (incoming.take 128) reach
    have timed := drained.next (.timer now sampled) trivial trivial
    exact timed.next (.probe now) trivial trivial

/-- The same for a socket that may fail. -/
theorem pollReport_reachable {s : Server} (w : Waiting) (reach : system.Reachable s) :
    system.Reachable (s.pollReport w).2 := by
  unfold pollReport
  split
  · exact reach
  split
  · exact reach
  dsimp only
  have drained := drain_reachable (w.incoming.take 128) reach
  split
  · exact drained
  · have timed := drained.next (.timer w.now w.sampled) trivial trivial
    exact timed.next (.probe w.now) trivial trivial

/-! A dedicated room for two, one second after the clock was started, and a
race of its two guests. -/

def sampleClock : Micros := ⟨1000000, Micros.second_below⟩

def sampleStart : Micros := ⟨3000000, by decide⟩

def sampleRoom : Server where
  session := 7
  port := 12000
  ownerNonce := 0
  key := []
  tick := 1000000
  summary := 1000000
  expected := 2
  track := 0
  league := 0

theorem sampleRoom_init : system.init sampleRoom :=
  ⟨⟨[], 12000, 2, 0, 0, 0⟩, 7, sampleClock, rfl⟩

def sampleGuest : Endpoint := ⟨0x7f000001, 5000⟩

def sampleRival : Endpoint := ⟨0x7f000001, 5001⟩

/-- A HELLO without a password; the server draws `token`. -/
def sampleHello (address : Endpoint) (token : UInt64) : Event :=
  .packet ⟨.at sampleClock, token, address,
    encode maxPacket { type := Kind.hello.code, length := 9, payload := put64 9 ++ [0] }⟩

def samplePacket (kind : Kind) (token : UInt64) (seq : UInt32) (payload : List UInt8) : Packet where
  type := kind.code
  length := UInt16.ofNat payload.length
  session := 7
  token := token
  race := 1
  seq := seq
  payload := payload

def sampleCommand (address : Endpoint) (token : UInt64) (seq : UInt32) (payload : List UInt8) : Event :=
  .packet ⟨.at sampleClock, 0, address, encode maxPacket (samplePacket .command token seq payload)⟩

def sampleJoin : Event := sampleHello sampleGuest 77

theorem sampleJoin_reachable : system.Reachable (sampleRoom.step sampleJoin) :=
  .next sampleJoin (.start sampleRoom_init) trivial trivial

/-- Both guests join, select, load and acknowledge the start. -/
def sampleCountdown : List Event :=
  [sampleJoin, sampleHello sampleRival 78,
    sampleCommand sampleGuest 77 1 [1, 2], sampleCommand sampleRival 78 1 [1, 3],
    sampleCommand sampleGuest 77 2 [2, 1, 0, 2, 0, 3], sampleCommand sampleRival 78 2 [2, 4, 0, 5, 0, 6],
    sampleCommand sampleGuest 77 3 (3 :: put64 3000000), sampleCommand sampleRival 78 3 (3 :: put64 3000000)]

end Server

end FzeroVs
