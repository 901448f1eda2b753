import FzeroVs.Library.Clock
import FzeroVs.Server.Advance

namespace FzeroVs

/-- No time stored in the slot is later than `now`. -/
structure Player.Behind (p : Player) (now : Nat) : Prop where
  seen : p.seen.toNat ≤ now
  updated : p.updated.toNat ≤ now
  ping : p.ping.toNat ≤ now

namespace Server

/-- No time stored in the room is later than `now`. -/
structure Behind (s : Server) (now : Nat) : Prop where
  players : ∀ i, (s.players i).Behind now
  summary : s.summary.toNat ≤ now

theorem Behind.mono {s : Server} {now later : Nat} (behind : s.Behind now) (order : now ≤ later) : s.Behind later where
  players i := ⟨(behind.players i).seen.trans order, (behind.players i).updated.trans order,
    (behind.players i).ping.trans order⟩
  summary := behind.summary.trans order

theorem Behind.congr {s t : Server} {now : Nat} (behind : s.Behind now) (players : t.players = s.players)
    (summary : t.summary = s.summary) : t.Behind now where
  players := by
    rw [players]
    exact behind.players
  summary := by
    rw [summary]
    exact behind.summary

theorem Behind.modify {s : Server} {now : Nat} (behind : s.Behind now) {i : Fin 4} {f : Player → Player}
    (keeps : (f (s.players i)).Behind now) : (s.modify i f).Behind now where
  players j := by
    rw [modify_players]
    split
    · exact keeps
    · exact behind.players j
  summary := behind.summary

theorem Player.behind_empty (now : Nat) : ({} : Player).Behind now :=
  ⟨Nat.zero_le _, Nat.zero_le _, Nat.zero_le _⟩

theorem Behind.disconnect {s : Server} {now : Nat} (behind : s.Behind now) (i : Fin 4) : (s.disconnect i).Behind now := by
  obtain ⟨seen, updated, ping⟩ := behind.players i
  exact behind.modify ⟨seen, updated, ping⟩

theorem Behind.vacate {s : Server} {now : Nat} (behind : s.Behind now) (i : Fin 4) : (s.vacate i).Behind now where
  players j := by
    simp only [Server.vacate]
    split
    · by_cases own : j = i
      · rw [own, Function.update_self]
        exact Player.behind_empty now
      · rw [Function.update_of_ne own]
        exact behind.players j
    · exact behind.players j
  summary := behind.summary

theorem Behind.beginLobby {s : Server} {now : Nat} (behind : s.Behind now) : s.beginLobby.Behind now where
  players i := by
    obtain ⟨seen, _, ping⟩ := behind.players i
    simp only [Server.beginLobby, relobby]
    split
    · exact ⟨seen, Nat.zero_le _, ping⟩
    · exact Player.behind_empty now
  summary := behind.summary

theorem Behind.drop {s : Server} {now : Nat} (behind : s.Behind now) (i : Fin 4) : (s.drop i).Behind now := by
  have left := (behind.disconnect i).vacate i
  rcases s.drop_cases i with ⟨same, _⟩ | ⟨same, _⟩ | ⟨same, _⟩
  · rw [same]
    exact (behind.disconnect i).congr rfl rfl
  · rw [same]
    exact left
  · rw [same]
    exact left.beginLobby.congr rfl rfl

theorem Behind.dropEach {s : Server} {now : Nat} (behind : s.Behind now) (time : UInt64) (l : List (Fin 4)) :
    (dropEach time l s).Behind now :=
  dropEach_invariant (P := fun t => t.Behind now) behind fun _ i _ behind => behind.drop i

theorem Behind.passBarriers {s : Server} {now : Nat} (behind : s.Behind now) (time : UInt64) :
    (s.passBarriers time).Behind now := by
  have loading {s : Server} (behind : s.Behind now) : s.enterLoading.Behind now := by
    unfold enterLoading
    split
    · exact behind.congr rfl rfl
    · exact behind
  have counting {s : Server} (behind : s.Behind now) : (s.enterCountdown time).Behind now := by
    unfold enterCountdown
    split
    · exact ⟨fun i => ⟨(behind.players i).seen, (behind.players i).updated, (behind.players i).ping⟩, behind.summary⟩
    · exact behind
  have starting {s : Server} (behind : s.Behind now) : (s.countdown time).Behind now := by
    unfold countdown
    split
    · split
      · exact behind.congr rfl rfl
      · split
        · refine ⟨fun i => ?_, behind.summary⟩
          dsimp only
          unfold release
          split
          · exact ⟨(behind.players i).seen, (behind.players i).updated, (behind.players i).ping⟩
          · exact behind.players i
        · exact behind
    · exact behind
  have finishing {s : Server} (behind : s.Behind now) : s.enterResults.Behind now := by
    unfold enterResults
    split
    · exact behind.congr rfl rfl
    · exact behind
  exact finishing (starting (counting (loading behind)))

theorem Behind.advance {s : Server} {now : Nat} (behind : s.Behind now) (time : UInt64) :
    (s.advance time).Behind now := by
  have dropped : (s.dropSilent time).Behind now := behind.dropEach time slots
  by_cases closed : (s.dropSilent time).closed = true
  · rw [Server.advance, if_pos closed]
    exact dropped
  · rw [Server.advance, if_neg closed]
    exact dropped.passBarriers time

theorem Behind.snapshot {s : Server} {now : Nat} (behind : s.Behind now) (time : UInt64) : (s.snapshot time).Behind now :=
  behind.congr (s.snapshot_players time) (by rw [snapshot_eq])

theorem Behind.seat {s : Server} {now : Nat} (behind : s.Behind now) (r : Readings) (token : UInt64)
    (address : Endpoint) (nonce : UInt64) (i : Fin 4) (reading : r.seen.val.toNat ≤ now) :
    (s.seat r token address nonce i).Behind now :=
  (behind.modify (i := i) (f := fun _ =>
    { address := address, token := token, nonce := nonce, seen := r.seen.val, status := .joined })
    ⟨reading, Nat.zero_le _, Nat.zero_le _⟩).congr rfl rfl

theorem Behind.enroll {s : Server} {now : Nat} (behind : s.Behind now) (r : Readings) (random : UInt64)
    (address : Endpoint) (nonce : UInt64) (i : Fin 4) (reading : r.seen.val.toNat ≤ now) :
    (s.enroll r random address nonce i).Behind now := by
  unfold Server.enroll
  split
  · exact behind.modify ⟨Nat.zero_le _, Nat.zero_le _, Nat.zero_le _⟩
  · have seated := behind.seat r random address nonce i reading
    exact (seated.congr (t := (s.seat r random address nonce i).welcome i) rfl rfl).snapshot _

theorem Behind.receiveHello {s : Server} {now : Nat} (behind : s.Behind now) (r : Readings) (random : UInt64)
    (address : Endpoint) (packet : Packet) (reading : r.seen.val.toNat ≤ now) :
    (s.receiveHello r random address packet).Behind now := by
  unfold Server.receiveHello
  split
  · exact behind.congr rfl rfl
  dsimp only
  split
  · exact behind.congr rfl rfl
  split
  · exact behind.congr rfl rfl
  split
  · split
    · exact behind.congr rfl rfl
    · exact behind
  split
  · exact behind.congr rfl rfl
  split
  · exact behind.congr rfl rfl
  split
  · exact behind.enroll r random address _ _ reading
  · exact behind

theorem Behind.commandEffect {s : Server} {now : Nat} (behind : s.Behind now) (r : Readings) (i : Fin 4)
    (packet : Packet) (reading : r.applied.val.toNat ≤ now) : (s.commandEffect r i packet).Behind now := by
  obtain ⟨seen, updated, ping⟩ := behind.players i
  unfold Server.commandEffect
  cases Command.ofCode (packet.byte 0) with
  | none => exact behind
  | some command =>
    cases command
    case select => exact behind.modify ⟨seen, updated, ping⟩
    case loaded => exact behind.modify ⟨seen, reading, ping⟩
    case arm => exact behind.modify ⟨seen, updated, ping⟩
    case finish => exact behind.modify ⟨seen, updated, ping⟩
    case config => exact behind.congr rfl rfl
    all_goals exact behind

theorem Behind.acknowledge {s : Server} {now : Nat} (behind : s.Behind now) (r : Readings) (i : Fin 4)
    (packet : Packet) (reading : r.seen.val.toNat ≤ now) : (s.acknowledge r i packet).Behind now := by
  obtain ⟨_, updated, ping⟩ := behind.players i
  exact (behind.modify (i := i) (f := fun p => { p with commandSeq := packet.seq, seen := r.seen.val })
    ⟨reading, updated, ping⟩).congr rfl rfl

theorem Behind.takeCommand {s : Server} {now : Nat} (behind : s.Behind now) (r : Readings) (i : Fin 4)
    (packet : Packet) (reading : r.seen.val.toNat ≤ now) : (s.takeCommand r i packet).Behind now := by
  have before : r.applied.val.toNat ≤ now := (UInt64.le_iff_toNat_le.mp r.applied_le).trans reading
  unfold Server.takeCommand
  split
  · have applied := (behind.commandEffect r i packet before).acknowledge r i packet reading
    unfold Server.commandTail
    split
    · exact applied.beginLobby
    · exact applied.drop i
    · exact applied
  · exact (behind.acknowledge r i packet reading).congr rfl rfl

theorem Behind.receiveFrom {s : Server} {now : Nat} (behind : s.Behind now) (r : Readings) (i : Fin 4)
    (packet : Packet) (size : Nat) (reading : r.seen.val.toNat ≤ now) :
    (s.receiveFrom r i packet size).Behind now := by
  obtain ⟨seen, updated, ping⟩ := behind.players i
  unfold Server.receiveFrom
  split
  · exact behind.modify ⟨reading, updated, Nat.zero_le _⟩
  split
  · exact (behind.modify (i := i) (f := fun p => { p with seen := r.seen.val }) ⟨reading, updated, ping⟩).congr rfl rfl
  split
  · exact behind.congr rfl rfl
  split
  · unfold Server.receiveState
    split
    · exact behind.congr rfl rfl
    split
    · exact behind.congr rfl rfl
    · exact behind.modify ⟨reading, reading, ping⟩
  split
  · exact behind.congr rfl rfl
  split
  · exact behind.congr rfl rfl
  split
  · exact behind.congr rfl rfl
  · exact ((behind.takeCommand r i packet reading).advance _).snapshot _

theorem Behind.receivePacket {s : Server} {now : Nat} (behind : s.Behind now) (r : Readings) (random : UInt64)
    (address : Endpoint) (data : List UInt8) (reading : r.seen.val.toNat ≤ now) :
    (s.receivePacket r random address data).Behind now := by
  unfold Server.receivePacket
  split
  · split
    · exact behind.congr rfl rfl
    · exact behind.congr rfl rfl
  · split
    · exact behind
    have counted : s.countRx.Behind now := behind.congr rfl rfl
    dsimp only
    split
    · exact counted.receiveHello r random address _ reading
    · split
      · exact counted.congr rfl rfl
      · exact counted.receiveFrom r _ _ _ reading

/-- A place of the code that subtracts stored times from the clock, with the
state and the reading that it has there. -/
inductive Moment
  | advance (s : Server) (now : Micros)
  | snapshot (s : Server) (now : Micros)
  | pong (ping : UInt64) (t : Micros)
  | statistics (s : Server) (now : Micros)
  | status (s : Server) (now : Micros)

/-- The subtractions of the timeout loop, which may drop players on its way. -/
def silences (now : UInt64) : List (Fin 4) → Server → List (UInt64 × UInt64)
  | [], _ => []
  | i :: rest, s =>
    (if (s.players i).occupied then [(now, (s.players i).seen)] else []) ++
      silences now rest (if s.silent now i then s.drop i else s)

/-- The ages of the positions in these slots. -/
def ages (now : UInt64) (l : List (Fin 4)) (s : Server) : List (UInt64 × UInt64) :=
  (l.filter fun i => (s.players i).updated != 0).map fun i => (now, (s.players i).updated)

/-- The subtractions made at that place, minuend first. -/
def Moment.differences : Moment → List (UInt64 × UInt64)
  | .advance s now => silences now.val slots s
  | .snapshot s now => ages now.val slots s
  | .pong ping t => [(t.val, ping)]
  | .statistics s now =>
    (now.val, s.summary) :: if 5000000 ≤ now.val - s.summary then ages now.val s.occupiedSlots s else []
  | .status s now => ages now.val slots s

def helloMoments (s : Server) (r : Readings) (random : UInt64) (address : Endpoint) (packet : Packet) :
    List Moment :=
  if packet.length.toNat < 9 ∨ keyMax < (packet.byte 8).toNat ∨
      packet.length.toNat ≠ 9 + (packet.byte 8).toNat then []
  else
    let nonce := u64 packet.payload
    if (packet.byte 8).toNat ≠ s.key.length ∨
        (packet.payload.drop 9).take (packet.byte 8).toNat ≠ s.key then []
    else if s.ownerNonce ≠ 0 ∧ ¬ (s.players 0).occupied ∧ nonce ≠ s.ownerNonce then []
    else
      match slots.find? fun i => (s.players i).occupied && address == (s.players i).address with
      | some _ => []
      | none =>
        if s.phase ≠ .lobby then []
        else if s.expected.toNat ≤ s.count then []
        else
          match slots.find? fun i => !(s.players i).occupied with
          | some i =>
            if random = 0 then [] else [.snapshot ((s.seat r random address nonce i).welcome i) r.sampled]
          | none => []

def commandMoments (s : Server) (r : Readings) (i : Fin 4) (packet : Packet) : List Moment :=
  [.advance (s.takeCommand r i packet) r.advanced,
    .snapshot ((s.takeCommand r i packet).advance r.advanced.val) r.sampled]

def fromMoments (s : Server) (r : Readings) (i : Fin 4) (packet : Packet) : List Moment :=
  if packet.is .pong ∧ packet.length = 8 ∧ (s.players i).ping ≠ 0 ∧
      u64 packet.payload = (s.players i).ping then [.pong (s.players i).ping r.seen]
  else if packet.is .ping ∧ packet.length = 8 then []
  else if packet.race ≠ s.race then []
  else if packet.is .state then []
  else if ¬ packet.is .command ∨ packet.length.toNat < 1 then []
  else if ¬ newer packet.seq (s.players i).commandSeq then []
  else if packet.seq ≠ (s.players i).commandSeq + 1 then []
  else s.commandMoments r i packet

def packetMoments (s : Server) (d : Incoming) : List Moment :=
  match decode d.data with
  | none => []
  | some packet =>
    if s.closed then []
    else
      let s := s.countRx
      if packet.is .hello then s.helloMoments d.readings d.random d.address packet
      else
        match s.authenticate d.address packet with
        | none => []
        | some i => s.fromMoments d.readings i packet

def drainMoments (s : Server) : List Incoming → List Moment
  | [] => []
  | d :: rest =>
    if s.closed then []
    else s.packetMoments d ++ (s.receivePacket d.readings d.random d.address d.data).drainMoments rest

def timerMoments (s : Server) (now sampled : Micros) : List Moment :=
  if s.tick ≤ now.val then
    .advance s now :: if (s.advance now.val).closed then [] else [.snapshot (s.advance now.val) sampled]
  else []

def pollMoments (s : Server) (w : Waiting) : List Moment :=
  if s.closed then []
  else if w.failed then []
  else
    let t := s.drain (w.incoming.take 128)
    s.drainMoments (w.incoming.take 128) ++
      if w.broken ∧ w.incoming.length < 128 ∧ t.closed = false then []
      else t.timerMoments w.now w.sampled ++ [.statistics (t.timer w.now w.sampled) w.now]

/-- The functions of the server's interface that read the clock, and its end. -/
inductive Call
  | poll (w : Waiting)
  | status (now : Micros)
  | close

def answer (s : Server) : Call → Server
  | .poll w => (s.pollReport w).2
  | .status _ => s
  | .close => s.close

def moments (s : Server) : Call → List Moment
  | .poll w => s.pollMoments w
  | .status now => [.status s now]
  | .close => []

/-- The clock as one call of `receive_packet` sees it. -/
def Incoming.clock (d : Incoming) : List Nat :=
  [d.readings.applied.val.toNat, d.readings.seen.val.toNat, d.readings.advanced.val.toNat,
    d.readings.sampled.val.toNat]

def Call.clock : Call → List Nat
  | .poll w => (w.incoming.take 128).flatMap Incoming.clock ++ [w.now.val.toNat, w.sampled.val.toNat]
  | .status now => [now.val.toNat]
  | .close => []

/-- The server and a clock that never goes back. -/
def clocked : System (Server × Nat) Call :=
  System.clocked { init := system.init, enabled := fun _ _ => True, step := answer }
    (fun s now => s.summary.toNat ≤ now) Call.clock

/-- The subtractions of this place do not wrap, and in `advance` a player is
dropped exactly when five seconds have passed since his last refresh. -/
structure Moment.Timely (m : Moment) : Prop where
  order : ∀ d ∈ m.differences, d.2 ≤ d.1
  drops : ∀ s now, m = .advance s now → ∀ i, (s.players i).occupied = true →
    (((s.advance now.val).players i).occupied = false ↔
      (s.players i).seen.toNat + 5000000 ≤ now.val.toNat)

theorem Behind.silences {s : Server} {now : UInt64} (behind : s.Behind now.toNat) (l : List (Fin 4)) :
    ∀ d ∈ silences now l s, d.2 ≤ d.1 := by
  induction l generalizing s with
  | nil => exact List.forall_mem_nil _
  | cons i rest ih =>
    intro d member
    rw [Server.silences, List.mem_append] at member
    rcases member with own | later
    · split at own
      · obtain rfl := List.mem_singleton.mp own
        exact UInt64.le_iff_toNat_le.mpr (behind.players i).seen
      · exact nomatch own
    · split at later
      · exact ih (behind.drop i) d later
      · exact ih behind d later

theorem Behind.ages {s : Server} {now : UInt64} (behind : s.Behind now.toNat) (l : List (Fin 4)) :
    ∀ d ∈ ages now l s, d.2 ≤ d.1 := by
  intro d member
  obtain ⟨i, _, rfl⟩ := List.mem_map.mp member
  exact UInt64.le_iff_toNat_le.mpr (behind.players i).updated

theorem Behind.advance_timely {s : Server} {now : Micros} (behind : s.Behind now.val.toNat) :
    (Moment.advance s now).Timely where
  order := behind.silences slots
  drops := by
    intro s' now' same i seated
    cases same
    have order : (s.players i).seen ≤ now.val := UInt64.le_iff_toNat_le.mpr (behind.players i).seen
    rcases s.advance_presence now.val i with ⟨gone, free⟩ | ⟨awake, kept⟩
    · exact iff_of_true free ((silent_iff order).mp gone).2
    · refine iff_of_false (fun free => ?_) fun late => ?_
      · exact nomatch (kept.1.trans seated).symm.trans free
      · exact nomatch awake.symm.trans ((silent_iff order).mpr ⟨seated, late⟩)

theorem Behind.snapshot_timely {s : Server} {now : Micros} (behind : s.Behind now.val.toNat) :
    (Moment.snapshot s now).Timely := ⟨behind.ages slots, nofun⟩

theorem Behind.statistics_timely {s : Server} {now : Micros} (behind : s.Behind now.val.toNat) :
    (Moment.statistics s now).Timely := by
  refine ⟨fun d member => ?_, nofun⟩
  rcases List.mem_cons.mp member with rfl | member
  · exact UInt64.le_iff_toNat_le.mpr behind.summary
  · split at member
    · exact behind.ages _ d member
    · exact nomatch member

/-- The readings of one call, in the order in which it makes them. -/
theorem Readings.ordered (r : Readings) : r.applied.val.toNat ≤ r.seen.val.toNat ∧
    r.seen.val.toNat ≤ r.advanced.val.toNat ∧ r.advanced.val.toNat ≤ r.sampled.val.toNat :=
  ⟨UInt64.le_iff_toNat_le.mp r.applied_le, UInt64.le_iff_toNat_le.mp r.seen_le,
    UInt64.le_iff_toNat_le.mp r.advanced_le⟩

theorem Behind.helloMoments {s : Server} {r : Readings} (behind : s.Behind r.applied.val.toNat) (random : UInt64)
    (address : Endpoint) (packet : Packet) : ∀ m ∈ s.helloMoments r random address packet, m.Timely := by
  obtain ⟨first, second, third⟩ := Readings.ordered r
  unfold Server.helloMoments
  split
  · exact List.forall_mem_nil _
  dsimp only
  split
  · exact List.forall_mem_nil _
  split
  · exact List.forall_mem_nil _
  split
  · exact List.forall_mem_nil _
  split
  · exact List.forall_mem_nil _
  split
  · exact List.forall_mem_nil _
  split
  next i _ =>
    split
    · exact List.forall_mem_nil _
    · intro m member
      obtain rfl := List.mem_singleton.mp member
      have current : s.Behind r.sampled.val.toNat := behind.mono ((first.trans second).trans third)
      have seated := current.seat r random address (u64 packet.payload) i (second.trans third)
      have welcomed : ((s.seat r random address (u64 packet.payload) i).welcome i).Behind r.sampled.val.toNat :=
        seated.congr rfl rfl
      exact welcomed.snapshot_timely
  · exact List.forall_mem_nil _

theorem Behind.commandMoments {s : Server} {r : Readings} (behind : s.Behind r.applied.val.toNat) (i : Fin 4)
    (packet : Packet) : ∀ m ∈ s.commandMoments r i packet, m.Timely := by
  obtain ⟨first, second, third⟩ := Readings.ordered r
  have taken := (behind.mono (first.trans second)).takeCommand r i packet second
  intro m member
  rcases List.mem_cons.mp member with rfl | member
  · exact taken.advance_timely
  · obtain rfl := List.mem_singleton.mp member
    exact ((taken.mono third).advance _).snapshot_timely

theorem Behind.fromMoments {s : Server} {r : Readings} (behind : s.Behind r.applied.val.toNat) (i : Fin 4)
    (packet : Packet) : ∀ m ∈ s.fromMoments r i packet, m.Timely := by
  obtain ⟨first, _, _⟩ := Readings.ordered r
  unfold Server.fromMoments
  split
  · intro m member
    obtain rfl := List.mem_singleton.mp member
    refine ⟨fun d pair => ?_, nofun⟩
    obtain rfl := List.mem_singleton.mp pair
    exact UInt64.le_iff_toNat_le.mpr ((behind.players i).ping.trans first)
  split
  · exact List.forall_mem_nil _
  split
  · exact List.forall_mem_nil _
  split
  · exact List.forall_mem_nil _
  split
  · exact List.forall_mem_nil _
  split
  · exact List.forall_mem_nil _
  split
  · exact List.forall_mem_nil _
  · exact behind.commandMoments i packet

/-- One datagram, from a moment at which no stored time is in the future. -/
theorem Behind.packetMoments {s : Server} {d : Incoming} (behind : s.Behind d.readings.applied.val.toNat) :
    ∀ m ∈ s.packetMoments d, m.Timely := by
  have counted : s.countRx.Behind d.readings.applied.val.toNat := behind.congr rfl rfl
  unfold Server.packetMoments
  split
  · exact List.forall_mem_nil _
  split
  · exact List.forall_mem_nil _
  dsimp only
  split
  · exact counted.helloMoments d.random d.address _
  split
  · exact List.forall_mem_nil _
  · exact counted.fromMoments _ _

theorem Behind.packet {s : Server} {d : Incoming} (behind : s.Behind d.readings.applied.val.toNat) :
    (s.receivePacket d.readings d.random d.address d.data).Behind d.readings.sampled.val.toNat := by
  obtain ⟨first, second, third⟩ := Readings.ordered d.readings
  exact (behind.mono ((first.trans second).trans third)).receivePacket _ _ _ _ (second.trans third)

/-- The receive loop: what one datagram leaves behind the next one finds. -/
theorem Behind.drain {s : Server} {now : Nat} {incoming : List Incoming} (behind : s.Behind now)
    (onward : Onward now (incoming.flatMap Incoming.clock)) :
    (s.drain incoming).Behind (latest now (incoming.flatMap Incoming.clock)) ∧
      ∀ m ∈ s.drainMoments incoming, m.Timely := by
  induction incoming generalizing s now with
  | nil => exact ⟨behind, List.forall_mem_nil _⟩
  | cons d rest ih =>
    unfold Server.drain Server.drainMoments
    split
    · exact ⟨behind.mono onward.le_latest, List.forall_mem_nil _⟩
    next =>
      rw [List.flatMap_cons] at onward ⊢
      obtain ⟨own, others⟩ := onward_append.mp onward
      have current : s.Behind d.readings.applied.val.toNat := behind.mono own.1
      have received : latest now d.clock = d.readings.sampled.val.toNat := rfl
      rw [latest_append, received]
      rw [received] at others
      obtain ⟨after, later⟩ := ih current.packet others
      refine ⟨after, fun m member => ?_⟩
      rcases List.mem_append.mp member with first | second
      · exact current.packetMoments m first
      · exact later m second

theorem Behind.timer {s : Server} {now sampled : Micros} (behind : s.Behind now.val.toNat)
    (order : now.val.toNat ≤ sampled.val.toNat) :
    (s.timer now sampled).Behind now.val.toNat ∧ ∀ m ∈ s.timerMoments now sampled, m.Timely := by
  have advanced := behind.advance now.val
  unfold Server.timer Server.timerMoments
  split
  · constructor
    · dsimp only
      split
      · exact advanced.congr rfl rfl
      · exact (advanced.snapshot sampled.val).congr rfl rfl
    · intro m member
      rcases List.mem_cons.mp member with rfl | member
      · exact behind.advance_timely
      · split at member
        · exact nomatch member
        · obtain rfl := List.mem_singleton.mp member
          exact (advanced.mono order).snapshot_timely
  · exact ⟨behind, List.forall_mem_nil _⟩

theorem Behind.probe {s : Server} {now : Micros} (behind : s.Behind now.val.toNat) :
    (s.probe now).Behind now.val.toNat := by
  have probed (l : List (Fin 4)) {s : Server} (behind : s.Behind now.val.toNat) :
      (l.foldl (fun s i =>
        (s.modify i fun p => { p with packets := 0, bytes := 0, ping := now.val }).sendPlayer i
          { type := Kind.ping.code, length := 8, payload := put64 now.val }) s).Behind now.val.toNat := by
    refine List.foldlRecOn (motive := fun t : Server => t.Behind now.val.toNat) l _ behind fun t behind i _ => ?_
    obtain ⟨seen, updated, _⟩ := behind.players i
    exact (behind.modify (i := i) (f := fun p => { p with packets := 0, bytes := 0, ping := now.val })
      ⟨seen, updated, Nat.le_refl _⟩).congr rfl rfl
  unfold Server.probe
  split
  · exact { (probed s.occupiedSlots behind).congr rfl rfl with summary := Nat.le_refl _ }
  · exact behind

theorem Behind.close {s : Server} {now : Nat} (behind : s.Behind now) : s.close.Behind now := by
  have told (l : List (Fin 4)) {s : Server} (behind : s.Behind now) :
      (l.foldl (fun s i => s.sendPlayer i { type := Kind.roomClosed.code, length := 1, payload := [1] }) s).Behind
        now :=
    List.foldlRecOn (motive := fun t : Server => t.Behind now) l _ behind fun _ behind _ _ => behind.congr rfl rfl
  unfold Server.close
  split
  · exact (told s.occupiedSlots behind).congr rfl rfl
  · exact behind

theorem Behind.poll {s : Server} {now : Nat} {w : Waiting} (behind : s.Behind now)
    (onward : Onward now (Call.poll w).clock) :
    (s.pollReport w).2.Behind (latest now (Call.poll w).clock) ∧ ∀ m ∈ s.pollMoments w, m.Timely := by
  have whole : latest now (Call.poll w).clock = w.sampled.val.toNat := latest_append _ _ _
  obtain ⟨loop, tail⟩ := onward_append.mp onward
  obtain ⟨drained, first⟩ := behind.drain loop
  have start := drained.mono tail.1
  obtain ⟨ticked, second⟩ := start.timer tail.2.1
  unfold Server.pollReport Server.pollMoments
  split
  · exact ⟨behind.mono onward.le_latest, List.forall_mem_nil _⟩
  split
  · exact ⟨behind.mono onward.le_latest, List.forall_mem_nil _⟩
  dsimp only
  rw [whole]
  split
  · refine ⟨start.mono tail.2.1, fun m member => ?_⟩
    rw [List.append_nil] at member
    exact first m member
  · refine ⟨ticked.probe.mono tail.2.1, fun m member => ?_⟩
    rcases List.mem_append.mp member with early | member
    · exact first m early
    rcases List.mem_append.mp member with middle | late
    · exact second m middle
    · obtain rfl := List.mem_singleton.mp late
      exact ticked.statistics_timely

/-- In every run with a clock that does not go back, no stored time is later
than the clock. -/
theorem clocked_behind {p : Server × Nat} (reach : clocked.Reachable p) : p.1.Behind p.2 := by
  refine System.clocked_invariant Behind reach ?_ ?_
  · rintro s now ⟨c, session, start, created⟩ born
    obtain ⟨_, _, _, _, _, rfl⟩ := create_some created
    exact ⟨fun _ => Player.behind_empty now, born⟩
  · intro s now e _ onward behind
    cases e with
    | poll w => exact (behind.poll onward).1
    | status time => exact behind.mono onward.1
    | close => exact behind.close

theorem clocked_timely {p : Server × Nat} (reach : clocked.Reachable p) {call : Call}
    (onward : Onward p.2 call.clock) : ∀ m ∈ p.1.moments call, m.Timely := by
  have behind := clocked_behind reach
  cases call with
  | poll w => exact (behind.poll onward).2
  | status now =>
    intro m member
    obtain rfl := List.mem_singleton.mp member
    have current : p.1.Behind now.val.toNat := behind.mono onward.1
    exact ⟨current.ages slots, nofun⟩
  | close => exact List.forall_mem_nil _

end Server

end FzeroVs
