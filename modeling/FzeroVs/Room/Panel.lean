import FzeroVs.Client.Presentation
import FzeroVs.Room.Picture
import FzeroVs.Server.Authority
import FzeroVs.Server.Inert

namespace FzeroVs

/-- The panel of the client in slot `i` shows the room as it is. -/
structure Mirrors (v : View) (s : Server) (i : Fin 4) : Prop where
  connected : v.connected = true
  player : v.player = i.val
  host : v.host = s.host.toNat
  expected : v.expected = s.expected.toNat
  phase : v.phase = s.phase
  track : v.track = s.track.toNat
  league : v.league = s.league.toNat
  peers : ∀ j, (v.peers j).status = (s.players j).status ∧ (v.peers j).car = (s.players j).car

/-- So does the panel of every client that has just taken over a SNAPSHOT. -/
theorem publish_mirrors {s : Server} (reach : Server.system.Reachable s) (now : UInt64) {i : Fin 4}
    {c : Client} (t : UInt64) (opened : c.socket = true) (joined : c.id = some i) (playing : c.game ≠ .disconnected)
    (session : c.session = s.session) (token : c.token = (s.players i).token)
    (newerSeq : newer (s.snapshotSeq + 1) c.snapshotSeq = true)
    (newerRace : s.race = c.race ∨ newer s.race c.race = true) :
    Mirrors (c.hear t (encode maxPacket ((s.snapshot now).picture now i))).publish s i := by
  have quiet := s.snapshot_quiet now
  have seq : ((s.snapshot now).picture now i).seq = s.snapshotSeq + 1 := by
    change (s.snapshot now).snapshotSeq = _
    rw [Server.snapshot_eq]
  have race : ((s.snapshot now).picture now i).race = s.race := quiet.race
  have taken : c.id ≠ none := by
    rw [joined]
    exact Option.some_ne_none i
  rw [← seq] at newerSeq
  rw [← race] at newerRace
  have ranged : (s.snapshot now).Ranged := (Server.reachable_ranged reach).quiet quiet
  have decoded := decode_encode ((s.snapshot now).picture_framed now i)
  have accepts : Client.Accepts c ((s.snapshot now).picture now i) ((s.snapshot now).view now) := by
    refine ⟨opened, taken, quiet.session.trans session.symm, ?_, Server.readPicture_picture ranged now i, ?_⟩
    · change ((s.snapshot now).players i).token = c.token
      rw [s.snapshot_players now, token]
    · simpa [Client.fresh, newerSeq] using newerRace
  have heard := Client.hear_picture t decoded accepts
  have shows := c.accept_shows t ((s.snapshot now).picture now i) ((s.snapshot now).view now)
  have took := c.accept_took t ((s.snapshot now).picture now i) ((s.snapshot now).view now)
  have game : (c.accept t ((s.snapshot now).picture now i) ((s.snapshot now).view now)).game ≠ .disconnected := by
    rw [Client.accept, Client.arm_keeps Client.game (fun _ _ _ _ _ => rfl)]
    rcases (c.settle_game t ((s.snapshot now).picture now i) ((s.snapshot now).view now)).2 with same | fresh
    · rw [same]
      exact playing
    · rw [fresh]
      decide
  rw [← heard] at shows took game
  generalize c.hear t (encode maxPacket ((s.snapshot now).picture now i)) = d at *
  have id : d.id = some i := took.id.trans joined
  have peers (j : Fin 4) : d.peers j = Server.peer (s.players j) now := by
    rw [shows.peers, ← s.snapshot_players now]
    rfl
  constructor
  case connected => simp [Client.publish, id, game]
  case player => simp [Client.publish, id]
  case host => simp only [Client.publish, shows.host.trans quiet.host]
  case expected => simp only [Client.publish, shows.expected.trans quiet.expected]
  case phase => exact shows.phase.trans quiet.phase
  case track => simp only [Client.publish, shows.track.trans quiet.track]
  case league => simp only [Client.publish, shows.league.trans quiet.league]
  case peers =>
    intro j
    simp only [Client.publish, peers j, Server.peer, and_self]

namespace Server

/-- FZ_CONFIG as the client in slot `i` sends it next. -/
def configPacket (s : Server) (i : Fin 4) (players track league : UInt8) : Packet :=
  { Client.commandPacket ((s.players i).commandSeq + 1) [Command.config.code, players, track, league] with
    session := s.session
    token := (s.players i).token
    race := s.race }

def configEvent (s : Server) (i : Fin 4) (r : Readings) (random : UInt64) (players track league : UInt8) :
    Event :=
  .packet ⟨r, random, (s.players i).address, encode maxPacket (s.configPacket i players track league)⟩

/-- The server does not reject the request, and takes the settings over. -/
def Grants (s : Server) (i : Fin 4) (r : Readings) (random : UInt64) (players track league : UInt8) : Prop :=
  let t := s.step (s.configEvent i r random players track league)
  t.rejected = s.rejected ∧ t.expected = players ∧ t.track = track ∧ t.league = league

theorem configPacket_framed (s : Server) (i : Fin 4) (players track league : UInt8) :
    (s.configPacket i players track league).Framed :=
  ⟨⟨.command, rfl⟩, rfl, by simp [configPacket, Client.commandPacket, maxPacket, headerSize]⟩

theorem step_config {s : Server} (seating : Seating s) (live : s.closed = false) {i : Fin 4}
    (seated : (s.players i).occupied = true) (r : Readings) (random : UInt64) (players track league : UInt8) :
    s.step (s.configEvent i r random players track league) =
      s.countRx.receiveCommand r i (s.configPacket i players track league) := by
  have takes : Takes s (s.players i).address i (s.configPacket i players track league) :=
    ⟨live, seated, rfl, rfl, rfl, rfl, rfl, (by decide : 1 ≤ 4), rfl⟩
  exact takes.received seating (decode_encode (s.configPacket_framed i players track league)) r random

theorem commandValid_config (s : Server) (i : Fin 4) (players track league : UInt8) :
    s.countRx.commandValid i (s.configPacket i players track league) = true ↔
      i.val = s.host.toNat ∧ s.phase = .lobby ∧ 2 ≤ players ∧ players ≤ 4 ∧ s.count ≤ players.toNat ∧
        track < 5 ∧ league < 3 := by
  have code : Command.ofCode ((s.configPacket i players track league).byte 0) = some .config := rfl
  have length : (s.configPacket i players track league).length = 4 := rfl
  simp only [commandValid, code, length, Bool.and_eq_true, beq_iff_eq, decide_eq_true_eq, true_and, and_assoc]
  exact Iff.rfl

theorem snapshot_rejected (s : Server) (now : UInt64) : (s.snapshot now).rejected = s.rejected := by
  rw [snapshot_eq]

theorem reject_rejected (s : Server) : s.reject.rejected ≠ s.rejected := by
  intro same
  simp [reject] at same

/-- The server grants what its own test of CONFIG admits. -/
theorem grants_iff {s : Server} (seating : Seating s) (live : s.closed = false) {i : Fin 4}
    (seated : (s.players i).occupied = true) (r : Readings) (random : UInt64) (players track league : UInt8) :
    s.Grants i r random players track league ↔
      i.val = s.host.toNat ∧ s.phase = .lobby ∧ 2 ≤ players ∧ players ≤ 4 ∧ s.count ≤ players.toNat ∧
        track < 5 ∧ league < 3 := by
  rw [← s.commandValid_config i players track league, Grants, step_config seating live seated]
  simp only [receiveCommand, takeCommand, snapshot_rejected, (advance_deaf r.advanced.val).rejected]
  cases valid : s.countRx.commandValid i (s.configPacket i players track league) with
  | true =>
    simp only [if_true, iff_true]
    have tail : Untuned _ _ := (advance_untuned (((s.countRx.commandEffect r i
      (s.configPacket i players track league)).acknowledge r i (s.configPacket i players track league)).commandTail i
        (s.configPacket i players track league)) r.advanced.val).trans (snapshot_quiet _ r.sampled.val).untuned
    exact ⟨rfl, tail.expected, tail.track, tail.league⟩
  | false =>
    simp only [Bool.false_eq_true, if_false, iff_false]
    rintro ⟨kept, _⟩
    exact reject_rejected _ kept

/-- A closed room answers nothing. -/
theorem not_grants_of_closed {s : Server} (closed : s.closed = true) (i : Fin 4) (r : Readings) (random : UInt64)
    {players track league : UInt8} (differs : players ≠ s.expected ∨ track ≠ s.track ∨ league ≠ s.league) :
    ¬ s.Grants i r random players track league := by
  have decoded := decode_encode (s.configPacket_framed i players track league)
  have ignored : s.step (s.configEvent i r random players track league) = s := by
    simp only [step, configEvent, receivePacket, decoded, closed, if_true]
  rw [Grants, ignored]
  rintro ⟨_, rfl, rfl, rfl⟩
  simp at differs

end Server

theorem View.occupied_eq {v : View} {s : Server} {i : Fin 4} (mirrors : Mirrors v s i) (j : Fin 4) :
    (v.peers j).occupied = (s.players j).occupied := by
  simp only [Peer.occupied, Player.occupied, (mirrors.peers j).1]

/-- The panel has a line for the first `expected` slots. -/
theorem shownSlots_eq {v : View} {s : Server} {i : Fin 4} (mirrors : Mirrors v s i) (ranged : s.Ranged) :
    shownSlots v = Server.slots.take s.expected.toNat := by
  have fewest : 2 ≤ s.expected.toNat := ranged.fewest
  have most : s.expected.toNat ≤ 4 := ranged.most
  have lines : (max 2 (min v.expected 4)).toNat = s.expected.toNat := by
    rw [mirrors.expected]
    omega
  rw [shownSlots, lines]
  rfl

theorem presentRoom_occupied {v : View} {s : Server} {i : Fin 4} (mirrors : Mirrors v s i) (ranged : s.Ranged) :
    (presentRoom v).occupied.toNat =
      (Server.slots.take s.expected.toNat).countP fun j => (s.players j).occupied := by
  have small : (Server.slots.take s.expected.toNat).countP (fun j => (s.players j).occupied) ≤ 4 :=
    List.countP_le_length.trans (List.length_take_le' ..)
  simp only [presentRoom, mirrors.connected, Bool.true_eq_false, if_false, shownSlots_eq mirrors ranged,
    View.occupied_eq mirrors]
  exact UInt32.toNat_ofNat_of_lt' (small.trans_lt (by decide))

theorem mem_drop_slots {n : Nat} (few : n ≤ 4) (j : Fin 4) : j ∈ Server.slots.drop n ↔ n ≤ j.val := by
  obtain ⟨n, rfl⟩ : ∃ k : Fin 5, n = k.val := ⟨⟨n, by omega⟩, rfl⟩
  revert n j
  decide

/-- The panel counts everybody unless somebody sits where it has no line. -/
theorem occupied_eq_count_iff {v : View} {s : Server} {i : Fin 4} (mirrors : Mirrors v s i) (ranged : s.Ranged) :
    (presentRoom v).occupied.toNat = s.count ↔
      ∀ j, (s.players j).occupied = true → j.val < s.expected.toNat := by
  have most : s.expected.toNat ≤ 4 := ranged.most
  have parts : Server.slots.countP (fun j => (s.players j).occupied) =
      (Server.slots.take s.expected.toNat).countP (fun j => (s.players j).occupied) +
        (Server.slots.drop s.expected.toNat).countP fun j => (s.players j).occupied := by
    rw [← List.countP_append, List.take_append_drop]
  rw [presentRoom_occupied mirrors ranged, Server.count, parts, eq_comm, Nat.add_eq_left, List.countP_eq_zero]
  refine forall_congr' fun j => ?_
  rw [mem_drop_slots most]
  constructor
  · intro unseen seated
    by_contra beyond
    exact unseen (by omega) seated
  · intro within beyond seated
    have inside := within seated
    omega

theorem ofInt_toNat (b : UInt8) : UInt32.ofInt b.toNat = b.toUInt32 := by
  apply UInt32.toNat_inj.mp
  have small := b.toNat_lt
  simp [UInt32.ofInt]
  omega

theorem validRoomChange_iff {v : View} {s : Server} {i : Fin 4} (mirrors : Mirrors v s i)
    (players track league : UInt32) : validRoomChange v players track league = true ↔
      i.val = s.host.toNat ∧ s.phase = .lobby ∧ 2 ≤ players ∧ players ≤ 4 ∧
        (presentRoom v).occupied ≤ players ∧ track < 5 ∧ league < 3 ∧
        (players ≠ s.expected.toUInt32 ∨ track ≠ s.track.toUInt32 ∨ league ≠ s.league.toUInt32) := by
  have configure : (presentRoom v).canConfigure = true ↔ i.val = s.host.toNat ∧ s.phase = .lobby := by
    simp only [presentRoom, mirrors.connected, Bool.true_eq_false, if_false, mirrors.player, mirrors.host,
      mirrors.phase, Bool.and_eq_true, beq_iff_eq, Nat.cast_inj]
  simp only [validRoomChange, mirrors.expected, mirrors.track, mirrors.league, ofInt_toNat, Bool.and_eq_true,
    configure, decide_eq_true_eq, Bool.or_eq_true, bne_iff_ne, and_assoc, or_assoc]

theorem toUInt32_le {a b : UInt8} : a.toUInt32 ≤ b.toUInt32 ↔ a ≤ b := by
  simp [UInt32.le_iff_toNat_le, UInt8.le_iff_toNat_le]

theorem toUInt32_lt {a b : UInt8} : a.toUInt32 < b.toUInt32 ↔ a < b := by
  simp [UInt32.lt_iff_toNat_lt, UInt8.lt_iff_toNat_lt]

theorem toUInt32_ne {a b : UInt8} : a.toUInt32 ≠ b.toUInt32 ↔ a ≠ b := by
  rw [ne_eq, UInt8.toUInt32_inj]

theorem exists_byte {n m : UInt32} (small : n < m) (fits : m ≤ 256) : ∃ b : UInt8, b.toUInt32 = n := by
  have low : n.toNat < 256 := Nat.lt_of_lt_of_le (UInt32.lt_iff_toNat_lt.mp small) (UInt32.le_iff_toNat_le.mp fits)
  refine ⟨n.toUInt8, UInt32.toNat_inj.mp ?_⟩
  simp
  omega

/-- On what a CONFIG can carry the two tests differ in whom they count. -/
theorem validRoomChange_bytes {v : View} {s : Server} {i : Fin 4} (mirrors : Mirrors v s i)
    (counted : (presentRoom v).occupied.toNat = s.count) (players track league : UInt8) :
    validRoomChange v players.toUInt32 track.toUInt32 league.toUInt32 = true ↔
      (players ≠ s.expected ∨ track ≠ s.track ∨ league ≠ s.league) ∧
      i.val = s.host.toNat ∧ s.phase = .lobby ∧ 2 ≤ players ∧ players ≤ 4 ∧ s.count ≤ players.toNat ∧
        track < 5 ∧ league < 3 := by
  have least : 2 ≤ players.toUInt32 ↔ 2 ≤ players := toUInt32_le (a := 2)
  have most : players.toUInt32 ≤ 4 ↔ players ≤ 4 := toUInt32_le (b := 4)
  have course : track.toUInt32 < 5 ↔ track < 5 := toUInt32_lt (b := 5)
  have cup : league.toUInt32 < 3 ↔ league < 3 := toUInt32_lt (b := 3)
  have room : (presentRoom v).occupied ≤ players.toUInt32 ↔ s.count ≤ players.toNat := by
    rw [UInt32.le_iff_toNat_le, counted, UInt8.toNat_toUInt32]
  rw [validRoomChange_iff mirrors, least, most, course, cup, room]
  simp only [toUInt32_ne]
  constructor
  · rintro ⟨host, lobby, fewest, greatest, fits, tracks, leagues, change⟩
    exact ⟨change, host, lobby, fewest, greatest, fits, tracks, leagues⟩
  · rintro ⟨change, host, lobby, fewest, greatest, fits, tracks, leagues⟩
    exact ⟨host, lobby, fewest, greatest, fits, tracks, leagues, change⟩

/-- The panel counts whom the server counts, and it offers a change exactly
when it is one and the server would grant the CONFIG that carries it. -/
structure Agrees (v : View) (s : Server) (i : Fin 4) : Prop where
  occupied : (presentRoom v).occupied.toNat = s.count
  changes : ∀ (r : Readings) (random : UInt64) (players track league : UInt32),
    validRoomChange v players track league = true ↔
      ∃ p t l : UInt8, p.toUInt32 = players ∧ t.toUInt32 = track ∧ l.toUInt32 = league ∧
        (p ≠ s.expected ∨ t ≠ s.track ∨ l ≠ s.league) ∧ s.Grants i r random p t l

/-- A host in a lobby is offered some change. -/
theorem validRoomChange_offered {v : View} {s : Server} {i : Fin 4} (mirrors : Mirrors v s i)
    (counted : (presentRoom v).occupied.toNat = s.count) (host : i.val = s.host.toNat)
    (lobby : s.phase = .lobby) : ∃ players track league : UInt8,
      validRoomChange v players.toUInt32 track.toUInt32 league.toUInt32 = true := by
  have few : s.count ≤ 4 := List.countP_le_length
  by_cases first : s.track = 0
  · refine ⟨4, 1, 0, (validRoomChange_bytes mirrors counted 4 1 0).mpr
      ⟨.inr (.inl ?_), host, lobby, by decide, by decide, few, by decide, by decide⟩⟩
    rw [first]
    decide
  · exact ⟨4, 0, 0, (validRoomChange_bytes mirrors counted 4 0 0).mpr
      ⟨.inr (.inl (Ne.symm first)), host, lobby, by decide, by decide, few, by decide, by decide⟩⟩

theorem Agrees.of_within {v : View} {s : Server} {i : Fin 4} (reach : Server.system.Reachable s)
    (seated : (s.players i).occupied = true) (mirrors : Mirrors v s i)
    (ended : s.closed = true → ¬ (i.val = s.host.toNat ∧ s.phase = .lobby))
    (within : ∀ j, (s.players j).occupied = true → j.val < s.expected.toNat) : Agrees v s i := by
  have counted := (occupied_eq_count_iff mirrors (Server.reachable_ranged reach)).mpr within
  have bytes := validRoomChange_bytes mirrors counted
  refine ⟨counted, fun r random players track league => ⟨fun valid => ?_, ?_⟩⟩
  · have tests := (validRoomChange_iff mirrors players track league).mp valid
    obtain ⟨host, lobby, _, most, _, course, cup, _⟩ := tests
    obtain ⟨p, rfl⟩ := exists_byte (m := 5) (UInt32.lt_of_le_of_lt most (by decide)) (by decide)
    obtain ⟨t, rfl⟩ := exists_byte course (by decide)
    obtain ⟨l, rfl⟩ := exists_byte cup (by decide)
    have live : s.closed = false := by
      by_contra closed
      exact ended (by simpa using closed) ⟨host, lobby⟩
    obtain ⟨differs, allowed⟩ := (bytes p t l).mp valid
    exact ⟨p, t, l, rfl, rfl, rfl, differs,
      (Server.grants_iff (Server.reachable_seating reach live) live seated r random p t l).mpr allowed⟩
  · rintro ⟨p, t, l, rfl, rfl, rfl, differs, grants⟩
    have live : s.closed = false := by
      by_contra closed
      exact Server.not_grants_of_closed (by simpa using closed) i r random differs grants
    exact (bytes p t l).mpr ⟨differs,
      (Server.grants_iff (Server.reachable_seating reach live) live seated r random p t l).mp grants⟩

/-- Panel and server agree as long as nobody sits in a slot beyond the number
of players the room is for, and the room is not closed under its host. -/
theorem panel_agrees_iff {s : Server} (reach : Server.system.Reachable s) {i : Fin 4}
    (seated : (s.players i).occupied = true) {v : View} (mirrors : Mirrors v s i) :
    Agrees v s i ↔
      (∀ j, (s.players j).occupied = true → j.val < s.expected.toNat) ∧
      (s.closed = true → ¬ (i.val = s.host.toNat ∧ s.phase = .lobby)) := by
  constructor
  · intro agrees
    refine ⟨(occupied_eq_count_iff mirrors (Server.reachable_ranged reach)).mp agrees.occupied, ?_⟩
    rintro closed ⟨host, lobby⟩
    obtain ⟨players, track, league, offered⟩ := validRoomChange_offered mirrors agrees.occupied host lobby
    obtain ⟨p, t, l, _, _, _, differs, grants⟩ :=
      (agrees.changes (.at Server.sampleClock) 0 _ _ _).mp offered
    exact Server.not_grants_of_closed closed i _ 0 differs grants
  · rintro ⟨within, ended⟩
    exact .of_within reach seated mirrors ended within

/-- What the client in slot `i` shows once it has the latest SNAPSHOT. -/
def sampleView (s : Server) (i : Fin 4) : View where
  connected := true
  player := i.val
  host := s.host.toNat
  expected := s.expected.toNat
  phase := s.phase
  track := s.track.toNat
  league := s.league.toNat
  peers j := Server.peer (s.players j) 1000000

theorem sampleView_mirrors (s : Server) (i : Fin 4) : Mirrors (sampleView s i) s i :=
  ⟨rfl, rfl, rfl, rfl, rfl, rfl, rfl, fun _ => ⟨rfl, rfl⟩⟩

theorem sampleFour_init : Server.system.Reachable { Server.sampleRoom with expected := 4 } :=
  .start ⟨⟨[], 12000, 4, 0, 0, 0⟩, 7, Server.sampleClock, rfl⟩

/-- Three guests come into a room for four, and the first one leaves. -/
def sampleSparse : Server :=
  [Server.sampleHello ⟨0x7f000001, 5000⟩ 77, Server.sampleHello ⟨0x7f000001, 5001⟩ 78,
    Server.sampleHello ⟨0x7f000001, 5002⟩ 79,
    Server.sampleCommand ⟨0x7f000001, 5000⟩ 77 1 [Command.leave.code]].foldl Server.step
      { Server.sampleRoom with expected := 4 }

theorem sampleSparse_reachable : Server.system.Reachable sampleSparse :=
  sampleFour_init.run ⟨trivial, trivial, trivial, trivial, trivial, trivial, trivial, trivial, trivial⟩

/-- Between two free slots the new host and the server agree. -/
theorem sampleSparse_agrees : sampleSparse.count = 2 ∧ Agrees (sampleView sampleSparse 1) sampleSparse 1 := by
  refine ⟨by decide +kernel, ?_⟩
  refine (panel_agrees_iff sampleSparse_reachable (by decide +kernel) (sampleView_mirrors _ 1)).mpr ⟨?_, ?_⟩
  · decide +kernel
  · intro closed
    exact absurd closed (by decide +kernel)

/-- Four guests come into a room for four, the first one leaves, and the second
makes it a room for three. -/
def sampleShrunk : Server :=
  [Server.sampleHello ⟨0x7f000001, 5000⟩ 77, Server.sampleHello ⟨0x7f000001, 5001⟩ 78,
    Server.sampleHello ⟨0x7f000001, 5002⟩ 79, Server.sampleHello ⟨0x7f000001, 5003⟩ 80,
    Server.sampleCommand ⟨0x7f000001, 5000⟩ 77 1 [Command.leave.code],
    Server.sampleCommand ⟨0x7f000001, 5001⟩ 78 1 [Command.config.code, 3, 0, 0]].foldl Server.step
      { Server.sampleRoom with expected := 4 }

theorem sampleShrunk_reachable : Server.system.Reachable sampleShrunk :=
  sampleFour_init.run ⟨trivial, trivial, trivial, trivial, trivial, trivial, trivial, trivial, trivial, trivial,
    trivial, trivial, trivial⟩

/-- The host, in slot 1, sees two of three players and is offered a room for
two, which the server rejects. -/
theorem sampleShrunk_disagrees : Server.system.Reachable sampleShrunk ∧ sampleShrunk.closed = false ∧
    (sampleShrunk.players 1).occupied = true ∧ Mirrors (sampleView sampleShrunk 1) sampleShrunk 1 ∧
    (presentRoom (sampleView sampleShrunk 1)).occupied = 2 ∧ sampleShrunk.count = 3 ∧
    validRoomChange (sampleView sampleShrunk 1) 2 0 0 = true ∧
    ¬ sampleShrunk.Grants 1 (.at Server.sampleClock) 0 2 0 0 := by
  refine ⟨sampleShrunk_reachable, by decide +kernel, by decide +kernel, sampleView_mirrors _ 1, by decide +kernel,
    by decide +kernel, by decide +kernel, ?_⟩
  rintro ⟨kept, _⟩
  exact absurd kept (by decide +kernel)

end FzeroVs
