import FzeroVs.Server.Wire
import FzeroVs.Client.Accept

namespace FzeroVs

namespace Server

/-- The ranges that a client checks. They hold in a closed room too. -/
structure Ranged (s : Server) : Prop where
  fewest : 2 ≤ s.expected
  most : s.expected ≤ 4
  host : s.host < 4 ∨ s.host = 255
  track : s.track < 5
  league : s.league < 3
  car : ∀ i, (s.players i).car < 4

theorem slot_lt_four (i : Fin 4) : UInt8.ofNat i.val < 4 := by
  revert i
  decide

theorem electHost_ranged (s : Server) : s.electHost < 4 ∨ s.electHost = 255 := by
  unfold electHost
  split
  next i _ => exact .inl (slot_lt_four i)
  next => exact .inr rfl

theorem Ranged.cars {s t : Server} (ranged : Ranged s) (expected : t.expected = s.expected)
    (host : t.host = s.host) (track : t.track = s.track) (league : t.league = s.league)
    (car : ∀ i, (t.players i).car < 4) : Ranged t where
  fewest := expected ▸ ranged.fewest
  most := expected ▸ ranged.most
  host := host ▸ ranged.host
  track := track ▸ ranged.track
  league := league ▸ ranged.league
  car := car

theorem Ranged.modify {s : Server} (ranged : Ranged s) {i : Fin 4} {f : Player → Player}
    (car : (f (s.players i)).car < 4) : Ranged (s.modify i f) := by
  refine ranged.cars rfl rfl rfl rfl fun j => ?_
  rw [modify_players]
  split
  · exact car
  · exact ranged.car j

theorem Ranged.quiet {s t : Server} (ranged : Ranged s) (quiet : Quiet s t) : Ranged t := by
  refine ranged.cars quiet.expected quiet.host quiet.track quiet.league fun i => ?_
  rw [quiet.field Player.car (fun _ => rfl) i]
  exact ranged.car i

theorem Ranged.leave {s : Server} (ranged : Ranged s) (i : Fin 4) :
    Ranged ((s.disconnect i).vacate i) := by
  have down : Ranged (s.disconnect i) := ranged.modify (ranged.car i)
  refine ⟨ranged.fewest, ranged.most, ?_, ranged.track, ranged.league, fun j => ?_⟩
  · simp only [vacate]
    split
    · exact electHost_ranged _
    · exact ranged.host
  · simp only [vacate]
    split
    · rw [Function.update_apply]
      split
      · decide
      · exact down.car j
    · exact down.car j

theorem Ranged.beginLobby {s : Server} (ranged : Ranged s) : Ranged s.beginLobby := by
  refine ranged.cars rfl rfl rfl rfl fun i => ?_
  change (relobby (s.players i)).car < 4
  unfold relobby
  split
  · exact ranged.car i
  · decide

theorem Ranged.move {s t : Server} (move : Move s t) (ranged : Ranged s) : Ranged t := by
  cases move with
  | calm calm =>
    cases calm with
    | quiet quiet => exact ranged.quiet quiet
    | spoil i address lobby free => exact ranged.modify (by decide : (0 : UInt8) < 4)
    | seat r address nonce i lobby free drawn room fresh =>
      refine ⟨ranged.fewest, ranged.most, ?_, ranged.track, ranged.league, fun j => ?_⟩
      · simp only [seat]
        split
        · exact .inl (slot_lt_four i)
        · exact ranged.host
      · by_cases isJ : j = i
        · rw [isJ, seat_players_self]
          exact (by decide : (0 : UInt8) < 4)
        · rw [seat_players_ne _ _ _ _ _ isJ]
          exact ranged.car j
    | steer i seq x y orientation now packets bytes racing status => exact ranged.modify (ranged.car i)
  | acknowledge r i packet seated =>
    refine ranged.cars rfl rfl rfl rfl fun j => ?_
    rw [acknowledge_players_eq Player.car (fun _ _ _ => rfl)]
    exact ranged.car j
  | @select i car seated lobby small => exact ranged.modify small
  | load i x y orientation now seated loading => exact ranged.modify (ranged.car i)
  | arm i seated counting => exact ranged.modify (ranged.car i)
  | finish i racing status => exact ranged.modify (ranged.car i)
  | @config players track league lobby low high room trackSmall leagueSmall =>
    exact ⟨low, high, ranged.host, trackSmall, leagueSmall, ranged.car⟩
  | next i seated host phase => exact ranged.beginLobby
  | close i seated owner zero =>
    have down : Ranged (s.disconnect i) := ranged.modify (ranged.car i)
    exact down.cars rfl rfl rfl rfl down.car
  | leave i seated others => exact ranged.leave i
  | empty i seated last =>
    have begun := (ranged.leave i).beginLobby
    exact ⟨begun.fewest, begun.most, .inr rfl, begun.track, begun.league, begun.car⟩
  | allSelected lobby full selected => exact ranged.cars rfl rfl rfl rfl ranged.car
  | allLoaded now loading loaded deadline => exact ranged.cars rfl rfl rfl rfl ranged.car
  | reschedule now counting unarmed late deadline => exact ranged.cars rfl rfl rfl rfl ranged.car
  | go now counting armed due =>
    refine ranged.cars rfl rfl rfl rfl fun i => ?_
    simp only [release]
    split
    · exact ranged.car i
    · exact ranged.car i
  | allFinished racing finished => exact ranged.cars rfl rfl rfl rfl ranged.car
  | shut quiet => exact (ranged.cars (t := { s with closed := true }) rfl rfl rfl rfl ranged.car).quiet quiet

theorem reachable_ranged {s : Server} (reach : system.Reachable s) : Ranged s := by
  refine reachable_of_moves (fun s init => ?_) (fun _ _ move ranged => ranged.move move) reach
  obtain ⟨c, session, now, created⟩ := init
  have seating := Seating.create created
  obtain ⟨_, _, _, _, _, rfl⟩ := create_some created
  exact ⟨seating.fewest, seating.most, .inr rfl, seating.track, seating.league, 
    fun _ => (by decide : (0 : UInt8) < 4)⟩

/-- A slot as it appears on the wire. -/
def peer (p : Player) (now : UInt64) : Peer where
  status := p.status
  car := p.car
  orientation := p.orientation
  x := p.x
  y := p.y
  seq := p.stateSeq
  age := age p now

/-- What the room shows at the time `now`. -/
def view (s : Server) (now : UInt64) : Picture where
  phase := s.phase
  expected := s.expected
  host := s.host
  track := s.track
  league := s.league
  armedMask := s.armedMask
  time := now
  start := s.start
  peers i := peer (s.players i) now

/-- Record `i` stands sixteen bytes after its predecessor. -/
theorem drop_records (f : Fin 4 → List UInt8) (sized : ∀ i, (f i).length = 16) (i : Fin 4) :
    ∃ rest, (slots.flatMap f).drop (i.val * 16) = f i ++ rest := by
  have all : slots.flatMap f = f 0 ++ (f 1 ++ (f 2 ++ (f 3 ++ []))) := by
    simp [slots]
  rw [all]
  fin_cases i
  · exact ⟨_, rfl⟩
  · refine ⟨f 2 ++ (f 3 ++ []), ?_⟩
    exact List.drop_left' (sized 0)
  · refine ⟨f 3 ++ [], ?_⟩
    rw [← List.append_assoc]
    exact List.drop_left' (by rw [List.length_append, sized, sized]; rfl)
  · refine ⟨[], ?_⟩
    rw [← List.append_assoc, ← List.append_assoc]
    exact List.drop_left' (by rw [List.length_append, List.length_append, sized, sized, sized]; rfl)

theorem picture_payload (s : Server) (now : UInt64) (i : Fin 4) :
    (s.picture now i).payload.drop 24 = slots.flatMap fun j => record (s.players j) now := rfl

theorem readPeer_picture {s : Server} (ranged : Ranged s) (now : UInt64) (i j : Fin 4) :
    readPeer (s.picture now i) j = some (peer (s.players j) now) := by
  obtain ⟨rest, atJ⟩ := drop_records (fun j => record (s.players j) now) (fun _ => rfl) j
  have small : ¬ 3 < (s.players j).car := by
    have car := ranged.car j
    rw [UInt8.lt_iff_toNat_lt] at car ⊢
    exact Nat.not_lt.mpr (Nat.le_of_lt_succ car)
  unfold readPeer
  rw [← List.drop_drop, picture_payload, atJ]
  have status : (record (s.players j) now ++ rest).getD 0 0 = (s.players j).status.code := rfl
  have car : (record (s.players j) now ++ rest).getD 1 0 = (s.players j).car := rfl
  have orientation : (record (s.players j) now ++ rest).getD 6 0 = (s.players j).orientation := rfl
  have x : u16 ((record (s.players j) now ++ rest).drop 2) = (s.players j).x := u16_put16 _ _
  have y : u16 ((record (s.players j) now ++ rest).drop 4) = (s.players j).y := u16_put16 _ _
  have seq : u32 ((record (s.players j) now ++ rest).drop 8) = (s.players j).stateSeq := u32_put32 _ _
  have age : u32 ((record (s.players j) now ++ rest).drop 12) = age (s.players j) now := u32_put32 _ _
  simp only [status, Status.ofCode_code, car, if_neg small, orientation, x, y, seq, age]
  rfl

/-- What the room sends is what its clients read. -/
theorem readPicture_picture {s : Server} (ranged : Ranged s) (now : UInt64) (i : Fin 4) :
    readPicture (s.picture now i) = some (s.view now) := by
  have peers : readPeers (s.picture now i) = some fun j => peer (s.players j) now := by
    unfold readPeers
    simp only [readPeer_picture ranged, Option.isSome_some, implies_true, if_true, Option.getD_some]
  have time : u64 ((s.picture now i).payload.drop 8) = now := u64_put64 _ _
  have start : u64 ((s.picture now i).payload.drop 16) = s.start := u64_put64 _ _
  have inRange : ¬ ((s.picture now i).type ≠ Kind.snapshot.code ∨ (s.picture now i).length ≠ 88 ∨
      s.expected < 2 ∨ 4 < s.expected ∨ (3 < s.host ∧ s.host ≠ 255) ∨ 4 < s.track ∨ 2 < s.league) := by
    obtain ⟨fewest, most, host, track, league, _⟩ := ranged
    simp only [UInt8.lt_iff_toNat_lt, UInt8.le_iff_toNat_le, UInt8.reduceToNat] at *
    rintro (kind | length | few | many | ⟨far, named⟩ | wide | long)
    · exact kind rfl
    · exact length rfl
    · omega
    · omega
    · rcases host with near | nobody
      · omega
      · exact named nobody
    · omega
    · omega
  have phase : Phase.ofCode ((s.picture now i).byte 0) = some s.phase := s.phase.ofCode_code
  have atOne : (s.picture now i).byte 1 = s.expected := rfl
  have atTwo : (s.picture now i).byte 2 = s.host := rfl
  have atThree : (s.picture now i).byte 3 = s.track := rfl
  have atFour : (s.picture now i).byte 4 = s.league := rfl
  unfold readPicture
  rw [atOne, atTwo, atThree, atFour, if_neg inRange, phase, peers, time, start]
  rfl

theorem slot_cases (i : Fin 4) : i = 0 ∨ i = 1 ∨ i = 2 ∨ i = 3 := by
  revert i
  decide

/-- A mask collects one bit for each slot. -/
theorem mask_testBit (f : Fin 4 → Bool) (i : Fin 4) :
    (slots.foldl (fun mask i => if f i then mask ||| 1 <<< UInt8.ofNat i.val else mask)
      (0 : UInt8)).toNat.testBit i.val = f i := by
  simp only [slots, List.foldl_cons, List.foldl_nil]
  obtain rfl | rfl | rfl | rfl := slot_cases i
  all_goals
    generalize f 0 = a, f 1 = b, f 2 = c, f 3 = d
    revert a b c d
    decide

end Server

/-- The datagram that `snapshot` sends to an occupied slot decodes, passes the
range checks of the client and, if it is newer than what the client holds,
makes the client show the room as it is. -/
theorem snapshot_understood {s : Server} (reach : Server.system.Reachable s) (now : UInt64) {i : Fin 4}
    (seated : (s.players i).occupied = true) :
    let p := (s.snapshot now).picture now i
    ⟨(s.players i).address, encode maxPacket p⟩ ∈ (s.snapshot now).sent ∧
    (s.snapshot now).sent = s.sent ++ s.occupiedSlots.map (fun j =>
      ⟨(s.players j).address, encode maxPacket ((s.snapshot now).picture now j)⟩) ∧
    decode (encode maxPacket p) = some p ∧ (readPicture p).isSome = true ∧
    ∀ (c : Client) (t : UInt64), Client.system.Reachable c → c.socket = true → c.id ≠ none →
      c.session = s.session → c.token = (s.players i).token → newer p.seq c.snapshotSeq = true →
      (p.race = c.race ∨ newer p.race c.race = true) →
      let d := c.hear t (encode maxPacket p)
      d.phase = s.phase ∧ d.expected = s.expected ∧ d.host = s.host ∧ d.track = s.track ∧
      d.league = s.league ∧ d.startTime = s.start ∧
      (∀ j, d.peers j =
        { status := (s.players j).status
          car := (s.players j).car
          orientation := (s.players j).orientation
          x := (s.players j).x
          y := (s.players j).y
          seq := (s.players j).stateSeq
          age := Server.age (s.players j) now }) ∧
      (∀ j : Fin 4, d.armedMask.toNat.testBit j.val = true ↔
        (s.players j).occupied = true ∧ (s.players j).armed = s.start ∧ s.start ≠ 0) ∧
      d.snapshotBuffer.getLast? = some ⟨now, d.peers⟩ ∧
      (s.race = c.race → ∃ queued,
        d.pending = c.pending.filter (fun q => !c.acknowledged (s.players i).commandSeq q) ++ queued ∧
        (queued = [] ∨ queued =
          [{ packet := Client.commandPacket (c.commandSeq + 1) (Command.arm.code :: put64 s.start) }]) ∧
        ((s.players i).commandSeq.toNat < 2 ^ 31 → (∀ q ∈ c.pending, q.packet.seq.toNat < 2 ^ 31) →
          d.pending = c.pending.filter (fun q =>
            decide ((s.players i).commandSeq.toNat < q.packet.seq.toNat)) ++ queued)) := by
  have ranged : (s.snapshot now).Ranged := (Server.reachable_ranged reach).quiet (s.snapshot_quiet now)
  have players := s.snapshot_players now
  have decoded := decode_encode ((s.snapshot now).picture_framed now i)
  have read := Server.readPicture_picture ranged now i
  have sent : (s.snapshot now).sent = s.sent ++ s.occupiedSlots.map (fun j =>
      ⟨(s.players j).address, encode maxPacket ((s.snapshot now).picture now j)⟩) := by
    rw [s.snapshot_sent now, Server.pictures, Server.occupiedSlots, players]
    rfl
  refine ⟨?_, sent, decoded, by rw [read]; rfl, ?_⟩
  · rw [sent]
    refine List.mem_append_right _ (List.mem_map.mpr ⟨i, ?_, rfl⟩)
    exact List.mem_filter.mpr ⟨Server.mem_slots i, seated⟩
  intro c t reachable opened joined session token newerSeq newerRace
  have quiet := s.snapshot_quiet now
  have lined := Client.reachable_lined reachable
  have accepts : Client.Accepts c ((s.snapshot now).picture now i) ((s.snapshot now).view now) := by
    refine ⟨opened, joined, ?_, ?_, read, ?_⟩
    · exact quiet.session.trans session.symm
    · change ((s.snapshot now).players i).token = c.token
      rw [players, token]
    · simpa [Client.fresh, newerSeq] using newerRace
  have heard := Client.hear_picture t decoded accepts
  have shows := c.accept_shows t ((s.snapshot now).picture now i) ((s.snapshot now).view now)
  generalize hd : c.hear t (encode maxPacket ((s.snapshot now).picture now i)) = d at *
  rw [← heard] at shows
  have peers : d.peers = fun j => Server.peer (s.players j) now := by
    rw [shows.peers, ← players]
    rfl
  refine ⟨shows.phase.trans quiet.phase, shows.expected.trans quiet.expected,
    shows.host.trans quiet.host, shows.track.trans quiet.track, shows.league.trans quiet.league,
    shows.startTime.trans quiet.start, fun j => congrFun peers j, fun j => ?_, ?_, fun same => ?_⟩
  · have bit := Server.mask_testBit (s.snapshot now).armedFor j
    have mask : d.armedMask = (s.snapshot now).armedMask := shows.armedMask
    rw [mask, Server.armedMask, bit]
    simp [Server.armedFor, players, quiet.start, and_assoc]
  · rw [shows.buffered, shows.peers]
    rfl
  · have ack : ((s.snapshot now).picture now i).ack = (s.players i).commandSeq := by
      change ((s.snapshot now).players i).commandSeq = _
      rw [players]
    have sameRace : ((s.snapshot now).picture now i).race = c.race := quiet.race.trans same
    obtain ⟨queued, pending, which⟩ :=
      Client.accept_pending t ((s.snapshot now).view now) sameRace
    rw [← heard, ack] at pending
    refine ⟨queued, ?_, ?_, fun lowAck low => ?_⟩
    · rw [← pending, lined.dropWhile_covered]
    · rw [← quiet.start]
      exact which
    · rw [← pending, lined.dropWhile_low lowAck low]

/-- The room after the first guest has joined. -/
def sampleOpened : Server := Server.sampleRoom.step Server.sampleJoin

/-- The guest's own side of it: attach, then WELCOME. -/
def sampleMember : Client :=
  [.attach (some 9) 1000000,
    .hear 1000000 (encode maxPacket (sampleOpened.addressed 0 (sampleOpened.welcomePacket 0)))].foldl
      Client.step {}

theorem sampleMember_reachable : Client.system.Reachable sampleMember := by
  have fresh : Client.system.Reachable {} := .start ⟨{}, rfl⟩
  exact fresh.run ⟨trivial, trivial, trivial, trivial, trivial⟩

theorem sampleMember_understood : (sampleMember.hear 1000000
    (encode maxPacket ((sampleOpened.snapshot 1000000).picture 1000000 0))).host = 0 := by
  have shown := (snapshot_understood Server.sampleJoin_reachable 1000000
    (i := 0) (by decide +kernel)).2.2.2.2 sampleMember 1000000 sampleMember_reachable (by decide +kernel)
    (by decide +kernel) (by decide +kernel) (by decide +kernel) (by decide +kernel) (.inl (by decide +kernel))
  exact shown.2.2.1

end FzeroVs
