import FzeroVs.Server.Poll
import FzeroVs.Server.Slots

namespace FzeroVs

/-- What the rules of the room can see of a slot: all but its heartbeat and
its statistics. -/
def Player.visible (p : Player) : Player := { p with seen := 0, packets := 0, bytes := 0, ping := 0 }

namespace Server

/-- Counters, clocks, statistics and the network are all that differ. -/
structure Quiet (s t : Server) : Prop where
  session : t.session = s.session
  ownerNonce : t.ownerNonce = s.ownerNonce
  key : t.key = s.key
  closed : t.closed = s.closed
  start : t.start = s.start
  race : t.race = s.race
  phase : t.phase = s.phase
  expected : t.expected = s.expected
  host : t.host = s.host
  track : t.track = s.track
  league : t.league = s.league
  consumed : t.consumed = s.consumed
  drawn : t.drawn = s.drawn
  players : ∀ i, (t.players i).visible = (s.players i).visible

/-- The elementary changes that can complete no barrier, each with the
condition under which the code makes it. -/
inductive Calm : Server → Server → Prop
  | quiet {s t : Server} : Quiet s t → Calm s t
  | spoil {s : Server} (i : Fin 4) (address : Endpoint) : s.phase = .lobby →
      (s.players i).occupied = false → Calm s (s.modify i fun _ => { address := address })
  | seat {s : Server} (r : Readings) {token : UInt64} (address : Endpoint) (nonce : UInt64)
      (i : Fin 4) : s.phase = .lobby → (s.players i).occupied = false → token ≠ 0 →
      s.count < s.expected.toNat →
      (∀ j, (s.players j).occupied = true → (s.players j).address ≠ address) →
      Calm s (s.seat r token address nonce i)
  | steer {s : Server} (i : Fin 4) (seq : UInt32) (x y : UInt16) (orientation : UInt8)
      (now packets bytes : UInt64) : s.phase = .racing → (s.players i).status = .racing →
      Calm s (s.modify i fun p =>
        { p with
          stateSeq := seq
          x := x
          y := y
          orientation := orientation
          updated := now
          seen := now
          packets := packets
          bytes := bytes })

/-- The elementary changes of the room. Every call of the server is a sequence
of these. -/
inductive Move : Server → Server → Prop
  | calm {s t : Server} : Calm s t → Move s t
  | acknowledge {s : Server} (r : Readings) (i : Fin 4) (packet : Packet) :
      (s.players i).occupied = true → Move s (s.acknowledge r i packet)
  | select {s : Server} (i : Fin 4) {car : UInt8} : (s.players i).occupied = true → s.phase = .lobby →
      car < 4 → Move s (s.modify i fun p => { p with car := car, status := .selected })
  | load {s : Server} (i : Fin 4) (x y : UInt16) (orientation : UInt8) (now : UInt64) :
      (s.players i).occupied = true → s.phase = .loading →
      Move s (s.modify i fun p =>
        { p with x := x, y := y, orientation := orientation, status := .loaded, updated := now })
  | arm {s : Server} (i : Fin 4) : (s.players i).occupied = true → s.phase = .countdown →
      Move s (s.modify i fun p => { p with armed := s.start })
  | finish {s : Server} (i : Fin 4) : s.phase = .racing → (s.players i).status = .racing →
      Move s (s.modify i fun p => { p with status := .finished, x := 0, y := 0 })
  | config {s : Server} {players track league : UInt8} : s.phase = .lobby → 2 ≤ players →
      players ≤ 4 → s.count ≤ players.toNat → track < 5 → league < 3 →
      Move s { s with expected := players, track := track, league := league }
  | next {s : Server} (i : Fin 4) : (s.players i).occupied = true → i.val = s.host.toNat →
      s.phase = .results ∨ s.phase = .lobby → Move s s.beginLobby
  | close {s : Server} (i : Fin 4) : (s.players i).occupied = true → s.ownerNonce ≠ 0 → i = 0 →
      Move s { s.disconnect i with closed := true }
  | leave {s : Server} (i : Fin 4) : (s.players i).occupied = true →
      0 < ((s.disconnect i).vacate i).count → Move s ((s.disconnect i).vacate i)
  | empty {s : Server} (i : Fin 4) : (s.players i).occupied = true →
      ((s.disconnect i).vacate i).count = 0 →
      Move s { ((s.disconnect i).vacate i).beginLobby with host := 255 }
  | allSelected {s : Server} : s.phase = .lobby → s.count = s.expected.toNat →
      s.allAtLeast .selected = true → Move s { s with phase := .loading }
  | allLoaded {s : Server} (now : Micros) {deadline : UInt64} : s.phase = .loading →
      s.allAtLeast .loaded = true → deadline = now.val + 2000000 →
      Move s
        { s with
          start := deadline
          phase := .countdown
          players := fun i => { s.players i with armed := 0 } }
  | reschedule {s : Server} (now : Micros) {deadline : UInt64} : s.phase = .countdown →
      s.allArmed = false → s.start ≤ now.val + 500000 → deadline = now.val + 2000000 →
      Move s { s with start := deadline }
  | go {s : Server} (now : Micros) : s.phase = .countdown → s.allArmed = true → s.start ≤ now.val →
      Move s { s with phase := .racing, players := fun i => release (s.players i) }
  | allFinished {s : Server} : s.phase = .racing → s.allAtLeast .finished = true →
      Move s { s with phase := .results }
  | shut {s t : Server} : Quiet { s with closed := true } t → Move s t

/-- Finitely many elementary changes. -/
abbrev Path : Server → Server → Prop := Relation.ReflTransGen Move

abbrev CalmPath : Server → Server → Prop := Relation.ReflTransGen Calm

theorem Path.keeps {P : Server → Prop} {s t : Server} (path : Path s t)
    (moves : ∀ s t, Move s t → P s → P t) (holds : P s) : P t := by
  induction path with
  | refl => exact holds
  | tail _ move ih => exact moves _ _ move ih

theorem Quiet.refl (s : Server) : Quiet s s := by
  constructor <;> intros <;> rfl

theorem CalmPath.path {s t : Server} (calm : CalmPath s t) : Path s t :=
  Relation.ReflTransGen.mono (fun _ _ move => .calm move) _ _ calm

theorem Quiet.calm {s t : Server} (quiet : Quiet s t) : CalmPath s t := .single (.quiet quiet)

theorem Quiet.path {s t : Server} (quiet : Quiet s t) : Path s t := .single (.calm (.quiet quiet))

/-- An elementary change that stays in the race generation. -/
def Within (s t : Server) : Prop := Move s t ∧ t.race = s.race

/-- Finitely many changes, none of which begins a lobby. -/
abbrev Stay : Server → Server → Prop := Relation.ReflTransGen Within

theorem Stay.path {s t : Server} (stay : Stay s t) : Path s t :=
  Relation.ReflTransGen.mono (fun _ _ within => within.1) _ _ stay

theorem Stay.race {s t : Server} (stay : Stay s t) : t.race = s.race := by
  induction stay with
  | refl => rfl
  | tail _ within ih => exact within.2.trans ih

theorem Quiet.stay {s t : Server} (quiet : Quiet s t) : Stay s t :=
  .single ⟨.calm (.quiet quiet), quiet.race⟩

theorem Calm.race {s t : Server} (calm : Calm s t) : t.race = s.race := by
  cases calm with
  | quiet quiet => exact quiet.race
  | spoil i address lobby free => rfl
  | seat r address nonce i lobby free drawn room fresh => rfl
  | steer i seq x y orientation now packets bytes racing status => rfl

theorem CalmPath.stay {s t : Server} (path : CalmPath s t) : Stay s t :=
  Relation.ReflTransGen.mono (fun _ _ calm => ⟨.calm calm, calm.race⟩) _ _ path

theorem Stay.keeps {P : Server → Prop} {s t : Server} (stay : Stay s t)
    (moves : ∀ s t, Move s t → t.race = s.race → P s → P t) (holds : P s) : P t := by
  induction stay with
  | refl => exact holds
  | tail _ within ih => exact moves _ _ within.1 within.2 ih

theorem Quiet.trans {s t u : Server} (first : Quiet s t) (second : Quiet t u) : Quiet s u where
  session := second.session.trans first.session
  ownerNonce := second.ownerNonce.trans first.ownerNonce
  key := second.key.trans first.key
  closed := second.closed.trans first.closed
  start := second.start.trans first.start
  race := second.race.trans first.race
  phase := second.phase.trans first.phase
  expected := second.expected.trans first.expected
  host := second.host.trans first.host
  track := second.track.trans first.track
  league := second.league.trans first.league
  consumed := second.consumed.trans first.consumed
  drawn := second.drawn.trans first.drawn
  players i := (second.players i).trans (first.players i)

theorem modify_quiet (s : Server) (i : Fin 4) {f : Player → Player}
    (keeps : (f (s.players i)).visible = (s.players i).visible) : Quiet s (s.modify i f) :=
  { Quiet.refl s with players := modify_players_eq Player.visible keeps }

theorem reject_quiet (s : Server) : Quiet s s.reject := { Quiet.refl s with }

theorem countRx_quiet (s : Server) : Quiet s s.countRx := { Quiet.refl s with }

theorem countStale_quiet (s : Server) : Quiet s s.countStale := { Quiet.refl s with }

theorem transmit_quiet (s : Server) (address : Endpoint) (packet : Packet) :
    Quiet s (s.transmit address packet) := { Quiet.refl s with }

theorem joinError_quiet (s : Server) (address : Endpoint) (nonce : UInt64) (reason : Reject) :
    Quiet s (s.joinError address nonce reason) :=
  s.reject_quiet.trans (transmit_quiet _ _ _)

theorem commandError_quiet (s : Server) (i : Fin 4) (packet : Packet) :
    Quiet s (s.commandError i packet) :=
  s.reject_quiet.trans (transmit_quiet _ _ _)

theorem foldl_quiet {f : Server → Fin 4 → Server} (each : ∀ s i, Quiet s (f s i))
    (l : List (Fin 4)) (s : Server) : Quiet s (l.foldl f s) :=
  List.foldlRecOn l f (Quiet.refl s) fun t quiet i _ => quiet.trans (each t i)

theorem snapshot_quiet (s : Server) (now : UInt64) : Quiet s (s.snapshot now) := by
  have numbered : Quiet s { s with snapshotSeq := s.snapshotSeq + 1 } := { Quiet.refl s with }
  exact numbered.trans (foldl_quiet (fun s i => transmit_quiet s _ _) _ _)

theorem probe_quiet (s : Server) (now : Micros) : Quiet s (s.probe now) := by
  unfold probe
  split
  · have probed := foldl_quiet (f := fun s i =>
      (s.modify i fun p => { p with packets := 0, bytes := 0, ping := now.val }).sendPlayer i
        { type := Kind.ping.code, length := 8, payload := put64 now.val })
      (fun s i => (modify_quiet s i rfl).trans (transmit_quiet _ _ _)) s.occupiedSlots s
    exact probed.trans { Quiet.refl _ with }
  · exact Quiet.refl s

theorem close_cases (s : Server) : s.close = s ∨
    (Quiet { s with closed := true } s.close ∧ s.close.closed = true) := by
  unfold close
  split
  · have told := foldl_quiet (fun s i => transmit_quiet s (s.players i).address (s.addressed i
      { type := Kind.roomClosed.code, length := 1, payload := [1] })) s.occupiedSlots s
    exact .inr ⟨{ told with closed := rfl }, rfl⟩
  · exact .inl rfl

theorem close_stay (s : Server) : Stay s s.close := by
  rcases s.close_cases with same | ⟨quiet, _⟩
  · rw [same]
  · exact .single ⟨.shut quiet, quiet.race⟩

theorem drop_move {s : Server} {i : Fin 4} (seated : (s.players i).occupied = true) :
    Move s (s.drop i) := by
  simp only [drop]
  split
  next owner => exact .close i seated owner.1 owner.2
  next =>
    split
    next last => exact .empty i seated last
    next more => exact .leave i seated (by omega)

theorem silent_occupied {s : Server} {now : UInt64} {i : Fin 4} (gone : s.silent now i = true) :
    (s.players i).occupied = true := by
  simp only [silent, Bool.and_eq_true] at gone
  exact gone.1

/-- What the departure of a seated player keeps, the timeout loop keeps. -/
theorem dropEach_invariant {P : Server → Prop} {now : UInt64} {l : List (Fin 4)} {s : Server} (start : P s)
    (drop : ∀ t i, (t.players i).occupied = true → P t → P (t.drop i)) : P (dropEach now l s) := by
  refine List.foldlRecOn (motive := P) l _ start fun t holds i _ => ?_
  split
  next gone => exact drop t i (silent_occupied gone) holds
  next => exact holds

/-- Dropping everybody who has fallen silent, one slot after the other. -/
theorem dropEach_path (now : UInt64) (l : List (Fin 4)) (s : Server) : Path s (dropEach now l s) :=
  dropEach_invariant .refl fun _ _ seated path => path.tail (drop_move seated)

theorem enterLoading_stay (s : Server) : Stay s s.enterLoading := by
  unfold enterLoading
  split
  next ready => exact .single ⟨.allSelected ready.1 ready.2.1 ready.2.2, rfl⟩
  next => exact .refl

theorem enterCountdown_stay (s : Server) (now : Micros) : Stay s (s.enterCountdown now.val) := by
  unfold enterCountdown
  split
  next ready => exact .single ⟨.allLoaded now ready.1 ready.2 rfl, rfl⟩
  next => exact .refl

theorem countdown_stay (s : Server) (now : Micros) : Stay s (s.countdown now.val) := by
  unfold countdown
  split
  next counting =>
    split
    next late => exact .single ⟨.reschedule now counting (by simpa using late.1) late.2 rfl, rfl⟩
    next =>
      split
      next due => exact .single ⟨.go now counting due.1 due.2, rfl⟩
      next => exact .refl
  next => exact .refl

theorem enterResults_stay (s : Server) : Stay s s.enterResults := by
  unfold enterResults
  split
  next ready => exact .single ⟨.allFinished ready.1 ready.2, rfl⟩
  next => exact .refl

theorem passBarriers_stay (s : Server) (now : Micros) : Stay s (s.passBarriers now.val) :=
  ((s.enterLoading_stay.trans (enterCountdown_stay _ now)).trans (countdown_stay _ now)).trans
    (enterResults_stay _)

theorem passBarriers_path (s : Server) (now : Micros) : Path s (s.passBarriers now.val) :=
  (s.passBarriers_stay now).path

theorem advance_path (s : Server) (now : Micros) : Path s (s.advance now.val) := by
  have dropped := dropEach_path now.val slots s
  simp only [advance]
  split
  · exact dropped
  · exact dropped.trans (passBarriers_path _ now)

theorem enroll_calm {s : Server} (r : Readings) (random : UInt64) (address : Endpoint)
    (nonce : UInt64) {i : Fin 4} (lobby : s.phase = .lobby) (room : s.count < s.expected.toNat)
    (fresh : ∀ j, (s.players j).occupied = true → (s.players j).address ≠ address)
    (free : (s.players i).occupied = false) : CalmPath s (s.enroll r random address nonce i) := by
  unfold enroll
  split
  · exact .single (.spoil i address lobby free)
  next drawn =>
    refine .head (.seat r address nonce i lobby free drawn room fresh) ?_
    exact ((transmit_quiet _ _ _).trans (snapshot_quiet _ _)).calm

theorem receiveHello_calm (s : Server) (r : Readings) (random : UInt64) (address : Endpoint)
    (packet : Packet) : CalmPath s (s.receiveHello r random address packet) := by
  unfold receiveHello
  split
  · exact s.reject_quiet.calm
  simp only
  split
  · exact (s.joinError_quiet _ _ _).calm
  split
  · exact (s.joinError_quiet _ _ _).calm
  split
  next i found =>
    split
    · exact (transmit_quiet _ _ _).calm
    · exact .refl
  next absent =>
    split
    · exact (s.joinError_quiet _ _ _).calm
    next lobby =>
      split
      · exact (s.joinError_quiet _ _ _).calm
      next room =>
        split
        next i found =>
          refine enroll_calm r random address _ (by simpa using lobby) (by omega) ?_
            (by simpa using find_slots_some found)
          intro j taken same
          have clash := find_slots_none absent j
          simp [taken, same] at clash
        next => exact .refl

theorem receiveState_calm (s : Server) (r : Readings) (i : Fin 4) (packet : Packet) (size : Nat) :
    CalmPath s (s.receiveState r i packet size) := by
  unfold receiveState
  split
  · exact s.reject_quiet.calm
  next fits =>
    split
    · exact s.countStale_quiet.calm
    · simp only [ne_eq, not_or, not_not] at fits
      exact .single (.steer i _ _ _ _ _ _ _ fits.2.1 fits.2.2)

/-- The switch makes at most one elementary change. -/
theorem commandEffect_move {s : Server} (r : Readings) {i : Fin 4} {packet : Packet}
    (seated : (s.players i).occupied = true) (valid : s.commandValid i packet = true) :
    s.commandEffect r i packet = s ∨ Move s (s.commandEffect r i packet) := by
  unfold commandValid at valid
  unfold commandEffect
  cases hcode : Command.ofCode (packet.byte 0) with
  | none => exact .inl rfl
  | some command =>
    cases command <;> simp only [hcode, Bool.and_eq_true, beq_iff_eq, decide_eq_true_eq] at valid
    case select => exact .inr (.select i seated valid.2 valid.1.2)
    case loaded => exact .inr (.load i _ _ _ _ seated valid.2)
    case arm => exact .inr (.arm i seated valid.1.2)
    case finish => exact .inr (.finish i valid.1.2 valid.2)
    case config =>
      obtain ⟨⟨⟨⟨⟨⟨⟨_, _⟩, lobby⟩, low⟩, high⟩, room⟩, track⟩, league⟩ := valid
      exact .inr (.config lobby low high room track league)
    all_goals exact .inl rfl

theorem commandEffect_path {s : Server} (r : Readings) {i : Fin 4} {packet : Packet}
    (seated : (s.players i).occupied = true) (valid : s.commandValid i packet = true) :
    Path s (s.commandEffect r i packet) := by
  rcases commandEffect_move r seated valid with same | move
  · rw [same]
  · exact .single move

/-- The switch touches nobody's presence and no phase, so what was checked
before it still holds after it and after the acknowledgement. -/
theorem acknowledge_commandEffect_frame {s : Server} (r : Readings) (i : Fin 4) (packet : Packet) :
    ((s.commandEffect r i packet).acknowledge r i packet).phase = s.phase ∧
    ((s.commandEffect r i packet).acknowledge r i packet).host = s.host := by
  unfold commandEffect
  cases hcode : Command.ofCode (packet.byte 0) with
  | none => exact ⟨rfl, rfl⟩
  | some command => cases command <;> exact ⟨rfl, rfl⟩

theorem commandEffect_occupied {s : Server} (r : Readings) {i : Fin 4} (packet : Packet)
    (seated : (s.players i).occupied = true) :
    ((s.commandEffect r i packet).players i).occupied = true := by
  unfold commandEffect
  cases hcode : Command.ofCode (packet.byte 0) with
  | none => exact seated
  | some command =>
    cases command
    case arm => simpa [Player.occupied] using seated
    all_goals first | exact seated | simp [Player.occupied]

theorem acknowledge_occupied {s : Server} (r : Readings) (i : Fin 4) (packet : Packet) :
    (((s.acknowledge r i packet)).players i).occupied = (s.players i).occupied := by
  simp [acknowledge, Player.occupied]

theorem commandTail_path {s : Server} (r : Readings) {i : Fin 4} {packet : Packet}
    (seated : (s.players i).occupied = true) (valid : s.commandValid i packet = true) :
    Path ((s.commandEffect r i packet).acknowledge r i packet)
      (((s.commandEffect r i packet).acknowledge r i packet).commandTail i packet) := by
  have present : (((s.commandEffect r i packet).acknowledge r i packet).players i).occupied = true :=
    (acknowledge_occupied r i packet).trans (commandEffect_occupied r packet seated)
  obtain ⟨phase, host⟩ := acknowledge_commandEffect_frame (s := s) r i packet
  generalize (s.commandEffect r i packet).acknowledge r i packet = t at *
  unfold commandValid at valid
  unfold commandTail
  cases hcode : Command.ofCode (packet.byte 0) with
  | none => exact .refl
  | some command =>
    cases command <;> simp only [hcode, Bool.and_eq_true, Bool.or_eq_true, beq_iff_eq] at valid
    case next => exact .single (.next i present (by rw [host]; exact valid.1.2) (by rw [phase]; exact valid.2))
    case leave => exact .single (drop_move present)
    all_goals exact .refl

theorem takeCommand_path {s : Server} (r : Readings) {i : Fin 4} (packet : Packet)
    (seated : (s.players i).occupied = true) : Path s (s.takeCommand r i packet) := by
  unfold takeCommand
  split
  next valid =>
    have applied := commandEffect_path r seated valid
    have present := commandEffect_occupied r packet seated
    exact (applied.tail (.acknowledge r i packet present)).trans (commandTail_path r seated valid)
  · refine .head (.acknowledge r i packet seated) ?_
    exact (commandError_quiet _ i packet).path

theorem receiveCommand_path {s : Server} (r : Readings) {i : Fin 4} (packet : Packet)
    (seated : (s.players i).occupied = true) : Path s (s.receiveCommand r i packet) :=
  (takeCommand_path r packet seated).trans
    ((advance_path _ r.advanced).trans (snapshot_quiet _ _).path)

theorem authenticate_some {s : Server} {address : Endpoint} {packet : Packet} {i : Fin 4}
    (found : s.authenticate address packet = some i) :
    (s.players i).occupied = true ∧ packet.session = s.session ∧
      packet.token = (s.players i).token ∧ address = (s.players i).address := by
  have matched := find_slots_some found
  simp only [Bool.and_eq_true, beq_iff_eq] at matched
  obtain ⟨⟨⟨seated, session⟩, token⟩, place⟩ := matched
  exact ⟨seated, session, token, place⟩

/-- The packet is the next command of slot `i`, so that the server takes it. -/
structure Takes (s : Server) (address : Endpoint) (i : Fin 4) (packet : Packet) : Prop where
  live : s.closed = false
  seated : (s.players i).occupied = true
  session : packet.session = s.session
  token : packet.token = (s.players i).token
  address : address = (s.players i).address
  command : packet.is .command = true
  race : packet.race = s.race
  nonempty : 1 ≤ packet.length.toNat
  seq : packet.seq = (s.players i).commandSeq + 1

theorem receiveFrom_cases (s : Server) (r : Readings) (i : Fin 4) (packet : Packet) (size : Nat) :
    CalmPath s (s.receiveFrom r i packet size) ∨
      (packet.is .command = true ∧ packet.race = s.race ∧ 1 ≤ packet.length.toNat ∧
        packet.seq = (s.players i).commandSeq + 1 ∧
        s.receiveFrom r i packet size = s.receiveCommand r i packet) := by
  unfold receiveFrom
  split
  · exact .inl (modify_quiet s i rfl).calm
  split
  · exact .inl ((modify_quiet s i rfl).trans (transmit_quiet _ _ _)).calm
  split
  · exact .inl s.countStale_quiet.calm
  next current =>
    split
    · exact .inl (s.receiveState_calm r i packet size)
    split
    · exact .inl s.reject_quiet.calm
    next command =>
      split
      · exact .inl s.countStale_quiet.calm
      split
      · exact .inl s.reject_quiet.calm
      next following =>
        simp only [not_or, not_not, not_lt] at command
        exact .inr ⟨command.1, by simpa using current, command.2, by simpa using following, rfl⟩

/-- A datagram either changes nothing that a barrier waits for, or is the next
command of the slot that authenticated it. -/
theorem receivePacket_cases (s : Server) (r : Readings) (random : UInt64) (address : Endpoint)
    (data : List UInt8) : CalmPath s (s.receivePacket r random address data) ∨
      ∃ i packet, decode data = some packet ∧ Takes s address i packet ∧
        s.receivePacket r random address data =
          s.countRx.receiveCommand r i packet := by
  unfold receivePacket
  split
  · split
    · exact .inl (s.joinError_quiet _ _ _).calm
    · exact .inl s.reject_quiet.calm
  next packet decoded =>
    split
    · exact .inl .refl
    next live =>
      have counted := s.countRx_quiet
      dsimp only
      split
      · exact .inl (counted.calm.trans (receiveHello_calm _ r random address _))
      · split
        · exact .inl (counted.trans (reject_quiet _)).calm
        next i found =>
          obtain ⟨seated, session, token, place⟩ := authenticate_some found
          rcases receiveFrom_cases s.countRx r i packet data.length with
            calm | ⟨command, race, nonempty, seq, same⟩
          · exact .inl (counted.calm.trans calm)
          · exact .inr ⟨i, packet, decoded,
              ⟨by simpa using live, seated, session, token, place, command, race, nonempty, seq⟩, same⟩

theorem receivePacket_path (s : Server) (r : Readings) (random : UInt64) (address : Endpoint)
    (data : List UInt8) : Path s (s.receivePacket r random address data) := by
  rcases s.receivePacket_cases r random address data with calm | ⟨i, packet, _, takes, same⟩
  · exact calm.path
  · have counted := s.countRx_quiet
    rw [same]
    exact counted.path.trans (receiveCommand_path r packet takes.seated)

theorem setTick_quiet (s : Server) (tick : UInt64) : Quiet s { s with tick := tick } :=
  { Quiet.refl s with }

theorem timer_path (s : Server) (now sampled : Micros) : Path s (s.timer now sampled) := by
  unfold timer
  split
  · have advanced := s.advance_path now
    generalize s.advance now.val = t at *
    dsimp only
    split
    · exact advanced.trans (t.setTick_quiet _).path
    · exact advanced.trans ((t.snapshot_quiet sampled.val).trans (setTick_quiet _ _)).path
  · exact .refl

/-- Every event of the server is a sequence of elementary changes. -/
theorem step_path (s : Server) (e : Event) : Path s (s.step e) := by
  cases e with
  | packet d => exact s.receivePacket_path _ _ _ _
  | timer now sampled => exact s.timer_path now sampled
  | probe now => exact (s.probe_quiet now).path
  | close => exact (s.close_stay).path

/-- A property that every elementary change keeps holds of every reachable
server state. -/
theorem reachable_of_moves {P : Server → Prop} (initial : ∀ s, system.init s → P s)
    (moves : ∀ s t, Move s t → P s → P t) {s : Server} (reach : system.Reachable s) : P s := by
  refine reach.invariant initial fun s e _ _ _ holds => ?_
  exact Path.keeps (s.step_path e) moves holds

end Server

end FzeroVs
