import FzeroVs.Server.Movement
import FzeroVs.Client.Opponents
import FzeroVs.Room.Mirror

namespace FzeroVs

/-- Where the game of a player had his machine while it was on the track. -/
structure Sighting where
  id : Fin 4
  token : UInt64
  race : UInt32
  position : Position
  deriving DecidableEq, Repr

/-- The own machine in the emulated memory. -/
def Position.ofRam (ram : Ram) : Position := ⟨Client.word ram 0xb70, Client.word ram 0xb90, ram 0xbd1⟩

/-- The position in a STATE or in a LOADED. -/
def Packet.position (p : Packet) : Option Position :=
  if p.is .state = true then some ⟨u16 p.payload, u16 (p.payload.drop 2), p.byte 4⟩
  else if p.is .command = true ∧ Command.ofCode (p.byte 0) = some .loaded then
    some ⟨u16 (p.payload.drop 1), u16 (p.payload.drop 3), p.byte 5⟩
  else none

namespace Client

/-- The game of the client has his machine on the track: it waits on the grid, or
it is under way and not over. -/
def OnTrack (c : Client) (ram : Ram) : Prop :=
  c.memory = true ∧ c.config.baseline = false ∧
    (c.game = .location ∧ ram 0x54 = 2 ∧ ram 0x55 = 0 ∧ ram 0x56 = 2 ∨ c.game = .race ∧ ram 0x54 ≠ 3)

instance (c : Client) (ram : Ram) : Decidable (c.OnTrack ram) := inferInstanceAs (Decidable (_ ∧ _ ∧ (_ ∨ _)))

/-- What the game of the client shows of his machine in a frame. -/
def sighting (c : Client) (ram : Ram) : List Sighting :=
  match c.id with
  | some id => if c.OnTrack ram then [⟨id, c.token, c.race, .ofRam ram⟩] else []
  | none => []

/-- The client may send the packet: what it says of the own machine was seen. -/
def Backed (c : Client) (seen : List Sighting) (p : Packet) : Prop :=
  p.Framed ∧ ∀ x, p.position = some x → ∃ id, c.id = some id ∧ ⟨id, c.token, c.race, x⟩ ∈ seen

/-- All that the client says of its machine was seen. -/
structure Truthful (c : Client) (seen : List Sighting) : Prop where
  waiting : c.id = none → c.pending = []
  requests : ∀ r ∈ c.requests, Command.ofCode (r.getD 0 0) ≠ some .loaded
  queued : ∀ q ∈ c.pending, c.Backed seen q.packet
  sent : ∀ data ∈ c.sent, ∀ p, decode data = some p → ∀ x, p.position = some x →
    ∃ id, ⟨id, p.token, p.race, x⟩ ∈ seen

theorem position_payload (ram : Ram) (command : UInt8) :
    u16 ((position ram command).drop 1) = word ram 0xb70 ∧ u16 ((position ram command).drop 3) = word ram 0xb90 ∧
      (position ram command).getD 5 0 = ram 0xbd1 := by
  refine ⟨?_, ?_, rfl⟩
  · simp only [position, List.cons_append, List.drop_succ_cons, List.drop_zero, List.append_assoc, u16_put16]
  · have dropped : (position ram command).drop 3 = put16 (word ram 0xb90) ++ [ram 0xbd1] := rfl
    rw [dropped, u16_put16]

theorem commandPacket_framed (seq : UInt32) {command : List UInt8} (fits : command.length ≤ maxPacket - headerSize) :
    (commandPacket seq command).Framed := by
  refine ⟨⟨.command, rfl⟩, ?_, fits⟩
  have limits : headerSize = 36 ∧ maxPacket = 256 := ⟨rfl, rfl⟩
  change (UInt16.ofNat command.length).toNat = command.length
  rw [UInt16.toNat_ofNat']
  omega

/-- Only LOADED says where the machine is. -/
theorem commandPacket_position (seq : UInt32) {command : List UInt8}
    (other : Command.ofCode (command.getD 0 0) ≠ some .loaded) : (commandPacket seq command).position = none := by
  have state : (commandPacket seq command).is .state = false := rfl
  rw [Packet.position, state, if_neg Bool.false_ne_true]
  exact if_neg fun loaded => other loaded.2

theorem loadedPacket_position (seq : UInt32) (ram : Ram) :
    (commandPacket seq (position ram Command.loaded.code)).position = some (.ofRam ram) := by
  obtain ⟨x, y, orientation⟩ := position_payload ram Command.loaded.code
  have state : (commandPacket seq (position ram Command.loaded.code)).is .state = false := rfl
  rw [Packet.position, state, if_neg Bool.false_ne_true, if_pos ⟨rfl, rfl⟩]
  change some (Position.mk (u16 ((position ram Command.loaded.code).drop 1))
    (u16 ((position ram Command.loaded.code).drop 3)) ((position ram Command.loaded.code).getD 5 0)) = _
  rw [x, y, orientation]
  rfl

theorem state_position {p : Packet} {ram : Ram} (type : p.type = Kind.state.code)
    (payload : p.payload = (position ram 0).drop 1) : p.position = some (.ofRam ram) := by
  obtain ⟨x, y, orientation⟩ := position_payload ram 0
  have state : p.is .state = true := by
    rw [Packet.is, type]
    rfl
  rw [Packet.position, if_pos state, Packet.byte, payload, List.drop_drop, x, y, Position.ofRam, ← orientation]
  rfl

variable {c d : Client} {seen : List Sighting}

namespace Truthful

/-- Nothing new is said. -/
theorem congr (truthful : Truthful c seen) (id : d.id = c.id) (token : d.token = c.token) (race : d.race = c.race)
    (requests : ∀ r ∈ d.requests, r ∈ c.requests)
    (pending : ∀ q ∈ d.pending, ∃ before ∈ c.pending, q.packet = before.packet)
    (sent : ∀ data ∈ d.sent, data ∈ c.sent) : Truthful d seen where
  waiting out := by
    refine List.eq_nil_iff_forall_not_mem.mpr fun q member => ?_
    obtain ⟨before, was, _⟩ := pending q member
    rw [truthful.waiting (id ▸ out)] at was
    exact absurd was List.not_mem_nil
  requests r member := truthful.requests r (requests r member)
  queued q member := by
    obtain ⟨before, was, same⟩ := pending q member
    rw [Backed, same, id, token, race]
    exact truthful.queued before was
  sent data member := truthful.sent data (sent data member)

/-- What has been seen stays seen. -/
theorem more (truthful : Truthful c seen) (later : List Sighting) : Truthful c (seen ++ later) where
  waiting := truthful.waiting
  requests := truthful.requests
  queued q member := by
    obtain ⟨framed, backed⟩ := truthful.queued q member
    refine ⟨framed, fun x at_ => ?_⟩
    obtain ⟨id, joined, was⟩ := backed x at_
    exact ⟨id, joined, List.mem_append_left later was⟩
  sent data member p decoded x at_ := by
    obtain ⟨id, was⟩ := truthful.sent data member p decoded x at_
    exact ⟨id, List.mem_append_left later was⟩

/-- A packet that says nothing of the machine, whatever its length. -/
theorem send_other (truthful : Truthful c seen) {packet : Packet} (state : packet.is .state = false)
    (command : packet.is .command = false) : Truthful (c.send packet) seen := by
  unfold Client.send
  by_cases opened : c.socket = true
  · rw [if_pos opened]
    refine { truthful with sent := fun data member p decoded x at_ => ?_ }
    rcases List.mem_append.mp member with old | new
    · exact truthful.sent data old p decoded x at_
    · rw [List.mem_singleton.mp new] at decoded
      have type : p.type = (c.stamped packet).type := decode_encode_type decoded
      change p.type = packet.type at type
      have isState : p.is .state = false := by rw [Packet.is, type]; exact state
      have isCommand : p.is .command = false := by rw [Packet.is, type]; exact command
      rw [Packet.position, isState, isCommand] at at_
      simp at at_
  · rw [if_neg opened]
    exact truthful

theorem send (truthful : Truthful c seen) {packet : Packet} (backed : c.Backed seen packet) :
    Truthful (c.send packet) seen := by
  unfold Client.send
  by_cases opened : c.socket = true
  · rw [if_pos opened]
    refine { truthful with sent := fun data member p decoded x at_ => ?_ }
    rcases List.mem_append.mp member with old | new
    · exact truthful.sent data old p decoded x at_
    · obtain ⟨⟨kind, length, fits⟩, backed⟩ := backed
      have framed : (c.stamped packet).Framed := ⟨kind, length, fits⟩
      rw [List.mem_singleton.mp new, decode_encode framed] at decoded
      obtain rfl := Option.some.inj decoded
      obtain ⟨id, _, was⟩ := backed x at_
      exact ⟨id, was⟩
  · rw [if_neg opened]
    exact truthful

theorem queue (truthful : Truthful c seen) {command : List UInt8}
    (backed : ∀ seq x, (commandPacket seq command).position = some x →
      ∃ id, c.id = some id ∧ ⟨id, c.token, c.race, x⟩ ∈ seen) : Truthful (c.queue command) seen := by
  unfold Client.queue
  by_cases refused : c.id = none ∨ 8 ≤ c.pending.length ∨ maxPacket - headerSize < command.length
  · rw [if_pos refused]
    exact truthful
  · rw [if_neg refused]
    refine ⟨fun out => absurd (.inl out) refused, truthful.requests, fun q member => ?_, truthful.sent⟩
    rcases List.mem_append.mp member with old | new
    · exact truthful.queued q old
    · rw [List.mem_singleton.mp new]
      have fits : command.length ≤ maxPacket - headerSize := by omega
      exact ⟨commandPacket_framed _ fits, backed _⟩

theorem queue_other (truthful : Truthful c seen) {command : List UInt8}
    (other : Command.ofCode (command.getD 0 0) ≠ some .loaded) : Truthful (c.queue command) seen :=
  truthful.queue fun seq x at_ => by
    rw [commandPacket_position seq other] at at_
    cases at_

theorem hello (truthful : Truthful c seen) (t : UInt64) : Truthful (c.hello t) seen := by
  unfold Client.hello
  by_cases due : 250000 < t - c.lastHello
  · rw [if_pos due]
    exact (truthful.send_other rfl rfl).congr rfl rfl rfl (fun _ member => member)
      (fun q member => ⟨q, member, rfl⟩) fun _ member => member
  · rw [if_neg due]
    exact truthful

theorem ping (truthful : Truthful c seen) (t : UInt64) : Truthful (c.ping t) seen := by
  unfold Client.ping
  by_cases due : 500000 ≤ t - c.lastPing
  · rw [if_pos due]
    exact (truthful.send_other rfl rfl).congr rfl rfl rfl (fun _ member => member)
      (fun q member => ⟨q, member, rfl⟩) fun _ member => member
  · rw [if_neg due]
    exact truthful

theorem takeRequests (truthful : Truthful c seen) : Truthful c.takeRequests seen := by
  have emptied : Truthful { c with requests := [] } seen :=
    truthful.congr rfl rfl rfl (fun _ member => absurd member List.not_mem_nil)
      (fun q member => ⟨q, member, rfl⟩) fun _ member => member
  exact List.foldlRecOn (motive := fun d => Truthful d seen) c.requests Client.queue emptied
    fun d holds command member => holds.queue_other (truthful.requests command member)

/-- The first command goes out once more. -/
theorem resend (truthful : Truthful c seen) {p : Pending} {rest : List Pending} (t : UInt64)
    (waiting : c.pending = p :: rest) :
    Truthful { c.send p.packet with pending := { p with sent := t } :: rest } seen := by
  have first : p ∈ c.pending := by
    rw [waiting]
    exact List.mem_cons_self
  have queue := (c.send_pending p.packet).1
  refine (truthful.send (truthful.queued p first)).congr rfl rfl rfl (fun _ member => member) (fun q member => ?_)
    fun _ member => member
  rw [queue]
  rcases List.mem_cons.mp member with again | later
  · exact ⟨p, first, by rw [again]⟩
  · exact ⟨q, by rw [waiting]; exact List.mem_cons_of_mem p later, rfl⟩

theorem retransmit (truthful : Truthful c seen) (t : UInt64) : Truthful (c.retransmit t) seen := by
  unfold Client.retransmit
  split
  · exact truthful
  next p rest waiting =>
    by_cases due : 250000 ≤ t - p.sent
    · rw [if_pos due]
      by_cases again : p.sent ≠ 0
      · rw [if_pos again]
        have counted : Truthful { c with retries := c.retries + 1 } seen := { truthful with }
        exact counted.resend t waiting
      · rw [if_neg again]
        exact truthful.resend t waiting
    · rw [if_neg due]
      exact truthful

theorem failure (truthful : Truthful c seen) : Truthful c.failure seen :=
  truthful.congr rfl rfl rfl (fun _ member => member) (fun q member => ⟨q, member, rfl⟩) fun _ member => member

theorem pulse (truthful : Truthful c seen) (t : UInt64) : Truthful (c.pulse t) seen := by
  have served : Truthful (c.serve t) seen := by
    unfold Client.serve
    cases c.id with
    | none => exact truthful.hello t
    | some id => exact (truthful.takeRequests.retransmit t).ping t
  unfold Client.pulse
  dsimp only
  generalize (if (c.serve t).id = none then (10000000 : UInt64) else 5000000) = limit
  by_cases late : limit < t - (c.serve t).lastRecv
  · rw [if_pos late]
    exact served.failure
  · rw [if_neg late]
    exact served

theorem request (truthful : Truthful c seen) {command : UInt8} (data : List UInt8)
    (other : Command.ofCode command ≠ some .loaded) : Truthful (c.request command data) seen := by
  unfold Client.request
  by_cases few : c.requests.length < 8
  · rw [if_pos few]
    refine { truthful with requests := fun r member => ?_ }
    rcases List.mem_append.mp member with old | new
    · exact truthful.requests r old
    · rw [List.mem_singleton.mp new]
      exact other
  · rw [if_neg few]
    exact truthful

/-- A game that has just been put on the grid reports where. -/
theorem load (truthful : Truthful c seen) {id : Fin 4} (joined : c.id = some id) {ram : Ram}
    (here : ⟨id, c.token, c.race, .ofRam ram⟩ ∈ seen) : Truthful (c.load ram) seen := by
  unfold Client.load
  by_cases due : c.loadedSent = false ∧ c.phase = .loading
  · rw [if_pos due]
    have queued : Truthful (c.queue (position ram Command.loaded.code)) seen := truthful.queue fun seq x at_ => by
      rw [loadedPacket_position] at at_
      obtain rfl := Option.some.inj at_
      exact ⟨id, joined, here⟩
    exact queued.congr rfl rfl rfl (fun _ member => member) (fun q member => ⟨q, member, rfl⟩) fun _ member => member
  · rw [if_neg due]
    exact truthful

/-- So does a game that is racing. -/
theorem sendState (truthful : Truthful c seen) {id : Fin 4} (joined : c.id = some id) {ram : Ram}
    (here : ⟨id, c.token, c.race, .ofRam ram⟩ ∈ seen) : Truthful (c.sendState ram) seen := by
  have numbered : Truthful { c with stateSeq := c.stateSeq + 1 } seen := { truthful with }
  have fits : ((position ram 0).drop 1).length ≤ maxPacket - headerSize := by
    have size : ((position ram 0).drop 1).length = 5 := rfl
    rw [size]
    decide
  refine numbered.send ⟨⟨⟨.state, rfl⟩, rfl, fits⟩, fun x at_ => ⟨id, joined, ?_⟩⟩
  rw [state_position rfl rfl] at at_
  obtain rfl := Option.some.inj at_
  exact here

theorem select (truthful : Truthful c seen) : Truthful c.select seen := by
  have other : Command.ofCode ([Command.select.code, c.car].getD 0 0) ≠ some .loaded := by
    change Command.ofCode Command.select.code ≠ _
    decide
  unfold Client.select
  by_cases ready : c.id ≠ none ∧ c.selectedSent = false ∧ c.phase = .lobby
  · rw [if_pos ready]
    exact { truthful.queue_other other with }
  · rw [if_neg ready]
    exact truthful

theorem finish (truthful : Truthful c seen) : Truthful c.finish seen := by
  have other : Command.ofCode ([Command.finish.code].getD 0 0) ≠ some .loaded := by decide
  unfold Client.finish
  by_cases unsent : c.finishedSent = false
  · rw [if_pos unsent]
    exact { truthful.queue_other other with }
  · rw [if_neg unsent]
    exact truthful

theorem frame (truthful : Truthful c seen)
    (seated : c.config.baseline = false → seatedGame c.game = true → c.id ≠ none) (ram : Ram) (due : Bool)
    (now : UInt64) : Truthful (c.frame ram due now) (seen ++ c.sighting ram) := by
  have before := truthful.more (c.sighting ram)
  unfold Client.frame
  by_cases gone : c.memory = false ∨ c.game = .disconnected
  · rw [if_pos gone]
    exact before
  rw [if_neg gone]
  by_cases baseline : c.config.baseline = true
  · rw [if_pos baseline]
    exact { before with }
  rw [if_neg baseline]
  -- On the track the frame is one that has been seen.
  have here (place : c.game = .location ∧ ram 0x54 = 2 ∧ ram 0x55 = 0 ∧ ram 0x56 = 2 ∨ c.game = .race ∧ ram 0x54 ≠ 3) :
      ∃ id, c.id = some id ∧ ⟨id, c.token, c.race, .ofRam ram⟩ ∈ seen ++ c.sighting ram := by
    have moved : seatedGame c.game = true := by
      rcases place with ⟨game, _⟩ | ⟨game, _⟩
      · rw [game]
        rfl
      · rw [game]
        rfl
    have online := Bool.eq_false_of_not_eq_true baseline
    have onTrack : c.OnTrack ram := ⟨Bool.eq_true_of_not_eq_false fun out => gone (.inl out), online, place⟩
    obtain ⟨id, joined⟩ := Option.ne_none_iff_exists'.mp (seated online moved)
    refine ⟨id, joined, List.mem_append_right seen ?_⟩
    simp only [sighting, joined, if_pos onTrack, List.mem_singleton]
  split
  next => exact { before with }
  next =>
    have chosen : Truthful (if ram 0x55 = 3 then { c with car := menu (ram 0x5a) } else c) (seen ++ c.sighting ram) :=
      by
      by_cases menu : ram 0x55 = 3
      · rw [if_pos menu]
        exact { before with }
      · rw [if_neg menu]
        exact before
    generalize (if ram 0x55 = 3 then { c with car := menu (ram 0x5a) } else c) = d at *
    dsimp only
    by_cases started : ram 0x55 = 5
    · rw [if_pos started]
      exact { chosen with }
    · rw [if_neg started]
      exact chosen
  next =>
    have selected := before.select
    dsimp only
    by_cases loading : c.select.id ≠ none ∧ c.select.phase = .loading
    · rw [if_pos loading]
      exact { selected with }
    · rw [if_neg loading]
      exact selected
  next => exact { before with }
  next game =>
    by_cases grid : ram 0x54 = 2 ∧ ram 0x55 = 0 ∧ ram 0x56 = 2
    · rw [if_pos grid]
      obtain ⟨id, joined, member⟩ := here (.inl ⟨game, grid⟩)
      have loaded := before.load joined member
      dsimp only
      by_cases released : (c.load ram).released due = true
      · rw [if_pos released]
        exact { loaded with }
      · rw [if_neg released]
        exact loaded
    · rw [if_neg grid]
      exact before
  next game =>
    by_cases ended : ram 0x54 = 3
    · rw [if_pos ended]
      exact { before.finish with }
    · rw [if_neg ended]
      obtain ⟨id, joined, member⟩ := here (.inr ⟨game, ended⟩)
      exact before.sendState joined member
  next =>
    by_cases results : c.phase = .results
    · rw [if_pos results]
      exact { before with }
    · rw [if_neg results]
      exact before
  next =>
    have other : Command.ofCode ([Command.next.code].getD 0 0) ≠ some .loaded := by decide
    split
    · exact { before.queue_other other with }
    · exact before
  next => exact before

theorem join (truthful : Truthful c seen) (out : c.id = none) (t : UInt64) (p : Packet) (i : Fin 4) :
    Truthful (c.join t p i) seen := by
  refine { truthful with waiting := fun none => (by cases none), queued := fun q member => ?_ }
  change q ∈ c.pending at member
  rw [truthful.waiting out] at member
  exact absurd member List.not_mem_nil

theorem accept (truthful : Truthful c seen) (t : UInt64) (p : Packet) (v : Picture) :
    Truthful (c.accept t p v) seen := by
  have took := c.settle_took t p v
  have history : (c.settle t p v).sent = c.sent ∧ (c.settle t p v).requests = c.requests := by
    simp only [settle, newRace, display, bufferSnapshot, resetGame]
    split <;> exact ⟨rfl, rfl⟩
  have settled : Truthful (c.settle t p v) seen := by
    by_cases same : p.race = c.race
    · refine truthful.congr took.id took.token (took.race.trans same) (fun r member => history.2 ▸ member)
        (fun q member => ⟨q, ?_, rfl⟩) fun data member => history.1 ▸ member
      rw [(settle_same t v same).1] at member
      exact (List.dropWhile_sublist _).subset member
    · have empty := (settle_other t v same).1
      refine ⟨fun _ => empty, history.2 ▸ truthful.requests, fun q member => ?_, history.1 ▸ truthful.sent⟩
      rw [empty] at member
      exact absurd member List.not_mem_nil
  have other : Command.ofCode ((Command.arm.code :: put64 (c.settle t p v).startTime).getD 0 0) ≠ some .loaded := by
    change Command.ofCode Command.arm.code ≠ _
    decide
  unfold Client.accept Client.arm
  split
  · exact { settled.queue_other other with }
  · exact settled

theorem hear (truthful : Truthful c seen) (t : UInt64) (data : List UInt8) : Truthful (c.hear t data) seen := by
  unfold Client.hear
  split
  case isFalse => exact truthful
  split
  case h_2 => exact truthful
  next p decoded =>
    unfold Client.receive
    split
    · exact truthful.failure
    split
    · split
      next joined => exact truthful
      next out => exact truthful.join out t p _
    split
    · exact truthful
    split
    · exact truthful.failure
    split
    · exact { truthful.send_other rfl rfl with }
    split
    · dsimp only
      split
      · exact truthful
      · exact { truthful with }
    · unfold Client.receiveSnapshot
      split
      · exact truthful
      · split
        · exact truthful.accept t p _
        · exact { truthful with }

/-- The last command of a client says that it leaves. -/
theorem detach (truthful : Truthful c seen) : Truthful c.detach seen := by
  refine ⟨fun _ => rfl, fun r member => absurd member List.not_mem_nil,
    fun q member => absurd member List.not_mem_nil, ?_⟩
  have leave : c.Backed seen (commandPacket (c.commandSeq + 1) [Command.leave.code]) := by
    refine ⟨commandPacket_framed _ (by decide), fun x at_ => ?_⟩
    rw [commandPacket_position _ (by decide)] at at_
    cases at_
  have issued : Truthful (c.issue [Command.leave.code]) seen := { truthful with }
  have told := (issued.send leave).sent
  unfold Client.detach
  dsimp only
  split
  · split
    · exact told
    · exact truthful.sent
  · exact truthful.sent

theorem attach (truthful : Truthful c seen) (random : Option UInt64) (now : UInt64) :
    Truthful (c.attach random now) seen := by
  have detached := truthful.detach
  have renewed : Truthful { c.detach with memory := true, sent := [], issued := [], accepted := [] } seen :=
    { detached with sent := fun data member => absurd member List.not_mem_nil }
  unfold Client.attach
  dsimp only
  split
  · split
    · exact renewed.failure
    · exact ⟨fun _ => rfl, renewed.requests, fun q member => absurd member List.not_mem_nil,
        fun data member => absurd member List.not_mem_nil⟩
  · exact renewed.failure

end Truthful

/-- What an event shows of the machine of the client. -/
def seenIn (c : Client) : Event → List Sighting
  | .frame ram _ _ => c.sighting ram
  | _ => []

theorem mem_seenIn {e : Event} {x : Sighting} (member : x ∈ c.seenIn e) :
    c.id = some x.id ∧ x.token = c.token := by
  cases e with
  | frame ram due now =>
    rw [seenIn, sighting] at member
    cases joined : c.id with
    | none =>
      rw [joined] at member
      exact absurd member List.not_mem_nil
    | some id =>
      rw [joined] at member
      by_cases onTrack : c.OnTrack ram
      · dsimp only at member
        rw [if_pos onTrack] at member
        obtain rfl := List.mem_singleton.mp member
        exact ⟨rfl, rfl⟩
      · dsimp only at member
        rw [if_neg onTrack] at member
        exact absurd member List.not_mem_nil
  | _ => exact absurd member List.not_mem_nil

/-- The window asks for the settings of a race and for the next one, never for a position. -/
def Polite : Event → Prop
  | .request command _ => Command.ofCode command ≠ some .loaded
  | _ => True

instance Polite.decidable : (e : Event) → Decidable (Polite e)
  | .request command _ => inferInstanceAs (Decidable (Command.ofCode command ≠ some .loaded))
  | .attach _ _ => .isTrue trivial
  | .hear _ _ => .isTrue trivial
  | .pulse _ => .isTrue trivial
  | .frame _ _ _ => .isTrue trivial
  | .detach => .isTrue trivial

theorem Truthful.step (truthful : Truthful c seen) (reach : system.Reachable c) {e : Event} (polite : Polite e) :
    Truthful (c.step e) (seen ++ c.seenIn e) := by
  have silent (same : c.seenIn e = []) : seen ++ c.seenIn e = seen := by rw [same, List.append_nil]
  cases e with
  | attach random now =>
    rw [silent rfl]
    exact truthful.attach random now
  | request command data =>
    rw [silent rfl]
    exact truthful.request data polite
  | hear t data =>
    rw [silent rfl]
    exact truthful.hear t data
  | pulse t =>
    rw [silent rfl, Client.step]
    split
    · exact truthful
    · exact truthful.pulse t
  | frame ram due now => exact truthful.frame (reachable_seated reach) ram due now
  | detach =>
    rw [silent rfl]
    exact truthful.detach

end Client

end FzeroVs
