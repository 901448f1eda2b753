import FzeroVs.Library.Run
import FzeroVs.Client.Frame
import Mathlib.Logic.Relation

namespace FzeroVs.Client

/-- Only clocks, counters, the queue of user requests and the own car differ,
and nothing but packets that are no commands has been sent. -/
structure Idle (c d : Client) : Prop where
  config : d.config = c.config
  memory : d.memory = c.memory
  socket : d.socket = c.socket
  id : d.id = c.id
  session : d.session = c.session
  token : d.token = c.token
  nonce : d.nonce = c.nonce
  startTime : d.startTime = c.startTime
  armedTime : d.armedTime = c.armedTime
  race : d.race = c.race
  commandSeq : d.commandSeq = c.commandSeq
  snapshotSeq : d.snapshotSeq = c.snapshotSeq
  phase : d.phase = c.phase
  armedMask : d.armedMask = c.armedMask
  peers : d.peers = c.peers
  snapshotBuffer : d.snapshotBuffer = c.snapshotBuffer
  game : d.game = c.game
  loadedSent : d.loadedSent = c.loadedSent
  selectedSent : d.selectedSent = c.selectedSent
  finishedSent : d.finishedSent = c.finishedSent
  pending : d.pending.map Pending.packet = c.pending.map Pending.packet
  issued : d.issued = c.issued
  accepted : d.accepted = c.accepted
  sent : ∀ data ∈ d.sent, data ∈ c.sent ∨ ∀ p, decode data = some p → p.is .command = false

theorem Idle.refl (c : Client) : Idle c c := by
  constructor <;> first | rfl | exact fun _ present => .inl present

/-- The automaton has left the waiting room, which only a joined client does. -/
def seatedGame : Game → Bool
  | .prepare | .location | .race | .finished | .results => true
  | _ => false

/-- The elementary changes that the client makes by itself, each with the
condition under which the code makes it. -/
inductive Move : Client → Client → Prop
  | idle {c d : Client} : Idle c d → Move c d
  | retransmit {c : Client} {p : Pending} {rest : List Pending} (t : UInt64) : c.pending = p :: rest →
      Move c { c.send p.packet with pending := { p with sent := t } :: rest }
  | queue {c : Client} (command : List UInt8) : Move c (c.queue command)
  | select {c : Client} : c.game = .waiting → c.selectedSent = false → c.id ≠ none → c.phase = .lobby →
      Move c { c.queue [Command.select.code, c.car] with selectedSent := true }
  | load {c : Client} (ram : UInt32 → UInt8) : c.game = .location → c.config.baseline = false →
      c.loadedSent = false → c.phase = .loading →
      Move c { c.queue (position ram Command.loaded.code) with loadedSent := true }
  | finish {c : Client} : c.game = .race → c.config.baseline = false → c.finishedSent = false →
      Move c { c.queue [Command.finish.code] with finishedSent := true }
  | arm {c : Client} : c.phase = .countdown → c.startTime ≠ c.armedTime →
      Move c { c.queue (Command.arm.code :: put64 c.startTime) with armedTime := c.startTime }
  | play {c : Client} {game : Game} : c.game ≠ .disconnected → game ≠ .disconnected →
      (c.config.baseline = true → game = .race ∨ game = .carSelect) →
      (c.config.baseline = false → seatedGame game = true → seatedGame c.game = true ∨ c.id ≠ none) →
      Move c { c with game := game }
  | fail {c : Client} : Move c c.failure

/-- Finitely many elementary changes. -/
abbrev Path : Client → Client → Prop := Relation.ReflTransGen Move

theorem Path.keeps {P : Client → Prop} {c d : Client} (path : Path c d)
    (moves : ∀ c d, Move c d → P c → P d) (holds : P c) : P d := by
  induction path with
  | refl => exact holds
  | tail _ move ih => exact moves _ _ move ih

theorem arm_path (c : Client) : Path c c.arm := by
  unfold arm
  split
  next counting => exact .single (.arm counting.1 counting.2)
  next => exact .refl

theorem Idle.path {c d : Client} (idle : Idle c d) : Path c d := .single (.idle idle)

/-- Sending anything but a command is idle. -/
theorem send_idle (c : Client) {packet : Packet} (other : packet.type ≠ Kind.command.code) :
    Idle c (c.send packet) := by
  unfold send
  split
  · refine { Idle.refl c with sent := fun data present => ?_ }
    rcases List.mem_append.mp present with old | new
    · exact .inl old
    · refine .inr fun p decoded => ?_
      cases List.mem_singleton.mp new
      simp only [Packet.is, beq_eq_false_iff_ne, decode_encode_type decoded]
      exact other
  · exact .refl c

theorem request_idle (c : Client) (command : UInt8) (data : List UInt8) :
    Idle c (c.request command data) := by
  unfold request
  split
  · exact { Idle.refl c with }
  · exact .refl c

theorem hello_idle (c : Client) (t : UInt64) : Idle c (c.hello t) := by
  unfold hello
  split
  · exact { c.send_idle (by decide : Kind.hello.code ≠ Kind.command.code) with }
  · exact .refl c

theorem ping_idle (c : Client) (t : UInt64) : Idle c (c.ping t) := by
  unfold ping
  split
  · exact { c.send_idle (by decide : Kind.ping.code ≠ Kind.command.code) with }
  · exact .refl c

/-- What queueing one command keeps, taking the requests keeps. -/
theorem takeRequests_invariant {P : Client → Prop} {c : Client} (emptied : P { c with requests := [] })
    (queued : ∀ d command, P d → P (d.queue command)) : P c.takeRequests :=
  List.foldlRecOn c.requests queue emptied fun d holds command _ => queued d command holds

theorem takeRequests_path (c : Client) : Path c c.takeRequests := by
  have emptied : Idle c { c with requests := [] } := { Idle.refl c with }
  exact takeRequests_invariant emptied.path fun d command path => path.tail (.queue command)

theorem retransmit_path (c : Client) (t : UInt64) : Path c (c.retransmit t) := by
  unfold retransmit
  split
  · exact .refl
  next p rest waiting =>
    split
    · have counted : Idle c (if p.sent ≠ 0 then { c with retries := c.retries + 1 } else c) := by
        split
        · exact { Idle.refl c with }
        · exact .refl c
      refine counted.path.tail ?_
      generalize hd : (if p.sent ≠ 0 then { c with retries := c.retries + 1 } else c) = d at *
      have same : d.pending = p :: rest := by
        subst hd
        split <;> exact waiting
      exact .retransmit t same
    · exact .refl

theorem serve_path (c : Client) (t : UInt64) : Path c (c.serve t) := by
  unfold serve
  split
  · exact (c.hello_idle t).path
  · exact (c.takeRequests_path.trans (retransmit_path _ t)).trans (ping_idle _ t).path

theorem pulse_path (c : Client) (t : UInt64) : Path c (c.pulse t) := by
  have served := c.serve_path t
  unfold pulse
  dsimp only
  generalize (if (c.serve t).id = none then (10000000 : UInt64) else 5000000) = limit
  split
  · exact served.tail .fail
  · exact served

theorem select_path (c : Client) (waiting : c.game = .waiting) : Path c c.select := by
  unfold select
  split
  next ready => exact .single (.select waiting ready.2.1 ready.1 ready.2.2)
  next => exact .refl

theorem load_path {c : Client} (ram : UInt32 → UInt8) (location : c.game = .location)
    (playing : c.config.baseline = false) : Path c (c.load ram) := by
  unfold load
  split
  next ready => exact .single (.load ram location playing ready.1 ready.2)
  next => exact .refl

theorem finish_path {c : Client} (racing : c.game = .race) (playing : c.config.baseline = false) :
    Path c c.finish := by
  unfold finish
  split
  next ready => exact .single (.finish racing playing ready)
  next => exact .refl

theorem sendState_idle (c : Client) (ram : UInt32 → UInt8) : Idle c (c.sendState ram) := by
  have counted : Idle c { c with stateSeq := c.stateSeq + 1 } := { Idle.refl c with }
  exact { send_idle { c with stateSeq := c.stateSeq + 1 }
    (by decide : Kind.state.code ≠ Kind.command.code) with }

/-- Queueing moves neither the automaton nor the picture of the room. -/
theorem queue_frame (c : Client) (command : List UInt8) :
    (c.queue command).game = c.game ∧ (c.queue command).config = c.config ∧
    (c.queue command).id = c.id ∧ (c.queue command).phase = c.phase := by
  unfold queue
  split <;> exact ⟨rfl, rfl, rfl, rfl⟩

theorem queue_socket (c : Client) (command : List UInt8) : (c.queue command).socket = c.socket := by
  unfold queue
  split <;> rfl

theorem Move.of_play {c : Client} {game : Game} (before : c.game ≠ .disconnected)
    (after : game ≠ .disconnected) (playing : c.config.baseline = false)
    (seated : seatedGame game = true → seatedGame c.game = true ∨ c.id ≠ none) :
    Move c { c with game := game } := by
  refine .play before after (fun baseline => ?_) fun _ => seated
  rw [playing] at baseline
  exact nomatch baseline

theorem frame_path (c : Client) (ram : UInt32 → UInt8) (due : Bool) (now : UInt64) :
    Path c (c.frame ram due now) := by
  unfold frame
  split
  · exact .refl
  next running =>
    simp only [not_or, Bool.not_eq_false] at running
    split
    next baseline =>
      refine .single (.play running.2 ?_ (fun _ => ?_) fun playing => ?_)
      · split <;> decide
      · split
        · exact .inl rfl
        · exact .inr rfl
      · rw [playing] at baseline
        exact nomatch baseline
    next playing =>
      have playing : c.config.baseline = false := by simpa using playing
      split
      next init => exact .single (.of_play running.2 (by decide) playing fun seated => nomatch seated)
      next selecting =>
        have chosen : Idle c (if ram 0x55 = 3 then { c with car := menu (ram 0x5a) } else c) := by
          split
          · exact { Idle.refl c with }
          · exact .refl c
        generalize (if ram 0x55 = 3 then { c with car := menu (ram 0x5a) } else c) = d at *
        dsimp only
        split
        · exact chosen.path.tail (.of_play (by rw [chosen.game]; exact running.2) (by decide)
            (by rw [chosen.config]; exact playing) fun seated => nomatch seated)
        · exact chosen.path
      next waiting =>
        have selected := c.select_path waiting
        have same : c.select.game = c.game ∧ c.select.config = c.config := by
          unfold select
          split
          · exact ⟨(c.queue_frame _).1, (c.queue_frame _).2.1⟩
          · exact ⟨rfl, rfl⟩
        generalize c.select = d at *
        dsimp only
        split
        next ready =>
          exact selected.tail (.of_play (by rw [same.1]; exact running.2) (by decide)
            (by rw [same.2]; exact playing) fun _ => .inr ready.1)
        next => exact selected
      next preparing =>
        exact .single (.of_play running.2 (by decide) playing fun _ => .inl (by rw [preparing]; rfl))
      next location =>
        split
        · have loaded := load_path ram location playing
          have same : (c.load ram).game = c.game ∧ (c.load ram).config = c.config := by
            unfold load
            split
            · exact ⟨(c.queue_frame _).1, (c.queue_frame _).2.1⟩
            · exact ⟨rfl, rfl⟩
          generalize c.load ram = d at *
          dsimp only
          split
          · exact loaded.tail (.of_play (by rw [same.1]; exact running.2) (by decide)
              (by rw [same.2]; exact playing) fun _ => .inl (by rw [same.1, location]; rfl))
          · exact loaded
        · exact .refl
      next racing =>
        split
        · have finished := finish_path racing playing
          have same : c.finish.game = c.game ∧ c.finish.config = c.config := by
            unfold finish
            split
            · exact ⟨(c.queue_frame _).1, (c.queue_frame _).2.1⟩
            · exact ⟨rfl, rfl⟩
          exact finished.tail (.of_play (by rw [same.1]; exact running.2) (by decide)
            (by rw [same.2]; exact playing) fun _ => .inl (by rw [same.1, racing]; rfl))
        · exact (c.sendState_idle ram).path
      next finished =>
        split
        · have timed : Idle c { c with resultsTime := now } := { Idle.refl c with }
          exact timed.path.tail (.of_play running.2 (by decide) playing
            fun _ => .inl (by rw [finished]; rfl))
        · exact .refl
      next results =>
        split
        · refine .head (.queue [Command.next.code]) (Idle.path ?_)
          exact { Idle.refl (c.queue [Command.next.code]) with }
        · exact .refl
      next => exact .refl

/-- Who the client is and what it has been shown, which only datagrams change. -/
structure Kept (c d : Client) : Prop where
  config : d.config = c.config
  id : d.id = c.id
  session : d.session = c.session
  token : d.token = c.token
  nonce : d.nonce = c.nonce
  race : d.race = c.race
  snapshotSeq : d.snapshotSeq = c.snapshotSeq
  phase : d.phase = c.phase
  startTime : d.startTime = c.startTime
  armedMask : d.armedMask = c.armedMask
  peers : d.peers = c.peers
  accepted : d.accepted = c.accepted

theorem Kept.refl (c : Client) : Kept c c := by
  constructor <;> rfl

theorem Kept.trans {c d e : Client} (first : Kept c d) (second : Kept d e) : Kept c e where
  config := second.config.trans first.config
  id := second.id.trans first.id
  session := second.session.trans first.session
  token := second.token.trans first.token
  nonce := second.nonce.trans first.nonce
  race := second.race.trans first.race
  snapshotSeq := second.snapshotSeq.trans first.snapshotSeq
  phase := second.phase.trans first.phase
  startTime := second.startTime.trans first.startTime
  armedMask := second.armedMask.trans first.armedMask
  peers := second.peers.trans first.peers
  accepted := second.accepted.trans first.accepted

theorem queue_kept (c : Client) (command : List UInt8) : Kept c (c.queue command) := by
  unfold queue
  split
  · exact .refl c
  · exact { Kept.refl c with }

theorem send_kept (c : Client) (packet : Packet) : Kept c (c.send packet) := by
  unfold send
  split
  · exact { Kept.refl c with }
  · exact .refl c

theorem Move.kept {c d : Client} (move : Move c d) : Kept c d := by
  cases move with
  | idle idle =>
    exact ⟨idle.config, idle.id, idle.session, idle.token, idle.nonce, idle.race, idle.snapshotSeq,
      idle.phase, idle.startTime, idle.armedMask, idle.peers, idle.accepted⟩
  | retransmit t waiting => exact { c.send_kept _ with }
  | queue command => exact c.queue_kept command
  | select waiting unsent joined lobby => exact { c.queue_kept _ with }
  | load ram location playing unsent loading => exact { c.queue_kept _ with }
  | finish racing playing unsent => exact { c.queue_kept _ with }
  | arm counting unarmed => exact { c.queue_kept _ with }
  | play before after baseline seated => exact { Kept.refl c with }
  | fail => exact { Kept.refl c with }

theorem Path.kept {c d : Client} (path : Path c d) : Kept c d := by
  induction path with
  | refl => exact .refl c
  | tail _ move ih => exact ih.trans move.kept

/-- The packet admits the client. -/
structure Admits (c : Client) (p : Packet) : Prop where
  opened : c.socket = true
  waiting : c.id = none
  welcome : p.is .welcome = true
  length : p.length = 9
  nonce : u64 (p.payload.drop 1) = c.nonce
  slot : p.byte 0 < 4
  session : p.session ≠ 0
  token : p.token ≠ 0

/-- The packet is a SNAPSHOT that the client accepts. -/
structure Accepts (c : Client) (p : Packet) (v : Picture) : Prop where
  opened : c.socket = true
  joined : c.id ≠ none
  session : p.session = c.session
  token : p.token = c.token
  read : readPicture p = some v
  fresh : c.fresh p = true

theorem receiveSnapshot_cases (c : Client) (t : UInt64) (p : Packet) :
    Idle c (c.receiveSnapshot t p) ∨
      ∃ v, readPicture p = some v ∧ c.fresh p = true ∧ c.receiveSnapshot t p = c.accept t p v := by
  unfold receiveSnapshot
  split
  · exact .inl (.refl c)
  next v read =>
    split
    next fresh => exact .inr ⟨v, read, fresh, rfl⟩
    next => exact .inl { Idle.refl c with }

/-- A datagram admits the client, is an accepted snapshot, ends the connection,
or changes nothing. -/
theorem hear_cases (c : Client) (t : UInt64) (data : List UInt8) :
    Path c (c.hear t data) ∨
    (∃ p, decode data = some p ∧ Admits c p ∧
      c.hear t data = c.join t p (Fin.ofNat 4 (p.byte 0).toNat)) ∨
    (∃ p v, decode data = some p ∧ Accepts c p v ∧ c.hear t data = c.accept t p v) := by
  unfold hear
  split
  next opened =>
    split
    next p decoded =>
      unfold receive
      split
      · exact .inl (.single .fail)
      split
      next welcome =>
        obtain ⟨kind, length, nonce, slot, session, token⟩ := welcome
        split
        · exact .inl .refl
        next waiting =>
          exact .inr (.inl ⟨p, decoded, ⟨opened, waiting, kind, length, nonce, slot, session, token⟩, rfl⟩)
      split
      · exact .inl .refl
      next own =>
        simp only [not_or, ne_eq, not_not] at own
        split
        · exact .inl (.single .fail)
        split
        · exact .inl (Idle.path { c.send_idle (by decide : Kind.pong.code ≠ Kind.command.code) with })
        split
        · dsimp only
          split
          · exact .inl .refl
          · exact .inl (Idle.path { Idle.refl c with })
        rcases c.receiveSnapshot_cases t p with idle | ⟨v, read, fresh, same⟩
        · exact .inl idle.path
        · exact .inr (.inr ⟨p, v, decoded, ⟨opened, own.1, own.2.1, own.2.2, read, fresh⟩, same⟩)
    next => exact .inl .refl
  next => exact .inl .refl

/-- What one event does to the client. -/
inductive Turn (c : Client) (e : Event) : Prop
  | path : Path c (c.step e) → (∀ random now, e ≠ .attach random now) → e ≠ .detach → Turn c e
  | join (t : UInt64) (data : List UInt8) (p : Packet) : e = .hear t data → decode data = some p →
      Admits c p → c.step e = c.join t p (Fin.ofNat 4 (p.byte 0).toNat) → Turn c e
  | accept (t : UInt64) (data : List UInt8) (p : Packet) (v : Picture) : e = .hear t data →
      decode data = some p → Accepts c p v → c.step e = c.accept t p v → Turn c e
  | attach (random : Option UInt64) (now : UInt64) : e = .attach random now → Turn c e
  | detach : e = .detach → Turn c e

theorem step_turn (c : Client) (e : Event) : Turn c e := by
  cases e with
  | attach random now => exact .attach random now rfl
  | request command data => exact .path (c.request_idle command data).path (by simp) (by simp)
  | hear t data =>
    rcases c.hear_cases t data with path | ⟨p, decoded, admits, same⟩ | ⟨p, v, decoded, accepts, same⟩
    · exact .path path (by simp) (by simp)
    · exact .join t data p rfl decoded admits same
    · exact .accept t data p v rfl decoded accepts same
  | pulse t =>
    refine .path ?_ (by simp) (by simp)
    simp only [step]
    split
    · exact .refl
    · exact c.pulse_path t
  | frame ram due now => exact .path (c.frame_path ram due now) (by simp) (by simp)
  | detach => exact .detach rfl

end FzeroVs.Client
