import FzeroVs.Server.Advance
import FzeroVs.Server.Roster

namespace FzeroVs

/-- What a player brings to a race: his machine, and where it stands on the grid. -/
structure Entry where
  car : Fin 4
  x : UInt16
  y : UInt16
  orientation : UInt8

namespace Server

/-- Whether the room waits for a command of slot `i`. -/
def awaits (s : Server) (i : Fin 4) : Bool :=
  (s.players i).occupied &&
    match s.phase with
    | .lobby => decide ((s.players i).status.rank < Status.selected.rank)
    | .loading => decide ((s.players i).status.rank < Status.loaded.rank)
    | .countdown => (s.players i).armed != s.start
    | .racing => decide ((s.players i).status.rank < Status.finished.rank)
    | .results => s.host.toNat == i.val

/-- The command that the room waits for, as the client queues it. -/
def answerPayload (s : Server) (e : Entry) : List UInt8 :=
  match s.phase with
  | .lobby => [Command.select.code, UInt8.ofNat e.car.val]
  | .loading => Command.loaded.code :: (put16 e.x ++ put16 e.y ++ [e.orientation])
  | .countdown => Command.arm.code :: put64 s.start
  | .racing => [Command.finish.code]
  | .results => [Command.next.code]

def answerPacket (s : Server) (e : Entry) (i : Fin 4) : Packet where
  type := Kind.command.code
  length := UInt16.ofNat (s.answerPayload e).length
  session := s.session
  race := s.race
  token := (s.players i).token
  seq := (s.players i).commandSeq + 1
  payload := s.answerPayload e

/-- Its datagram comes in from the endpoint of the player. -/
def answerEvent (s : Server) (e : Entry) (r : Readings) (i : Fin 4) : Event :=
  .packet ⟨r, 0, (s.players i).address, encode maxPacket (s.answerPacket e i)⟩

/-- These players answer one after the other. -/
def round (entry : Fin 4 → Entry) (r : Fin 4 → Readings) (s : Server) (order : List (Fin 4)) : Server :=
  order.foldl (fun s i => s.step (s.answerEvent (entry i) (r i) i)) s

theorem answerPayload_length (s : Server) (e : Entry) :
    1 ≤ (s.answerPayload e).length ∧ (s.answerPayload e).length ≤ 9 := by
  unfold answerPayload
  cases s.phase <;> exact ⟨by simp, by simp⟩

theorem answerPacket_length (s : Server) (e : Entry) (i : Fin 4) :
    (s.answerPacket e i).length.toNat = (s.answerPayload e).length := by
  have short := (s.answerPayload_length e).2
  exact Nat.mod_eq_of_lt (by omega)

theorem answerPacket_framed (s : Server) (e : Entry) (i : Fin 4) : (s.answerPacket e i).Framed where
  kind := ⟨.command, rfl⟩
  length := s.answerPacket_length e i
  fits := by
    have short := (s.answerPayload_length e).2
    change (s.answerPayload e).length ≤ 220
    omega

/-- No other player has the endpoint. -/
theorem authenticate_seated {s : Server} (seating : Seating s) {i : Fin 4} (seated : (s.players i).occupied = true)
    {packet : Packet} (session : packet.session = s.session) (token : packet.token = (s.players i).token) :
    s.authenticate (s.players i).address packet = some i := by
  cases found : s.authenticate (s.players i).address packet with
  | none =>
    have missed := find_slots_none found i
    simp [seated, session, token] at missed
  | some j =>
    obtain ⟨present, _, _, address⟩ := authenticate_some found
    rw [seating.endpoints i j seated present address]

/-- The server takes the command. -/
theorem answerEvent_taken {s : Server} (seating : Seating s) (live : s.closed = false) {i : Fin 4}
    (seated : (s.players i).occupied = true) (e : Entry) (r : Readings) :
    s.step (s.answerEvent e r i) =
      ((s.countRx.takeCommand r i (s.answerPacket e i)).advance r.advanced.val).snapshot r.sampled.val := by
  have counted : Seating s.countRx := seating.quiet s.countRx_quiet
  have own : s.countRx.authenticate (s.players i).address (s.answerPacket e i) = some i :=
    authenticate_seated counted seated rfl rfl
  have long := (s.answerPayload_length e).1
  rw [← s.answerPacket_length e i] at long
  simp only [step, answerEvent, receivePacket, decode_encode (s.answerPacket_framed e i), live, own]
  have hello : (s.answerPacket e i).is .hello = false := rfl
  have pong : (s.answerPacket e i).is .pong = false := rfl
  have ping : (s.answerPacket e i).is .ping = false := rfl
  have state : (s.answerPacket e i).is .state = false := rfl
  have command : (s.answerPacket e i).is .command = true := rfl
  have race : (s.answerPacket e i).race = s.race := rfl
  have seq : (s.answerPacket e i).seq = (s.players i).commandSeq + 1 := rfl
  simp only [hello, receiveFrom, pong, ping, state, command, race, seq, countRx_race, countRx_players, newer_add_one]
  simp only [Bool.false_eq_true, false_and, if_false, ne_eq, not_true_eq_false, false_or]
  rw [if_neg (Nat.not_lt.mpr long)]
  rfl

/-- Slot `i` has done its part, and nothing else has changed. -/
structure Replied (s : Server) (i : Fin 4) (seen : UInt64) (u : Server) : Prop where
  phase : u.phase = s.phase
  start : u.start = s.start
  race : u.race = s.race
  closed : u.closed = s.closed
  expected : u.expected = s.expected
  host : u.host = s.host
  others : ∀ j, j ≠ i → u.players j = s.players j
  occupied : (u.players i).occupied = true
  seen : (u.players i).seen = seen
  done : u.awaits i = false

/-- A valid command that rewrites the slot of its player. -/
theorem takeCommand_modify {s : Server} {r : Readings} {i : Fin 4} {packet : Packet} {command : Command}
    {f : Player → Player} (code : Command.ofCode (packet.byte 0) = some command)
    (valid : s.commandValid i packet = true) (effect : s.commandEffect r i packet = s.modify i f)
    (next : command ≠ .next) (leave : command ≠ .leave) :
    s.takeCommand r i packet = (s.modify i f).acknowledge r i packet := by
  rw [takeCommand, if_pos valid, effect, commandTail, code]
  cases command with
  | next => exact absurd rfl next
  | leave => exact absurd rfl leave
  | select | loaded | arm | finish | config => rfl

theorem acknowledge_players (s : Server) (r : Readings) (i : Fin 4) (packet : Packet) (j : Fin 4) :
    ((s.acknowledge r i packet).players j) =
      if j = i then { s.players i with commandSeq := packet.seq, seen := r.seen.val } else s.players j := by
  simp only [acknowledge]
  exact s.modify_players i j _

theorem modify_phase (s : Server) (i : Fin 4) (f : Player → Player) : (s.modify i f).phase = s.phase := rfl

theorem modify_start (s : Server) (i : Fin 4) (f : Player → Player) : (s.modify i f).start = s.start := rfl

theorem acknowledge_awaits (s : Server) (r : Readings) (i : Fin 4) (packet : Packet) :
    (s.acknowledge r i packet).awaits i = s.awaits i := by
  rw [awaits, awaits, acknowledge_players, if_pos rfl]
  rfl

/-- The one slot that such a command rewrites. -/
theorem Replied.of_modify {s : Server} {r : Readings} {i : Fin 4} {packet : Packet} {f : Player → Player}
    (occupied : (f (s.players i)).occupied = true)
    (done : (s.modify i f).awaits i = false) :
    Replied s i r.seen.val ((s.modify i f).acknowledge r i packet) where
  phase := rfl
  start := rfl
  race := rfl
  closed := rfl
  expected := rfl
  host := rfl
  others j other := by rw [acknowledge_players, if_neg other, modify_players_ne _ _ other]
  occupied := by
    rw [acknowledge_players, if_pos rfl, modify_players_self]
    exact occupied
  seen := by rw [acknowledge_players, if_pos rfl]
  done := (acknowledge_awaits _ r i packet).trans done

/-- The command is valid, and afterwards the room waits for it no longer. -/
theorem takeCommand_replied {s : Server} (staging : Staging s) {i : Fin 4} (awaited : s.awaits i = true)
    (going : s.phase ≠ .results) (e : Entry) (r : Readings) :
    Replied s i r.seen.val (s.takeCommand r i (s.answerPacket e i)) := by
  have both := awaited
  rw [awaits, Bool.and_eq_true] at both
  obtain ⟨seated, missing⟩ := both
  have size := s.answerPacket_length e i
  have payload : (s.answerPacket e i).payload = s.answerPayload e := rfl
  cases phase : s.phase with
  | results => exact absurd phase going
  | lobby =>
    rw [answerPayload, phase] at size payload
    have code : Command.ofCode ((s.answerPacket e i).byte 0) = some .select := by rw [Packet.byte, payload]; rfl
    have length : (s.answerPacket e i).length = 2 := UInt16.toNat_inj.mp size
    have car : (s.answerPacket e i).byte 1 = UInt8.ofNat e.car.val := by rw [Packet.byte, payload]; rfl
    have fits : UInt8.ofNat e.car.val < 4 := by
      generalize e.car = car
      revert car
      decide
    have valid : s.commandValid i (s.answerPacket e i) = true := by
      simp only [commandValid, code, length, car, fits, phase]
      rfl
    rw [takeCommand_modify code valid (by rw [commandEffect, code]) (by simp) (by simp)]
    refine .of_modify rfl ?_
    simp [awaits, modify_phase, phase, Status.rank]
  | loading =>
    rw [answerPayload, phase] at size payload
    have code : Command.ofCode ((s.answerPacket e i).byte 0) = some .loaded := by rw [Packet.byte, payload]; rfl
    have length : (s.answerPacket e i).length = 6 := UInt16.toNat_inj.mp size
    have valid : s.commandValid i (s.answerPacket e i) = true := by
      simp only [commandValid, code, length, phase]
      rfl
    rw [takeCommand_modify code valid (by rw [commandEffect, code]) (by simp) (by simp)]
    refine .of_modify rfl ?_
    simp [awaits, modify_phase, phase, Status.rank]
  | countdown =>
    rw [answerPayload, phase] at size payload
    have code : Command.ofCode ((s.answerPacket e i).byte 0) = some .arm := by rw [Packet.byte, payload]; rfl
    have length : (s.answerPacket e i).length = 9 := UInt16.toNat_inj.mp size
    have start : u64 ((s.answerPacket e i).payload.drop 1) = s.start := by rw [payload]; exact u64_put64_self s.start
    have valid : s.commandValid i (s.answerPacket e i) = true := by
      simp only [commandValid, code, length, start, phase, beq_self_eq_true, Bool.and_self]
    rw [takeCommand_modify code valid (by rw [commandEffect, code]) (by simp) (by simp)]
    refine .of_modify seated ?_
    simp [awaits, modify_phase, modify_start, phase]
  | racing =>
    rw [answerPayload, phase] at size payload
    have code : Command.ofCode ((s.answerPacket e i).byte 0) = some .finish := by rw [Packet.byte, payload]; rfl
    have length : (s.answerPacket e i).length = 1 := UInt16.toNat_inj.mp size
    have racing : (s.players i).status = .racing := by
      rcases staging.racing phase i seated with runs | finished
      · exact runs
      · rw [phase, finished] at missing
        cases missing
    have valid : s.commandValid i (s.answerPacket e i) = true := by
      simp only [commandValid, code, length, racing, phase]
      rfl
    rw [takeCommand_modify code valid (by rw [commandEffect, code]) (by simp) (by simp)]
    refine .of_modify rfl ?_
    simp [awaits, modify_phase, phase, Status.rank]

/-- The same people sit in the same slots, in a room that is open or closed as before. -/
structure Company (s t : Server) : Prop where
  closed : t.closed = s.closed
  expected : t.expected = s.expected
  host : t.host = s.host
  presence : ∀ i, (t.players i).occupied = (s.players i).occupied

theorem Company.refl (s : Server) : Company s s := ⟨rfl, rfl, rfl, fun _ => rfl⟩

theorem Company.trans {s t u : Server} (first : Company s t) (second : Company t u) : Company s u where
  closed := second.closed.trans first.closed
  expected := second.expected.trans first.expected
  host := second.host.trans first.host
  presence i := (second.presence i).trans (first.presence i)

theorem Quiet.company {s t : Server} (quiet : Quiet s t) : Company s t :=
  ⟨quiet.closed, quiet.expected, quiet.host, quiet.occupied⟩

theorem Replied.company {s u : Server} {i : Fin 4} {seen : UInt64} (answered : Replied s i seen u)
    (seated : (s.players i).occupied = true) : Company s u where
  closed := answered.closed
  expected := answered.expected
  host := answered.host
  presence j := by
    by_cases own : j = i
    · rw [own, answered.occupied, seated]
    · rw [answered.others j own]

/-- Where the room stands when everybody has answered. -/
def MovedOn (s t : Server) (now : UInt64) : Prop :=
  match s.phase with
  | .lobby => t.phase = .loading ∧ t.race = s.race
  | .loading => t.phase = .countdown ∧ t.race = s.race ∧ t.start = now + 2000000
  | .countdown => t.phase = .countdown ∧ t.race = s.race ∧ t.start = s.start ∧ t.allArmed = true
  | .racing => t.phase = .results ∧ t.race = s.race
  | .results => t.phase = .lobby ∧ t.race = s.race + 1

/-- Somebody has not answered yet: no barrier is complete. -/
theorem settled_of_awaits {s : Server} (staging : Staging s) {j : Fin 4} (awaited : s.awaits j = true) : Settled s := by
  rw [awaits, Bool.and_eq_true] at awaited
  obtain ⟨seated, missing⟩ := awaited
  constructor
  case lobby =>
    intro lobby
    rw [lobby, decide_eq_true_eq] at missing
    refine .inr ⟨j, ?_⟩
    rcases (staging.lobby lobby).2 j with empty | joined | selected
    · exact absurd empty (occupied_iff.mp seated).1
    · exact joined
    · rw [selected] at missing
      exact absurd missing (Nat.lt_irrefl _)
  case loading =>
    intro loading
    rw [loading, decide_eq_true_eq] at missing
    refine ⟨j, seated, fun loaded => ?_⟩
    rw [loaded] at missing
    exact absurd missing (Nat.lt_irrefl _)
  case racing =>
    intro racing
    rw [racing, decide_eq_true_eq] at missing
    refine ⟨j, ?_⟩
    rcases staging.racing racing j seated with runs | finished
    · exact runs
    · rw [finished] at missing
      exact absurd missing (Nat.lt_irrefl _)

theorem passBarriers_awaiting {s : Server} (staging : Staging s) {now : Micros} {j : Fin 4}
    (awaited : s.awaits j = true)
    (early : s.phase = .countdown → now.val.toNat + 500000 < s.start.toNat) : s.passBarriers now.val = s :=
  passBarriers_of_settled staging (settled_of_awaits staging awaited) fun counting => .inl (early counting)

/-- Nobody who is there is below the status that the phase waits for. -/
theorem allAtLeast_of_replied {s : Server} (present : 0 < s.count) {status : Status}
    (answered : ∀ i, (s.players i).occupied = true → ¬ (s.players i).status.rank < status.rank) :
    s.allAtLeast status = true :=
  allAtLeast_iff.mpr ⟨present, fun i seated => Nat.le_of_not_lt (answered i seated)⟩

theorem enterCountdown_of_ne {s : Server} {now : UInt64} (other : s.phase ≠ .loading) : s.enterCountdown now = s :=
  if_neg fun ready => other ready.1

theorem countdown_of_ne {s : Server} {now : UInt64} (other : s.phase ≠ .countdown) : s.countdown now = s :=
  if_neg other

theorem enterResults_of_ne {s : Server} (other : s.phase ≠ .racing) : s.enterResults = s :=
  if_neg fun ready => other ready.1

theorem enterLoading_of_ne {s : Server} (other : s.phase ≠ .lobby) : s.enterLoading = s :=
  if_neg fun ready => other ready.1

/-- The last answer completes the barrier of its phase, and no other. -/
theorem passBarriers_replied {s : Server} (staging : Staging s) (present : 0 < s.count) {now : Micros}
    (full : s.phase = .lobby → s.count = s.expected.toNat) (answered : ∀ j, s.awaits j = false)
    (early : s.phase = .countdown → now.val.toNat + 500000 < s.start.toNat) (going : s.phase ≠ .results) :
    MovedOn s (s.passBarriers now.val) now.val ∧ Company s (s.passBarriers now.val) := by
  have done (i : Fin 4) (seated : (s.players i).occupied = true) := answered i
  simp only [awaits] at done
  cases phase : s.phase with
  | results => exact absurd phase going
  | lobby =>
    have selected : s.allAtLeast .selected = true := by
      refine allAtLeast_of_replied present fun i seated => ?_
      simpa [seated, phase] using done i seated
    have entered : s.enterLoading = { s with phase := .loading } := if_pos ⟨phase, full phase, selected⟩
    have waits : ({ s with phase := .loading } : Server).enterCountdown now.val = { s with phase := .loading } := by
      refine if_neg fun ready => ?_
      obtain ⟨i, seated⟩ := count_pos_iff.mp present
      have high : Status.loaded.rank ≤ (s.players i).status.rank := (allAtLeast_iff.mp ready.2).2 i seated
      rcases (staging.lobby phase).2 i with status | status | status <;>
        · rw [status] at high
          exact absurd high (by decide)
    have passed : s.passBarriers now.val = { s with phase := .loading } := by
      rw [passBarriers, entered, waits, countdown_of_ne (by simp), enterResults_of_ne (by simp)]
    rw [passed, MovedOn, phase]
    exact ⟨⟨rfl, rfl⟩, rfl, rfl, rfl, fun _ => rfl⟩
  | loading =>
    have loaded : s.allAtLeast .loaded = true := by
      refine allAtLeast_of_replied present fun i seated => ?_
      simpa [seated, phase] using done i seated
    have far := now.add_toNat 2000000 (by decide)
    have entered : s.enterLoading.enterCountdown now.val =
        { s with
          start := now.val + 2000000
          phase := .countdown
          players := fun i => { s.players i with armed := 0 } } := by
      rw [enterLoading_of_ne (by simp [phase])]
      exact if_pos ⟨phase, loaded⟩
    generalize counting : ({ s with
          start := now.val + 2000000
          phase := .countdown
          players := fun i => { s.players i with armed := 0 } } : Server) = t at entered
    have ahead : t.countdown now.val = t := by
      refine countdown_of_ahead fun _ => .inl ?_
      rw [← counting]
      change now.val.toNat + 500000 < (now.val + 2000000).toNat
      rw [far]
      exact Nat.add_lt_add_left (by decide) _
    have passed : s.passBarriers now.val = t := by
      rw [passBarriers, entered, ahead, enterResults_of_ne (by simp [← counting])]
    rw [passed, ← counting, MovedOn, phase]
    exact ⟨⟨rfl, rfl, rfl⟩, rfl, rfl, rfl, fun _ => rfl⟩
  | countdown =>
    have settled : Settled s := by constructor <;> simp [phase]
    rw [passBarriers_of_settled staging settled fun counting => .inl (early counting), MovedOn, phase]
    refine ⟨⟨rfl, rfl, rfl, allArmed_iff.mpr fun i seated => ?_⟩, .refl s⟩
    simpa [seated, phase] using done i seated
  | racing =>
    have finished : s.allAtLeast .finished = true := by
      refine allAtLeast_of_replied present fun i seated => ?_
      simpa [seated, phase] using done i seated
    have entered : s.enterResults = { s with phase := .results } := if_pos ⟨phase, finished⟩
    have passed : s.passBarriers now.val = { s with phase := .results } := by
      rw [passBarriers, enterLoading_of_ne (by simp [phase]), enterCountdown_of_ne (by simp [phase]),
        countdown_of_ne (by simp [phase]), entered]
    rw [passed, MovedOn, phase]
    exact ⟨⟨rfl, rfl⟩, rfl, rfl, rfl, fun _ => rfl⟩

/-- Nobody has been silent for five seconds at `now`, and nothing has come in later. -/
def Awake (s : Server) (now : UInt64) : Prop :=
  ∀ i, (s.players i).occupied = true →
    (s.players i).seen.toNat ≤ now.toNat ∧ now.toNat < (s.players i).seen.toNat + 5000000

theorem Awake.silent {s : Server} {now : UInt64} (awake : s.Awake now) (i : Fin 4) : s.silent now i = false := by
  cases seated : (s.players i).occupied with
  | false => exact silent_of_free seated
  | true =>
    obtain ⟨past, recent⟩ := awake i seated
    rw [← Bool.not_eq_true, silent_iff (UInt64.le_iff_toNat_le.mpr past)]
    omega

theorem MovedOn.congr {s u t v : Server} {now : UInt64} (passed : MovedOn u t now) (phase : u.phase = s.phase)
    (start : u.start = s.start) (race : u.race = s.race) (phase' : v.phase = t.phase) (start' : v.start = t.start)
    (race' : v.race = t.race) (armed : v.allArmed = t.allArmed) : MovedOn s v now := by
  unfold MovedOn at passed ⊢
  rw [phase', start', race', armed, ← phase, ← start, ← race]
  exact passed

theorem Replied.awaits {s u : Server} {i : Fin 4} {seen : UInt64} (answered : Replied s i seen u) (j : Fin 4) :
    u.awaits j = (s.awaits j && j != i) := by
  by_cases own : j = i
  · rw [own, answered.done, bne_self_eq_false, Bool.and_false]
  · have other : (j != i) = true := bne_iff_ne.mpr own
    rw [other, Bool.and_true, Server.awaits, Server.awaits, answered.others j own, answered.phase, answered.start,
      answered.host]

/-- Slot `i` has answered: the room goes on waiting for the others, or has been
waiting for this answer only and passes its barrier. -/
structure Hears (s : Server) (i : Fin 4) (r : Readings) (t : Server) : Prop where
  company : Company s t
  same : ∀ j, (s.players j).occupied = true → (t.players j).token = (s.players j).token ∧
    (t.players j).address = (s.players j).address ∧ (t.players j).nonce = (s.players j).nonce
  seen : ∀ j, (s.players j).occupied = true →
    (t.players j).seen = if j = i then r.seen.val else (s.players j).seen
  waits : (∃ j, j ≠ i ∧ s.awaits j = true) → t.phase = s.phase ∧ t.start = s.start ∧ t.race = s.race ∧
    ∀ j, t.awaits j = (s.awaits j && j != i)
  passes : (∀ j, j ≠ i → s.awaits j = false) → MovedOn s t r.advanced.val

/-- Everybody but slot `i` has been heard lately, and slot `i` is heard now. -/
structure Timely (s : Server) (i : Fin 4) (r : Readings) : Prop where
  others : ∀ j, j ≠ i → (s.players j).occupied = true → (s.players j).seen.toNat ≤ r.advanced.val.toNat ∧
    r.advanced.val.toNat < (s.players j).seen.toNat + 5000000
  own : r.advanced.val.toNat < r.seen.val.toNat + 5000000

theorem Replied.awake {s u : Server} {i : Fin 4} {r : Readings} (answered : Replied s i r.seen.val u)
    (timely : s.Timely i r) : u.Awake r.advanced.val := by
  intro j seated
  by_cases own : j = i
  · rw [own, answered.seen]
    exact ⟨UInt64.le_iff_toNat_le.mp r.seen_le, timely.own⟩
  · rw [answered.others j own] at seated ⊢
    exact timely.others j own seated

theorem answerEvent_same {s : Server} (seating : Seating s) (live : s.closed = false) {i : Fin 4}
    (seated : (s.players i).occupied = true) (e : Entry) (r : Readings) (j : Fin 4)
    (present : ((s.step (s.answerEvent e r i)).players j).occupied = true) :
    ((s.step (s.answerEvent e r i)).players j).token = (s.players j).token ∧
      ((s.step (s.answerEvent e r i)).players j).address = (s.players j).address ∧
      ((s.step (s.answerEvent e r i)).players j).nonce = (s.players j).nonce := by
  rw [answerEvent_taken seating live seated e r, ← receiveCommand] at present ⊢
  have took : Took s.countRx i (s.answerPacket e i) (s.countRx.receiveCommand r i (s.answerPacket e i)) :=
    receiveCommand_took r _ seated
  obtain ⟨_, token, address, nonce, _⟩ := took.slot j present
  exact ⟨token, address, nonce⟩

/-- An answer before the results. -/
theorem hears_going {s : Server} (reach : system.Reachable s) (live : s.closed = false)
    (full : s.phase = .lobby → s.count = s.expected.toNat) (going : s.phase ≠ .results) {i : Fin 4}
    (awaited : s.awaits i = true) (e : Entry) {r : Readings} (timely : s.Timely i r)
    (early : s.phase = .countdown → r.advanced.val.toNat + 500000 < s.start.toNat) :
    Hears s i r (s.step (s.answerEvent e r i)) := by
  have seating := reachable_seating reach live
  have staging := reachable_staging reach live
  have seated : (s.players i).occupied = true := by
    rw [awaits, Bool.and_eq_true] at awaited
    exact awaited.1
  have counted : Staging s.countRx := staging.congr rfl rfl fun _ => rfl
  have taken : Replied s.countRx i r.seen.val (s.countRx.takeCommand r i (s.answerPacket e i)) :=
    takeCommand_replied counted awaited going e r
  have path : Path s (s.countRx.takeCommand r i (s.answerPacket e i)) :=
    s.countRx_quiet.path.trans (takeCommand_path r _ seated)
  have same := answerEvent_same seating live seated e r
  rw [answerEvent_taken seating live seated e r, snapshot_eq] at same ⊢
  generalize s.countRx.takeCommand r i (s.answerPacket e i) = u at taken path same
  have answered : Replied s i r.seen.val u := ⟨taken.phase, taken.start, taken.race, taken.closed, taken.expected,
    taken.host, taken.others, taken.occupied, taken.seen, taken.done⟩
  have company := answered.company seated
  have open' : u.closed = false := company.closed.trans live
  obtain ⟨seatingU, stagingU⟩ := Path.seating_staging path open' ⟨seating, staging⟩
  have count : u.count = s.count := count_congr company.presence
  have advanced : u.advance r.advanced.val = u.passBarriers r.advanced.val := by
    rw [advance_of_awake (answered.awake timely).silent, open']
    rfl
  have earlyU : u.phase = .countdown → r.advanced.val.toNat + 500000 < u.start.toNat := by
    rw [answered.phase, answered.start]
    exact early
  have fullU : u.phase = .lobby → u.count = u.expected.toNat := by
    rw [answered.phase, count, answered.expected]
    exact full
  have present : 0 < u.count := count_pos_iff.mpr ⟨i, answered.occupied⟩
  have seen (j : Fin 4) (there : (s.players j).occupied = true) :
      ((u.passBarriers r.advanced.val).players j).seen = if j = i then r.seen.val else (s.players j).seen := by
    rw [(passBarriers_presence u r.advanced.val j).2 ((company.presence j).trans there)]
    by_cases own : j = i
    · rw [if_pos own, own, answered.seen]
    · rw [if_neg own, answered.others j own]
  rw [advanced] at same ⊢
  by_cases more : ∃ j, j ≠ i ∧ s.awaits j = true
  · obtain ⟨j, other, missing⟩ := more
    have awaitedU : u.awaits j = true := by
      rw [answered.awaits j, missing, bne_iff_ne.mpr other]
      rfl
    rw [passBarriers_awaiting stagingU awaitedU earlyU] at seen same ⊢
    refine ⟨⟨company.closed, company.expected, company.host, company.presence⟩,
      fun j there => same j ((company.presence j).trans there), seen, fun _ => ?_, fun alone => ?_⟩
    · exact ⟨answered.phase, answered.start, answered.race, answered.awaits⟩
    · rw [alone j other] at missing
      cases missing
  · have everyone (j : Fin 4) : u.awaits j = false := by
      rw [answered.awaits j]
      by_cases own : j = i
      · rw [own, bne_self_eq_false, Bool.and_false]
      · rw [Bool.eq_false_of_not_eq_true fun missing => more ⟨j, own, missing⟩]
        rfl
    obtain ⟨passed, stays⟩ := passBarriers_replied stagingU present fullU everyone earlyU (answered.phase ▸ going)
    have whole := company.trans stays
    refine ⟨⟨whole.closed, whole.expected, whole.host, whole.presence⟩,
      fun j there => same j ((whole.presence j).trans there), seen, fun other => absurd other more, fun _ => ?_⟩
    exact passed.congr answered.phase answered.start answered.race rfl rfl rfl rfl

theorem takeCommand_next {s : Server} {i : Fin 4} (results : s.phase = .results) (host : s.host.toNat = i.val)
    (e : Entry) (r : Readings) :
    s.takeCommand r i (s.answerPacket e i) = (s.acknowledge r i (s.answerPacket e i)).beginLobby := by
  have size := s.answerPacket_length e i
  have payload : (s.answerPacket e i).payload = s.answerPayload e := rfl
  rw [answerPayload, results] at size payload
  have code : Command.ofCode ((s.answerPacket e i).byte 0) = some .next := by rw [Packet.byte, payload]; rfl
  have length : (s.answerPacket e i).length = 1 := UInt16.toNat_inj.mp size
  have valid : s.commandValid i (s.answerPacket e i) = true := by
    simp only [commandValid, code, length, results, host, beq_self_eq_true]
    rfl
  rw [takeCommand, if_pos valid, commandEffect, code, commandTail, code]

/-- The host's answer to the results. -/
theorem hears_next {s : Server} (reach : system.Reachable s) (live : s.closed = false) (results : s.phase = .results)
    {i : Fin 4} (awaited : s.awaits i = true) (e : Entry) {r : Readings} (timely : s.Timely i r) :
    Hears s i r (s.step (s.answerEvent e r i)) := by
  have seating := reachable_seating reach live
  have staging := reachable_staging reach live
  rw [awaits, results, Bool.and_eq_true, beq_iff_eq] at awaited
  obtain ⟨seated, host⟩ := awaited
  have taken : s.countRx.takeCommand r i (s.answerPacket e i) =
      (s.countRx.acknowledge r i (s.answerPacket e i)).beginLobby :=
    takeCommand_next (s := s.countRx) results host e r
  have path : Path s (s.countRx.takeCommand r i (s.answerPacket e i)) :=
    s.countRx_quiet.path.trans (takeCommand_path r _ seated)
  have same := answerEvent_same seating live seated e r
  rw [answerEvent_taken seating live seated e r, snapshot_eq] at same ⊢
  rw [taken] at path same ⊢
  have slot (j : Fin 4) : (s.countRx.acknowledge r i (s.answerPacket e i)).beginLobby.players j =
      relobby (if j = i then { s.players i with commandSeq := (s.answerPacket e i).seq, seen := r.seen.val }
        else s.players j) := by
    rw [← s.countRx_players, ← acknowledge_players]
    rfl
  have company : Company s (s.countRx.acknowledge r i (s.answerPacket e i)).beginLobby := by
    refine ⟨rfl, rfl, rfl, fun j => ?_⟩
    rw [slot j, relobby_occupied]
    by_cases own : j = i
    · rw [if_pos own, own]
      rfl
    · rw [if_neg own]
  have seen (j : Fin 4) (there : (s.players j).occupied = true) :
      ((s.countRx.acknowledge r i (s.answerPacket e i)).beginLobby.players j).seen =
        if j = i then r.seen.val else (s.players j).seen := by
    rw [slot j]
    by_cases own : j = i
    · rw [if_pos own, if_pos own]
      exact (relobby_presence _).2 seated
    · rw [if_neg own, if_neg own]
      exact (relobby_presence _).2 there
  have lobby : (s.countRx.acknowledge r i (s.answerPacket e i)).beginLobby.phase = .lobby := rfl
  have race : (s.countRx.acknowledge r i (s.answerPacket e i)).beginLobby.race = s.race + 1 := rfl
  have joined : ((s.countRx.acknowledge r i (s.answerPacket e i)).beginLobby.players i).status = .joined := by
    have there : ({ s.players i with commandSeq := (s.answerPacket e i).seq, seen := r.seen.val } : Player).occupied =
      true := seated
    rw [slot i, if_pos rfl, relobby, if_pos there]
  generalize (s.countRx.acknowledge r i (s.answerPacket e i)).beginLobby = u
    at path company seen lobby race joined same ⊢
  have open' : u.closed = false := company.closed.trans live
  obtain ⟨_, stagingU⟩ := Path.seating_staging path open' ⟨seating, staging⟩
  have settled : Settled u := by
    constructor <;> intro phase
    · exact .inr ⟨i, joined⟩
    · cases lobby.symm.trans phase
    · cases lobby.symm.trans phase
  have awakeU : u.Awake r.advanced.val := by
    intro j present
    rw [company.presence j] at present
    rw [seen j present]
    by_cases own : j = i
    · rw [if_pos own]
      exact ⟨UInt64.le_iff_toNat_le.mp r.seen_le, timely.own⟩
    · rw [if_neg own]
      exact timely.others j own present
  have advanced : u.advance r.advanced.val = u := by
    rw [advance_of_awake awakeU.silent, open', passBarriers_of_settled stagingU settled fun counting => ?_]
    · rfl
    · cases lobby.symm.trans counting
  rw [advanced] at same ⊢
  refine ⟨⟨company.closed, company.expected, company.host, company.presence⟩,
    fun j there => same j ((company.presence j).trans there), seen, ?_, fun _ => ?_⟩
  · rintro ⟨j, other, too⟩
    rw [awaits, results, Bool.and_eq_true, beq_iff_eq] at too
    exact absurd (Fin.ext (too.2.symm.trans host)) other
  · rw [MovedOn, results]
    exact ⟨lobby, race⟩

theorem hears_answer {s : Server} (reach : system.Reachable s) (live : s.closed = false)
    (full : s.phase = .lobby → s.count = s.expected.toNat) {i : Fin 4} (awaited : s.awaits i = true) (e : Entry)
    {r : Readings} (timely : s.Timely i r)
    (early : s.phase = .countdown → r.advanced.val.toNat + 500000 < s.start.toNat) :
    Hears s i r (s.step (s.answerEvent e r i)) := by
  by_cases results : s.phase = .results
  · exact hears_next reach live results awaited e timely
  · exact hears_going reach live full results awaited e timely early

/-- Everybody answers at times at which nobody has been silent for five seconds,
and an announced start is acknowledged half a second before it. -/
structure Prompt (s : Server) (r : Fin 4 → Readings) (order : List (Fin 4)) : Prop where
  ordered : order.Pairwise fun i j => (r i).sampled.val ≤ (r j).applied.val
  past : ∀ i ∈ order, ∀ j, (s.players j).occupied = true → (s.players j).seen ≤ (r i).seen.val
  recent : ∀ i ∈ order, ∀ j, (s.players j).occupied = true →
    (r i).advanced.val.toNat < (s.players j).seen.toNat + 5000000
  early : s.phase = .countdown → ∀ i ∈ order, (r i).advanced.val.toNat + 500000 < s.start.toNat

theorem Prompt.timely {s : Server} {r : Fin 4 → Readings} {i : Fin 4} {rest : List (Fin 4)}
    (prompt : s.Prompt r (i :: rest)) (seated : (s.players i).occupied = true) : s.Timely i (r i) := by
  have member : i ∈ i :: rest := List.mem_cons_self
  have reading := UInt64.le_iff_toNat_le.mp (r i).seen_le
  constructor
  · intro j _ present
    have past := UInt64.le_iff_toNat_le.mp (prompt.past i member j present)
    exact ⟨past.trans reading, prompt.recent i member j present⟩
  · have past := UInt64.le_iff_toNat_le.mp (prompt.past i member i seated)
    have recent := prompt.recent i member i seated
    omega

/-- What was in time for the whole round is in time for the rest of it. -/
theorem Prompt.rest {s t : Server} {r : Fin 4 → Readings} {i : Fin 4} {rest : List (Fin 4)}
    (prompt : s.Prompt r (i :: rest)) (hears : Hears s i (r i) t) (phase : t.phase = s.phase)
    (start : t.start = s.start) : t.Prompt r rest := by
  obtain ⟨first, ordered⟩ := List.pairwise_cons.mp prompt.ordered
  have member (k : Fin 4) (later : k ∈ rest) : k ∈ i :: rest := List.mem_cons_of_mem _ later
  constructor
  case ordered => exact ordered
  case past =>
    intro k later j present
    rw [hears.company.presence j] at present
    rw [hears.seen j present]
    by_cases own : j = i
    · rw [if_pos own]
      have before := UInt64.le_trans (UInt64.le_trans (r i).seen_le (r i).advanced_le) (first k later)
      exact UInt64.le_trans before (r k).applied_le
    · rw [if_neg own]
      exact prompt.past k (member k later) j present
  case recent =>
    intro k later j present
    rw [hears.company.presence j] at present
    have recent := prompt.recent k (member k later) j present
    rw [hears.seen j present]
    by_cases own : j = i
    · rw [if_pos own]
      have past := UInt64.le_iff_toNat_le.mp (prompt.past i List.mem_cons_self j present)
      omega
    · rw [if_neg own]
      exact recent
  case early =>
    intro counting k later
    rw [phase] at counting
    rw [start]
    exact prompt.early counting k (member k later)

/-- These players have answered one after the other, each of them from his seat. -/
structure Heard (s : Server) (entry : Fin 4 → Entry) (r : Fin 4 → Readings) (order : List (Fin 4)) : Prop where
  present : ∀ before i after, order = before ++ i :: after → (round entry r s before).phase = s.phase ∧
    ((round entry r s before).players i).occupied = true
  company : Company s (round entry r s order)
  same : ∀ j, (s.players j).occupied = true →
    ((round entry r s order).players j).token = (s.players j).token ∧
    ((round entry r s order).players j).address = (s.players j).address ∧
    ((round entry r s order).players j).nonce = (s.players j).nonce
  seen : ∀ j, (s.players j).occupied = true →
    ((round entry r s order).players j).seen = if j ∈ order then (r j).seen.val else (s.players j).seen
  passed : ∃ last ∈ order, MovedOn s (round entry r s order) (r last).advanced.val

/-- Only one player had to answer. -/
theorem Heard.single {s : Server} {entry : Fin 4 → Entry} {r : Fin 4 → Readings} {i : Fin 4}
    (seated : (s.players i).occupied = true) (alone : ∀ j, j ≠ i → s.awaits j = false)
    (hears : Hears s i (r i) (s.step (s.answerEvent (entry i) (r i) i))) : Heard s entry r [i] where
  present before j after split := by
    cases before with
    | nil =>
      cases split
      exact ⟨rfl, seated⟩
    | cons first others =>
      have length := congrArg List.length split
      simp only [List.length_cons, List.length_nil, List.length_append] at length
      omega
  company := hears.company
  same := hears.same
  seen j present := by
    simp only [List.mem_singleton]
    change ((s.step (s.answerEvent (entry i) (r i) i)).players j).seen = _
    rw [hears.seen j present]
    by_cases own : j = i
    · rw [if_pos own, if_pos own, own]
    · rw [if_neg own, if_neg own]
  passed := ⟨i, List.mem_singleton_self i, hears.passes alone⟩

/-- The first has answered, and then all others. -/
theorem Heard.cons {s : Server} {entry : Fin 4 → Entry} {r : Fin 4 → Readings} {i : Fin 4} {rest : List (Fin 4)}
    (seated : (s.players i).occupied = true) (fresh : i ∉ rest)
    (hears : Hears s i (r i) (s.step (s.answerEvent (entry i) (r i) i)))
    (heard : Heard (s.step (s.answerEvent (entry i) (r i) i)) entry r rest)
    (phase : (s.step (s.answerEvent (entry i) (r i) i)).phase = s.phase)
    (start : (s.step (s.answerEvent (entry i) (r i) i)).start = s.start)
    (race : (s.step (s.answerEvent (entry i) (r i) i)).race = s.race) : Heard s entry r (i :: rest) where
  present before j after split := by
    cases before with
    | nil =>
      cases split
      exact ⟨rfl, seated⟩
    | cons first others =>
      obtain ⟨rfl, later⟩ := List.cons.inj split
      obtain ⟨still, present⟩ := heard.present others j after later
      exact ⟨still.trans phase, present⟩
  company := hears.company.trans heard.company
  same j present := by
    obtain ⟨token, address, nonce⟩ := hears.same j present
    obtain ⟨token', address', nonce'⟩ := heard.same j ((hears.company.presence j).trans present)
    exact ⟨token'.trans token, address'.trans address, nonce'.trans nonce⟩
  seen j present := by
    have after := heard.seen j ((hears.company.presence j).trans present)
    rw [hears.seen j present] at after
    refine after.trans ?_
    by_cases own : j = i
    · rw [if_neg (own ▸ fresh), if_pos own, if_pos (own ▸ List.mem_cons_self), own]
    · rw [if_neg own]
      by_cases there : j ∈ rest
      · rw [if_pos there, if_pos (List.mem_cons_of_mem _ there)]
      · rw [if_neg there, if_neg fun whole => (List.mem_cons.mp whole).elim own there]
  passed := by
    obtain ⟨final, ends, passed⟩ := heard.passed
    exact ⟨final, List.mem_cons_of_mem _ ends, passed.congr phase start race rfl rfl rfl rfl⟩

/-- One answer after the other, until the last one completes the barrier. -/
theorem round_heard {s : Server} (reach : system.Reachable s) (live : s.closed = false)
    (full : s.phase = .lobby → s.count = s.expected.toNat) (entry : Fin 4 → Entry) {r : Fin 4 → Readings}
    {order : List (Fin 4)} (distinct : order.Nodup) (awaited : ∀ i, i ∈ order ↔ s.awaits i = true)
    (someone : order ≠ []) (prompt : s.Prompt r order) : Heard s entry r order := by
  induction order generalizing s with
  | nil => exact absurd rfl someone
  | cons i rest ih =>
    have member := (awaited i).mp List.mem_cons_self
    have seated : (s.players i).occupied = true := by
      rw [awaits, Bool.and_eq_true] at member
      exact member.1
    have hears := hears_answer reach live full member (entry i) (prompt.timely seated) fun counting =>
      prompt.early counting i List.mem_cons_self
    have reached : system.Reachable (s.step (s.answerEvent (entry i) (r i) i)) :=
      reach.next (s.answerEvent (entry i) (r i) i) trivial trivial
    obtain ⟨fresh, distinct⟩ := List.nodup_cons.mp distinct
    by_cases last : rest = []
    · rw [last] at awaited ⊢
      refine .single seated (fun j other => ?_) hears
      rw [← Bool.not_eq_true, ← awaited j, List.mem_singleton]
      exact other
    · obtain ⟨k, later⟩ := List.exists_mem_of_ne_nil rest last
      have other : k ≠ i := fun same => fresh (same ▸ later)
      obtain ⟨phase, start, race, waiting⟩ := hears.waits ⟨k, other, (awaited k).mp (List.mem_cons_of_mem _ later)⟩
      refine .cons seated fresh hears (ih reached (hears.company.closed.trans live) ?_ distinct (fun j => ?_) last
        (prompt.rest hears phase start)) phase start race
      · rw [phase, count_congr hears.company.presence, hears.company.expected]
        exact full
      · rw [waiting j, Bool.and_eq_true, ← awaited j, bne_iff_ne, List.mem_cons]
        constructor
        · exact fun there => ⟨.inr there, fun same => fresh (same ▸ there)⟩
        · exact fun ⟨there, different⟩ => there.resolve_left different

def sampleFull : Server := [sampleJoin, sampleHello sampleRival 78].foldl system.step sampleRoom

end Server

end FzeroVs
