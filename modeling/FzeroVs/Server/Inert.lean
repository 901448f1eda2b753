import FzeroVs.Server.Lobbies

namespace FzeroVs.Server

/-- The datagram went to a slot of the room. JOIN_REJECT is the one message
that answers an endpoint instead of a slot. -/
def forSlot (d : Datagram) : Bool := d.data.getD 5 0 != Kind.joinReject.code

def slotMail (sent : List Datagram) : List Datagram := sent.filter forSlot

/-- The same server with other counters and another outbox. -/
def blur (s : Server) (rx rejected : UInt64) (sent : List Datagram) : Server :=
  { s with rx := rx, rejected := rejected, sent := sent }

/-- Equal but for the counters of received and refused packets and for what
was answered to endpoints outside the room. -/
def Alike (s t : Server) : Prop :=
  ∃ rx rejected sent, t = s.blur rx rejected sent ∧ slotMail sent = slotMail s.sent

theorem Alike.refl (s : Server) : Alike s s := ⟨s.rx, s.rejected, s.sent, rfl, rfl⟩

theorem Alike.symm {s t : Server} (alike : Alike s t) : Alike t s := by
  obtain ⟨rx, rejected, sent, rfl, mail⟩ := alike
  exact ⟨s.rx, s.rejected, s.sent, rfl, mail.symm⟩

theorem Alike.trans {s t u : Server} (first : Alike s t) (second : Alike t u) : Alike s u := by
  obtain ⟨rx, rejected, sent, rfl, mail⟩ := first
  obtain ⟨rx', rejected', sent', rfl, mail'⟩ := second
  exact ⟨rx', rejected', sent', rfl, mail'.trans mail⟩

theorem Alike.ite {a b a' b' : Server} {c d : Prop} [Decidable c] [Decidable d] (same : d ↔ c)
    (yes : Alike a a') (no : Alike b b') : Alike (if c then a else b) (if d then a' else b') := by
  by_cases holds : c
  · rw [if_pos holds, if_pos (same.mpr holds)]
    exact yes
  · rw [if_neg holds, if_neg (mt same.mp holds)]
    exact no

theorem Alike.found {place : Option (Fin 4)} {f g : Fin 4 → Server} {a b : Server} (there : ∀ i, Alike (f i) (g i))
    (absent : Alike a b) :
    Alike (match place with | some i => f i | none => a) (match place with | some i => g i | none => b) := by
  cases place with
  | some i => exact there i
  | none => exact absent

/-- A change that neither reads nor writes the counters and the outbox. -/
def Deaf (f : Server → Server) : Prop :=
  ∀ s rx rejected sent, f (s.blur rx rejected sent) = (f s).blur rx rejected sent

theorem Deaf.alike {f : Server → Server} (deaf : Deaf f) {s t : Server} (alike : Alike s t) :
    Alike (f s) (f t) := by
  obtain ⟨rx, rejected, sent, rfl, mail⟩ := alike
  have own := deaf s s.rx s.rejected s.sent
  refine ⟨rx, rejected, sent, deaf s rx rejected sent, ?_⟩
  change f s = (f s).blur s.rx s.rejected s.sent at own
  rw [own]
  exact mail

theorem Deaf.rejected {f : Server → Server} (deaf : Deaf f) (s : Server) : (f s).rejected = s.rejected := by
  have own := deaf s s.rx s.rejected s.sent
  change f s = (f s).blur s.rx s.rejected s.sent at own
  rw [own]
  rfl

theorem Deaf.comp {f g : Server → Server} (first : Deaf f) (second : Deaf g) : Deaf fun s => g (f s) := by
  intro s rx rejected sent
  change g (f (s.blur rx rejected sent)) = _
  rw [first, second]

theorem modify_deaf (i : Fin 4) (f : Player → Player) : Deaf fun s => s.modify i f := fun _ _ _ _ => rfl

theorem Deaf.ite {c : Server → Prop} [∀ s, Decidable (c s)] {f g : Server → Server}
    (unread : ∀ s rx rejected sent, c (s.blur rx rejected sent) ↔ c s) (yes : Deaf f) (no : Deaf g) :
    Deaf fun s => if c s then f s else g s := by
  intro s rx rejected sent
  dsimp only
  by_cases holds : c s
  · rw [if_pos ((unread s rx rejected sent).mpr holds), if_pos holds, yes]
  · rw [if_neg fun blurred => holds ((unread s rx rejected sent).mp blurred), if_neg holds, no]

theorem id_deaf : Deaf fun s => s := fun _ _ _ _ => rfl

theorem vacate_deaf (i : Fin 4) : Deaf fun s => s.vacate i := fun _ _ _ _ => rfl

theorem beginLobby_deaf : Deaf fun s => s.beginLobby := fun _ _ _ _ => rfl

theorem drop_deaf (i : Fin 4) : Deaf fun s => s.drop i := by
  have leave : Deaf fun s => if (s.vacate i).count = 0 then { (s.vacate i).beginLobby with host := 255 }
      else s.vacate i := .ite (fun _ _ _ _ => Iff.rfl) (fun _ _ _ _ => rfl) (vacate_deaf i)
  have down : Deaf fun s => if s.ownerNonce ≠ 0 ∧ i = 0 then { s with closed := true }
      else if (s.vacate i).count = 0 then { (s.vacate i).beginLobby with host := 255 } else s.vacate i :=
    .ite (fun _ _ _ _ => Iff.rfl) (fun _ _ _ _ => rfl) leave
  exact Deaf.comp (f := fun s => s.disconnect i) (modify_deaf i _) down

theorem dropEach_deaf (now : UInt64) (l : List (Fin 4)) : Deaf (dropEach now l) := by
  induction l with
  | nil => exact id_deaf
  | cons i rest ih =>
    have first : Deaf fun s => if s.silent now i then s.drop i else s :=
      .ite (fun _ _ _ _ => Iff.rfl) (drop_deaf i) id_deaf
    exact first.comp ih

theorem passBarriers_deaf (now : UInt64) : Deaf fun s => s.passBarriers now := by
  have loading : Deaf fun s => s.enterLoading :=
    .ite (fun _ _ _ _ => Iff.rfl) (fun _ _ _ _ => rfl) id_deaf
  have counting : Deaf fun s => s.enterCountdown now :=
    .ite (fun _ _ _ _ => Iff.rfl) (fun _ _ _ _ => rfl) id_deaf
  have racing : Deaf fun s => s.countdown now :=
    .ite (fun _ _ _ _ => Iff.rfl) (.ite (fun _ _ _ _ => Iff.rfl) (fun _ _ _ _ => rfl)
      (.ite (fun _ _ _ _ => Iff.rfl) (fun _ _ _ _ => rfl) id_deaf)) id_deaf
  have results : Deaf fun s => s.enterResults :=
    .ite (fun _ _ _ _ => Iff.rfl) (fun _ _ _ _ => rfl) id_deaf
  exact ((loading.comp counting).comp racing).comp results

theorem advance_deaf (now : UInt64) : Deaf fun s => s.advance now := by
  have onward : Deaf fun s => if s.closed then s else s.passBarriers now :=
    .ite (fun _ _ _ _ => Iff.rfl) id_deaf (passBarriers_deaf now)
  exact (dropEach_deaf now slots).comp onward

theorem commandEffect_deaf (r : Readings) (i : Fin 4) (packet : Packet) :
    Deaf fun s => s.commandEffect r i packet := by
  intro s rx rejected sent
  unfold commandEffect
  cases Command.ofCode (packet.byte 0) with
  | none => rfl
  | some command => cases command <;> rfl

theorem commandTail_deaf (i : Fin 4) (packet : Packet) : Deaf fun s => s.commandTail i packet := by
  unfold commandTail
  cases Command.ofCode (packet.byte 0) with
  | none => exact id_deaf
  | some command =>
    cases command
    case next => exact beginLobby_deaf
    case leave => exact drop_deaf i
    all_goals exact id_deaf

theorem Alike.transmit {s t : Server} (alike : Alike s t) (address : Endpoint) (packet : Packet) :
    Alike (s.transmit address packet) (t.transmit address packet) := by
  obtain ⟨rx, rejected, sent, rfl, mail⟩ := alike
  refine ⟨rx, rejected, sent ++ [⟨address, encode maxPacket packet⟩], rfl, ?_⟩
  simp only [Server.transmit, slotMail, List.filter_append] at mail ⊢
  rw [mail]

/-- What goes to a slot is filled in from what the two have in common. -/
theorem Alike.sendPlayer {s t : Server} (alike : Alike s t) (i : Fin 4) (packet : Packet) :
    Alike (s.sendPlayer i packet) (t.sendPlayer i packet) := by
  have sent := alike.transmit (s.players i).address (s.addressed i packet)
  obtain ⟨_, _, _, rfl, _⟩ := alike
  exact sent

theorem Alike.foldl {f : Server → Fin 4 → Server} (each : ∀ {s t} i, Alike s t → Alike (f s i) (f t i))
    (l : List (Fin 4)) {s t : Server} (alike : Alike s t) : Alike (l.foldl f s) (l.foldl f t) :=
  List.foldl_rel alike fun i _ _ _ alike => each i alike

theorem Alike.occupiedSlots {s t : Server} (alike : Alike s t) : t.occupiedSlots = s.occupiedSlots := by
  obtain ⟨_, _, _, rfl, _⟩ := alike
  rfl

theorem Alike.snapshot {s t : Server} (alike : Alike s t) (now : UInt64) :
    Alike (s.snapshot now) (t.snapshot now) := by
  have numbered : Alike { s with snapshotSeq := s.snapshotSeq + 1 } { t with snapshotSeq := t.snapshotSeq + 1 } :=
    Deaf.alike (f := fun s => { s with snapshotSeq := s.snapshotSeq + 1 }) (fun _ _ _ _ => rfl) alike
  have slots := numbered.occupiedSlots
  have packet : snapshotPacket { t with snapshotSeq := t.snapshotSeq + 1 } now =
      snapshotPacket { s with snapshotSeq := s.snapshotSeq + 1 } now := by
    obtain ⟨_, _, _, rfl, _⟩ := alike
    rfl
  simp only [Server.snapshot, slots, packet]
  exact numbered.foldl (fun i alike => alike.sendPlayer i _) _

theorem Alike.reject {s t : Server} (alike : Alike s t) : Alike s.reject t.reject := by
  obtain ⟨rx, rejected, sent, rfl, mail⟩ := alike
  exact ⟨rx, rejected + 1, sent, rfl, mail⟩

theorem Alike.countRx {s t : Server} (alike : Alike s t) : Alike s.countRx t.countRx := by
  obtain ⟨rx, rejected, sent, rfl, mail⟩ := alike
  exact ⟨rx + 1, rejected, sent, rfl, mail⟩

theorem Alike.joinError {s t : Server} (alike : Alike s t) (address : Endpoint) (nonce : UInt64)
    (reason : Reject) : Alike (s.joinError address nonce reason) (t.joinError address nonce reason) :=
  alike.reject.transmit address _

theorem Alike.welcome {s t : Server} (alike : Alike s t) (i : Fin 4) : Alike (s.welcome i) (t.welcome i) := by
  have sent := alike.sendPlayer i (s.welcomePacket i)
  obtain ⟨_, _, _, rfl, _⟩ := alike
  exact sent

theorem Alike.enroll {s t : Server} (alike : Alike s t) (r : Readings) (random : UInt64)
    (address : Endpoint) (nonce : UInt64) (i : Fin 4) :
    Alike (s.enroll r random address nonce i) (t.enroll r random address nonce i) := by
  unfold Server.enroll
  split
  · exact (modify_deaf i _).alike alike
  · have seated := Deaf.alike (f := fun s => s.seat r random address nonce i) (fun _ _ _ _ => rfl) alike
    exact (seated.welcome i).snapshot _

theorem Alike.receiveHello {s t : Server} (alike : Alike s t) (r : Readings) (random : UInt64)
    (address : Endpoint) (packet : Packet) :
    Alike (s.receiveHello r random address packet) (t.receiveHello r random address packet) := by
  have answers := alike
  obtain ⟨rx, rejected, sent, rfl, _⟩ := alike
  have denied (reason : Reject) := answers.joinError address (u64 packet.payload) reason
  unfold Server.receiveHello
  -- Every test reads what the two have in common.
  refine .ite Iff.rfl answers.reject (.ite Iff.rfl (denied .password) (.ite Iff.rfl (denied .starting) ?_))
  refine .found (fun i => .ite Iff.rfl (answers.welcome i) answers) ?_
  refine .ite Iff.rfl (denied .racing) (.ite Iff.rfl (denied .full) ?_)
  exact .found (fun i => answers.enroll r random address _ i) answers

theorem Alike.receiveCommand {s t : Server} (alike : Alike s t) (r : Readings) (i : Fin 4) (packet : Packet) :
    Alike (s.receiveCommand r i packet) (t.receiveCommand r i packet) := by
  suffices taken : Alike (s.takeCommand r i packet) (t.takeCommand r i packet) from
    ((advance_deaf r.advanced.val).alike taken).snapshot _
  have acknowledged {s t : Server} (alike : Alike s t) :
      Alike (s.acknowledge r i packet) (t.acknowledge r i packet) :=
    Deaf.alike (f := fun s => s.acknowledge r i packet) (fun _ _ _ _ => rfl) alike
  have judged : t.commandValid i packet = s.commandValid i packet := by
    obtain ⟨_, _, _, rfl, _⟩ := alike
    rfl
  unfold takeCommand
  rw [judged]
  split
  · have applied := acknowledged ((commandEffect_deaf r i packet).alike alike)
    exact (commandTail_deaf i packet).alike applied
  · exact (acknowledged alike).reject.sendPlayer i _

theorem Alike.countStale {s t : Server} (alike : Alike s t) : Alike s.countStale t.countStale :=
  Deaf.alike (f := Server.countStale) (fun _ _ _ _ => rfl) alike

theorem Alike.receiveState {s t : Server} (alike : Alike s t) (r : Readings) (i : Fin 4) (packet : Packet)
    (size : Nat) : Alike (s.receiveState r i packet size) (t.receiveState r i packet size) := by
  have answers := alike
  obtain ⟨rx, rejected, sent, rfl, _⟩ := alike
  unfold Server.receiveState
  exact .ite Iff.rfl answers.reject (.ite Iff.rfl answers.countStale ((modify_deaf i _).alike answers))

theorem Alike.receiveFrom {s t : Server} (alike : Alike s t) (r : Readings) (i : Fin 4) (packet : Packet)
    (size : Nat) : Alike (s.receiveFrom r i packet size) (t.receiveFrom r i packet size) := by
  have answers := alike
  obtain ⟨rx, rejected, sent, rfl, _⟩ := alike
  unfold Server.receiveFrom
  refine .ite Iff.rfl ((modify_deaf i _).alike answers) (.ite Iff.rfl ?ping ?named)
  case ping => exact ((modify_deaf i _).alike answers).sendPlayer i _
  case named =>
    refine .ite Iff.rfl answers.countStale (.ite Iff.rfl (answers.receiveState r i packet size) ?_)
    refine .ite Iff.rfl answers.reject (.ite Iff.rfl answers.countStale ?_)
    exact .ite Iff.rfl answers.reject (answers.receiveCommand r i packet)

theorem Alike.receivePacket {s t : Server} (alike : Alike s t) (r : Readings) (random : UInt64)
    (address : Endpoint) (data : List UInt8) :
    Alike (s.receivePacket r random address data) (t.receivePacket r random address data) := by
  have closed : t.closed = s.closed := by
    obtain ⟨_, _, _, rfl, _⟩ := alike
    rfl
  have sender (packet : Packet) : t.countRx.authenticate address packet = s.countRx.authenticate address packet := by
    obtain ⟨_, _, _, rfl, _⟩ := alike
    rfl
  simp only [Server.receivePacket, closed, sender]
  split
  · split
    · exact alike.joinError _ _ _
    · exact alike.reject
  split
  · exact alike
  split
  · exact alike.countRx.receiveHello _ _ _ _
  split
  · exact alike.countRx.reject
  · exact alike.countRx.receiveFrom _ _ _ _

theorem Alike.step {s t : Server} (alike : Alike s t) (e : Event) : Alike (s.step e) (t.step e) := by
  have slots := alike.occupiedSlots
  have shared : t.closed = s.closed ∧ t.tick = s.tick ∧ t.summary = s.summary ∧ t.socket = s.socket := by
    obtain ⟨_, _, _, rfl, _⟩ := alike
    exact ⟨rfl, rfl, rfl, rfl⟩
  obtain ⟨_, tick, summary, socket⟩ := shared
  cases e with
  | packet d => exact alike.receivePacket _ _ _ _
  | timer now sampled =>
    simp only [Server.step, Server.timer, tick]
    split
    · have advanced := (advance_deaf now.val).alike alike
      have closed : (t.advance now.val).closed = (s.advance now.val).closed := by
        obtain ⟨_, _, _, same, _⟩ := advanced
        rw [same]
        rfl
      refine Deaf.alike (f := fun s => { s with tick := now.val + 16667 }) (fun _ _ _ _ => rfl) ?_
      simp only [closed]
      split
      · exact advanced
      · exact advanced.snapshot _
    · exact alike
  | probe now =>
    simp only [Server.step, Server.probe, summary, slots]
    split
    · refine Deaf.alike (f := fun s => { s with summary := now.val }) (fun _ _ _ _ => rfl) ?_
      exact alike.foldl (fun i alike => ((modify_deaf i _).alike alike).sendPlayer i _) _
    · exact alike
  | close =>
    simp only [Server.step, Server.close, socket, slots]
    split
    · refine Deaf.alike (f := fun s => { s with closed := true, socket := false }) (fun _ _ _ _ => rfl) ?_
      exact alike.foldl (fun i alike => alike.sendPlayer i _) _
    · exact alike

/-- A refusal reaches an endpoint and no slot. -/
theorem joinError_alike (s : Server) (address : Endpoint) (nonce : UInt64) (reason : Reject) :
    Alike s (s.joinError address nonce reason) := by
  have unslotted (packet : Packet) (kind : packet.type = Kind.joinReject.code) (framed : packet.Framed) :
      forSlot ⟨address, encode maxPacket packet⟩ = false := by
    have room : headerSize + packet.payload.length ≤ maxPacket := by
      have fits := framed.fits
      simp only [maxPacket, headerSize] at fits ⊢
      omega
    rw [encode_eq framed room]
    change (packet.type != Kind.joinReject.code) = false
    rw [kind]
    rfl
  refine ⟨s.rx, s.rejected + 1, _, rfl, ?_⟩
  simp only [reject, slotMail, List.filter_append]
  rw [List.filter_cons_of_neg, List.filter_nil, List.append_nil]
  rw [unslotted _ rfl ⟨⟨.joinReject, rfl⟩, rfl, by simp [maxPacket, headerSize]⟩]
  exact Bool.false_ne_true

theorem reject_alike (s : Server) : Alike s s.reject := ⟨s.rx, s.rejected + 1, s.sent, rfl, rfl⟩

theorem countRx_alike (s : Server) : Alike s s.countRx := ⟨s.rx + 1, s.rejected, s.sent, rfl, rfl⟩

/-- A decodable packet from the endpoint of an occupied slot, with the room's
session and the token of that slot. -/
def Authentic (s : Server) (d : Incoming) : Prop :=
  ∃ packet i, decode d.data = some packet ∧ (s.players i).occupied = true ∧
    d.address = (s.players i).address ∧ packet.session = s.session ∧ packet.token = (s.players i).token

/-- A well-formed HELLO with the key of the room. -/
def Invited (s : Server) (d : Incoming) : Prop :=
  ∃ packet, decode d.data = some packet ∧ packet.is .hello = true ∧ (packet.byte 8).toNat ≤ keyMax ∧
    packet.length.toNat = 9 + (packet.byte 8).toNat ∧ (packet.byte 8).toNat = s.key.length ∧
    (packet.payload.drop 9).take (packet.byte 8).toNat = s.key

def Foreign (s : Server) (d : Incoming) : Prop := ¬ s.Authentic d ∧ ¬ s.Invited d

/-- A HELLO that is malformed or has another key is refused. -/
theorem receiveHello_alike (s : Server) (r : Readings) (random : UInt64) (address : Endpoint) (packet : Packet)
    (uninvited : ¬ ((packet.byte 8).toNat ≤ keyMax ∧ packet.length.toNat = 9 + (packet.byte 8).toNat ∧
      (packet.byte 8).toNat = s.key.length ∧ (packet.payload.drop 9).take (packet.byte 8).toNat = s.key)) :
    Alike s (s.receiveHello r random address packet) := by
  unfold receiveHello
  split
  · exact reject_alike s
  next formed =>
    simp only [not_or, not_lt, ne_eq, not_not] at formed
    obtain ⟨_, short, exactly⟩ := formed
    rw [if_pos]
    · exact joinError_alike s address _ .password
    · by_contra right
      simp only [not_or, ne_eq, not_not] at right
      exact uninvited ⟨short, exactly, right⟩

/-- The room takes no notice of a foreign datagram. -/
theorem foreign_alike {s : Server} {d : Incoming} (foreign : s.Foreign d) : Alike s (s.step (.packet d)) := by
  obtain ⟨unauthentic, uninvited⟩ := foreign
  simp only [step, receivePacket]
  cases decoded : decode d.data with
  | none =>
    simp only
    split
    · exact joinError_alike s d.address _ .version
    · exact reject_alike s
  | some packet =>
    simp only
    split
    · exact .refl s
    split
    next hello =>
      refine (countRx_alike s).trans (receiveHello_alike s.countRx _ _ _ packet ?_)
      intro right
      exact uninvited ⟨packet, decoded, hello, right⟩
    next =>
      cases sender : s.countRx.authenticate d.address packet with
      | none => exact (countRx_alike s).trans (reject_alike s.countRx)
      | some i =>
        have matching := find_slots_some sender
        simp only [Bool.and_eq_true, beq_iff_eq] at matching
        obtain ⟨⟨⟨seated, session⟩, token⟩, address⟩ := matching
        exact absurd ⟨packet, i, decoded, seated, address, session, token⟩ unauthentic

/-- A trace with a mark at each event that is kept. What goes is a packet that
is foreign to the room at the moment the whole run processes it. -/
def Thins (s : Server) : List (Event × Bool) → Prop
  | [] => True
  | (e, kept) :: rest => (kept = false → ∃ d, e = .packet d ∧ s.Foreign d) ∧ (s.step e).Thins rest

theorem Thins.take {s : Server} {trace : List (Event × Bool)} (thins : s.Thins trace) (n : Nat) :
    s.Thins (trace.take n) := by
  induction trace generalizing s n with
  | nil => simpa using thins
  | cons first rest ih =>
    cases n with
    | zero => exact trivial
    | succ n => exact ⟨thins.1, ih thins.2 n⟩

def whole (trace : List (Event × Bool)) : List Event := trace.map Prod.fst

def thinned (trace : List (Event × Bool)) : List Event := (trace.filter Prod.snd).map Prod.fst

theorem Thins.alike {s t : Server} {trace : List (Event × Bool)} (thins : s.Thins trace) (alike : Alike s t) :
    Alike ((whole trace).foldl step s) ((thinned trace).foldl step t) := by
  induction trace generalizing s t with
  | nil => exact alike
  | cons first rest ih =>
    obtain ⟨e, kept⟩ := first
    obtain ⟨deletes, thins⟩ := thins
    cases kept with
    | true => exact ih thins (alike.step e)
    | false =>
      -- The thinned run stays where it is.
      obtain ⟨d, rfl, foreign⟩ := deletes rfl
      exact ih thins ((foreign_alike foreign).symm.trans alike)

/-- Foreign traffic is inert. Take any of it out of any run: at every moment
the room is as it would have been, but for the counters of received and refused
packets, and the slots have been sent the same packets. -/
theorem foreign_traffic_inert (s : Server) (trace : List (Event × Bool)) (thins : s.Thins trace) (n : Nat) :
    Alike ((whole (trace.take n)).foldl step s) ((thinned (trace.take n)).foldl step s) :=
  (thins.take n).alike (.refl s)

/-! Somebody who knows one token tries to make its player leave, and another one
guesses a token at the right endpoint. -/

theorem foreign_of_decoded {s : Server} {d : Incoming} {packet : Packet} (decoded : decode d.data = some packet)
    (hello : packet.is .hello = false)
    (other : ∀ i, ¬ ((s.players i).occupied = true ∧ d.address = (s.players i).address ∧
      packet.session = s.session ∧ packet.token = (s.players i).token)) : s.Foreign d := by
  constructor
  · rintro ⟨read, i, again, authentic⟩
    obtain rfl := Option.some.inj (decoded.symm.trans again)
    exact other i authentic
  · rintro ⟨read, again, isHello, _⟩
    obtain rfl := Option.some.inj (decoded.symm.trans again)
    exact Bool.false_ne_true (hello.symm.trans isHello)

/-- The token of the guest, from the endpoint of the rival. -/
def sampleForged : Incoming :=
  ⟨.at sampleClock, 0, sampleRival, encode maxPacket (samplePacket .command 77 1 [Command.leave.code])⟩

/-- The endpoint of the guest, with a token that nobody has. -/
def sampleGuessed : Incoming :=
  ⟨.at sampleClock, 0, sampleGuest, encode maxPacket (samplePacket .command 99 1 [Command.leave.code])⟩

/-- A room that fills up, with the forgeries between. -/
def sampleNoise : List (Event × Bool) :=
  [(sampleJoin, true), (.packet sampleForged, false), (sampleHello sampleRival 78, true),
    (.packet sampleForged, false), (.packet sampleGuessed, false),
    (sampleCommand sampleGuest 77 1 [Command.select.code, 2], true)]

/-- With or without the forgeries both are in, and the first one has chosen. -/
theorem sampleNoise_inert :
    Alike ((whole sampleNoise).foldl step sampleRoom) ((thinned sampleNoise).foldl step sampleRoom) ∧
      ((whole sampleNoise).foldl step sampleRoom).rejected = 3 ∧
      (((thinned sampleNoise).foldl step sampleRoom).players 0).status = .selected ∧
      (((thinned sampleNoise).foldl step sampleRoom).players 1).occupied = true := by
  have forged : decode sampleForged.data = some (samplePacket .command 77 1 [Command.leave.code]) := by decide +kernel
  have guessed : decode sampleGuessed.data = some (samplePacket .command 99 1 [Command.leave.code]) := by
    decide +kernel
  have thins : sampleRoom.Thins sampleNoise := by
    refine ⟨fun yes => (by cases yes), fun _ => ⟨_, rfl, foreign_of_decoded forged rfl ?_⟩, fun yes => (by cases yes),
      fun _ => ⟨_, rfl, foreign_of_decoded forged rfl ?_⟩, fun _ => ⟨_, rfl, foreign_of_decoded guessed rfl ?_⟩,
      fun yes => (by cases yes), trivial⟩ <;> decide +kernel
  exact ⟨foreign_traffic_inert sampleRoom _ thins 6, by decide +kernel, by decide +kernel, by decide +kernel⟩

end FzeroVs.Server
