import FzeroVs.Server.Reservation

namespace FzeroVs.Server

theorem step_key (s : Server) (e : Event) : (s.step e).key = s.key := by
  refine Path.keeps (P := fun t => t.key = s.key) (s.step_path e) (fun t u move same => ?_) rfl
  rw [← same]
  cases move
  case calm calm =>
    cases calm
    case quiet quiet => exact quiet.key
    all_goals rfl
  case shut quiet => exact quiet.key
  all_goals rfl

theorem reachable_key {s : Server} (reach : system.Reachable s) : s.key.length ≤ keyMax := by
  refine reach.invariant (P := fun s => s.key.length ≤ keyMax) ?_ ?_
  · rintro s ⟨c, session, now, created⟩
    unfold create at created
    split at created
    · exact nomatch created
    next valid =>
      split at created
      · exact nomatch created
      · cases created
        simp only [not_or, not_lt] at valid
        exact valid.2.2.2.2.2.2.2
  · intro s e _ _ _ fits
    exact (s.step_key e).symm ▸ fits

/-- The bytes are a HELLO that carries this room key. -/
structure Greets (key data : List UInt8) (packet : Packet) : Prop where
  decoded : decode data = some packet
  hello : packet.is .hello = true
  length : packet.length.toNat = 9 + key.length
  size : (packet.byte 8).toNat = key.length
  key : (packet.payload.drop 9).take key.length = key

/-- With the right key only the state of the room decides. -/
theorem receiveHello_greets {s : Server} {data : List UInt8} {packet : Packet} (fits : s.key.length ≤ keyMax)
    (greets : Greets s.key data packet) (r : Readings) (random : UInt64) (address : Endpoint) :
    s.receiveHello r random address packet =
      if s.ownerNonce ≠ 0 ∧ ¬ (s.players 0).occupied ∧ u64 packet.payload ≠ s.ownerNonce then
        s.joinError address (u64 packet.payload) .starting
      else
        match slots.find? fun i => (s.players i).occupied && address == (s.players i).address with
        | some i => if u64 packet.payload = (s.players i).nonce then s.welcome i else s
        | none =>
          if s.phase ≠ .lobby then s.joinError address (u64 packet.payload) .racing
          else if s.expected.toNat ≤ s.count then s.joinError address (u64 packet.payload) .full
          else
            match slots.find? fun i => !(s.players i).occupied with
            | some i => s.enroll r random address (u64 packet.payload) i
            | none => s := by
  have size := greets.size
  have length := greets.length
  have key := greets.key
  unfold receiveHello
  rw [if_neg (by omega)]
  dsimp only
  exact if_neg (by rw [size]; simp [key])

theorem step_greets {s : Server} {d : Incoming} {packet : Packet} (live : s.closed = false)
    (greets : Greets s.key d.data packet) :
    s.step (.packet d) = s.countRx.receiveHello d.readings d.random d.address packet := by
  have opened : ¬ s.closed = true := by simp [live]
  simp only [step, receivePacket, greets.decoded, greets.hello, if_neg opened, if_true]

/-- In an open room that reserves slot 0, whoever is there has the owner
beside him. -/
theorem reserved_beside {s : Server} (reach : system.Reachable s) (live : s.closed = false)
    (hosted : s.ownerNonce ≠ 0) {i : Fin 4} (seated : (s.players i).occupied = true) :
    (s.players 0).occupied = true := by
  rcases reachable_owned_or_vacant reach hosted with owned | vacant
  · exact (owned.kept.resolve_left (by rw [live]; exact Bool.false_ne_true)).1
  · rw [count_eq_zero_iff.mp vacant.empty i] at seated
    exact nomatch seated

/-- `n` times the WELCOME of slot `i`, which another nonce does not get. -/
def answers (s : Server) (i : Fin 4) (nonce : UInt64) (n : Nat) : List Datagram :=
  if nonce = (s.players i).nonce then
    List.replicate n (wire (s.players i).address (s.addressed i (s.welcomePacket i)))
  else []

/-- The room after `n` calls that did nothing but give these answers. -/
def answered (s : Server) (i : Fin 4) (nonce : UInt64) (n : Nat) : Server :=
  { s with rx := s.rx + UInt64.ofNat n, sent := s.sent ++ s.answers i nonce n }

theorem answers_zero (s : Server) (i : Fin 4) (nonce : UInt64) : s.answers i nonce 0 = [] := by
  simp [answers]

theorem answers_add (s : Server) (i : Fin 4) (nonce : UInt64) (n m : Nat) :
    s.answers i nonce n ++ s.answers i nonce m = s.answers i nonce (n + m) := by
  unfold answers
  split
  · exact List.replicate_append_replicate
  · rfl

theorem answered_zero (s : Server) (i : Fin 4) (nonce : UInt64) : s.answered i nonce 0 = s := by
  simp [answered, answers_zero]

theorem answered_answered (s : Server) (i : Fin 4) (nonce : UInt64) (n m : Nat) :
    (s.answered i nonce n).answered i nonce m = s.answered i nonce (n + m) := by
  have same : (s.answered i nonce n).answers i nonce m = s.answers i nonce m := rfl
  rw [answered, same]
  simp only [answered, UInt64.ofNat_add, UInt64.add_assoc, List.append_assoc, answers_add]

/-- The sender has its slot, and a reserved slot 0 is taken. -/
theorem receiveHello_again {s : Server} {data : List UInt8} {packet : Packet} (fits : s.key.length ≤ keyMax)
    (greets : Greets s.key data packet) (r : Readings) (random : UInt64) {address : Endpoint} {i : Fin 4}
    (beside : s.ownerNonce ≠ 0 → (s.players 0).occupied = true)
    (found : slots.find? (fun j => (s.players j).occupied && address == (s.players j).address) = some i) :
    s.receiveHello r random address packet =
      if u64 packet.payload = (s.players i).nonce then s.welcome i else s := by
  rw [receiveHello_greets fits greets, if_neg fun early => early.2.1 (beside early.1)]
  simp only [found]

/-- A HELLO from an endpoint that has its slot. -/
theorem step_again {s : Server} (reach : system.Reachable s) (live : s.closed = false) {d : Incoming}
    {packet : Packet} (greets : Greets s.key d.data packet) {i : Fin 4}
    (seated : (s.players i).occupied = true) (place : (s.players i).address = d.address) :
    s.step (.packet d) = s.answered i (u64 packet.payload) 1 := by
  have fits : s.key.length ≤ keyMax := reachable_key reach
  have beside (hosted : s.ownerNonce ≠ 0) : (s.players 0).occupied = true :=
    reserved_beside reach live hosted seated
  have found : slots.find? (fun j => (s.players j).occupied && d.address == (s.players j).address) = some i := by
    cases search : slots.find? fun j => (s.players j).occupied && d.address == (s.players j).address with
    | none =>
      have missed := find_slots_none search i
      simp [seated, place] at missed
    | some j =>
      have hit := find_slots_some search
      simp only [Bool.and_eq_true, beq_iff_eq] at hit
      rw [(reachable_seating reach live).endpoints i j seated hit.1 (place.trans hit.2)]
  have taken := receiveHello_again (s := s.countRx) fits greets d.readings d.random beside found
  rw [step_greets live greets, taken, answered, answers]
  change (if u64 packet.payload = (s.players i).nonce then s.countRx.welcome i else s.countRx) = _
  by_cases own : u64 packet.payload = (s.players i).nonce
  · rw [if_pos own, if_pos own]
    rfl
  · rw [if_neg own, if_neg own, List.append_nil]
    rfl

/-- One `receive_packet` call after the other. -/
def receiveAll (s : Server) (incoming : List Incoming) : Server :=
  incoming.foldl (fun s d => s.step (.packet d)) s

/-- However often a HELLO is repeated, an endpoint that has its slot is only
answered. -/
theorem receiveAll_again {s : Server} (reach : system.Reachable s) (live : s.closed = false) {d : Incoming}
    {packet : Packet} (greets : Greets s.key d.data packet) {i : Fin 4}
    (seated : (s.players i).occupied = true) (place : (s.players i).address = d.address)
    {again : List Incoming} (same : ∀ e ∈ again, e.address = d.address ∧ e.data = d.data) :
    s.receiveAll again = s.answered i (u64 packet.payload) again.length := by
  induction again generalizing s with
  | nil => exact (s.answered_zero i _).symm
  | cons e rest ih =>
    obtain ⟨address, data⟩ := same e List.mem_cons_self
    have step : s.step (.packet e) = s.answered i (u64 packet.payload) 1 :=
      step_again reach live (data ▸ greets) seated (place.trans address.symm)
    have reached : system.Reachable (s.answered i (u64 packet.payload) 1) := by
      rw [← step]
      exact reach.next (.packet e) trivial trivial
    have repeated := ih reached live greets seated place fun f member => same f (List.mem_cons_of_mem e member)
    calc s.receiveAll (e :: rest) = (s.step (.packet e)).receiveAll rest := rfl
      _ = (s.answered i (u64 packet.payload) 1).receiveAll rest := by rw [step]
      _ = s.answered i (u64 packet.payload) (1 + rest.length) := by rw [repeated, answered_answered]
      _ = _ := by rw [List.length_cons, Nat.add_comm]

/-- Everything about the room but its players, its host and its counters. -/
structure SameRoom (s t : Server) : Prop where
  session : t.session = s.session
  ownerNonce : t.ownerNonce = s.ownerNonce
  key : t.key = s.key
  closed : t.closed = s.closed
  phase : t.phase = s.phase
  race : t.race = s.race
  start : t.start = s.start
  expected : t.expected = s.expected
  track : t.track = s.track
  league : t.league = s.league

theorem Quiet.sameRoom {s t : Server} (quiet : Quiet s t) : SameRoom s t :=
  { quiet with }

/-- What a HELLO from a new endpoint may do: at most one free slot is touched,
and only by a newcomer whom the lobby has room for. -/
structure Entered (s : Server) (d : Incoming) (nonce : UInt64) (t : Server) : Prop where
  room : SameRoom s t
  host : s.host ≠ 255 → t.host = s.host
  slot : ∃ i, (∀ j, j ≠ i → t.players j = s.players j) ∧
    (t.players i = s.players i ∨
      (s.players i).occupied = false ∧ s.phase = .lobby ∧ s.count < s.expected.toNat ∧
      (s.ownerNonce ≠ 0 → (s.players 0).occupied = false → nonce = s.ownerNonce ∧ i = 0) ∧
      (t.players i =
          { address := d.address
            token := d.random
            nonce := nonce
            seen := d.readings.seen.val
            status := .joined } ∨
        d.random = 0 ∧ t.players i = { address := d.address }))

theorem Entered.refused {s t : Server} (d : Incoming) (nonce : UInt64) (quiet : Quiet s t)
    (players : t.players = s.players) : Entered s d nonce t :=
  ⟨quiet.sameRoom, fun _ => quiet.host, 0, fun _ _ => by rw [players], .inl (by rw [players])⟩

/-- The first free slot is filled, or, without a token for it, only cleared
and addressed. -/
theorem Entered.enroll {s : Server} (d : Incoming) {nonce : UInt64} {i : Fin 4}
    (free : (s.players i).occupied = false) (first : ∀ j, j < i → (s.players j).occupied = true)
    (lobby : s.phase = .lobby) (room : s.count < s.expected.toNat)
    (admitted : s.ownerNonce ≠ 0 → (s.players 0).occupied = false → nonce = s.ownerNonce) :
    Entered s d nonce (s.enroll d.readings d.random d.address nonce i) := by
  have reserved (hosted : s.ownerNonce ≠ 0) (absent : (s.players 0).occupied = false) :
      nonce = s.ownerNonce ∧ i = 0 := by
    refine ⟨admitted hosted absent, ?_⟩
    by_contra later
    have taken := first 0 (Fin.pos_iff_ne_zero.mpr later)
    exact nomatch absent.symm.trans taken
  unfold Server.enroll
  split
  next dry =>
    refine ⟨⟨rfl, rfl, rfl, rfl, rfl, rfl, rfl, rfl, rfl, rfl⟩, fun _ => rfl, i, fun j other => ?_, ?_⟩
    · exact s.modify_players_ne _ other
    · exact .inr ⟨free, lobby, room, reserved, .inr ⟨dry, s.modify_players_self i _⟩⟩
  next =>
    have players : (((s.seat d.readings d.random d.address nonce i).welcome i).snapshot
        d.readings.sampled.val).players = (s.seat d.readings d.random d.address nonce i).players :=
      snapshot_players _ _
    have quiet := (transmit_quiet (s.seat d.readings d.random d.address nonce i) _ _).trans
      (snapshot_quiet ((s.seat d.readings d.random d.address nonce i).welcome i) d.readings.sampled.val)
    refine ⟨{ quiet.sameRoom with }, fun named => ?_, i, fun j other => ?_, ?_⟩
    · refine quiet.host.trans ?_
      change (if s.host = 255 then UInt8.ofNat i.val else s.host) = s.host
      rw [if_neg named]
    · rw [players, seat_players_ne s _ _ _ _ other]
    · rw [players, seat_players_self]
      exact .inr ⟨free, lobby, room, reserved, .inl rfl⟩

theorem step_newcomer {s : Server} (reach : system.Reachable s) (live : s.closed = false) {d : Incoming}
    {packet : Packet} (greets : Greets s.key d.data packet)
    (stranger : ∀ i, (s.players i).occupied = true → (s.players i).address ≠ d.address) :
    Entered s d (u64 packet.payload) (s.step (.packet d)) := by
  have fits : s.key.length ≤ keyMax := reachable_key reach
  have absent : slots.find? (fun j => (s.players j).occupied && d.address == (s.players j).address) = none := by
    rw [List.find?_eq_none]
    intro j _
    cases seated : (s.players j).occupied with
    | false => simp
    | true => simpa using (stranger j seated).symm
  have counted : Entered s.countRx d (u64 packet.payload) (s.step (.packet d)) := by
    rw [step_greets live greets, receiveHello_greets (s := s.countRx) fits greets]
    split
    · exact .refused d _ (joinError_quiet _ _ _ _) rfl
    next admitted =>
      simp only [countRx_players, absent]
      split
      · exact .refused d _ (joinError_quiet _ _ _ _) rfl
      next lobby =>
        split
        · exact .refused d _ (joinError_quiet _ _ _ _) rfl
        next room =>
          split
          next i found =>
            have free : (s.players i).occupied = false := by simpa using find_slots_some found
            refine .enroll d free (fun j before => ?_) (not_not.mp lobby) (Nat.lt_of_not_le room) ?_
            · simpa using find_slots_first found before
            · intro hosted vacant
              by_contra refused
              exact admitted ⟨hosted, fun taken => Bool.false_ne_true (vacant.symm.trans taken), refused⟩
          next => exact .refused d _ (.refl _) rfl
  exact { counted with room := { counted.room with } }

theorem Greeted.closed {s t : Server} {r : Readings} {address : Endpoint} {nonce : UInt64}
    (greeted : Greeted s r address nonce t) : t.closed = s.closed := by
  cases greeted with
  | quiet quiet => exact quiet.closed
  | spoilt i free => rfl
  | seated i token free first admitted quiet => exact quiet.closed

/-- A repeated HELLO of an endpoint that is in the room is answered and
changes nothing; from any other endpoint it fills at most one free slot of a
lobby that has room, the owner's first; and once it is accepted its
repetitions change neither the players nor the room. -/
theorem admission {s : Server} (reach : system.Reachable s) (live : s.closed = false) {d : Incoming}
    {packet : Packet} (greets : Greets s.key d.data packet) :
    (∀ i, (s.players i).occupied = true → (s.players i).address = d.address → ∀ again : List Incoming,
      (∀ e ∈ again, e.address = d.address ∧ e.data = d.data) →
      s.receiveAll again = s.answered i (u64 packet.payload) again.length) ∧
    ((∀ i, (s.players i).occupied = true → (s.players i).address ≠ d.address) →
      Entered s d (u64 packet.payload) (s.step (.packet d))) ∧
    ((∃ i, ((s.step (.packet d)).players i).occupied = true ∧
        ((s.step (.packet d)).players i).address = d.address) → ∀ again : List Incoming,
      (∀ e ∈ again, e.address = d.address ∧ e.data = d.data) →
      ((s.step (.packet d)).receiveAll again).players = (s.step (.packet d)).players ∧
      ((s.step (.packet d)).receiveAll again).host = (s.step (.packet d)).host ∧
      SameRoom (s.step (.packet d)) ((s.step (.packet d)).receiveAll again)) := by
  refine ⟨fun i seated place again same => ?_, fun stranger => ?_, ?_⟩
  · exact receiveAll_again reach live greets seated place same
  · exact step_newcomer reach live greets stranger
  · rintro ⟨i, seated, place⟩ again same
    have reached : system.Reachable (s.step (.packet d)) := reach.next (Event.packet d) trivial trivial
    have opened : (s.step (.packet d)).closed = false := by
      rw [step_greets live greets]
      exact (receiveHello_greeted _ _ _ _ packet).closed.trans live
    have known : Greets (s.step (.packet d)).key d.data packet := (s.step_key (.packet d)).symm ▸ greets
    rw [receiveAll_again reached opened known seated place same]
    exact ⟨rfl, rfl, ⟨rfl, rfl, rfl, rfl, rfl, rfl, rfl, rfl, rfl, rfl⟩⟩

def sampleHelloPacket : Packet where
  type := Kind.hello.code
  length := 9
  payload := put64 9 ++ [0]

/-- The HELLO of the guest who already sits in slot 0, for which the server
would draw another token. -/
def sampleAgain : Incoming := ⟨.at sampleClock, 99, sampleGuest, encode maxPacket sampleHelloPacket⟩

/-- Two more copies of it are answered and leave the token as it is. -/
theorem sampleAgain_answered :
    (sampleRoom.step sampleJoin).receiveAll [sampleAgain, sampleAgain] =
        (sampleRoom.step sampleJoin).answered 0 9 2 ∧
      ((sampleRoom.step sampleJoin).players 0).token = 77 := by
  have greets : Greets (sampleRoom.step sampleJoin).key sampleAgain.data sampleHelloPacket := by
    constructor <;> decide +kernel
  have live : (sampleRoom.step sampleJoin).closed = false := by decide +kernel
  have seated : ((sampleRoom.step sampleJoin).players 0).occupied = true := by decide +kernel
  have place : ((sampleRoom.step sampleJoin).players 0).address = sampleAgain.address := by decide +kernel
  have repeated := (admission sampleJoin_reachable live greets).1 0 seated place [sampleAgain, sampleAgain]
    (by simp)
  exact ⟨repeated, by decide +kernel⟩

end FzeroVs.Server
