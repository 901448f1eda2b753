import FzeroVs.Room.Picture
import FzeroVs.Server.Ledger

namespace FzeroVs

theorem newer_add_two (a : UInt32) : newer (a + 2) a = true := by
  have two : a + 2 - a = 2 := by grind
  have apart : a + 2 ≠ a := by simp
  simp [newer, two, apart]

namespace Server

theorem Ranged.step {s : Server} (ranged : Ranged s) (e : Event) : Ranged (s.step e) :=
  Path.keeps (s.step_path e) (fun _ _ move ranged => ranged.move move) ranged

end Server

namespace Client

/-- The datagrams one after the other, each with the clock at which it is handled. -/
def hearAll (c : Client) (heard : List (UInt64 × List UInt8)) : Client :=
  heard.foldl (fun c h => c.hear h.1 h.2) c

end Client

/-- The client has joined under the token and, while a slot still has it, is
at the last snapshot of the room. -/
structure Watches (s : Server) (token : UInt64) (c : Client) : Prop where
  opened : c.socket = true
  joined : c.id ≠ none
  session : c.session = s.session
  own : c.token = token
  sole : s.Sole token
  current : ∀ i ∈ s.holders token, c.snapshotSeq = s.snapshotSeq ∧ c.race = s.race

namespace Watches
variable {s : Server} {token : UInt64} {c : Client}

theorem quiet (watches : Watches s token c) {e : Server.Event} (undrawn : e.random ≠ token)
    (silent : (s.step e).snapshotSeq = s.snapshotSeq) : Watches (s.step e) token c where
  opened := watches.opened
  joined := watches.joined
  session := watches.session.trans (s.step_session e).symm
  own := watches.own
  sole i j holdsI holdsJ :=
    watches.sole i j (Server.holders_step undrawn holdsI) (Server.holders_step undrawn holdsJ)
  current i holds := by
    obtain ⟨seq, race⟩ := watches.current i (Server.holders_step undrawn holds)
    have seated := (Server.mem_holders.mp holds).1
    rcases Server.step_race e silent with same | empty
    · exact ⟨seq.trans silent.symm, race.trans same.symm⟩
    · rw [Server.count_eq_zero_iff.mp empty i] at seated
      exact nomatch seated

/-- Without a slot there is nothing to be behind of. -/
theorem unseated (watches : Watches s token c) {e : Server.Event}
    (unseen : (s.step e).holders token = []) : Watches (s.step e) token c where
  opened := watches.opened
  joined := watches.joined
  session := watches.session.trans (s.step_session e).symm
  own := watches.own
  sole i j holds := by simp [unseen] at holds
  current i holds := by simp [unseen] at holds

theorem accepts (watches : Watches s token c) (ranged : s.Ranged) {e : Server.Event}
    (undrawn : e.random ≠ token) (loud : (s.step e).snapshotSeq = s.snapshotSeq + 1) {i : Fin 4}
    (holds : i ∈ (s.step e).holders token) (now : UInt64) :
    Client.Accepts c ((s.step e).picture now i) ((s.step e).view now) := by
  obtain ⟨seq, race⟩ := watches.current i (Server.holders_step undrawn holds)
  refine ⟨watches.opened, watches.joined, ?_, ?_, Server.readPicture_picture (ranged.step e) now i, ?_⟩
  · exact (s.step_session e).trans watches.session.symm
  · exact (Server.mem_holders.mp holds).2.trans watches.own.symm
  · have newSeq : newer (s.step e).snapshotSeq c.snapshotSeq = true := by
      rw [seq, loud]
      exact newer_add_one _
    have newRace : (s.step e).race = c.race ∨ newer (s.step e).race c.race = true := by
      rw [race]
      rcases s.step_stay_or_begun e with stay | ⟨one | two, _⟩
      · exact .inl (Server.Stay.race stay)
      · exact .inr (one ▸ newer_add_one _)
      · exact .inr (two ▸ newer_add_two _)
    have fresh : c.fresh ((s.step e).picture now i) =
        (newer (s.step e).snapshotSeq c.snapshotSeq &&
          ((s.step e).race == c.race || newer (s.step e).race c.race)) := rfl
    simpa [fresh, newSeq] using newRace

theorem took (watches : Watches s token c) {e : Server.Event} (undrawn : e.random ≠ token) {i : Fin 4}
    {now : UInt64} {d : Client} (took : Client.Took c ((s.step e).picture now i) d) :
    Watches (s.step e) token d where
  opened := took.socket.trans watches.opened
  joined := took.id ▸ watches.joined
  session := (took.session.trans watches.session).trans (s.step_session e).symm
  own := took.token.trans watches.own
  sole i j holdsI holdsJ :=
    watches.sole i j (Server.holders_step undrawn holdsI) (Server.holders_step undrawn holdsJ)
  current _ _ := ⟨took.snapshotSeq, took.race⟩

/-- A client that is up to date accepts whatever the room sends to its token
from then on. -/
theorem run {events : List Server.Event} (watches : Watches s token c) (ranged : s.Ranged)
    (undrawn : ∀ e ∈ events, e.random ≠ token) {stream : List Packet}
    (shown : (events.foldl Server.step s).shown token = s.shown token ++ stream)
    {heard : List (UInt64 × List UInt8)} (same : heard.map (fun h => decode h.2) = stream.map some) :
    (c.hearAll heard).accepted = c.accepted ++ stream ∧ (c.hearAll heard).stale = c.stale := by
  induction events generalizing s c stream heard with
  | nil =>
    have empty : stream = [] := by simpa using shown
    subst empty
    have silent : heard = [] := by simpa using same
    subst silent
    exact ⟨(List.append_nil _).symm, rfl⟩
  | cons e rest ih =>
    have now := undrawn e (List.mem_cons_self ..)
    have later : ∀ e ∈ rest, e.random ≠ token := fun e present => undrawn e (List.mem_cons_of_mem _ present)
    rw [List.foldl_cons] at shown
    rcases (s.step_emission e).shown token with ⟨silent, unchanged⟩ | ⟨loud, more⟩
    · rw [← unchanged] at shown
      exact ih (watches.quiet now silent) (ranged.step e) later shown same
    · have sole : (s.step e).Sole token := fun i j holdsI holdsJ =>
        watches.sole i j (Server.holders_step now holdsI) (Server.holders_step now holdsJ)
      rcases sole.holders with none | ⟨i, one⟩
      · rw [none, List.map_nil, List.append_nil] at more
        rw [← more] at shown
        exact ih (watches.unseated none) (ranged.step e) later shown same
      · have holds : i ∈ (s.step e).holders token := by simp [one]
        have accepts := watches.accepts ranged now loud holds e.sampled
        rw [one, List.map_singleton] at more
        obtain ⟨others, run⟩ := Server.shown_run (s.step e) rest token
        have split : stream = (s.step e).picture e.sampled i :: others := by
          rw [run, more, List.append_assoc] at shown
          exact (List.append_cancel_left shown).symm
        subst split
        cases heard with
        | nil => simp at same
        | cons h heard =>
          simp only [List.map_cons, List.cons.injEq] at same
          have heardIt := Client.hear_picture h.1 same.1 accepts
          have took := c.accept_took h.1 ((s.step e).picture e.sampled i) ((s.step e).view e.sampled)
          rw [← heardIt] at took
          obtain ⟨accepted, stale⟩ := ih (watches.took now took) (ranged.step e) later run same.2
          change ((c.hear h.1 h.2).hearAll heard).accepted = _ ∧ ((c.hear h.1 h.2).hearAll heard).stale = _
          rw [accepted, stale, took.accepted, took.stale, List.append_assoc]
          exact ⟨rfl, rfl⟩

end Watches

namespace Client

/-- The client has attached and only asked for admission since. -/
structure Greeting (c : Client) : Prop where
  waiting : c.id = none
  unseen : c.snapshotSeq = 0
  accepted : c.accepted = []
  stale : c.stale = 0
  fits : c.config.key.length ≤ keyMax
  said : ∀ data ∈ c.sent, ∃ p : Packet, data = encode maxPacket p ∧ p.type = Kind.hello.code ∧
    p.length = UInt16.ofNat (9 + c.config.key.length) ∧
    p.payload = put64 c.nonce ++ [UInt8.ofNat c.config.key.length] ++ c.config.key

theorem Greeting.attach {c : Client} {random t : UInt64}
    (opened : (c.attach (some random) t).socket = true) : Greeting (c.attach (some random) t) := by
  unfold Client.attach at opened ⊢
  dsimp only at opened ⊢
  split at opened
  · exact nomatch opened
  next fits =>
    rw [if_neg fits]
    exact ⟨rfl, rfl, rfl, rfl, by simpa [resetGame] using fits, fun _ present => nomatch present⟩

theorem Greeting.hello {c : Client} (greeting : Greeting c) (t : UInt64) : Greeting (c.hello t) := by
  unfold Client.hello
  split
  · unfold send
    split
    · refine { greeting with said := fun data present => ?_ }
      rcases List.mem_append.mp present with old | new
      · exact greeting.said data old
      · exact ⟨_, List.mem_singleton.mp new, rfl, rfl, rfl⟩
    · exact { greeting with }
  · exact greeting

theorem Greeting.pulse {c : Client} (greeting : Greeting c) (t : UInt64) :
    Greeting (c.step (.pulse t)) := by
  simp only [step]
  split
  · exact greeting
  · have served : c.serve t = c.hello t := by simp [serve, greeting.waiting]
    have said := greeting.hello t
    simp only [Client.pulse, served]
    generalize (if (c.hello t).id = none then (10000000 : UInt64) else 5000000) = limit
    split
    · exact { said with }
    · exact said

theorem Greeting.pulses {c : Client} (greeting : Greeting c) (times : List UInt64) :
    Greeting ((times.map Event.pulse).foldl step c) := by
  induction times generalizing c with
  | nil => exact greeting
  | cons t rest ih => exact ih (greeting.pulse t)

end Client

/-- The client's HELLO is about to be handled by a lobby that has a place for
it. The server draws the token `d.random`. -/
structure Joining (s : Server) (c : Client) (d : Server.Incoming) : Prop where
  live : s.closed = false
  lobby : s.phase = .lobby
  room : s.count < s.expected.toNat
  key : c.config.key = s.key
  owner : s.ownerNonce = 0 ∨ (s.players 0).occupied = true ∨ c.nonce = s.ownerNonce
  said : d.data ∈ c.sent
  drawn : d.random ≠ 0
  newcomer : ∀ j, (s.players j).occupied = true →
    (s.players j).address ≠ d.address ∧ (s.players j).token ≠ d.random

theorem Server.exists_free {s : Server} (room : s.count < 4) : ∃ i, (s.players i).occupied = false := by
  by_contra full
  simp only [not_exists, Bool.not_eq_false] at full
  have all : s.count = Server.slots.length := List.countP_eq_length.mpr fun i _ => full i
  rw [all] at room
  exact absurd room (by decide)

/-- The newcomer is seated in a free slot. -/
theorem Joining.step {s : Server} {c : Client} {d : Server.Incoming} (joining : Joining s c d)
    (greeting : c.Greeting) (ranged : s.Ranged) : ∃ i, (s.players i).occupied = false ∧
      s.step (.packet d) = ((s.countRx.seat d.readings d.random d.address c.nonce i).welcome i).snapshot
        d.readings.sampled.val := by
  obtain ⟨p, data, kind, length, payload⟩ := greeting.said d.data joining.said
  have fits := greeting.fits
  have limits : keyMax = 64 ∧ maxPacket = 256 ∧ headerSize = 36 := ⟨rfl, rfl, rfl⟩
  have size : p.length.toNat = 9 + c.config.key.length := by
    rw [length, UInt16.toNat_ofNat_of_lt']
    rw [UInt16.size]
    omega
  have written : p.payload.length = 9 + c.config.key.length := by
    rw [payload]
    simp
    omega
  have framed : p.Framed := ⟨⟨.hello, kind⟩, by rw [size, written], by omega⟩
  have decoded : decode d.data = some p := by rw [data, decode_encode framed]
  have keyByte : (p.byte 8).toNat = c.config.key.length := by
    have atEight : p.byte 8 = UInt8.ofNat c.config.key.length := by rw [Packet.byte, payload]; rfl
    rw [atEight, UInt8.toNat_ofNat_of_lt']
    rw [UInt8.size]
    omega
  have nonce : u64 p.payload = c.nonce := by rw [payload, List.append_assoc, u64_put64]
  have key : (p.payload.drop 9).take (p.byte 8).toNat = s.key := by
    rw [keyByte, ← joining.key, payload]
    exact List.take_length
  have isHello : p.is .hello = true := by simp [Packet.is, kind]
  have notClosed : ¬ s.closed = true := by simp [joining.live]
  have absent : Server.slots.find? (fun i => (s.countRx.players i).occupied &&
      d.address == (s.countRx.players i).address) = none := by
    refine List.find?_eq_none.mpr fun j _ => ?_
    simp only [Server.countRx_players, Bool.and_eq_true, beq_iff_eq, not_and]
    exact fun seated same => (joining.newcomer j seated).1 same.symm
  obtain ⟨k, free⟩ : ∃ i, (s.players i).occupied = false := by
    refine Server.exists_free ?_
    have most := UInt8.le_iff_toNat_le.mp ranged.most
    have room := joining.room
    exact Nat.lt_of_lt_of_le room most
  cases found : Server.slots.find? fun i => !(s.countRx.players i).occupied with
  | none =>
    have taken := Server.find_slots_none found k
    simp [free] at taken
  | some i =>
    refine ⟨i, by simpa using Server.find_slots_some found, ?_⟩
    have owner : ¬ (s.countRx.ownerNonce ≠ 0 ∧ ¬ (s.countRx.players 0).occupied = true ∧
        c.nonce ≠ s.countRx.ownerNonce) := by
      rintro ⟨named, absent, other⟩
      rcases joining.owner with free | present | same
      · exact named free
      · exact absent present
      · exact other same
    have formed : ¬ (p.length.toNat < 9 ∨ keyMax < (p.byte 8).toNat ∨
        p.length.toNat ≠ 9 + (p.byte 8).toNat) := by
      rw [size, keyByte]
      omega
    have matching : ¬ ((p.byte 8).toNat ≠ s.countRx.key.length ∨
        (p.payload.drop 9).take (p.byte 8).toNat ≠ s.countRx.key) := by
      rw [key, keyByte, joining.key]
      simp [Server.countRx]
    have waiting : ¬ s.countRx.phase ≠ .lobby := by simp [joining.lobby]
    have room : ¬ s.countRx.expected.toNat ≤ s.countRx.count := Nat.not_le.mpr joining.room
    simp only [Server.step, Server.receivePacket, decoded, if_neg notClosed, if_pos isHello,
      Server.receiveHello, if_neg formed, nonce, if_neg matching, if_neg owner, absent,
      if_neg waiting, if_neg room, found, Server.enroll, if_neg joining.drawn]

/-- What the newcomer finds: his slot, WELCOME and a first picture. -/
structure Seated (s : Server) (c : Client) (d : Server.Incoming) (i : Fin 4) (t : Server) : Prop where
  session : t.session = s.session
  race : t.race = s.race
  seq : t.snapshotSeq = s.snapshotSeq + 1
  nonce : (t.players i).nonce = c.nonce
  holders : t.holders d.random = [i]
  sent : t.sent = s.sent ++ [Server.wire (t.players i).address (t.addressed i (t.welcomePacket i))] ++
    t.pictures d.readings.sampled.val
  shown : t.shown d.random = s.shown d.random ++ [t.picture d.readings.sampled.val i]

theorem Joining.seated {s : Server} {c : Client} {d : Server.Incoming} (joining : Joining s c d)
    (greeting : c.Greeting) (ranged : s.Ranged) : ∃ i, Seated s c d i (s.step (.packet d)) := by
  obtain ⟨i, free, stepped⟩ := joining.step greeting ranged
  refine ⟨i, ?_⟩
  obtain ⟨players, seq, sent⟩ :=
    s.countRx.enroll_sent d.readings d.random d.address c.nonce i stepped
  have quiet := (((s.countRx.seat d.readings d.random d.address c.nonce i).transmit_quiet _ _).trans
    (((s.countRx.seat d.readings d.random d.address c.nonce i).welcome i).snapshot_quiet
      d.readings.sampled.val))
  have self := s.countRx.seat_players_self d.readings d.random d.address c.nonce i
  have others (j : Fin 4) (other : j ≠ i) :=
    s.countRx.seat_players_ne d.readings d.random d.address c.nonce other
  have emission := (s.step_emission (.packet d)).shown d.random
  have race : (s.step (.packet d)).race = s.race := by
    rw [stepped]
    exact quiet.race
  generalize s.step (.packet d) = t at *
  have session : t.session = s.session := by
    rw [stepped]
    exact quiet.session
  have holds (j : Fin 4) : j ∈ t.holders d.random ↔ j = i := by
    rw [Server.mem_holders, players]
    by_cases isJ : j = i
    · subst isJ
      rw [self]
      exact ⟨fun _ => rfl, fun _ => ⟨rfl, rfl⟩⟩
    · rw [others j isJ]
      refine ⟨fun holds => absurd holds.2 (joining.newcomer j holds.1).2, fun same => absurd same isJ⟩
  have holders : t.holders d.random = [i] := by
    have sole : t.Sole d.random := fun j k holdsJ holdsK =>
      ((holds j).mp holdsJ).trans ((holds k).mp holdsK).symm
    rcases sole.holders with none | ⟨j, one⟩
    · have present := (holds i).mpr rfl
      simp [none] at present
    · rw [one, (holds j).mp (by simp [one])]
  refine ⟨session, race, seq, by rw [players, self], holders, sent, ?_⟩
  rcases emission with ⟨silent, _⟩ | ⟨_, more⟩
  · exact absurd (seq.symm.trans silent) (Server.seq_add_one_ne _)
  · rw [more, holders]
    rfl

/-- The only WELCOME among the answers to the HELLO admits the client. -/
theorem Seated.join {s t : Server} {c : Client} {d : Server.Incoming} {i : Fin 4}
    (seated : Seated s c d i t) (greeting : c.Greeting) (opened : c.socket = true)
    (sessionDrawn : s.session ≠ 0) (tokenDrawn : d.random ≠ 0) {address : Endpoint} {data : List UInt8}
    (answer : (⟨address, data⟩ : Datagram) ∈ t.sent.drop s.sent.length) {w : Packet}
    (decoded : decode data = some w) (welcome : w.is .welcome = true) (time : UInt64) :
    ∃ j, c.hear time data = c.join time w j ∧ w.session = s.session ∧ w.token = d.random ∧ w.race = s.race := by
  have holds : (t.players i).token = d.random :=
    (Server.mem_holders.mp (by rw [seated.holders]; exact List.mem_singleton_self i)).2
  have isWelcome : w = t.addressed i (t.welcomePacket i) := by
    rw [seated.sent, List.append_assoc, List.drop_left, List.mem_append] at answer
    rcases answer with greeted | pictured
    · have same := congrArg Datagram.data (List.mem_singleton.mp greeted)
      rw [show data = _ from same, Server.wire_decode _ (t.welcome_framed i i)] at decoded
      exact (Option.some.inj decoded).symm
    · obtain ⟨j, _, same⟩ := List.mem_map.mp pictured
      rw [← show (Server.wire _ _).data = data from congrArg Datagram.data same,
        Server.wire_decode _ (t.picture_framed _ j)] at decoded
      rw [← Option.some.inj decoded] at welcome
      exact nomatch welcome
  have token : w.token = d.random := by rw [isWelcome]; exact holds
  have session : w.session = s.session := by rw [isWelcome]; exact seated.session
  have nonce : u64 (w.payload.drop 1) = c.nonce := by
    rw [isWelcome, ← seated.nonce]
    exact u64_put64_self _
  have slot : w.byte 0 < 4 := by
    rw [isWelcome]
    exact Server.slot_lt_four i
  have length : w.length = 9 := by rw [isWelcome]; rfl
  refine ⟨Fin.ofNat 4 (w.byte 0).toNat, Client.hear_welcome time decoded ?_, session, token,
    by rw [isWelcome]; exact seated.race⟩
  exact ⟨opened, greeting.waiting, welcome, length, nonce, slot, session ▸ sessionDrawn, token ▸ tokenDrawn⟩

theorem Client.hear_accepted_length (c : Client) (t : UInt64) (data : List UInt8) :
    (c.hear t data).accepted.length ≤ c.accepted.length + 1 := by
  rcases c.hear_cases t data with path | ⟨p, _, _, same⟩ | ⟨p, v, _, _, same⟩
  · rw [(Client.Path.kept path).accepted]
    omega
  · rw [same]
    exact Nat.le_succ _
  · rw [same, (c.accept_took t p v).accepted]
    simp

theorem Client.hearAll_accepted_length (c : Client) (heard : List (UInt64 × List UInt8)) :
    (c.hearAll heard).accepted.length ≤ c.accepted.length + heard.length := by
  induction heard generalizing c with
  | nil => exact Nat.le_refl _
  | cons h rest ih =>
    have first := c.hear_accepted_length h.1 h.2
    have others := ih (c.hear h.1 h.2)
    change ((c.hear h.1 h.2).hearAll rest).accepted.length ≤ _
    rw [List.length_cons]
    omega

/-- The very first snapshot of a newcomer is news exactly while the counter of
the room is in its lower half. -/
theorem newer_first_iff (seq : UInt32) : newer (seq + 1) 0 = true ↔ seq.toNat + 1 < 2 ^ 31 := by
  have bound := seq.toNat_lt
  rw [newer_zero_iff, UInt32.toNat_add]
  change 0 < (seq.toNat + 1) % 2 ^ 32 ∧ (seq.toNat + 1) % 2 ^ 32 < 2 ^ 31 ↔ _
  omega

/-- A client that attaches, says HELLO to a lobby with a free slot, is welcomed
and then hears, in order, all that the room sends to its token accepts all of
it exactly when the snapshot counter of the room is in its lower half. The
state of the room is any reachable one, with any values of the two counters. -/
theorem newcomer_follows {r s : Server} (reach : Server.system.Reachable r)
    (like : s = { r with snapshotSeq := s.snapshotSeq, race := s.race }) {c : Client} (idle : Client)
    (random attachTime : UInt64) (pulses : List UInt64)
    (greeted : c = (pulses.map Client.Event.pulse).foldl Client.step (idle.attach (some random) attachTime))
    (attached : (idle.attach (some random) attachTime).socket = true) (opened : c.socket = true)
    {d : Server.Incoming} (joining : Joining s c d) (events : List Server.Event)
    (undrawn : ∀ e ∈ events, e.random ≠ d.random) {data : List UInt8} {w : Packet}
    (answer : (⟨d.address, data⟩ : Datagram) ∈ (s.step (.packet d)).sent.drop s.sent.length)
    (decoded : decode data = some w) (welcome : w.is .welcome = true) (welcomeTime : UInt64)
    (stream : List Packet)
    (shown : (events.foldl Server.step (s.step (.packet d))).shown d.random = s.shown d.random ++ stream)
    (heard : List (UInt64 × List UInt8)) (same : heard.map (fun h => decode h.2) = stream.map some) :
    (((c.hear welcomeTime data).hearAll heard).accepted = stream ∧
      ((c.hear welcomeTime data).hearAll heard).stale = 0) ↔ s.snapshotSeq.toNat + 1 < 2 ^ 31 := by
  have ranged : s.Ranged := by
    rw [like]
    exact (Server.reachable_ranged reach).cars rfl rfl rfl rfl (Server.reachable_ranged reach).car
  have sessionDrawn : s.session ≠ 0 := by
    rw [like]
    exact Server.reachable_session (s := r) reach
  have greeting : c.Greeting := by
    rw [greeted]
    exact (Client.Greeting.attach attached).pulses pulses
  obtain ⟨i, seated⟩ := joining.seated greeting ranged
  obtain ⟨j, joined, session, token, race⟩ :=
    seated.join greeting opened sessionDrawn joining.drawn answer decoded welcome welcomeTime
  have ranged' := ranged.step (.packet d)
  obtain ⟨others, run⟩ := Server.shown_run (s.step (.packet d)) events d.random
  generalize s.step (.packet d) = t at *
  generalize hnow : d.readings.sampled.val = now at *
  have split : stream = t.picture now i :: others := by
    have added := seated.shown
    rw [hnow] at added
    rw [run, added, List.append_assoc] at shown
    exact (List.append_cancel_left shown).symm
  subst split
  cases heard with
  | nil => simp at same
  | cons h heard =>
    simp only [List.map_cons, List.cons.injEq] at same
    have holds : (t.players i).token = d.random :=
      (Server.mem_holders.mp (by rw [seated.holders]; exact List.mem_singleton_self i)).2
    have fresh : (c.join welcomeTime w j).fresh (t.picture now i) = newer (s.snapshotSeq + 1) 0 := by
      have parts : (c.join welcomeTime w j).fresh (t.picture now i) =
          (newer t.snapshotSeq c.snapshotSeq && (t.race == w.race || newer t.race w.race)) := rfl
      rw [parts, seated.seq, greeting.unseen, seated.race, race]
      simp
    have joinedStream : (c.join welcomeTime w j).accepted = [] ∧ (c.join welcomeTime w j).stale = 0 :=
      ⟨greeting.accepted, greeting.stale⟩
    rw [joined, ← newer_first_iff, ← fresh]
    change (((c.join welcomeTime w j).hear h.1 h.2).hearAll heard).accepted = _ ∧
      (((c.join welcomeTime w j).hear h.1 h.2).hearAll heard).stale = _ ↔ _
    have read := Server.readPicture_picture ranged' now i
    by_cases first : (c.join welcomeTime w j).fresh (t.picture now i) = true
    · refine ⟨fun _ => first, fun _ => ?_⟩
      have accepts : Client.Accepts (c.join welcomeTime w j) (t.picture now i) (t.view now) :=
        ⟨opened, by simp [Client.join], seated.session.trans session.symm, holds.trans token.symm, read, first⟩
      have heardIt := Client.hear_picture h.1 same.1 accepts
      have took := (c.join welcomeTime w j).accept_took h.1 (t.picture now i) (t.view now)
      rw [← heardIt] at took
      have watches : Watches t d.random ((c.join welcomeTime w j).hear h.1 h.2) :=
        { opened := took.socket.trans opened
          joined := by rw [took.id]; simp [Client.join]
          session := (took.session.trans session).trans seated.session.symm
          own := took.token.trans token
          sole := fun i j holdsI holdsJ => by
            rw [seated.holders, List.mem_singleton] at holdsI holdsJ
            rw [holdsI, holdsJ]
          current := fun _ _ => ⟨took.snapshotSeq, took.race⟩ }
      obtain ⟨accepted, stale⟩ := watches.run ranged' undrawn run same.2
      rw [accepted, stale, took.accepted, took.stale, joinedStream.1, joinedStream.2]
      exact ⟨rfl, rfl⟩
    · refine ⟨fun follows => ?_, fun fresh => absurd fresh first⟩
      have refused : ((c.join welcomeTime w j).hear h.1 h.2).accepted = [] := by
        rcases (c.join welcomeTime w j).hear_cases h.1 h.2 with path | ⟨p, _, _, joins⟩ | ⟨p, v, read, accepts, _⟩
        · exact (Client.Path.kept path).accepted.trans joinedStream.1
        · rw [joins]
          exact joinedStream.1
        · rw [same.1] at read
          cases Option.some.inj read
          exact absurd accepts.fresh first
      have bound := ((c.join welcomeTime w j).hear h.1 h.2).hearAll_accepted_length heard
      have length : heard.length = others.length := by simpa using congrArg List.length same.2
      rw [follows.1, refused, List.length_cons] at bound
      simp only [List.length_nil] at bound
      omega

/-- A client that has just said HELLO. -/
def sampleCaller : Client :=
  ([1500000].map Client.Event.pulse).foldl Client.step (Client.attach {} (some 9) 1000000)

/-- Its HELLO, answered with the token 77. -/
def sampleCall : Server.Incoming :=
  ⟨.at Server.sampleClock, 77, Server.sampleGuest, sampleCaller.sent.headD []⟩

/-- What the room answers. -/
def sampleAnswer (s : Server) : Packet :=
  (s.step (.packet sampleCall)).addressed 0 ((s.step (.packet sampleCall)).welcomePacket 0)

def sampleFirst (s : Server) : Packet := (s.step (.packet sampleCall)).picture 1000000 0

/-- The client after WELCOME and the first picture. -/
def sampleFollower (s : Server) : Client :=
  (sampleCaller.hear 1600000 (encode maxPacket (sampleAnswer s))).hearAll
    [(1700000, encode maxPacket (sampleFirst s))]

/-- The room after two thousand million snapshots. -/
def sampleWorn : Server := { Server.sampleRoom with snapshotSeq := 0x7fffffff }

theorem sampleCall_joining (seq : UInt32) :
    Joining { Server.sampleRoom with snapshotSeq := seq } sampleCaller sampleCall where
  live := rfl
  lobby := rfl
  room := (by decide : Server.sampleRoom.count < Server.sampleRoom.expected.toNat)
  key := rfl
  owner := .inl rfl
  said := by decide +kernel
  drawn := by decide
  newcomer _ seated := nomatch (show false = true from seated)

theorem sampleFollower_follows :
    (sampleFollower Server.sampleRoom).accepted = [sampleFirst Server.sampleRoom] ∧
      (sampleFollower Server.sampleRoom).stale = 0 := by
  refine (newcomer_follows (s := Server.sampleRoom) (.start Server.sampleRoom_init) rfl {} 9 1000000 [1500000] rfl
    (by decide +kernel) (by decide +kernel) (sampleCall_joining 0) [] (by simp)
    (w := sampleAnswer Server.sampleRoom) ?_ (decode_encode (Server.welcome_framed _ 0 0)) rfl 1600000
    [sampleFirst Server.sampleRoom] (by decide +kernel)
    [(1700000, encode maxPacket (sampleFirst Server.sampleRoom))] ?_).mpr (by decide)
  · decide +kernel
  · decide +kernel

/-- Past the half-way mark of the counter the newcomer refuses the first
snapshot of the room as stale. -/
theorem worn_room_deafens : Joining sampleWorn sampleCaller sampleCall ∧
    (sampleWorn.step (.packet sampleCall)).shown 77 = [sampleFirst sampleWorn] ∧
    (sampleFollower sampleWorn).id = some 0 ∧ (sampleFollower sampleWorn).accepted = [] ∧
    (sampleFollower sampleWorn).stale = 1 := by
  refine ⟨sampleCall_joining _, ?_⟩
  decide +kernel

end FzeroVs
