import FzeroVs.Room.Sightings

namespace FzeroVs

def Peer.position (p : Peer) : Position := ⟨p.x, p.y, p.orientation⟩

namespace Client

/-- The interpolation buffer is only ever cleared by what the client does itself. -/
theorem Move.buffer {c d : Client} (move : Move c d) :
    d.snapshotBuffer = c.snapshotBuffer ∨ d.snapshotBuffer = [] := by
  have queued (command : List UInt8) : (c.queue command).snapshotBuffer = c.snapshotBuffer := by
    unfold Client.queue
    split <;> rfl
  cases move with
  | idle idle => exact .inl idle.snapshotBuffer
  | retransmit t waiting =>
    refine .inl ?_
    unfold Client.send
    split <;> rfl
  | queue command => exact .inl (queued command)
  | select waiting unsent joined lobby => exact .inl (queued _)
  | load ram location playing unsent loading => exact .inl (queued _)
  | finish racing playing unsent => exact .inl (queued _)
  | arm counting unarmed => exact .inl (queued _)
  | play before after baseline seated => exact .inl rfl
  | fail => exact .inr rfl

theorem Path.buffer {c d : Client} (path : Path c d) :
    d.snapshotBuffer = c.snapshotBuffer ∨ d.snapshotBuffer = [] := by
  induction path with
  | refl => exact .inl rfl
  | tail _ move ih =>
    rcases move.buffer with same | cleared
    · rw [same]
      exact ih
    · exact .inr cleared

/-- What an accepted snapshot leaves in the buffer. -/
theorem accept_buffer (c : Client) (t : UInt64) (p : Packet) (v : Picture) {s : Snapshot}
    (member : s ∈ (c.accept t p v).snapshotBuffer) : s.peers = v.peers ∨ p.race = c.race ∧ s ∈ c.snapshotBuffer := by
  rw [accept, arm_keeps Client.snapshotBuffer (fun _ _ _ _ _ => rfl)] at member
  by_cases same : p.race = c.race
  · simp only [settle, newRace, same, ne_eq, not_true_eq_false, if_false, display, bufferSnapshot] at member
    rcases List.mem_append.mp (List.mem_of_mem_drop member) with old | new
    · exact .inr ⟨same, old⟩
    · exact .inl (by rw [List.mem_singleton.mp new])
  · simp only [settle, newRace, same, ne_eq, not_false_eq_true, if_true, display, bufferSnapshot, resetGame] at member
    rcases List.mem_append.mp (List.mem_of_mem_drop member) with old | new
    · exact absurd old List.not_mem_nil
    · exact .inl (by rw [List.mem_singleton.mp new])

theorem attach_peers (c : Client) (random : Option UInt64) (now : UInt64) :
    (c.attach random now).snapshotBuffer = [] ∧ ((c.attach random now).peers = (fun _ => {}) ∨
      (c.attach random now).socket = false ∧ (c.attach random now).peers = c.peers ∧
        (c.attach random now).race = c.race) := by
  have peers : c.detach.peers = c.peers := detach_keeps Client.peers (fun _ _ _ _ _ _ => rfl) c
  have race : c.detach.race = c.race := detach_keeps Client.race (fun _ _ _ _ _ _ => rfl) c
  unfold attach
  dsimp only
  split
  · split
    · exact ⟨rfl, .inr ⟨rfl, peers, race⟩⟩
    · exact ⟨rfl, .inl rfl⟩
  · exact ⟨rfl, .inr ⟨rfl, peers, race⟩⟩

end Client

namespace Film
variable {ι : Type}

theorem sighted_blank (film : Film ι) (race : UInt32) (k : Fin 4) :
    film.Sighted race k ({} : Peer).status ({} : Peer).position := by
  refine ⟨fun onTrack => ?_, fun _ _ => ⟨rfl, rfl⟩⟩
  rcases onTrack with loaded | racing
  · cases loaded
  · cases racing

/-- The pictures that a client can draw from show what has been seen. -/
structure Screen (film : Film ι) (c : Client) : Prop where
  vacant : c.id = none → c.snapshotBuffer = []
  blank : c.id = none → c.socket = true → c.peers = fun _ => {}
  peers : ∀ k, film.Sighted c.race k (c.peers k).status (c.peers k).position
  buffer : ∀ s ∈ c.snapshotBuffer, ∀ k, film.Sighted c.race k (s.peers k).status (s.peers k).position

namespace Screen
variable {film : Film ι} {c d : Client}

theorem path (screen : Screen film c) (path : Client.Path c d) : Screen film d := by
  have same := Client.Path.kept path
  have socket := Client.Path.socket path
  have buffer {s : Snapshot} (member : s ∈ d.snapshotBuffer) : s ∈ c.snapshotBuffer := by
    rcases Client.Path.buffer path with still | cleared
    · exact still ▸ member
    · rw [cleared] at member
      exact absurd member List.not_mem_nil
  refine ⟨fun out => ?_, fun out opened => ?_, ?_, fun s member k => ?_⟩
  · have empty := screen.vacant (same.id ▸ out)
    exact List.eq_nil_iff_forall_not_mem.mpr fun s member => List.not_mem_nil (empty ▸ buffer member)
  · rw [same.peers]
    rcases socket with still | closed
    · exact screen.blank (same.id ▸ out) (still ▸ opened)
    · rw [closed] at opened
      cases opened
  · rw [same.race, same.peers]
    exact screen.peers
  · rw [same.race]
    exact screen.buffer s (buffer member) k

theorem join (screen : Screen film c) {p : Packet} (admits : Client.Admits c p) (t : UInt64) (i : Fin 4) :
    Screen film (c.join t p i) := by
  refine ⟨fun out => (by cases out), fun out => (by cases out), fun k => ?_, fun s member => ?_⟩
  · change film.Sighted p.race k (c.peers k).status (c.peers k).position
    rw [screen.blank admits.waiting admits.opened]
    exact sighted_blank film p.race k
  · change s ∈ c.snapshotBuffer at member
    rw [screen.vacant admits.waiting] at member
    exact absurd member List.not_mem_nil

theorem accept (screen : Screen film c) {p : Packet} {v : Picture} (accepts : Client.Accepts c p v) (t : UInt64)
    (pictured : ∀ k, film.Sighted p.race k (v.peers k).status (v.peers k).position) : Screen film (c.accept t p v) := by
  have took := c.accept_took t p v
  have shows := c.accept_shows t p v
  refine ⟨fun out => absurd (took.id ▸ out) accepts.joined, fun out => absurd (took.id ▸ out) accepts.joined, ?_,
    fun s member k => ?_⟩
  · rw [took.race, shows.peers]
    exact pictured
  · rw [took.race]
    rcases c.accept_buffer t p v member with new | ⟨race, old⟩
    · rw [new]
      exact pictured k
    · rw [race]
      exact screen.buffer s old k

theorem attach (screen : Screen film c) (random : Option UInt64) (now : UInt64) :
    Screen film (c.attach random now) := by
  obtain ⟨buffer, peers⟩ := c.attach_peers random now
  refine ⟨fun _ => buffer, fun _ opened => ?_, fun k => ?_, fun s member => ?_⟩
  · rcases peers with blank | ⟨closed, _⟩
    · exact blank
    · rw [closed] at opened
      cases opened
  · rcases peers with blank | ⟨_, same, race⟩
    · rw [blank]
      exact sighted_blank film _ k
    · rw [same, race]
      exact screen.peers k
  · rw [buffer] at member
    exact absurd member List.not_mem_nil

theorem detach (screen : Screen film c) : Screen film c.detach := by
  refine ⟨fun _ => rfl, fun _ opened => ?_, ?_, fun s member => absurd member List.not_mem_nil⟩
  · rw [c.detach_socket.1] at opened
    cases opened
  · rw [Client.detach_keeps Client.peers (fun _ _ _ _ _ _ => rfl),
      Client.detach_keeps Client.race (fun _ _ _ _ _ _ => rfl)]
    exact screen.peers

theorem step (screen : Screen film c) {e : Client.Event}
    (pictured : ∀ t data p v, e = .hear t data → decode data = some p → readPicture p = some v →
      ∀ k, film.Sighted p.race k (v.peers k).status (v.peers k).position) : Screen film (c.step e) := by
  cases c.step_turn e with
  | path path _ _ => exact screen.path path
  | join t data p isHear decoded admits same =>
    rw [same]
    exact screen.join admits t _
  | accept t data p v isHear decoded accepts same =>
    rw [same]
    exact screen.accept accepts t (pictured t data p v isHear decoded accepts.read)
  | attach random now isAttach =>
    subst isAttach
    exact screen.attach random now
  | detach isDetach =>
    subst isDetach
    exact screen.detach

end Screen

variable [DecidableEq ι] {place : ι ↪ Endpoint} {f : Room ι × Film ι}

/-- A position that arrives under the token of a slot has been shown by the game of its player. -/
theorem delivered (reach : (system place).Reach (Closed place) f) {d : Server.Incoming}
    (may : Room.enabled place f.1 (.server (.packet d))) (closed : Closed place f (.server (.packet d)))
    {packet : Packet} (decoded : decode d.data = some packet) {k : Fin 4}
    (seated : (f.1.server.players k).occupied = true) (token : packet.token = (f.1.server.players k).token)
    {x : Position} (tells : packet.position = some x) : f.2.Has k packet.token packet.race x := by
  obtain ⟨i, own⟩ := closed
  obtain ⟨id, member⟩ := (reach_truthful reach i).sent d.data (Room.enabled_sent may own) packet decoded x tells
  have names := reach_cast reach member
  have same : k = id := names.holder k (Server.mem_holders.mpr ⟨seated, token.symm⟩)
  rw [same]
  exact ⟨i, member⟩

/-- The server has every machine on the track where its player's game has shown it in this race. -/
theorem reach_positions (reach : (system place).Reach (Closed place) f) (k : Fin 4)
    (onTrack : (f.1.server.players k).status = .loaded ∨ (f.1.server.players k).status = .racing) :
    ∃ token, f.2.Has k token f.1.server.race (f.1.server.players k).position := by
  induction reach with
  | @start f init =>
    obtain ⟨c, session, now, created⟩ := init.1.1
    obtain ⟨_, _, _, _, _, same⟩ := Server.create_some created
    rw [same] at onTrack
    rcases onTrack with loaded | racing
    · cases loaded
    · cases racing
  | @next f e previous may closed ih =>
    cases e with
    | client i e => exact (ih onTrack).imp fun _ has => has.after f.1 (.client i e)
    | server e =>
      have reach := Room.reach_server (reach_room previous)
      have rules (live : f.1.server.closed = false) :=
        And.intro (Server.reachable_seating reach live) (Server.reachable_staging reach live)
      change ((f.1.server.step e).players k).status = .loaded ∨ ((f.1.server.step e).players k).status =
        .racing at onTrack
      change ∃ token, f.2.Has k token (f.1.server.step e).race ((f.1.server.step e).players k).position
      have seated : ((f.1.server.step e).players k).occupied = true := by
        refine Server.occupied_iff.mpr ?_
        rcases onTrack with loaded | racing
        · rw [loaded]; exact ⟨by decide, by decide⟩
        · rw [racing]; exact ⟨by decide, by decide⟩
      -- A new generation begins with nobody on the track.
      rcases f.1.server.step_stay_or_begun e with stay | ⟨_, begun⟩
      case inr =>
        have joined := begun.joined k seated
        rw [joined] at onTrack
        rcases onTrack with loaded | racing
        · cases loaded
        · cases racing
      rw [stay.race]
      rcases Track.step_position rules e k with ⟨_, still, _⟩ |
        ⟨report, reported, _, _, _, _, position⟩ | ⟨position, p, loaded, _, _, shown, _, _, still⟩
      · obtain ⟨before, position, _⟩ := still.kept onTrack
        rw [position]
        refine ih ?_
        rcases before with same | ⟨loaded, _⟩
        · rw [same]
          exact onTrack
        · exact .inl loaded
      · obtain ⟨d, packet, rfl, decoded, _, racing, state, _, _, token, _, race, rfl⟩ := Server.reports_some reported
        rw [position, ← race]
        refine ⟨_, delivered previous may closed decoded ?_ token ?_⟩
        · exact Server.occupied_iff.mpr (by rw [racing]; exact ⟨by decide, by decide⟩)
        · exact if_pos state
      · obtain ⟨d, packet, rfl, decoded, takes, _, code, rfl⟩ := Server.loads_some loaded
        rw [(still.kept onTrack).2.1, shown, ← takes.race]
        refine ⟨_, delivered previous may closed decoded takes.seated takes.token ?_⟩
        rw [Packet.position, (Server.Packet.is_command takes.command).2.2.2, if_neg Bool.false_ne_true]
        exact if_pos ⟨takes.command, code⟩

/-- The same holds of every picture that is still under way. -/
theorem reach_pictures (reach : (system place).Reach (Closed place) f) {d : Datagram} (member : d ∈ f.1.server.sent)
    {p : Packet} {v : Picture} (decoded : decode d.data = some p) (read : readPicture p = some v) (k : Fin 4) :
    f.2.Sighted p.race k (v.peers k).status (v.peers k).position := by
  induction reach with
  | @start f init =>
    obtain ⟨c, session, now, created⟩ := init.1.1
    obtain ⟨_, _, _, _, _, same⟩ := Server.create_some created
    rw [same] at member
    exact absurd member List.not_mem_nil
  | @next f e previous may closed ih =>
    cases e with
    | client i e => exact (ih member).after f.1 (.client i e)
    | server e =>
      have onward : (system place).Reach (Closed place) ((system place).step f (.server e)) :=
        .next (.server e) previous may closed
      have reach : Server.system.Reachable (f.1.server.step e) := Room.reach_server (reach_room onward)
      obtain ⟨new, sent, news⟩ := (f.1.server.step_emission e).news
      change d ∈ (f.1.server.step e).sent at member
      rw [sent] at member
      rcases List.mem_append.mp member with old | added
      · exact ih old
      have kind := Client.readPicture_kind read
      rcases news d added with other | ⟨j, seated, _, isWelcome | ⟨_, isPicture⟩⟩
      · rw [(other p decoded).2] at kind
        cases kind
      · rw [isWelcome] at decoded
        obtain rfl := Option.some.inj decoded
        cases kind
      · rw [isPicture] at decoded
        obtain rfl := Option.some.inj decoded
        rw [Server.readPicture_picture (Server.reachable_ranged reach)] at read
        obtain rfl := Option.some.inj read
        exact ⟨reach_positions onward k, (Server.reachable_parked reach).out k⟩

theorem reach_screen (reach : (system place).Reach (Closed place) f) (i : ι) : Screen f.2 (f.1.client i) := by
  induction reach with
  | @start f init =>
    obtain ⟨config, same⟩ := init.1.2.1 i
    rw [same]
    exact ⟨fun _ => rfl, fun _ _ => rfl, sighted_blank _ _, fun s member => absurd member List.not_mem_nil⟩
  | @next f e previous may closed ih =>
    cases e with
    | server e => exact ih
    | client j e =>
      have kept : Screen (f.2.after f.1 (.client j e)) (f.1.client i) :=
        ⟨ih.vacant, ih.blank, fun k => (ih.peers k).after f.1 _, fun s member k => (ih.buffer s member k).after f.1 _⟩
      change Screen (f.2.after f.1 (.client j e)) ((f.1.step (.client j e)).client i)
      by_cases isJ : i = j
      · subst isJ
        rw [Room.step_client_self]
        refine kept.step fun t data p v isHear decoded read k => ?_
        subst isHear
        exact (reach_pictures previous may decoded read k).after f.1 _
      · rw [Room.step_client_ne e isJ]
        exact kept

/-- A place of a machine: the origin, or where the game of the player who was
given the slot has shown it in this race. -/
def Known (f : Room ι × Film ι) (race : UInt32) (player : Fin 4) (x y : UInt16) : Prop :=
  x = 0 ∧ y = 0 ∨ ∃ token orientation, f.1.server.Names token player ∧ f.2.Has player token race ⟨x, y, orientation⟩

theorem Sighted.known (reach : (system place).Reach (Closed place) f) {race : UInt32} {player : Fin 4} {p : Peer}
    (sighted : f.2.Sighted race player p.status p.position) : Known f race player p.x p.y := by
  have shown (onTrack : p.status = .loaded ∨ p.status = .racing) : Known f race player p.x p.y := by
    obtain ⟨token, i, member⟩ := sighted.onTrack onTrack
    exact .inr ⟨token, p.orientation, reach_cast reach member, i, member⟩
  by_cases loaded : p.status = .loaded
  · exact shown (.inl loaded)
  by_cases racing : p.status = .racing
  · exact shown (.inr racing)
  · exact .inl (sighted.parked loaded racing)

/-- However datagrams are lost, copied and reordered between the server and the
clients, every client draws each rival between two places where the game of the
player of that slot has had him in this race, or the origin. -/
theorem rivals_drawn_where_driven (reach : (system place).Reach (Closed place) f) {i : ι} {id : Fin 4}
    (joined : (f.1.client i).id = some id) (delay serverTime : UInt64) (ram : Ram) :
    ∃ after, (f.1.client i).opponents delay serverTime ram = some after ∧ ∀ slot ≠ 0,
      ∃ x y orientation, Client.Placed after slot x y orientation ∧
        ∃ x₁ y₁ x₂ y₂, Known f (f.1.client i).race (slots id slot) x₁ y₁ ∧
          Known f (f.1.client i).race (slots id slot) x₂ y₂ ∧ Client.Between x₁ x₂ x ∧ Client.Between y₁ y₂ y := by
  have screen := reach_screen reach i
  generalize f.1.client i = c at *
  obtain ⟨rendered, after, some_, run, drawn⟩ := Client.opponents_slots joined delay serverTime ram
  obtain ⟨_, found, first, firstIn, second, secondIn, between⟩ :=
    Client.renderedPeers_points c.peers c.snapshotBuffer delay serverTime
  cases some_.symm.trans found
  have known {peers : Fin 4 → Peer} (member : peers ∈ Client.points c.peers c.snapshotBuffer) (player : Fin 4) :
      Known f c.race player (peers player).x (peers player).y := by
    rcases List.mem_cons.mp member with own | held
    · rw [own]
      exact (screen.peers player).known reach
    · obtain ⟨s, there, rfl⟩ := List.mem_map.mp held
      exact (screen.buffer s there player).known reach
  refine ⟨after, run, fun slot opponent => ?_⟩
  have placed := drawn slot opponent
  unfold Client.Drawn at placed
  by_cases shown : Client.visible (c.peers (slots id slot)) = true
  · rw [if_pos shown] at placed
    exact ⟨_, _, _, placed, _, _, _, _, known firstIn _, known secondIn _, (between _).1, (between _).2⟩
  · rw [if_neg shown] at placed
    have origin : Known f c.race (slots id slot) 0 0 := .inl ⟨rfl, rfl⟩
    exact ⟨0, 0, 0, placed, 0, 0, 0, 0, origin, origin, Client.between_self 0, Client.between_self 0⟩

/-! Two clients meet, and both have put their machines on the grid. -/

def samplePair : Fin 2 ↪ Endpoint where
  toFun i := if i = 0 then Server.sampleGuest else Server.sampleRival
  inj' := by decide

def sampleHall : Room (Fin 2) × Film (Fin 2) :=
  ({ server := Server.sampleRoom, client := fun _ => {} }, fun _ => [])

/-- The menu of the machines, with one of its lines chosen. -/
def sampleChoice (line : UInt8) (address : UInt32) : UInt8 :=
  if address = 0x55 then 3 else if address = 0x5a then line else 0

def sampleTrack (address : UInt32) : UInt8 := if address = 0xb70 then 5 else Room.sampleGrid address

/-- The server receives the last datagram of this kind from the client. -/
def sampleReceive (i : Fin 2) (kind : Kind) (token : UInt64) (room : Room (Fin 2)) : Room.Event (Fin 2) :=
  .server (.packet ⟨.at Server.sampleClock, token, samplePair i,
    ((room.client i).sent.filter fun data => (decode data).any (·.is kind)).getLastD []⟩)

/-- The client hears the last datagram of this kind for it. -/
def sampleAnswer (i : Fin 2) (kind : Kind) (room : Room (Fin 2)) : Room.Event (Fin 2) :=
  .client i (.hear 1500000 ((room.server.sent.filter fun d =>
    d.address = samplePair i ∧ (decode d.data).any (·.is kind)).getLastD ⟨Server.sampleGuest, []⟩).data)

def sampleGathering : List (Room (Fin 2) → Room.Event (Fin 2)) :=
  let pulse i : Room (Fin 2) → Room.Event (Fin 2) := fun _ => .client i (.pulse 1500000)
  let frame i ram : Room (Fin 2) → Room.Event (Fin 2) := fun _ => .client i (.frame ram true 1500000)
  let enter i : List (Room (Fin 2) → Room.Event (Fin 2)) :=
    [fun _ => .client i (.attach (some 9) 1000000), pulse i, sampleReceive i .hello (77 + UInt64.ofNat i.val),
      sampleAnswer i .welcome]
  let command i rams : List (Room (Fin 2) → Room.Event (Fin 2)) :=
    [sampleAnswer i .snapshot] ++ rams.map (frame i) ++ [pulse i, sampleReceive i .command 0]
  let choose line := [Room.sampleMenu, sampleChoice line, Room.sampleMenu, Room.sampleMenu]
  let load := [sampleTrack, sampleTrack, sampleTrack]
  enter 0 ++ enter 1 ++ command 0 (choose 1) ++ command 1 (choose 3) ++ command 0 load ++ command 1 load ++
    [sampleAnswer 0 .snapshot]

def sampleStory : List (Room.Event (Fin 2)) := sampleHall.1.play sampleGathering

instance (f : Room (Fin 2) × Film (Fin 2)) (e : Room.Event (Fin 2)) : Decidable ((system samplePair).enabled f e) :=
  Room.system.decidable samplePair f.1 e

instance (f : Room (Fin 2) × Film (Fin 2)) : (e : Room.Event (Fin 2)) → Decidable (Closed samplePair f e)
  | .server (.packet d) => inferInstanceAs (Decidable (∃ i, d.address = samplePair i))
  | .server (.timer _ _) => .isTrue trivial
  | .server (.probe _) => .isTrue trivial
  | .server .close => .isTrue trivial
  | .client _ e => inferInstanceAs (Decidable (Client.Polite e))

def sampleMet : Room (Fin 2) × Film (Fin 2) := sampleStory.foldl (system samplePair).step sampleHall

theorem sampleMet_reach : (system samplePair).Reach (Closed samplePair) sampleMet := by
  have start : (system samplePair).Reach (Closed samplePair) sampleHall :=
    .start ⟨⟨Server.sampleRoom_init, fun _ => ⟨{}, rfl⟩, fun _ => rfl⟩, rfl⟩
  have admits : (system samplePair).Admits (Closed samplePair) sampleHall sampleStory := by decide +kernel
  exact start.run admits

theorem sampleMet_drawn : ((sampleMet.1.client 0).peers 1).status = .loaded ∧
    ∃ after, (sampleMet.1.client 0).opponents 50000 0 (fun _ => 9) = some after ∧
      ∃ x y orientation, Client.Placed after 3 x y orientation ∧
        ∃ x₁ y₁ x₂ y₂, Known sampleMet (sampleMet.1.client 0).race 1 x₁ y₁ ∧
          Known sampleMet (sampleMet.1.client 0).race 1 x₂ y₂ ∧ Client.Between x₁ x₂ x ∧ Client.Between y₁ y₂ y := by
  have joined : (sampleMet.1.client 0).id = some 0 := by decide +kernel
  obtain ⟨after, run, drawn⟩ := rivals_drawn_where_driven sampleMet_reach joined 50000 0 (fun _ => 9)
  exact ⟨by decide +kernel, after, run, drawn 3 (by decide)⟩

end Film

end FzeroVs
