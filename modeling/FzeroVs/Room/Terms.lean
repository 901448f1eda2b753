import FzeroVs.Server.Chronicle
import FzeroVs.Client.Course
import FzeroVs.Room.Commands
import FzeroVs.Room.Picture
import FzeroVs.Room.Rivals

namespace FzeroVs

/-- What the screens of a race have in common: the track, the league and the
machine of every player. -/
structure Terms where
  track : UInt8
  league : UInt8
  car : Fin 4 → UInt8

def Picture.terms (v : Picture) : Terms := ⟨v.track, v.league, fun i => (v.peers i).car⟩

namespace Server

def terms (s : Server) : Terms := ⟨s.track, s.league, fun i => (s.players i).car⟩

theorem terms_of_eq {s t : Server} (track : t.track = s.track) (league : t.league = s.league)
    (car : ∀ i, (t.players i).car = (s.players i).car) : t.terms = s.terms := by
  rw [terms, terms, track, league, funext car]

theorem modify_terms (s : Server) (i : Fin 4) {f : Player → Player} (car : (f (s.players i)).car = (s.players i).car) :
    (s.modify i f).terms = s.terms := terms_of_eq rfl rfl (modify_players_eq Player.car car)

/-- Outside the lobby no elementary change of the generation touches the terms. -/
theorem Move.terms {s t : Server} (move : Move s t) (race : t.race = s.race) (under : s.phase ≠ .lobby) :
    t.phase ≠ .lobby ∧ t.terms = s.terms := by
  have onward := move.phase_le race
  have still : t.phase ≠ .lobby := by
    intro lobby
    rw [lobby] at onward
    revert under
    cases phase : s.phase <;> rw [phase] at onward <;> simp [Phase.rank] at onward ⊢
  refine ⟨still, ?_⟩
  cases move with
  | calm calm =>
    cases calm with
    | quiet quiet => exact terms_of_eq quiet.track quiet.league (quiet.field Player.car fun _ => rfl)
    | spoil i address lobby free => exact absurd lobby under
    | seat r address nonce i lobby free drawn room fresh => exact absurd lobby under
    | steer i seq x y orientation now packets bytes racing status => exact s.modify_terms i rfl
  | acknowledge r i packet seated =>
    exact terms_of_eq rfl rfl (acknowledge_players_eq Player.car (fun _ _ _ => rfl) s r i packet)
  | select i seated lobby small => exact absurd lobby under
  | load i x y orientation now seated loading => exact s.modify_terms i rfl
  | arm i seated counting => exact s.modify_terms i rfl
  | finish i racing status => exact s.modify_terms i rfl
  | config lobby low high room trackSmall leagueSmall => exact absurd lobby under
  | next i seated host phase => exact absurd race (by simp [beginLobby])
  | close i seated owner zero =>
    have down : (s.disconnect i).terms = s.terms := s.modify_terms i rfl
    exact (terms_of_eq rfl rfl fun _ => rfl).trans down
  | leave i seated others =>
    have down : (s.disconnect i).terms = s.terms := s.modify_terms i rfl
    have cleared : ((s.disconnect i).vacate i).players = (s.disconnect i).players := if_neg under
    have away : ((s.disconnect i).vacate i).terms = (s.disconnect i).terms :=
      terms_of_eq rfl rfl fun j => by rw [cleared]
    exact away.trans down
  | empty i seated last => exact absurd race (by simp [beginLobby, vacate, disconnect, Server.modify])
  | allSelected lobby full selected => exact absurd lobby under
  | allLoaded now loading loaded deadline => exact terms_of_eq rfl rfl fun _ => rfl
  | reschedule now counting unarmed late deadline => exact terms_of_eq rfl rfl fun _ => rfl
  | go now counting armed due =>
    refine terms_of_eq rfl rfl fun i => ?_
    simp only [release]
    split <;> rfl
  | allFinished racing finished => exact terms_of_eq rfl rfl fun _ => rfl
  | shut quiet => exact terms_of_eq quiet.track quiet.league (quiet.field Player.car fun _ => rfl)

/-- The terms are settled when the room leaves the lobby. -/
theorem Stay.terms {s t : Server} (stay : Stay s t) (under : s.phase ≠ .lobby) :
    t.phase ≠ .lobby ∧ t.terms = s.terms :=
  Stay.keeps (P := fun t => t.phase ≠ .lobby ∧ t.terms = s.terms) stay (fun _ _ move race holds =>
    have later := move.terms race holds.1
    ⟨later.1, later.2.trans holds.2⟩) ⟨under, rfl⟩

/-- All snapshots of one generation that show the room under way show the same
terms, and those of the present generation its own. -/
structure Uniform (s : Server) : Prop where
  pair : ∀ p q, s.Answered p → s.Answered q → ∀ v w, readPicture p = some v → readPicture q = some w →
    p.race = q.race → v.phase ≠ .lobby → w.phase ≠ .lobby → v.terms = w.terms
  current : ∀ p, s.Answered p → ∀ v, readPicture p = some v → p.race = s.race → v.phase ≠ .lobby →
    s.phase ≠ .lobby ∧ v.terms = s.terms

/-- A snapshot that is new shows the room as it is. -/
theorem answered_picture {s : Server} (reach : system.Reachable s) {e : Event} {p : Packet}
    (answered : (s.step e).Answered p) {v : Picture} (read : readPicture p = some v) :
    s.Answered p ∨ ∃ i, ((s.step e).players i).occupied = true ∧ p = (s.step e).picture e.sampled i ∧
      v = (s.step e).view e.sampled := by
  obtain ⟨kind, d, member, decoded⟩ := answered
  obtain ⟨new, sent, news⟩ := (s.step_emission e).news
  rw [sent] at member
  rcases List.mem_append.mp member with old | added
  · exact .inl ⟨kind, d, old, decoded⟩
  have picture := Client.readPicture_kind read
  rcases news d added with other | ⟨i, seated, _, isWelcome | ⟨_, isPicture⟩⟩
  · rw [(other p decoded).2] at picture
    cases picture
  · rw [isWelcome] at decoded
    obtain rfl := Option.some.inj decoded
    cases picture
  · rw [isPicture] at decoded
    obtain rfl := Option.some.inj decoded
    have reached : system.Reachable (s.step e) := reach.next e trivial trivial
    rw [readPicture_picture (reachable_ranged reached)] at read
    exact .inr ⟨i, seated, rfl, (Option.some.inj read).symm⟩

theorem Uniform.step {s : Server} (uniform : Uniform s) (reach : system.Reachable s) (receipts : Receipts s)
    (low : s.race.toNat < 2 ^ 31) (e : Event) : Uniform (s.step e) := by
  -- What is known of the present generation stays true in it.
  have old (p : Packet) (answered : s.Answered p) (v : Picture) (read : readPicture p = some v)
      (here : p.race = (s.step e).race) (under : v.phase ≠ .lobby) :
      (s.step e).phase ≠ .lobby ∧ v.terms = (s.step e).terms := by
    have past := receipts.answered answered
    have onward := race_mono low e
    have before : p.race = s.race := by
      apply UInt32.toNat.inj
      have := congrArg UInt32.toNat here
      omega
    obtain ⟨busy, same⟩ := uniform.current p answered v read before under
    rcases s.step_stay_or_begun e with stay | ⟨later, _⟩
    · obtain ⟨still, kept⟩ := Stay.terms stay busy
      exact ⟨still, same.trans kept.symm⟩
    · exact absurd (here.symm.trans before) later.ne
  have current (p : Packet) (answered : (s.step e).Answered p) (v : Picture) (read : readPicture p = some v)
      (here : p.race = (s.step e).race) (under : v.phase ≠ .lobby) :
      (s.step e).phase ≠ .lobby ∧ v.terms = (s.step e).terms := by
    rcases answered_picture reach answered read with before | ⟨i, _, _, rfl⟩
    · exact old p before v read here under
    · exact ⟨under, rfl⟩
  refine ⟨fun p q answeredP answeredQ v w readP readQ same underV underW => ?_, current⟩
  have race {p : Packet} (i : Fin 4) (new : p = (s.step e).picture e.sampled i) :
      p.race = (s.step e).race := by rw [new]; rfl
  rcases answered_picture reach answeredP readP with before | ⟨i, _, new, _⟩
  · rcases answered_picture reach answeredQ readQ with before' | ⟨j, _, new, _⟩
    · exact uniform.pair p q before before' v w readP readQ same underV underW
    · have here := race j new
      exact (current p answeredP v readP (same.trans here) underV).2.trans
        (current q answeredQ w readQ here underW).2.symm
  · have here := race i new
    exact (current p answeredP v readP here underV).2.trans
      (current q answeredQ w readQ (same.symm.trans here) underW).2.symm

theorem Uniform.create {s : Server} (init : system.init s) : Uniform s := by
  obtain ⟨c, session, now, created⟩ := init
  obtain ⟨_, _, _, _, _, rfl⟩ := create_some created
  refine ⟨fun p q answered => ?_, fun p answered => ?_⟩
  · obtain ⟨_, d, member, _⟩ := answered
    exact absurd member List.not_mem_nil
  · obtain ⟨_, d, member, _⟩ := answered
    exact absurd member List.not_mem_nil

end Server

namespace Client

def terms (c : Client) : Terms := ⟨c.track, c.league, fun i => (c.peers i).car⟩

/-- The course is that of the last accepted snapshot. -/
def Charted (c : Client) : Prop :=
  ∀ p, c.accepted.getLast? = some p → ∃ v, readPicture p = some v ∧ c.course = (v.track, v.league)

theorem Charted.accept (c : Client) (t : UInt64) {p : Packet} {v : Picture} (read : readPicture p = some v) :
    Charted (c.accept t p v) := by
  intro q last
  rw [(c.accept_took t p v).accepted, List.getLast?_concat] at last
  cases last
  exact ⟨v, read, c.accept_course t p v⟩

theorem Charted.step {c : Client} (charted : Charted c) (e : Event) : Charted (c.step e) := by
  rcases c.step_course e with same | ⟨t, p, v, read, same⟩
  · have kept (accepted : (c.step e).accepted = c.accepted) : Charted (c.step e) := by
      intro p last
      rw [same]
      exact charted p (accepted ▸ last)
    cases c.step_turn e with
    | path path _ _ => exact kept (Path.kept path).accepted
    | join t data p isHear decoded admits same => exact kept (by rw [same]; rfl)
    | accept t data p v isHear decoded accepts same =>
      rw [same]
      exact .accept c t accepts.read
    | attach random now same =>
      intro p last
      rw [same] at last
      change (c.attach random now).accepted.getLast? = some p at last
      rw [(c.attach_blank random now).1] at last
      exact nomatch last
    | detach same =>
      refine kept ?_
      rw [same]
      exact detach_keeps Client.accepted (fun _ _ _ _ _ _ => rfl) c
  · rw [same]
    exact .accept c t read

end Client

namespace Room
variable {ι : Type} [DecidableEq ι] {place : ι ↪ Endpoint} {room : Room ι} {allow : Room ι → Event ι → Prop}

theorem reach_charted (reach : (system place).Reach allow room) (i : ι) : (room.client i).Charted := by
  refine reach_pair (P := fun _ c => c.Charted) reach (fun _ c _ init => ?_) (fun _ _ _ _ _ charted => charted)
    fun room e _ _ _ charted => charted.step e
  obtain ⟨config, rfl⟩ := init
  exact fun p last => nomatch last

theorem reach_uniform (reach : (system place).Reach Young room) : Server.Uniform room.server := by
  refine reach.invariant (P := fun room => Server.Uniform room.server) (fun room init => .create init.1)
    fun room e previous _ _ uniform => ?_
  cases e with
  | server e => exact uniform.step (reach_server previous) (young_receipts previous) (reach_young previous) e
  | client i e => exact uniform

/-- Outside the lobby a client shows a snapshot that has been sent. -/
theorem reach_showing (reach : (system place).Reach allow room) {i : ι} (under : (room.client i).phase ≠ .lobby) :
    ∃ p v, room.server.Answered p ∧ readPicture p = some v ∧ (room.client i).race = p.race ∧
      v.phase ≠ .lobby ∧ (room.client i).terms = v.terms := by
  have mirror := reach_mirror reach i
  have charted := reach_charted reach i
  have heard := reach_heard reach i
  generalize room.client i = c at *
  cases last : c.accepted.getLast? with
  | none => exact absurd (mirror.blank (List.getLast?_eq_none_iff.mp last)) under
  | some p =>
    obtain ⟨v, read, phase, _, _, peers, race, _⟩ := mirror.last p last
    obtain ⟨w, again, course⟩ := charted p last
    obtain rfl := Option.some.inj (read.symm.trans again)
    obtain ⟨kind, _, data, sent, decoded⟩ := heard p (List.mem_of_getLast? last)
    obtain ⟨track, league⟩ := Prod.mk.inj course
    refine ⟨p, v, ⟨.inr kind, _, sent, decoded⟩, read, race, phase ▸ under, ?_⟩
    rw [Client.terms, Picture.terms, track, league, peers]

/-- What has been sent stays sent. -/
theorem answered_run {events : List (Event ι)} {p : Packet} (answered : room.server.Answered p) :
    (events.foldl step room).server.Answered p := by
  induction events generalizing room with
  | nil => exact answered
  | cons e rest ih =>
    refine ih ?_
    cases e with
    | server e =>
      obtain ⟨kind, d, member, decoded⟩ := answered
      exact ⟨kind, d, room.server.sent_step e member, decoded⟩
    | client i e => exact answered

section
variable {events : List (Event ι)} {i j : ι}

/-- What a client shows outside the lobby another one shows as well, then or later. -/
theorem client_terms (reach : (system place).Reach Young room) (admits : (system place).Admits Young room events)
    (under : (room.client i).phase ≠ .lobby) (busy : ((events.foldl step room).client j).phase ≠ .lobby)
    (same : ((events.foldl step room).client j).race = (room.client i).race) :
    ((events.foldl step room).client j).terms = (room.client i).terms := by
  have reached : (system place).Reach Young (events.foldl step room) := reach.run admits
  obtain ⟨p, v, answered, read, race, shown, terms⟩ := reach_showing reach under
  obtain ⟨q, w, answered', read', race', shown', terms'⟩ := reach_showing reached busy
  have generation : q.race = p.race := race'.symm.trans (same.trans race)
  rw [terms, terms']
  exact (reach_uniform reached).pair q p answered' (answered_run answered) w v read' read generation shown' shown

/-- It is what the room has, as long as the room is in that race. -/
theorem server_terms (reach : (system place).Reach Young room) (admits : (system place).Admits Young room events)
    (under : (room.client i).phase ≠ .lobby) (same : (events.foldl step room).server.race = (room.client i).race) :
    (events.foldl step room).server.phase ≠ .lobby ∧
      (events.foldl step room).server.terms = (room.client i).terms := by
  have reached : (system place).Reach Young (events.foldl step room) := reach.run admits
  obtain ⟨p, v, answered, read, race, shown, terms⟩ := reach_showing reach under
  have generation : p.race = (events.foldl step room).server.race := (same.trans race).symm
  obtain ⟨phase, agreed⟩ := (reach_uniform reached).current p (answered_run answered) v read generation shown
  exact ⟨phase, agreed.symm.trans terms.symm⟩

end

/-- Once a race is under way everybody races the same one: whatever two clients
show, at the same moment or at two, if both show this generation outside the
lobby, then on the same track, in the same league and with the same machine for
every player. It is the race of the room as long as the room is in it. -/
theorem one_race_for_all (reach : (system place).Reach Young room) {events : List (Event ι)}
    (admits : (system place).Admits Young room events) {i j : ι} (under : (room.client i).phase ≠ .lobby) :
    let later := events.foldl step room
    ((later.client j).phase ≠ .lobby → (later.client j).race = (room.client i).race →
      (later.client j).terms = (room.client i).terms) ∧
    (later.server.race = (room.client i).race →
      later.server.phase ≠ .lobby ∧ later.server.terms = (room.client i).terms) :=
  ⟨client_terms reach admits under, server_terms reach admits under⟩

/-- The first of the two clients that meet knows that the race loads. -/
def sampleLoading : Room (Fin 2) := (Film.sampleStory.take 23).foldl step Film.sampleHall.1

theorem sampleLoading_reach : (system Film.samplePair).Reach Young sampleLoading := by
  have start : (system Film.samplePair).Reach Young Film.sampleHall.1 :=
    .start ⟨Server.sampleRoom_init, fun _ => ⟨{}, rfl⟩, fun _ => rfl⟩
  have admits : (system Film.samplePair).Admits Young Film.sampleHall.1 (Film.sampleStory.take 23) := by decide +kernel
  exact start.run admits

theorem sampleStory_admits :
    (system Film.samplePair).Admits Young sampleLoading (Film.sampleStory.drop 23) := by decide +kernel

/-- What the first client shows then, and the second one and the room at the end. -/
theorem sampleLoading_shows :
    let later := (Film.sampleStory.drop 23).foldl step sampleLoading
    ((sampleLoading.client 0).id = some 0 ∧ (sampleLoading.client 0).phase = .loading ∧
        (sampleLoading.client 0).phase ≠ .lobby) ∧
      ((later.client 1).id = some 1 ∧ (later.client 1).phase = .loading ∧ (later.client 1).phase ≠ .lobby ∧
        (later.client 1).race = (sampleLoading.client 0).race) ∧
      later.server.phase = .countdown ∧ later.server.race = (sampleLoading.client 0).race ∧
        (later.server.players (slots 0 3)).car = 3 := by
  decide +kernel

theorem sampleLoading_agrees :
    let later := (Film.sampleStory.drop 23).foldl step sampleLoading
    (sampleLoading.client 0).phase = .loading ∧ (later.client 1).phase = .loading ∧
      later.server.phase = .countdown ∧ (later.client 1).terms = (sampleLoading.client 0).terms ∧
      later.server.terms = (sampleLoading.client 0).terms := by
  obtain ⟨⟨_, phase, under⟩, ⟨_, loading, busy, race⟩, counting, generation, _⟩ := sampleLoading_shows
  obtain ⟨client, server⟩ := one_race_for_all (j := 1) sampleLoading_reach sampleStory_admits under
  exact ⟨phase, loading, counting, client busy race, (server generation).2⟩

/-- The screens of a race agree. Whatever two clients show of one generation
outside the lobby, at the same moment or at two, `prepareRace` gives every player
the same colours on both, and the same machine to every player who is a rival on
both: the one that the room has for him, as long as the room is in that race. No
two players have the same colours, and the own machine is left to the game. -/
theorem screens_agree (reach : (system place).Reach Young room) {events : List (Event ι)}
    (admits : (system place).Admits Young room events) {i j : ι} {a b : Fin 4}
    (joined : (room.client i).id = some a) (under : (room.client i).phase ≠ .lobby) (ram ram' : Ram) :
    let later := events.foldl step room
    ∃ after, (room.client i).prepareRam ram = some after ∧
      (∀ address ∉ Client.preparedCells, after address = ram address) ∧
      (∀ slot other, after (cell 0xc41 slot) = after (cell 0xc41 other) → slot = other) ∧
      (later.server.race = (room.client i).race → ∀ slot ≠ 0,
        after (cell 0x1131 slot) = (later.server.players (slots a slot)).car) ∧
      ((later.client j).id = some b → (later.client j).phase ≠ .lobby →
        (later.client j).race = (room.client i).race →
        ∃ after', (later.client j).prepareRam ram' = some after' ∧
          ∀ slot other, slots a slot = slots b other →
            after (cell 0xc41 slot) = after' (cell 0xc41 other) ∧
            (slot ≠ 0 → other ≠ 0 → after (cell 0x1131 slot) = after' (cell 0x1131 other))) := by
  intro later
  obtain ⟨after, run, painted, frame⟩ := Client.prepareRam_painted joined ram
  refine ⟨after, run, frame, fun slot other same => ?_, fun race slot rival => ?_, fun joined' busy race => ?_⟩
  · rw [(painted slot).colour, (painted other).colour] at same
    exact (Client.slots_bijective a).injective (Client.palette_injective same)
  · have agreed := (server_terms reach admits under race).2
    rw [(painted slot).car rival]
    exact (congrFun (congrArg Terms.car agreed) (slots a slot)).symm
  · obtain ⟨after', run', painted', _⟩ := Client.prepareRam_painted joined' ram'
    have agreed := client_terms reach admits under busy race
    refine ⟨after', run', fun slot other same => ⟨?_, fun rival rival' => ?_⟩⟩
    · rw [(painted slot).colour, (painted' other).colour, same]
    · rw [(painted slot).car rival, (painted' other).car rival', same]
      exact (congrFun (congrArg Terms.car agreed) (slots b other)).symm

/-- The first client paints the second one's machine as the room has it, and both
paint an empty slot alike. -/
theorem sampleLoading_painted :
    let later := (Film.sampleStory.drop 23).foldl step sampleLoading
    ∃ after after', (sampleLoading.client 0).prepareRam (fun _ => 9) = some after ∧
      (later.client 1).prepareRam (fun _ => 8) = some after' ∧ after 0x1137 = 3 ∧ after 0xc47 = after' 0xc41 ∧
      after 0x1135 = after' 0x1135 ∧ after 0x1131 = 9 := by
  obtain ⟨⟨joined, _, under⟩, ⟨joined', _, busy, race⟩, _, generation, car⟩ := sampleLoading_shows
  obtain ⟨after, run, frame, _, machine, others⟩ :=
    screens_agree (j := 1) (b := 1) sampleLoading_reach sampleStory_admits joined under (fun _ => 9) (fun _ => 8)
  obtain ⟨after', run', alike⟩ := others joined' busy race
  have own : after 0x1137 = 3 := (machine generation 3 (by decide)).trans car
  have colours : after 0xc47 = after' 0xc41 := (alike 3 0 (by decide)).1
  have empty : after 0x1135 = after' 0x1135 := (alike 2 2 (by decide)).2 (by decide) (by decide)
  exact ⟨after, after', run, run', own, colours, empty, frame 0x1131 (by decide)⟩

end Room

end FzeroVs
