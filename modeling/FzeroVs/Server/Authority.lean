import FzeroVs.Server.Reservation

namespace FzeroVs.Server

/-- The race settings are as they were. -/
structure Untuned (s t : Server) : Prop where
  expected : t.expected = s.expected
  track : t.track = s.track
  league : t.league = s.league

theorem Untuned.refl (s : Server) : Untuned s s := ⟨rfl, rfl, rfl⟩

theorem Untuned.trans {s t u : Server} (first : Untuned s t) (second : Untuned t u) : Untuned s u where
  expected := second.expected.trans first.expected
  track := second.track.trans first.track
  league := second.league.trans first.league

theorem Quiet.untuned {s t : Server} (quiet : Quiet s t) : Untuned s t :=
  ⟨quiet.expected, quiet.track, quiet.league⟩

theorem drop_untuned (s : Server) (i : Fin 4) : Untuned s (s.drop i) := by
  rcases s.drop_cases i with ⟨same, _⟩ | ⟨same, _⟩ | ⟨same, _⟩ <;> rw [same] <;> exact ⟨rfl, rfl, rfl⟩

theorem dropEach_untuned (now : UInt64) (l : List (Fin 4)) (s : Server) : Untuned s (dropEach now l s) :=
  dropEach_invariant (.refl s) fun t i _ untuned => untuned.trans (t.drop_untuned i)

theorem advance_untuned (s : Server) (now : UInt64) : Untuned s (s.advance now) := by
  have dropped := dropEach_untuned now slots s
  simp only [advance]
  split
  · exact dropped
  · obtain ⟨_, _, _, expected, track, league⟩ := (dropEach now slots s).passBarriers_frame now
    exact dropped.trans ⟨expected, track, league⟩

theorem CalmPath.untuned {s t : Server} (path : CalmPath s t) : Untuned s t := by
  induction path with
  | refl => exact .refl s
  | tail _ calm ih =>
    refine ih.trans ?_
    cases calm with
    | quiet quiet => exact quiet.untuned
    | spoil i address lobby free => exact ⟨rfl, rfl, rfl⟩
    | seat r address nonce i lobby free drawn room fresh => exact ⟨rfl, rfl, rfl⟩
    | steer i seq x y orientation now packets bytes racing status => exact ⟨rfl, rfl, rfl⟩

theorem acknowledge_untuned (s : Server) (r : Readings) (i : Fin 4) (packet : Packet) :
    Untuned s (s.acknowledge r i packet) := ⟨rfl, rfl, rfl⟩

theorem commandTail_untuned (s : Server) (i : Fin 4) (packet : Packet) : Untuned s (s.commandTail i packet) := by
  unfold commandTail
  split
  · exact ⟨rfl, rfl, rfl⟩
  · exact s.drop_untuned i
  · exact .refl s

/-- Of all commands only a valid CONFIG touches the settings. -/
theorem takeCommand_untuned (s : Server) (r : Readings) (i : Fin 4) (packet : Packet) :
    Untuned s (s.takeCommand r i packet) ∨
      (s.commandValid i packet = true ∧ Command.ofCode (packet.byte 0) = some .config) := by
  unfold takeCommand
  split
  next valid =>
    by_cases config : Command.ofCode (packet.byte 0) = some .config
    · exact .inr ⟨valid, config⟩
    refine .inl ?_
    have effect : Untuned s (s.commandEffect r i packet) := by
      unfold commandEffect
      cases hcode : Command.ofCode (packet.byte 0) with
      | none => exact .refl s
      | some command =>
        cases command
        case config => exact absurd hcode config
        all_goals exact ⟨rfl, rfl, rfl⟩
    exact (effect.trans (acknowledge_untuned _ r i packet)).trans (commandTail_untuned _ i packet)
  · exact .inl ((s.acknowledge_untuned r i packet).trans (commandError_quiet _ i packet).untuned)

/-- The settings change only with a CONFIG that the server takes and applies. -/
theorem step_untuned (s : Server) (e : Event) : Untuned s (s.step e) ∨
    ∃ d i packet, e = .packet d ∧ decode d.data = some packet ∧ Takes s d.address i packet ∧
      s.commandValid i packet = true ∧ Command.ofCode (packet.byte 0) = some .config := by
  cases e with
  | packet d =>
    rcases s.receivePacket_cases d.readings d.random d.address d.data with
      calm | ⟨i, packet, decoded, takes, same⟩
    · exact .inl (CalmPath.untuned calm)
    · rcases s.countRx.takeCommand_untuned d.readings i packet with untuned | ⟨valid, config⟩
      · refine .inl ?_
        rw [step, same]
        have counted := s.countRx_quiet.untuned.trans untuned
        exact (counted.trans (advance_untuned _ _)).trans (snapshot_quiet _ _).untuned
      · exact .inr ⟨d, i, packet, rfl, decoded, takes, valid, config⟩
  | timer now sampled =>
    rcases s.timer_quiet now sampled with same | quiet
    · exact .inl (by rw [step, same]; exact .refl s)
    · exact .inl ((s.advance_untuned now.val).trans quiet.untuned)
  | probe now => exact .inl (s.probe_quiet now).untuned
  | close =>
    rcases s.close_cases with same | ⟨quiet, _⟩
    · exact .inl (by rw [step, same]; exact .refl s)
    · exact .inl ⟨quiet.expected, quiet.track, quiet.league⟩

/-- The generation changes only with the host's NEXT or with the last
departure, in an open room and in a closing one. -/
theorem step_race_cause (s : Server) (e : Event) (changed : (s.step e).race ≠ s.race) :
    NextApplied s e ∨ Emptied s (s.step e) := by
  cases e with
  | packet d =>
    rcases s.receivePacket_cases d.readings d.random d.address d.data with
      calm | ⟨i, packet, decoded, takes, same⟩
    · exact absurd (CalmPath.stay calm).race changed
    have present : 0 < s.count := count_pos_iff.mpr ⟨i, takes.seated⟩
    have taken := takeCommand_elapse (s := s.countRx) d.readings packet takes.seated
    have quiet := s.countRx.receiveCommand_quiet d.readings i packet
    rw [← same] at quiet
    generalize s.countRx.takeCommand d.readings i packet = t at *
    have count := count_congr quiet.occupied
    rcases taken with ⟨valid, next, _⟩ | ⟨_, ⟨stay, _⟩ | ⟨_, fresh, empty⟩⟩
    · exact .inl ⟨d, i, packet, rfl, decoded, takes, valid, next⟩
    · rcases t.advance_elapse d.readings.advanced with ⟨onward, _⟩ | ⟨_, _, _, empty⟩
      · exact absurd (quiet.race.trans (onward.race.trans stay.race)) changed
      · exact .inr ⟨present, count.trans empty⟩
    · refine .inr ⟨present, count.trans ?_⟩
      rw [advance_of_begun fresh.begun, dropEach_of_empty empty]
      exact empty
  | timer now sampled =>
    rcases s.timer_quiet now sampled with same | quiet
    · exact absurd (congrArg Server.race same) changed
    · rcases s.advance_elapse now with ⟨stay, _⟩ | ⟨_, _, present, empty⟩
      · exact absurd (quiet.race.trans stay.race) changed
      · exact .inr ⟨present, (count_congr quiet.occupied).trans empty⟩
  | probe now => exact absurd (s.probe_quiet now).race changed
  | close => exact absurd s.close_stay.race changed

/-- If slot `i` is still taken, then by the same player in the same race, with
nothing of what only he may change changed. -/
def Spares (i : Fin 4) (s t : Server) : Prop :=
  (t.players i).occupied = true → (s.players i).occupied = true ∧ t.race = s.race ∧
    (s.players i).Same (t.players i) ∧ (t.players i).car = (s.players i).car ∧
    (t.players i).stateSeq = (s.players i).stateSeq

theorem Spares.refl (i : Fin 4) (s : Server) : Spares i s s :=
  fun seated => ⟨seated, rfl, ⟨rfl, rfl, rfl, rfl⟩, rfl, rfl⟩

theorem Spares.trans {i : Fin 4} {s t u : Server} (first : Spares i s t) (second : Spares i t u) :
    Spares i s u := by
  intro seated
  obtain ⟨seatedT, raceT, sameT, carT, seqT⟩ := second seated
  obtain ⟨seatedS, raceS, sameS, carS, seqS⟩ := first seatedT
  exact ⟨seatedS, raceT.trans raceS, ⟨sameT.token.trans sameS.token, sameT.address.trans sameS.address,
    sameT.nonce.trans sameS.nonce, sameT.commandSeq.trans sameS.commandSeq⟩, carT.trans carS, seqT.trans seqS⟩

theorem Spares.of_eq {i : Fin 4} {s t : Server} (race : t.race = s.race) (slot : t.players i = s.players i) :
    Spares i s t := by
  intro seated
  rw [slot] at seated ⊢
  exact ⟨seated, race, ⟨rfl, rfl, rfl, rfl⟩, rfl, rfl⟩

theorem Quiet.spares {s t : Server} (quiet : Quiet s t) (i : Fin 4) : Spares i s t := by
  intro seated
  obtain ⟨before, same⟩ := quiet.keeps.slot i seated
  exact ⟨before, quiet.race, same, quiet.field Player.car (fun _ => rfl) i,
    quiet.field Player.stateSeq (fun _ => rfl) i⟩

theorem modify_spares (s : Server) {i j : Fin 4} (f : Player → Player) (other : i ≠ j) :
    Spares i s (s.modify j f) := .of_eq rfl (modify_players_ne s f other)

/-- A departure frees its own slot and touches no other, unless it is the last
one and there is no other. -/
theorem drop_spares (s : Server) (i j : Fin 4) : Spares i s (s.drop j) := by
  have down (other : i ≠ j) : (s.disconnect j).players i = s.players i := modify_players_ne s _ other
  rcases s.drop_cases j with ⟨same, _⟩ | ⟨same, _⟩ | ⟨_, last⟩
  · rw [same]
    by_cases own : i = j
    · subst own
      intro seated
      change ((s.disconnect i).players i).occupied = true at seated
      simp [disconnect, Player.occupied] at seated
    · exact .of_eq rfl (down own)
  · rw [same]
    by_cases own : i = j
    · subst own
      intro seated
      rw [vacate_free] at seated
      cases seated
    · exact .of_eq rfl (vacate_players_ne s own)
  · intro seated
    rw [count_eq_zero_iff.mp last i] at seated
    cases seated

theorem dropEach_spares (i : Fin 4) (now : UInt64) (l : List (Fin 4)) (s : Server) :
    Spares i s (dropEach now l s) :=
  dropEach_invariant (.refl i s) fun t j _ spares => spares.trans (t.drop_spares i j)

theorem passBarriers_spares (s : Server) (now : Micros) (i : Fin 4) : Spares i s (s.passBarriers now.val) := by
  have loading (s : Server) : Spares i s s.enterLoading := by
    unfold enterLoading
    split <;> exact .of_eq rfl rfl
  have counting (s : Server) : Spares i s (s.enterCountdown now.val) := by
    unfold enterCountdown
    split
    · exact fun seated => ⟨seated, rfl, ⟨rfl, rfl, rfl, rfl⟩, rfl, rfl⟩
    · exact .refl i s
  have racing (s : Server) : Spares i s (s.countdown now.val) := by
    unfold countdown
    split
    · split
      · exact .of_eq rfl rfl
      · split
        · intro seated
          rw [release_occupied] at seated
          simp only [release, seated, if_true]
          exact ⟨trivial, trivial, ⟨rfl, rfl, rfl, rfl⟩, trivial, trivial⟩
        · exact .refl i s
    · exact .refl i s
  have results (s : Server) : Spares i s s.enterResults := by
    unfold enterResults
    split <;> exact .of_eq rfl rfl
  exact (((loading s).trans (counting _)).trans (racing _)).trans (results _)

theorem advance_spares (s : Server) (now : Micros) (i : Fin 4) : Spares i s (s.advance now.val) := by
  have dropped := dropEach_spares i now.val slots s
  simp only [advance]
  split
  · exact dropped
  · exact dropped.trans (passBarriers_spares _ now i)

/-- What the command of another player can do to slot `i`: nothing, or begin
the next race. -/
theorem takeCommand_spares (s : Server) (r : Readings) {i j : Fin 4} (packet : Packet) (other : i ≠ j) :
    Spares i s (s.takeCommand r j packet) ∨ ∃ t, Spares i s t ∧ s.takeCommand r j packet = t.beginLobby := by
  have told (t : Server) : Spares i t (t.acknowledge r j packet) :=
    .of_eq rfl (by simp only [acknowledge]; exact modify_players_ne t _ other)
  unfold takeCommand
  split
  · have effect : Spares i s (s.commandEffect r j packet) := by
      unfold commandEffect
      cases Command.ofCode (packet.byte 0) with
      | none => exact .refl i s
      | some command =>
        cases command
        case config => exact .refl i s
        case next => exact .refl i s
        case leave => exact .refl i s
        all_goals exact s.modify_spares _ other
    have applied := effect.trans (told _)
    generalize (s.commandEffect r j packet).acknowledge r j packet = t at *
    unfold commandTail
    split
    · exact .inr ⟨t, applied, rfl⟩
    · exact .inl (applied.trans (t.drop_spares i j))
    · exact .inl applied
  · exact .inl ((told s).trans ((commandError_quiet _ j packet).spares i))

/-- Slot `i` after the event, if the event was not its own: left alone, or
left alone but for the start of a new race. -/
def Undisturbed (i : Fin 4) (s t : Server) : Prop :=
  (t.players i).occupied = true → (s.players i).Same (t.players i) ∧
    (t.players i).car = (s.players i).car ∧
    ((t.players i).stateSeq = (s.players i).stateSeq ∨ (t.race ≠ s.race ∧ (t.players i).stateSeq = 0))

theorem Spares.undisturbed {i : Fin 4} {s t : Server} (spares : Spares i s t) : Undisturbed i s t := by
  intro seated
  obtain ⟨_, _, same, car, seq⟩ := spares seated
  exact ⟨same, car, .inl seq⟩

/-- A new race begins between two changes that spare the slot. -/
theorem beginLobby_undisturbed {i : Fin 4} {s t u : Server} (before : Spares i s t)
    (after : Spares i t.beginLobby u) : Undisturbed i s u := by
  intro seated
  obtain ⟨lobby, race, same, car, seq⟩ := after seated
  obtain ⟨seatedT, kept⟩ := t.beginLobby_keeps.slot i lobby
  obtain ⟨_, raceT, sameT, carT, _⟩ := before seatedT
  have fresh : t.beginLobby.players i = relobby (t.players i) := rfl
  rw [fresh, relobby, if_pos seatedT] at car seq
  refine ⟨⟨same.token.trans (kept.token.trans sameT.token), same.address.trans (kept.address.trans sameT.address),
    same.nonce.trans (kept.nonce.trans sameT.nonce),
    same.commandSeq.trans (kept.commandSeq.trans sameT.commandSeq)⟩, car.trans carT, .inr ⟨?_, seq⟩⟩
  have next : t.beginLobby.race = t.race + 1 := rfl
  rw [race, next, raceT]
  simp

theorem receiveCommand_undisturbed (s : Server) (r : Readings) {i j : Fin 4} (packet : Packet)
    (other : i ≠ j) : Undisturbed i s (s.receiveCommand r j packet) := by
  have later (t : Server) : Spares i t ((t.advance r.advanced.val).snapshot r.sampled.val) :=
    (t.advance_spares r.advanced i).trans ((snapshot_quiet _ _).spares i)
  unfold receiveCommand
  rcases s.takeCommand_spares r packet other with spares | ⟨t, spares, next⟩
  · exact (spares.trans (later _)).undisturbed
  · rw [next]
    exact beginLobby_undisturbed spares (later _)

theorem Spares.then {i : Fin 4} {s t u : Server} (first : Spares i s t) (second : Undisturbed i t u)
    (race : t.race = s.race) (seated : (u.players i).occupied = true → (t.players i).occupied = true) :
    Undisturbed i s u := by
  intro present
  obtain ⟨same, car, seq⟩ := second present
  obtain ⟨_, _, sameS, carS, seqS⟩ := first (seated present)
  refine ⟨⟨same.token.trans sameS.token, same.address.trans sameS.address, same.nonce.trans sameS.nonce,
    same.commandSeq.trans sameS.commandSeq⟩, car.trans carS, ?_⟩
  rw [← race, ← seqS]
  exact seq

theorem receiveFrom_undisturbed (s : Server) (r : Readings) {i j : Fin 4} (packet : Packet) (size : Nat)
    (other : i ≠ j) : Undisturbed i s (s.receiveFrom r j packet size) := by
  unfold receiveFrom
  split
  · exact (s.modify_spares _ other).undisturbed
  split
  · exact ((s.modify_spares (fun p => { p with seen := r.seen.val }) other).trans
      ((transmit_quiet _ _ _).spares i)).undisturbed
  split
  · exact (s.countStale_quiet.spares i).undisturbed
  split
  · unfold receiveState
    split
    · exact (s.reject_quiet.spares i).undisturbed
    split
    · exact (s.countStale_quiet.spares i).undisturbed
    · exact (s.modify_spares _ other).undisturbed
  split
  · exact (s.reject_quiet.spares i).undisturbed
  split
  · exact (s.countStale_quiet.spares i).undisturbed
  split
  · exact (s.reject_quiet.spares i).undisturbed
  · exact s.receiveCommand_undisturbed r packet other

/-- A newcomer never gets the slot of somebody who is there. -/
theorem Greeted.spares {s t : Server} {r : Readings} {address : Endpoint} {nonce : UInt64} {i : Fin 4}
    (greeted : Greeted s r address nonce t) (seated : (s.players i).occupied = true) : Spares i s t := by
  have apart {j : Fin 4} (free : (s.players j).occupied = false) : i ≠ j := by
    rintro rfl
    rw [seated] at free
    exact nomatch free
  cases greeted with
  | quiet quiet => exact quiet.spares i
  | spoilt j free => exact s.modify_spares _ (apart free)
  | seated j token free first admitted quiet =>
    have kept : Spares i s (s.seat r token address nonce j) :=
      .of_eq rfl (s.seat_players_ne r token address nonce (apart free))
    exact kept.trans (quiet.spares i)

/-- The packet comes from the endpoint of slot `i` with its session and token. -/
def Signed (s : Server) (i : Fin 4) (e : Event) : Prop :=
  ∃ d packet, e = .packet d ∧ decode d.data = some packet ∧ packet.session = s.session ∧
    packet.token = (s.players i).token ∧ d.address = (s.players i).address

theorem step_undisturbed {s : Server} (e : Event) {i : Fin 4} (seated : (s.players i).occupied = true) :
    Signed s i e ∨ Undisturbed i s (s.step e) := by
  cases e with
  | packet d =>
    simp only [step, receivePacket]
    split
    · split
      · exact .inr ((s.joinError_quiet _ _ _).spares i).undisturbed
      · exact .inr (s.reject_quiet.spares i).undisturbed
    next packet decoded =>
      split
      · exact .inr (Spares.refl i s).undisturbed
      have counted := s.countRx_quiet.spares i
      split
      · exact .inr (counted.trans ((receiveHello_greeted _ _ _ _ packet).spares seated)).undisturbed
      · split
        · exact .inr (counted.trans ((reject_quiet _).spares i)).undisturbed
        next j found =>
          obtain ⟨_, session, token, place⟩ := authenticate_some found
          by_cases own : i = j
          · subst own
            exact .inl ⟨d, packet, rfl, decoded, session, token, place⟩
          · exact .inr (counted.then (receiveFrom_undisturbed _ _ packet _ own) rfl fun _ => seated)
  | timer now sampled =>
    rcases s.timer_quiet now sampled with same | quiet
    · exact .inr (by rw [step, same]; exact (Spares.refl i s).undisturbed)
    · exact .inr ((s.advance_spares now i).trans (quiet.spares i)).undisturbed
  | probe now => exact .inr ((s.probe_quiet now).spares i).undisturbed
  | close =>
    rcases s.close_cases with same | ⟨quiet, _⟩
    · exact .inr (by rw [step, same]; exact (Spares.refl i s).undisturbed)
    · exact .inr ((Spares.of_eq (t := { s with closed := true }) rfl rfl).trans (quiet.spares i)).undisturbed

/-- Only the host configures the room and begins the next race, and what
belongs to a player changes only by his own packets, by his departure or, for
the movement counter, with the race. -/
theorem host_authority (s : Server) (e : Event) :
    (((s.step e).expected ≠ s.expected ∨ (s.step e).track ≠ s.track ∨ (s.step e).league ≠ s.league) →
      ∃ d i packet, e = .packet d ∧ decode d.data = some packet ∧ Takes s d.address i packet ∧
        Command.ofCode (packet.byte 0) = some .config ∧ packet.length = 4 ∧ i.val = s.host.toNat ∧
        s.phase = .lobby ∧ max 2 s.count ≤ (packet.byte 1).toNat ∧ packet.byte 1 ≤ 4 ∧
        packet.byte 2 < 5 ∧ packet.byte 3 < 3) ∧
    ((s.step e).race ≠ s.race →
      (∃ d i packet, e = .packet d ∧ decode d.data = some packet ∧ Takes s d.address i packet ∧
        Command.ofCode (packet.byte 0) = some .next ∧ packet.length = 1 ∧ i.val = s.host.toNat ∧
        (s.phase = .results ∨ s.phase = .lobby)) ∨
      ((∃ i, (s.players i).occupied = true) ∧ ∀ i, ((s.step e).players i).occupied = false)) ∧
    ∀ i, (s.players i).occupied = true →
      Signed s i e ∨ ((s.step e).players i).occupied = false ∨
      (((s.step e).players i).car = (s.players i).car ∧
       ((s.step e).players i).commandSeq = (s.players i).commandSeq ∧
       ((s.step e).players i).token = (s.players i).token ∧
       ((s.step e).players i).address = (s.players i).address ∧
       ((s.step e).players i).nonce = (s.players i).nonce ∧
       (((s.step e).players i).stateSeq = (s.players i).stateSeq ∨
         ((s.step e).race ≠ s.race ∧ ((s.step e).players i).stateSeq = 0))) := by
  refine ⟨fun tuned => ?_, fun changed => ?_, fun i seated => ?_⟩
  · rcases s.step_untuned e with same | ⟨d, i, packet, isPacket, decoded, takes, valid, config⟩
    · exact absurd tuned (by simp [same.expected, same.track, same.league])
    · unfold commandValid at valid
      simp only [config, Bool.and_eq_true, beq_iff_eq, decide_eq_true_eq] at valid
      obtain ⟨⟨⟨⟨⟨⟨⟨length, host⟩, lobby⟩, low⟩, high⟩, room⟩, track⟩, league⟩ := valid
      have least : 2 ≤ (packet.byte 1).toNat := UInt8.le_iff_toNat_le.mp low
      exact ⟨d, i, packet, isPacket, decoded, takes, config, length, host, lobby, max_le least room, high,
        track, league⟩
  · rcases s.step_race_cause e changed with ⟨d, i, packet, isPacket, decoded, takes, valid, next⟩ | emptied
    · unfold commandValid at valid
      simp only [next, Bool.and_eq_true, Bool.or_eq_true, beq_iff_eq] at valid
      obtain ⟨⟨length, host⟩, phase⟩ := valid
      exact .inl ⟨d, i, packet, isPacket, decoded, takes, next, length, host, phase⟩
    · exact .inr ⟨count_pos_iff.mp emptied.1, count_eq_zero_iff.mp emptied.2⟩
  · rcases step_undisturbed e seated with signed | undisturbed
    · exact .inl signed
    · refine .inr ?_
      cases present : ((s.step e).players i).occupied with
      | false => exact .inl rfl
      | true =>
        obtain ⟨same, car, seq⟩ := undisturbed present
        exact .inr ⟨car, same.commandSeq, same.token, same.address, same.nonce, seq⟩

end FzeroVs.Server
