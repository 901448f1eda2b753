import FzeroVs.Server.Ledger
import FzeroVs.Server.Barriers

namespace FzeroVs.Server

/-- A whole command begins two lobbies only if it leaves the room empty. -/
theorem receiveCommand_race {s : Server} (r : Readings) {i : Fin 4} (packet : Packet)
    (seated : (s.players i).occupied = true) : (s.receiveCommand r i packet).race = s.race ∨
      (s.receiveCommand r i packet).race = s.race + 1 ∨
      ((s.receiveCommand r i packet).race = s.race + 2 ∧ (s.receiveCommand r i packet).count = 0) := by
  have taken := takeCommand_elapse r packet seated
  unfold receiveCommand
  generalize s.takeCommand r i packet = t at *
  have quiet := snapshot_quiet (t.advance r.advanced.val) r.sampled.val
  have count := count_congr quiet.occupied
  have taken : t.race = s.race ∨ t.race = s.race + 1 := by
    rcases taken with ⟨_, _, race, _⟩ | ⟨_, ⟨stay, _⟩ | ⟨race, _⟩⟩
    · exact .inr race
    · exact .inl stay.race
    · exact .inr race
  rw [quiet.race, count]
  rcases t.advance_elapse r.advanced with ⟨stay, _⟩ | ⟨race, _, _, empty⟩
  · rw [stay.race]
    exact taken.imp (fun same => same) .inl
  · rcases taken with same | one
    · exact .inr (.inl (by rw [race, same]))
    · refine .inr (.inr ⟨?_, empty⟩)
      rw [race, one, UInt32.add_assoc]
      rfl

/-- How the generation and the snapshot counter move together. -/
inductive Tally (s t : Server) : Prop
  | same : t.snapshotSeq = s.snapshotSeq → t.race = s.race → (0 < t.count → 0 < s.count) → Tally s t
  | emptied : t.snapshotSeq = s.snapshotSeq → t.race = s.race + 1 → 0 < s.count → t.count = 0 → Tally s t
  | shown : t.snapshotSeq = s.snapshotSeq + 1 → t.race = s.race → Tally s t
  | begun : t.snapshotSeq = s.snapshotSeq + 1 → t.race = s.race + 1 → 0 < s.count → Tally s t
  | twice : t.snapshotSeq = s.snapshotSeq + 1 → t.race = s.race + 2 → 0 < s.count → t.count = 0 → Tally s t

/-- Without a snapshot nobody comes. -/
theorem step_count {s : Server} (e : Event) (silent : (s.step e).snapshotSeq = s.snapshotSeq)
    (present : 0 < (s.step e).count) : 0 < s.count := by
  obtain ⟨i, seated⟩ := count_pos_iff.mp present
  cases s.step_turn e with
  | keeps keeps => exact count_pos_iff.mpr ⟨i, (keeps.slot i seated).1⟩
  | seats d j packet isPacket decoded seats =>
    exact absurd (seats.seq.symm.trans silent) (seq_add_one_ne _)
  | took d j packet isPacket decoded takes took => exact count_pos_iff.mpr ⟨i, (took.slot i seated).1⟩

theorem step_tally (s : Server) (e : Event) : Tally s (s.step e) := by
  have stays (race : (s.step e).race = s.race) : Tally s (s.step e) := by
    rcases (s.step_emission e).shown 0 with ⟨silent, _⟩ | ⟨loud, _⟩
    · exact .same silent race (step_count e silent)
    · exact .shown loud race
  cases e with
  | packet d =>
    rcases s.receivePacket_cases d.readings d.random d.address d.data with
      calm | ⟨i, packet, _, takes, same⟩
    · exact stays (CalmPath.stay calm).race
    · have present : 0 < s.count := count_pos_iff.mpr ⟨i, takes.seated⟩
      have seq : (s.step (.packet d)).snapshotSeq = s.snapshotSeq + 1 := by
        have mute := (s.countRx.takeCommand_utters d.readings i packet).1
        have onward := (advance_mute (s.countRx.takeCommand d.readings i packet) d.readings.advanced.val).2
        rw [step, same, receiveCommand, snapshot_seq, onward, mute]
        rfl
      have race := receiveCommand_race (s := s.countRx) d.readings packet takes.seated
      rw [← same] at race
      rcases race with same | one | ⟨two, empty⟩
      · exact .shown seq same
      · exact .begun seq one present
      · exact .twice seq two present empty
  | timer now sampled =>
    rcases s.timer_quiet now sampled with same | quiet
    · exact stays (by rw [step, same])
    · have count := count_congr quiet.occupied
      rcases s.advance_elapse now with ⟨stay, _⟩ | ⟨race, _, present, empty⟩
      · exact stays (by rw [step, quiet.race, stay.race])
      · have one : (s.step (.timer now sampled)).race = s.race + 1 := by rw [step, quiet.race, race]
        rcases (s.step_emission (.timer now sampled)).shown 0 with ⟨silent, _⟩ | ⟨loud, _⟩
        · exact .emptied silent one present (count.trans empty)
        · exact .begun loud one present
  | probe now => exact stays (s.probe_quiet now).race
  | close => exact stays s.close_stay.race

/-- Every generation that somebody has seen has had a snapshot of its own. -/
structure Paced (s : Server) : Prop where
  race : s.race.toNat ≤ s.snapshotSeq.toNat + 1
  seen : 0 < s.count → s.race.toNat ≤ s.snapshotSeq.toNat

theorem seq_le {s : Server} (low : s.snapshotSeq.toNat < 2 ^ 31) (e : Event) :
    s.snapshotSeq.toNat ≤ (s.step e).snapshotSeq.toNat := by
  have next : (s.snapshotSeq + 1).toNat = s.snapshotSeq.toNat + 1 := toNat_add_one (by omega)
  rcases (s.step_emission e).shown 0 with ⟨silent, _⟩ | ⟨loud, _⟩
  · rw [silent]
  · rw [loud, next]
    omega

/-- The generation as a plain number, while the snapshot counter is in its
lower half. -/
theorem Paced.race_le {s : Server} (paced : Paced s) (low : s.snapshotSeq.toNat < 2 ^ 31) (e : Event) :
    s.race.toNat ≤ (s.step e).race.toNat := by
  have bound := paced.race
  cases s.step_tally e with
  | same seq race count => rw [race]
  | emptied seq race present empty => rw [race, toNat_add_one (by omega)]; omega
  | shown seq race => rw [race]
  | begun seq race present => rw [race, toNat_add_one (by omega)]; omega
  | twice seq race present empty => rw [race, toNat_add_two (by omega)]; omega

theorem Paced.step {s : Server} (paced : Paced s) (low : s.snapshotSeq.toNat < 2 ^ 31) (e : Event) :
    Paced (s.step e) := by
  have bound := paced.race
  have next : (s.snapshotSeq + 1).toNat = s.snapshotSeq.toNat + 1 := toNat_add_one (by omega)
  cases s.step_tally e with
  | same seq race count =>
    exact ⟨by rw [seq, race]; exact bound, fun present => by rw [seq, race]; exact paced.seen (count present)⟩
  | emptied seq race present empty =>
    have seen := paced.seen present
    refine ⟨?_, fun still => by omega⟩
    rw [seq, race, toNat_add_one (by omega)]
    omega
  | shown seq race =>
    exact ⟨by rw [seq, race, next]; omega, fun _ => by rw [seq, race, next]; omega⟩
  | begun seq race present =>
    have seen := paced.seen present
    have one : (s.race + 1).toNat = s.race.toNat + 1 := toNat_add_one (by omega)
    exact ⟨by rw [seq, race, one, next]; omega, fun _ => by rw [seq, race, one, next]; omega⟩
  | twice seq race present empty =>
    have seen := paced.seen present
    refine ⟨?_, fun still => by omega⟩
    rw [seq, race, toNat_add_two (by omega), next]
    omega

theorem Paced.create {s : Server} (init : system.init s) : Paced s := by
  obtain ⟨c, session, now, created⟩ := init
  obtain ⟨_, _, _, _, _, rfl⟩ := create_some created
  exact ⟨Nat.le_refl _, fun present => absurd present (by simp [count, Player.occupied])⟩

theorem Move.phase_le {s t : Server} (move : Move s t) (race : t.race = s.race) :
    s.phase.rank ≤ t.phase.rank := by
  cases move with
  | calm calm =>
    cases calm with
    | quiet quiet => rw [quiet.phase]
    | spoil i address lobby free => exact Nat.le_refl _
    | seat r address nonce i lobby free drawn room fresh => exact Nat.le_refl _
    | steer i seq x y orientation now packets bytes racing status => exact Nat.le_refl _
  | next i seated host phase => exact absurd race (by simp [beginLobby])
  | empty i seated last => exact absurd race (by simp [beginLobby, vacate, disconnect, Server.modify])
  | allSelected lobby full ready => exact rank_le_of_phases (q := .loading) lobby rfl (by decide)
  | allLoaded now loading ready ahead => exact rank_le_of_phases (q := .countdown) loading rfl (by decide)
  | go now counting ready due => exact rank_le_of_phases (q := .racing) counting rfl (by decide)
  | allFinished racing ready => exact rank_le_of_phases (q := .results) racing rfl (by decide)
  | shut quiet => rw [quiet.phase]
  | _ => exact Nat.le_refl _

/-- Inside a generation the phase does not go back, in a closed room either. -/
theorem Stay.phase_le {s t : Server} (stay : Stay s t) : s.phase.rank ≤ t.phase.rank := by
  induction stay with
  | refl => exact Nat.le_refl _
  | tail _ within ih => exact ih.trans (within.1.phase_le within.2)

/-- Slot `i` is out of this race. -/
def Retired (s : Server) (i : Fin 4) : Prop := s.phase ≠ .lobby ∧
  ((s.players i).status = .disconnected ∨
    ((s.players i).status = .finished ∧ Phase.racing.rank ≤ s.phase.rank))

theorem Retired.status {s : Server} {i : Fin 4} (retired : Retired s i) :
    (s.players i).status ≠ .racing := by
  intro racing
  rcases retired.2 with down | ⟨finished, _⟩
  · exact nomatch down.symm.trans racing
  · exact nomatch finished.symm.trans racing

theorem Retired.congr {s t : Server} {i : Fin 4} (retired : Retired s i) (phase : t.phase = s.phase)
    (status : (t.players i).status = (s.players i).status ∨ (t.players i).status = .disconnected) :
    Retired t i := by
  refine ⟨phase ▸ retired.1, ?_⟩
  rw [phase]
  rcases status with same | down
  · rw [same]
    exact retired.2
  · exact .inl down

theorem Retired.modify {s : Server} {i j : Fin 4} {f : Player → Player} (retired : Retired s i)
    (status : j = i → (f (s.players j)).status = (s.players j).status ∨
      (f (s.players j)).status = .disconnected) : Retired (s.modify j f) i := by
  refine retired.congr rfl ?_
  rw [modify_players]
  split
  next same =>
    subst same
    exact status rfl
  next => exact .inl rfl

theorem Retired.free {s : Server} {i : Fin 4} (retired : Retired s i)
    (early : s.phase.rank < Phase.racing.rank) : (s.players i).occupied = false := by
  rcases retired.2 with down | ⟨_, late⟩
  · simp [Player.occupied, down]
  · omega

/-- Whoever is out of the race stays out until the next generation. -/
theorem Retired.within {s t : Server} {i : Fin 4} (retired : Retired s i) (move : Move s t)
    (race : t.race = s.race) : Retired t i := by
  have notLobby := retired.1
  have other {j : Fin 4} (early : s.phase.rank < Phase.racing.rank) (seated : (s.players j).occupied = true)
      (same : j = i) : False := by
    rw [same, retired.free early] at seated
    exact nomatch seated
  cases move with
  | calm calm =>
    cases calm with
    | quiet quiet => exact retired.congr quiet.phase (.inl (quiet.status i))
    | spoil j address lobby free => exact absurd lobby notLobby
    | seat r address nonce j lobby free drawn room fresh => exact absurd lobby notLobby
    | steer j seq x y orientation now packets bytes racing status =>
      exact retired.modify fun _ => .inl rfl
  | acknowledge r j packet seated =>
    exact retired.congr rfl (.inl (acknowledge_players_eq Player.status (fun _ _ _ => rfl) s r j packet i))
  | select j seated lobby low => exact absurd lobby notLobby
  | load j x y orientation now seated loading =>
    exact retired.modify fun same => (other (by rw [loading]; decide) seated same).elim
  | arm j seated counting => exact retired.modify fun _ => .inl rfl
  | finish j racing status =>
    refine retired.modify fun same => ?_
    subst same
    exact absurd status retired.status
  | config lobby low high room track league => exact absurd lobby notLobby
  | next j seated host phase => exact absurd race (by simp [beginLobby])
  | close j seated owner first =>
    have down : Retired (s.disconnect j) i := retired.modify fun _ => .inr rfl
    exact down
  | leave j seated more =>
    refine retired.congr rfl ?_
    by_cases isJ : i = j
    · subst isJ
      rw [vacate_players_self, if_neg notLobby]
      exact .inr rfl
    · rw [vacate_players_ne s isJ]
      exact .inl rfl
  | empty j seated last => exact absurd race (by simp [beginLobby, vacate, disconnect, Server.modify])
  | allSelected lobby full ready => exact absurd lobby notLobby
  | allLoaded now loading ready ahead =>
    exact ⟨by simp, .inl (retired.2.resolve_right fun late => absurd late.2 (by rw [loading]; decide))⟩
  | reschedule now counting missing late ahead => exact retired.congr rfl (.inl rfl)
  | go now counting ready due =>
    have down := retired.2.resolve_right fun late => absurd late.2 (by rw [counting]; decide)
    have free : (s.players i).occupied = false := by simp [Player.occupied, down]
    refine ⟨by simp, .inl ?_⟩
    simp only [release, free]
    exact down
  | allFinished racing ready =>
    exact ⟨by simp, retired.2.imp (fun down => down) fun late => ⟨late.1, by simp [Phase.rank]⟩⟩
  | shut quiet => exact retired.congr quiet.phase (.inl (quiet.status i))

theorem Retired.stay {s t : Server} {i : Fin 4} (retired : Retired s i) (stay : Stay s t) : Retired t i :=
  Stay.keeps (P := fun u => Retired u i) stay (fun _ _ move race retired => retired.within move race) retired

/-- In an open room whoever has finished or has disconnected is out of the race. -/
theorem retired_of_status {s : Server} (seating : Seating s) (staging : Staging s) {i : Fin 4}
    (out : (s.players i).status = .finished ∨ (s.players i).status = .disconnected) : Retired s i := by
  rcases out with finished | down
  · have seated : (s.players i).occupied = true := by simp [Player.occupied, finished]
    cases phase : s.phase with
    | lobby => simpa [finished] using (staging.lobby phase).2 i
    | loading => simpa [finished] using (staging.loading phase).2 i seated
    | countdown => simpa [finished] using staging.countdown phase i seated
    | racing => exact ⟨by simp [phase], .inr ⟨finished, by simp [phase]⟩⟩
    | results => exact ⟨by simp [phase], .inr ⟨finished, by rw [phase]; decide⟩⟩
  · exact ⟨fun lobby => seating.lobby lobby i down, .inl down⟩

/-- A closed room shows nothing any more. -/
theorem closed_silent {s : Server} (closed : s.closed = true) (e : Event) :
    (s.step e).snapshotSeq = s.snapshotSeq := by
  cases e with
  | packet d =>
    simp only [step, receivePacket]
    split
    · split <;> rfl
    · rw [if_pos closed]
  | timer now sampled =>
    have still : (s.advance now.val).closed = true :=
      Path.keeps (P := fun u => u.closed = true) (s.advance_path now)
        (fun _ _ move => move.closed_of_closed) closed
    have mute := (s.advance_mute now.val).2
    simp only [step, timer, still, if_true]
    generalize now.val + 16667 = tick
    split
    · exact mute
    · rfl
  | probe now => exact (s.probe_utters now).1
  | close => exact s.close_utters.1

end FzeroVs.Server
