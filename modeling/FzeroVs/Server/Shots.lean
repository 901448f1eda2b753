import FzeroVs.Protocol.Shots
import FzeroVs.Server.Chronicle

namespace FzeroVs.Server

/-- The player in slot `i` is past the barrier. -/
structure Passed (s : Server) (shot : Shot) (i : Fin 4) : Prop where
  status : shot.status.rank ≤ (s.players i).status.rank
  phase : shot.phase.rank ≤ s.phase.rank

theorem Passed.reached {s : Server} {shot : Shot} {i : Fin 4} (passed : s.Passed shot i) (q : Status)
    {p : Phase} (phase : s.phase = p)
    (all : ∀ shot : Shot, shot.phase.rank ≤ p.rank → shot.status.rank ≤ q.rank) : shot.status.rank ≤ q.rank :=
  all shot (phase ▸ passed.phase)

/-- Whoever is in the room when it has opened the barrier has passed it. -/
theorem Staging.passed {s : Server} (staging : Staging s) {i : Fin 4} (seated : (s.players i).occupied = true)
    {shot : Shot} (later : shot.phase.rank < s.phase.rank) : s.Passed shot i := by
  refine ⟨?_, later.le⟩
  cases phase : s.phase with
  | lobby =>
    rw [phase] at later
    exact absurd later (Nat.not_lt_zero _)
  | loading =>
    rw [phase] at later
    rcases (staging.loading phase).2 i seated with status | status <;> rw [status] <;> revert later <;>
      cases shot <;> decide
  | countdown =>
    rw [phase] at later
    rw [staging.countdown phase i seated]
    revert later
    cases shot <;> decide
  | racing =>
    rw [phase] at later
    rcases staging.racing phase i seated with status | status <;> rw [status] <;> revert later <;>
      cases shot <;> decide
  | results =>
    rw [staging.results phase i seated]
    cases shot <;> decide

/-- The command is in time and well formed: either it is applied, or its slot
is past the barrier already. -/
theorem Staging.valid_or_passed {s : Server} (staging : Staging s) {i : Fin 4}
    (seated : (s.players i).occupied = true) {shot : Shot} {packet : Packet} (fits : shot.Fits packet.body)
    (opened : shot.phase.rank ≤ s.phase.rank) : s.commandValid i packet = true ∨ s.Passed shot i := by
  rcases Nat.lt_or_eq_of_le opened with later | now
  · exact .inr (staging.passed seated later)
  have phase : s.phase = shot.phase := (Phase.rank_injective now).symm
  obtain ⟨length, code, car⟩ := fits.packet
  cases shot with
  | select =>
    left
    rw [commandValid, code]
    simp [Shot.command, length, Shot.size, phase, Shot.phase, car rfl]
  | loaded =>
    left
    rw [commandValid, code]
    simp [Shot.command, length, Shot.size, phase, Shot.phase]
  | finish =>
    rcases staging.racing phase i seated with running | finished
    · left
      rw [commandValid, code]
      simp [Shot.command, length, Shot.size, phase, Shot.phase, running]
    · exact .inr ⟨by rw [finished]; exact Nat.le_refl _, opened⟩

/-- Taking the command brings its slot past the barrier. -/
theorem takeCommand_passed {s : Server} (staging : Staging s) (r : Readings) {i : Fin 4}
    (seated : (s.players i).occupied = true) {shot : Shot} {packet : Packet} (fits : shot.Fits packet.body)
    (opened : shot.phase.rank ≤ s.phase.rank) : (s.takeCommand r i packet).race = s.race ∧
      (s.takeCommand r i packet).drawn = s.drawn ∧ (s.takeCommand r i packet).Passed shot i := by
  obtain ⟨_, code, _⟩ := fits.packet
  have acknowledged (t : Server) (j : Fin 4) : ((t.acknowledge r i packet).players j).status = (t.players j).status :=
    acknowledge_players_eq Player.status (fun _ _ _ => rfl) t r i packet j
  rw [takeCommand]
  split
  next valid =>
    have stays (t : Server) : t.commandTail i packet = t := by
      rw [commandTail, code]
      cases shot <;> rfl
    have status : ((s.commandEffect r i packet).players i).status = shot.status := by
      rw [commandEffect, code]
      cases shot <;> simp [Shot.command, Shot.status]
    have drawn : (s.commandEffect r i packet).drawn = s.drawn := by
      rw [commandEffect, code]
      cases shot <;> rfl
    obtain ⟨phase, _⟩ := acknowledge_commandEffect_frame (s := s) r i packet
    rw [stays]
    refine ⟨s.commandEffect_race r i packet, drawn, ?_, ?_⟩
    · rw [acknowledged, status]
    · rw [phase]
      exact opened
  next refused =>
    have quiet := (s.acknowledge r i packet).commandError_quiet i packet
    have passed := (staging.valid_or_passed seated fits opened).resolve_left refused
    refine ⟨quiet.race, quiet.drawn, ?_, ?_⟩
    · rw [quiet.status, acknowledged]
      exact passed.status
    · rw [quiet.phase]
      exact passed.phase

/-- As long as slot `i` has its drawn token, its player is past the barrier. -/
structure Holds (s : Server) (shot : Shot) (token : UInt64) (i : Fin 4) : Prop where
  drawn : ∃ a, (token, a) ∈ s.drawn
  passed : (s.drawn.map Prod.fst).Nodup → i ∈ s.holders token → s.Passed shot i

theorem Holds.slot {s t : Server} {shot : Shot} {token : UInt64} {i : Fin 4} (holds : s.Holds shot token i)
    (drawn : t.drawn = s.drawn) (phase : s.phase.rank ≤ t.phase.rank)
    (slot : (t.players i).occupied = true → (s.players i).occupied = true ∧
      (t.players i).token = (s.players i).token ∧
      (s.Passed shot i → shot.status.rank ≤ (t.players i).status.rank)) : t.Holds shot token i := by
  refine ⟨drawn ▸ holds.drawn, fun apart member => ?_⟩
  obtain ⟨seated, own⟩ := mem_holders.mp member
  obtain ⟨before, same, status⟩ := slot seated
  have passed := holds.passed (drawn ▸ apart) (mem_holders.mpr ⟨before, same.symm.trans own⟩)
  exact ⟨status passed, passed.phase.trans phase⟩

theorem Holds.quiet {s t : Server} {shot : Shot} {token : UInt64} {i : Fin 4} (holds : s.Holds shot token i)
    (quiet : Quiet s t) : t.Holds shot token i := by
  refine holds.slot quiet.drawn (by rw [quiet.phase]) fun seated => ?_
  refine ⟨quiet.occupied i ▸ seated, quiet.field Player.token (fun _ => rfl) i, fun passed => ?_⟩
  rw [quiet.status]
  exact passed.status

/-- A rewrite of one slot whose player, if there is one, has not gone back. -/
theorem Holds.modify {s : Server} {shot : Shot} {token : UInt64} {i j : Fin 4} (holds : s.Holds shot token i)
    {f : Player → Player} (slot : (f (s.players j)).occupied = true → (s.players j).occupied = true ∧
      (f (s.players j)).token = (s.players j).token ∧
      (s.Passed shot j → shot.status.rank ≤ (f (s.players j)).status.rank)) :
    (s.modify j f).Holds shot token i := by
  refine holds.slot rfl (Nat.le_refl _) fun present => ?_
  rw [modify_players] at present ⊢
  split at present
  next same =>
    subst same
    rw [if_pos rfl]
    exact slot present
  next other =>
    rw [if_neg other]
    exact ⟨present, rfl, fun passed => passed.status⟩

/-- No elementary change takes a player back behind the barrier. -/
theorem Holds.move {s t : Server} {shot : Shot} {token : UInt64} {i : Fin 4} (holds : s.Holds shot token i)
    (move : Move s t) (race : t.race = s.race) : t.Holds shot token i := by
  have onward := move.phase_le race
  -- Players who keep their record keep their place behind the barrier.
  have same {t : Server} (drawn : t.drawn = s.drawn) (phase : s.phase.rank ≤ t.phase.rank)
      (slot : (t.players i).occupied = true → t.players i = s.players i) : t.Holds shot token i := by
    refine holds.slot drawn phase fun seated => ?_
    have record := slot seated
    rw [record] at seated ⊢
    exact ⟨seated, rfl, fun passed => passed.status⟩
  cases move with
  | calm calm =>
    cases calm with
    | quiet quiet => exact holds.quiet quiet
    | spoil j address lobby free => exact holds.modify fun seated => absurd seated Bool.false_ne_true
    | @seat r random address nonce j lobby free drawn room fresh =>
      obtain ⟨a, known⟩ := holds.drawn
      refine ⟨⟨a, List.mem_append_left _ known⟩, fun apart member => ?_⟩
      change ((s.drawn ++ [(random, address)]).map Prod.fst).Nodup at apart
      rw [List.map_append, List.nodup_append] at apart
      obtain ⟨seated, own⟩ := mem_holders.mp member
      have other : i ≠ j := by
        rintro rfl
        rw [seat_players_self] at own
        exact apart.2.2 token (List.mem_map.mpr ⟨_, known, rfl⟩) random (by simp) own.symm
      rw [seat_players_ne s _ _ _ _ other] at seated own
      have passed := holds.passed apart.1 (mem_holders.mpr ⟨seated, own⟩)
      refine ⟨?_, passed.phase⟩
      rw [seat_players_ne s _ _ _ _ other]
      exact passed.status
    | steer j seq x y orientation now packets bytes racing status =>
      exact holds.modify fun seated => ⟨seated, rfl, fun passed => passed.status⟩
  | acknowledge r j packet seated =>
    have kept : (s.modify j fun p => { p with commandSeq := packet.seq, seen := r.seen.val }).Holds shot token i :=
      holds.modify fun seated => ⟨seated, rfl, fun passed => passed.status⟩
    exact kept.slot rfl (Nat.le_refl _) fun seated => ⟨seated, rfl, fun passed => passed.status⟩
  | select j seated lobby low =>
    exact holds.modify fun _ => ⟨seated, rfl,
      fun passed => passed.reached .selected lobby fun shot => by cases shot <;> decide⟩
  | load j x y orientation now seated loading =>
    exact holds.modify fun _ => ⟨seated, rfl,
      fun passed => passed.reached .loaded loading fun shot => by cases shot <;> decide⟩
  | arm j seated counting => exact holds.modify fun seated => ⟨seated, rfl, fun passed => passed.status⟩
  | finish j racing status =>
    exact holds.modify fun _ => ⟨occupied_iff.mpr (by rw [status]; decide), rfl,
      fun passed => passed.reached .finished racing fun shot => by cases shot <;> decide⟩
  | config lobby low high room track league => exact same rfl onward fun _ => rfl
  | next j seated host phase => exact absurd race (by simp [beginLobby])
  | close j seated owner first =>
    have down : (s.disconnect j).Holds shot token i := holds.modify fun seated => absurd seated Bool.false_ne_true
    exact down.slot rfl (Nat.le_refl _) fun seated => ⟨seated, rfl, fun passed => passed.status⟩
  | leave j seated more => exact same rfl onward fun present => leave_players present
  | empty j seated last => exact absurd race (by simp [beginLobby, vacate, disconnect, Server.modify])
  | allSelected lobby full ready => exact same rfl onward fun _ => rfl
  | allLoaded now loading ready ahead =>
    exact holds.slot rfl onward fun seated => ⟨seated, rfl, fun passed => passed.status⟩
  | reschedule now counting missing late ahead => exact same rfl onward fun _ => rfl
  | go now counting ready due =>
    refine holds.slot rfl onward fun seated => ?_
    simp only [release_occupied] at seated
    simp only [release, seated, if_true]
    exact ⟨trivial, trivial, fun passed => passed.reached .racing counting fun shot => by cases shot <;> decide⟩
  | allFinished racing ready => exact same rfl onward fun _ => rfl
  | shut quiet =>
    have closed : ({ s with closed := true } : Server).Holds shot token i := same rfl (Nat.le_refl _) fun _ => rfl
    exact closed.quiet quiet

theorem Holds.stay {s t : Server} {shot : Shot} {token : UInt64} {i : Fin 4} (holds : s.Holds shot token i)
    (stay : Stay s t) : t.Holds shot token i :=
  Stay.keeps (P := fun s => s.Holds shot token i) stay (fun _ _ move race holds => holds.move move race) holds

/-- The step that takes the command in time brings its slot past the barrier. -/
theorem Takes.holds {s : Server} (reach : system.Reachable s) {d : Incoming} {i : Fin 4} {packet : Packet}
    (ledger : Ledger s) (takes : Takes s d.address i packet) (decoded : decode d.data = some packet) {shot : Shot}
    (fits : shot.Fits packet.body) (opened : shot.phase.rank ≤ s.phase.rank)
    (race : (s.step (.packet d)).race = s.race) :
    (s.step (.packet d)).Holds shot (s.players i).token i := by
  have seating := reachable_seating reach takes.live
  have counted := s.countRx_quiet
  have staging : Staging s.countRx := (reachable_staging reach takes.live).calm (.quiet counted)
  have same : s.step (.packet d) = s.countRx.receiveCommand d.readings i packet :=
    takes.received seating decoded d.readings d.random
  rw [same, receiveCommand] at race ⊢
  obtain ⟨kept, drawn, passed⟩ := takeCommand_passed staging d.readings takes.seated fits opened
  generalize s.countRx.takeCommand d.readings i packet = t at *
  have quiet := snapshot_quiet (t.advance d.readings.advanced.val) d.readings.sampled.val
  have taken : t.Holds shot (s.players i).token i :=
    ⟨⟨_, drawn ▸ ledger.seated i takes.seated⟩, fun _ _ => passed⟩
  rcases t.advance_elapse d.readings.advanced with ⟨stay, _⟩ | ⟨later, _⟩
  · exact taken.stay (stay.trans quiet.stay)
  · rw [quiet.race, later, kept] at race
    exact absurd race (by simp)

end FzeroVs.Server
