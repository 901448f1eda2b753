import FzeroVs.Server.Lobbies

namespace FzeroVs.Server

/-- Once the countdown has begun there is a start time, in a closed room too. -/
def Timed (s : Server) : Prop := Phase.countdown.rank ≤ s.phase.rank → s.start ≠ 0

theorem Timed.early {s : Server} (phase : Phase) (same : s.phase = phase)
    (early : phase.rank < Phase.countdown.rank) : Timed s := by
  intro late
  rw [same] at late
  omega

theorem Timed.congr {s t : Server} (timed : Timed s) (phase : t.phase = s.phase)
    (start : t.start = s.start) : Timed t := by
  intro late
  rw [start]
  exact timed (phase ▸ late)

theorem Timed.move {s t : Server} (move : Move s t) (timed : Timed s) : Timed t := by
  cases move with
  | calm calm =>
    cases calm with
    | quiet quiet => exact timed.congr quiet.phase quiet.start
    | spoil i address lobby free => exact timed
    | seat r address nonce i lobby free drawn room fresh => exact timed
    | steer i seq x y orientation now packets bytes racing status => exact timed
  | acknowledge r i packet seated => exact timed
  | select i seated lobby low => exact timed
  | load i x y orientation now seated loading => exact timed
  | arm i seated counting => exact timed
  | finish i racing status => exact timed
  | config lobby low high room track league => exact timed
  | next i seated host phase => exact .early .lobby rfl (by decide)
  | close i seated owner first => exact timed
  | leave i seated more => exact timed
  | empty i seated last => exact .early .lobby rfl (by decide)
  | allSelected lobby full ready => exact .early .loading rfl (by decide)
  | allLoaded now loading ready ahead =>
    intro _
    rw [show _ = _ from ahead]
    exact now.deadline_ne_zero
  | reschedule now counting missing late ahead =>
    intro _
    rw [show _ = _ from ahead]
    exact now.deadline_ne_zero
  | go now counting ready due =>
    intro _
    exact timed (by rw [counting])
  | allFinished racing ready =>
    intro _
    exact timed (by rw [racing]; decide)
  | shut quiet => exact timed.congr quiet.phase quiet.start

theorem reachable_timed {s : Server} (reach : system.Reachable s) : Timed s := by
  refine reachable_of_moves (fun s init => ?_) (fun _ _ move timed => timed.move move) reach
  obtain ⟨c, session, now, created⟩ := init
  obtain ⟨_, _, _, _, _, rfl⟩ := create_some created
  exact .early .lobby rfl (by decide)

/-- The room can no longer change its mind about the start time. -/
structure Committed (s : Server) (start : UInt64) : Prop where
  start : s.start = start
  agreed : (s.phase = .countdown ∧ ∀ i, (s.players i).occupied = true → (s.players i).armed = s.start) ∨
    s.phase = .racing ∨ s.phase = .results

namespace Committed
variable {s t : Server} {start : UInt64}

theorem phase_ne (committed : Committed s start) {phase : Phase} (early : phase.rank < Phase.countdown.rank) :
    s.phase ≠ phase := by
  intro same
  rcases committed.agreed with ⟨counting, _⟩ | racing | results
  · rw [← same, counting] at early
    exact absurd early (by decide)
  · rw [← same, racing] at early
    exact absurd early (by decide)
  · rw [← same, results] at early
    exact absurd early (by decide)

/-- Whoever stays keeps the acknowledgement he has given. -/
theorem congr (committed : Committed s start) (phase : t.phase = s.phase) (same : t.start = s.start)
    (slot : ∀ i, (t.players i).occupied = true → (s.players i).occupied = true ∧
      ((t.players i).armed = (s.players i).armed ∨ (t.players i).armed = s.start)) : Committed t start := by
  refine ⟨same.trans committed.start, ?_⟩
  rw [phase, same]
  refine committed.agreed.imp (fun ⟨counting, armed⟩ => ⟨counting, fun i seated => ?_⟩) fun late => late
  obtain ⟨before, kept | anew⟩ := slot i seated
  · rw [kept]
    exact armed i before
  · exact anew

theorem modify (committed : Committed s start) {i : Fin 4} {f : Player → Player}
    (slot : (f (s.players i)).occupied = true → (s.players i).occupied = true ∧
      ((f (s.players i)).armed = (s.players i).armed ∨ (f (s.players i)).armed = s.start)) :
    Committed (s.modify i f) start := by
  refine committed.congr rfl rfl fun j seated => ?_
  rw [modify_players] at seated ⊢
  split at seated
  next same =>
    subst same
    rw [if_pos rfl]
    exact slot seated
  next other =>
    rw [if_neg other]
    exact ⟨seated, .inl rfl⟩

theorem quiet (committed : Committed s start) (quiet : Quiet s t) : Committed t start :=
  committed.congr quiet.phase quiet.start fun i seated =>
    ⟨(quiet.occupied i).symm.trans seated, .inl (quiet.field Player.armed (fun _ => rfl) i)⟩

/-- An agreed start is kept by everything that stays in the generation: the
deadline moves only while an acknowledgement is missing, and nobody can join. -/
theorem within (committed : Committed s start) (move : Move s t) (race : t.race = s.race) :
    Committed t start := by
  have notLobby : s.phase ≠ .lobby := committed.phase_ne (by decide)
  have notLoading : s.phase ≠ .loading := committed.phase_ne (by decide)
  cases move with
  | calm calm =>
    cases calm with
    | quiet quiet => exact committed.quiet quiet
    | spoil i address lobby free => exact absurd lobby notLobby
    | seat r address nonce i lobby free drawn room fresh => exact absurd lobby notLobby
    | steer i seq x y orientation now packets bytes racing status =>
      exact committed.modify fun seated => ⟨seated, .inl rfl⟩
  | acknowledge r i packet seated =>
    refine committed.congr rfl rfl fun j present => ⟨?_, .inl ?_⟩
    · rw [← acknowledge_players_eq Player.occupied (fun _ _ _ => rfl) s r i packet j]
      exact present
    · exact acknowledge_players_eq Player.armed (fun _ _ _ => rfl) s r i packet j
  | select i seated lobby low => exact absurd lobby notLobby
  | load i x y orientation now seated loading => exact absurd loading notLoading
  | arm i seated counting => exact committed.modify fun _ => ⟨seated, .inr rfl⟩
  | finish i racing status =>
    exact committed.modify fun _ => ⟨occupied_iff.mpr (by simp [status]), .inl rfl⟩
  | config lobby low high room track league => exact absurd lobby notLobby
  | next i seated host phase => exact absurd race (by simp [beginLobby])
  | close i seated owner first =>
    have down : Committed (s.disconnect i) start := committed.modify fun seated => absurd seated Bool.false_ne_true
    exact ⟨down.start, down.agreed⟩
  | leave i seated more =>
    have down : Committed (s.disconnect i) start := committed.modify fun seated => absurd seated Bool.false_ne_true
    refine down.congr rfl rfl fun j present => ?_
    by_cases isJ : j = i
    · rw [isJ, vacate_free] at present
      cases present
    · rw [vacate_players_ne s isJ] at present ⊢
      rw [disconnect, modify_players_ne _ _ isJ]
      exact ⟨present, .inl rfl⟩
  | empty i seated last => exact absurd race (by simp [beginLobby, vacate, disconnect, Server.modify])
  | allSelected lobby full ready => exact absurd lobby notLobby
  | allLoaded now loading ready ahead => exact absurd loading notLoading
  | reschedule now counting missing late ahead =>
    rcases committed.agreed with ⟨_, armed⟩ | racing | results
    · rw [allArmed_iff.mpr armed] at missing
      cases missing
    · exact absurd (counting.symm.trans racing) (by decide)
    · exact absurd (counting.symm.trans results) (by decide)
  | go now counting ready due => exact ⟨committed.start, .inr (.inl rfl)⟩
  | allFinished racing ready => exact ⟨committed.start, .inr (.inr rfl)⟩
  | shut quiet =>
    have shut : Committed { s with closed := true } start := ⟨committed.start, committed.agreed⟩
    exact shut.quiet quiet

theorem stay (committed : Committed s start) (stay : Stay s t) : Committed t start :=
  Stay.keeps (P := fun u => Committed u start) stay (fun _ _ move race committed => committed.within move race)
    committed

end Committed

end FzeroVs.Server
