import FzeroVs.Server.Seating

namespace FzeroVs

/-- A reading of the clock two seconds ahead is never the reserved zero. -/
theorem Micros.deadline_ne_zero (now : Micros) : now.val + 2000000 ≠ 0 := by
  have below := now.below
  intro zero
  have value := congrArg UInt64.toNat zero
  simp only [UInt64.toNat_add, UInt64.reduceToNat] at value
  omega

theorem Status.eq_selected_of_rank {q : Status} (three : q = .empty ∨ q = .joined ∨ q = .selected)
    (high : Status.selected.rank ≤ q.rank) : q = .selected := by
  rcases three with rfl | rfl | rfl <;> simp_all [Status.rank]

namespace Server

/-- Which statuses each phase of the room admits. -/
structure Staging (s : Server) : Prop where
  lobby : s.phase = .lobby → s.start = 0 ∧ ∀ i, (s.players i).status = .empty ∨
    (s.players i).status = .joined ∨ (s.players i).status = .selected
  loading : s.phase = .loading → s.start = 0 ∧ ∀ i, (s.players i).occupied = true →
    (s.players i).status = .selected ∨ (s.players i).status = .loaded
  countdown : s.phase = .countdown → ∀ i, (s.players i).occupied = true →
    (s.players i).status = .loaded
  racing : s.phase = .racing → ∀ i, (s.players i).occupied = true →
    (s.players i).status = .racing ∨ (s.players i).status = .finished
  results : s.phase = .results → ∀ i, (s.players i).occupied = true →
    (s.players i).status = .finished
  deadline : Phase.countdown.rank ≤ s.phase.rank → s.start ≠ 0
  present : s.phase ≠ .lobby → 0 < s.count

theorem Staging.ofLobby {s : Server} (phase : s.phase = .lobby) (start : s.start = 0)
    (statuses : ∀ i, (s.players i).status = .empty ∨ (s.players i).status = .joined ∨
      (s.players i).status = .selected) : Staging s := by
  constructor <;> simp_all [Phase.rank]

theorem Staging.ofLoading {s : Server} (phase : s.phase = .loading) (start : s.start = 0)
    (statuses : ∀ i, (s.players i).occupied = true →
      (s.players i).status = .selected ∨ (s.players i).status = .loaded)
    (present : 0 < s.count) : Staging s := by
  constructor <;> simp_all [Phase.rank]

theorem Staging.ofCountdown {s : Server} (phase : s.phase = .countdown) (start : s.start ≠ 0)
    (statuses : ∀ i, (s.players i).occupied = true → (s.players i).status = .loaded)
    (present : 0 < s.count) : Staging s := by
  constructor <;> simp_all [Phase.rank]

theorem Staging.ofRacing {s : Server} (phase : s.phase = .racing) (start : s.start ≠ 0)
    (statuses : ∀ i, (s.players i).occupied = true →
      (s.players i).status = .racing ∨ (s.players i).status = .finished)
    (present : 0 < s.count) : Staging s := by
  constructor <;> simp_all [Phase.rank]

theorem Staging.ofResults {s : Server} (phase : s.phase = .results) (start : s.start ≠ 0)
    (statuses : ∀ i, (s.players i).occupied = true → (s.players i).status = .finished)
    (present : 0 < s.count) : Staging s := by
  constructor <;> simp_all [Phase.rank]

theorem occupied_congr {p q : Player} (same : p.status = q.status) : p.occupied = q.occupied := by
  rw [Player.occupied, Player.occupied, same]

/-- Changes that leave phase, deadline and all statuses alone. -/
theorem Staging.congr {s t : Server} (staging : Staging s) (phase : t.phase = s.phase)
    (start : t.start = s.start) (status : ∀ i, (t.players i).status = (s.players i).status) :
    Staging t := by
  have occupied (i : Fin 4) := occupied_congr (status i)
  have count := count_congr occupied
  constructor <;> simp only [phase, start, status, occupied, count]
  · exact staging.lobby
  · exact staging.loading
  · exact staging.countdown
  · exact staging.racing
  · exact staging.results
  · exact staging.deadline
  · exact staging.present

theorem Staging.modify {s : Server} (staging : Staging s) {i : Fin 4} {f : Player → Player}
    (status : (f (s.players i)).status = (s.players i).status) : Staging (s.modify i f) :=
  staging.congr rfl rfl (modify_players_eq Player.status status)

/-- The statuses after a rewrite of one slot, when the new status fits too. -/
theorem modify_statuses {s : Server} {i : Fin 4} {f : Player → Player} {P : Status → Prop}
    (fits : P (f (s.players i)).status) (all : ∀ j, P (s.players j).status) (j : Fin 4) :
    P ((s.modify i f).players j).status := by
  rw [modify_players]
  split
  · exact fits
  · exact all j

theorem modify_seated_statuses {s : Server} {i : Fin 4} {f : Player → Player} {P : Status → Prop}
    (fits : P (f (s.players i)).status)
    (all : ∀ j, (s.players j).occupied = true → P (s.players j).status) (j : Fin 4)
    (seated : ((s.modify i f).players j).occupied = true) :
    P ((s.modify i f).players j).status := by
  by_cases same : j = i
  · subst same
    rw [modify_players_self]
    exact fits
  · rw [modify_players_ne _ _ same] at seated ⊢
    exact all j seated

theorem count_modify_pos {s : Server} {i : Fin 4} {f : Player → Player}
    (stays : (f (s.players i)).occupied = true) : 0 < (s.modify i f).count :=
  count_pos_iff.mpr ⟨i, by rw [modify_players_self]; exact stays⟩

theorem Staging.calm {s t : Server} (staging : Staging s) (calm : Calm s t) : Staging t := by
  cases calm with
  | quiet quiet => exact staging.congr quiet.phase quiet.start quiet.status
  | spoil i address lobby free =>
    obtain ⟨start, statuses⟩ := staging.lobby lobby
    exact .ofLobby lobby start (modify_statuses (P := fun q => q = .empty ∨ q = .joined ∨ q = .selected)
      (.inl rfl) statuses)
  | seat r address nonce i lobby free drawn room fresh =>
    obtain ⟨start, statuses⟩ := staging.lobby lobby
    refine .ofLobby lobby start fun j => ?_
    by_cases isJ : j = i
    · subst isJ
      rw [seat_players_self]
      exact .inr (.inl rfl)
    · rw [seat_players_ne s _ _ _ _ isJ]
      exact statuses j
  | steer i seq x y orientation now packets bytes racing status => exact staging.modify rfl

theorem Staging.leave {s : Server} (staging : Staging s) {i : Fin 4}
    (more : 0 < ((s.disconnect i).vacate i).count) : Staging ((s.disconnect i).vacate i) := by
  -- Whoever is still seated has the old record, so only the lobby, where free
  -- slots count too, needs the vacated slot itself.
  have keep (P : Status → Prop) (all : ∀ j, (s.players j).occupied = true → P (s.players j).status)
      (j : Fin 4) (present : (((s.disconnect i).vacate i).players j).occupied = true) :
      P (((s.disconnect i).vacate i).players j).status := by
    have same := leave_players present
    rw [same] at present ⊢
    exact all j present
  refine ⟨?_, ?_, ?_, ?_, ?_, staging.deadline, fun _ => more⟩
  · intro lobby
    obtain ⟨start, statuses⟩ := staging.lobby lobby
    refine ⟨start, fun j => ?_⟩
    by_cases isJ : j = i
    · subst isJ
      rw [vacate_players_self, if_pos (show s.phase = .lobby from lobby)]
      exact .inl rfl
    · rw [vacate_players_ne s isJ]
      exact statuses j
  · intro loading
    exact ⟨(staging.loading loading).1, keep (fun q => q = .selected ∨ q = .loaded) (staging.loading loading).2⟩
  · intro counting
    exact keep (· = .loaded) (staging.countdown counting)
  · intro racing
    exact keep (fun q => q = .racing ∨ q = .finished) (staging.racing racing)
  · intro results
    exact keep (· = .finished) (staging.results results)

theorem beginLobby_statuses (s : Server) (i : Fin 4) : (s.beginLobby.players i).status = .empty ∨
    (s.beginLobby.players i).status = .joined ∨ (s.beginLobby.players i).status = .selected := by
  simp only [beginLobby, relobby_status]
  split
  · exact .inr (.inl rfl)
  · exact .inl rfl

theorem Staging.move {s t : Server} (staging : Staging s) (move : Move s t)
    (live : t.closed = false) : Staging t := by
  cases move with
  | calm calm => exact staging.calm calm
  | acknowledge r i packet seated =>
    exact (staging.modify (i := i) (f := fun p => { p with commandSeq := packet.seq, seen := r.seen.val })
      rfl).congr rfl rfl fun _ => rfl
  | select i seated lobby low =>
    obtain ⟨start, statuses⟩ := staging.lobby lobby
    exact .ofLobby lobby start (modify_statuses (P := fun q => q = .empty ∨ q = .joined ∨ q = .selected)
      (.inr (.inr rfl)) statuses)
  | load i x y orientation now seated loading =>
    obtain ⟨start, statuses⟩ := staging.loading loading
    exact .ofLoading loading start
      (modify_seated_statuses (P := fun q => q = .selected ∨ q = .loaded) (.inr rfl) statuses)
      (count_modify_pos rfl)
  | arm i seated counting => exact staging.modify rfl
  | finish i racing status =>
    exact .ofRacing racing (staging.deadline (by rw [racing]; decide))
      (modify_seated_statuses (P := fun q => q = .racing ∨ q = .finished) (.inr rfl)
        (staging.racing racing))
      (count_modify_pos rfl)
  | config lobby low high room track league => exact staging.congr rfl rfl fun _ => rfl
  | next i seated host phase => exact .ofLobby rfl rfl s.beginLobby_statuses
  | close i seated owner first => exact absurd live (by simp)
  | leave i seated more => exact staging.leave more
  | empty i seated last => exact .ofLobby rfl rfl (beginLobby_statuses _)
  | allSelected lobby full ready =>
    obtain ⟨start, statuses⟩ := staging.lobby lobby
    obtain ⟨present, high⟩ := allAtLeast_iff.mp ready
    exact .ofLoading rfl start
      (fun i seated => .inl (Status.eq_selected_of_rank (statuses i) (high i seated))) present
  | allLoaded now loading ready ahead =>
    obtain ⟨start, statuses⟩ := staging.loading loading
    obtain ⟨present, high⟩ := allAtLeast_iff.mp ready
    refine .ofCountdown rfl (ahead.trans_ne now.deadline_ne_zero) (fun i seated => ?_) present
    rcases statuses i seated with selected | loaded
    · have rank := high i seated
      rw [selected] at rank
      exact absurd rank (by decide)
    · exact loaded
  | reschedule now counting missing late ahead =>
    exact .ofCountdown counting (ahead.trans_ne now.deadline_ne_zero) (staging.countdown counting)
      (staging.present (by rw [counting]; decide))
  | go now counting ready due =>
    refine .ofRacing rfl (staging.deadline (by rw [counting])) (fun i seated => .inl ?_) ?_
    · simp only [release_occupied] at seated
      simp [release, seated]
    · obtain ⟨i, seated⟩ := count_pos_iff.mp (staging.present (by rw [counting]; decide))
      exact count_pos_iff.mpr ⟨i, by rw [release_occupied]; exact seated⟩
  | allFinished racing ready =>
    obtain ⟨present, high⟩ := allAtLeast_iff.mp ready
    refine .ofResults rfl (staging.deadline (by rw [racing]; decide)) (fun i seated => ?_) present
    rcases staging.racing racing i seated with running | finished
    · have rank := high i seated
      rw [running] at rank
      exact absurd rank (by decide)
    · exact finished
  | shut quiet => exact absurd (quiet.closed.symm.trans live) (by simp)

theorem Staging.create {c : ServerConfig} {session : UInt64} {now : Micros} {s : Server}
    (created : create c session now = some s) : Staging s := by
  obtain ⟨_, _, _, _, _, rfl⟩ := create_some created
  exact .ofLobby rfl rfl fun _ => .inl rfl

theorem Path.live {s t : Server} (path : Path s t) (live : t.closed = false) : s.closed = false := by
  cases closed : s.closed with
  | false => rfl
  | true =>
    have stays := Path.keeps (P := fun u => u.closed = true) path (fun _ _ move => move.closed_of_closed) closed
    rw [stays] at live
    exact nomatch live

theorem Path.seating_staging {s t : Server} (path : Path s t) (live : t.closed = false)
    (holds : Seating s ∧ Staging s) : Seating t ∧ Staging t := by
  refine Path.keeps (P := fun u => u.closed = false → Seating u ∧ Staging u) path ?_ (fun _ => holds) live
  intro u v move before live
  have both := before (Path.live (.single move) live)
  exact ⟨both.1.move move live, both.2.move move live⟩

/-- Phases and statuses fit together in every reachable state of an open room. -/
theorem reachable_staging {s : Server} (reach : system.Reachable s) (live : s.closed = false) :
    Staging s := by
  refine reachable_of_moves (P := fun s => s.closed = false → Staging s) ?_ ?_ reach live
  · rintro s ⟨c, session, now, created⟩ _
    exact .create created
  · intro s t move holds live
    exact (holds (Path.live (.single move) live)).move move live

end Server

end FzeroVs
