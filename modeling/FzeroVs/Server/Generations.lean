import FzeroVs.Server.Barriers

namespace FzeroVs.Server

/-- Progress inside one race generation. -/
structure Forward (s t : Server) : Prop where
  race : t.race = s.race
  phase : s.phase.rank ≤ t.phase.rank
  status : s.phase ≠ .lobby → ∀ i, (s.players i).status.rank ≤ (t.players i).status.rank
  finished : ∀ i, (s.players i).status = .finished →
    (t.players i).status = .finished ∨ (t.players i).status = .disconnected
  gone : ∀ i, (s.players i).status = .disconnected → (t.players i).status = .disconnected

theorem Forward.refl (s : Server) : Forward s s :=
  ⟨rfl, le_rfl, fun _ _ => le_rfl, fun _ finished => .inl finished, fun _ gone => gone⟩

theorem Phase.ne_lobby_of_rank {p q : Phase} (later : p.rank ≤ q.rank) (started : p ≠ .lobby) :
    q ≠ .lobby := by
  rintro rfl
  exact started (Phase.rank_injective (Nat.le_antisymm later (Nat.zero_le _)))

theorem rank_le_of_phases {s t : Server} {p q : Phase} (before : s.phase = p) (after : t.phase = q)
    (later : p.rank ≤ q.rank) : s.phase.rank ≤ t.phase.rank := by
  rw [before, after]
  exact later

theorem Forward.trans {s t u : Server} (first : Forward s t) (second : Forward t u) : Forward s u where
  race := second.race.trans first.race
  phase := first.phase.trans second.phase
  status started i :=
    (first.status started i).trans (second.status (Phase.ne_lobby_of_rank first.phase started) i)
  finished i finished := by
    rcases first.finished i finished with still | gone
    · exact second.finished i still
    · exact .inr (second.gone i gone)
  gone i gone := second.gone i (first.gone i gone)

theorem Forward.of_statuses {s t : Server} (race : t.race = s.race)
    (phase : s.phase.rank ≤ t.phase.rank)
    (status : ∀ i, (t.players i).status = (s.players i).status) : Forward s t :=
  ⟨race, phase, fun _ i => (status i).symm ▸ le_rfl, fun i finished => .inl ((status i).trans finished),
    fun i gone => (status i).trans gone⟩

/-- Only the status of one seated player changes. -/
theorem Forward.of_slot {s t : Server} {i : Fin 4} (race : t.race = s.race) (phase : t.phase = s.phase)
    (others : ∀ j, j ≠ i → (t.players j).status = (s.players j).status)
    (seated : (s.players i).occupied = true)
    (higher : s.phase ≠ .lobby → (s.players i).status.rank ≤ (t.players i).status.rank)
    (finished : (s.players i).status = .finished →
      (t.players i).status = .finished ∨ (t.players i).status = .disconnected) : Forward s t := by
  refine ⟨race, by rw [phase], fun started j => ?_, fun j done => ?_, fun j gone => ?_⟩
  · by_cases isJ : j = i
    · subst isJ
      exact higher started
    · rw [others j isJ]
  · by_cases isJ : j = i
    · subst isJ
      exact finished done
    · exact .inl ((others j isJ).trans done)
  · by_cases isJ : j = i
    · subst isJ
      exact absurd gone (occupied_iff.mp seated).2
    · exact (others j isJ).trans gone

/-- A lobby in which nobody has done anything yet. -/
structure Fresh (s : Server) : Prop where
  phase : s.phase = .lobby
  start : s.start = 0
  status : ∀ i, (s.players i).status = .empty ∨ (s.players i).status = .joined
  still : ∀ i, (s.players i).x = 0 ∧ (s.players i).y = 0
  idle : ∀ i, (s.players i).armed = 0 ∧ (s.players i).stateSeq = 0

theorem relobby_fresh (p : Player) : ((relobby p).status = .empty ∨ (relobby p).status = .joined) ∧
    ((relobby p).x = 0 ∧ (relobby p).y = 0) ∧ ((relobby p).armed = 0 ∧ (relobby p).stateSeq = 0) := by
  unfold relobby
  split
  · exact ⟨.inr rfl, ⟨rfl, rfl⟩, rfl, rfl⟩
  · exact ⟨.inl rfl, ⟨rfl, rfl⟩, rfl, rfl⟩

theorem beginLobby_fresh (s : Server) : Fresh s.beginLobby where
  phase := rfl
  start := rfl
  status i := (relobby_fresh (s.players i)).1
  still i := (relobby_fresh (s.players i)).2.1
  idle i := (relobby_fresh (s.players i)).2.2

theorem Forward.calm {s t : Server} (staging : Staging s) (calm : Calm s t) : Forward s t := by
  cases calm with
  | quiet quiet => exact .of_statuses quiet.race (by rw [quiet.phase]) quiet.status
  | spoil i address lobby free =>
    -- A free slot of the lobby is empty before and after.
    refine .of_statuses rfl le_rfl (modify_players_eq Player.status ?_)
    rcases (staging.lobby lobby).2 i with empty | joined | selected
    · exact empty.symm
    · simp [Player.occupied, joined] at free
    · simp [Player.occupied, selected] at free
  | seat r address nonce i lobby free drawn room fresh =>
    have empty : (s.players i).status = .empty := by
      rcases (staging.lobby lobby).2 i with empty | joined | selected
      · exact empty
      · simp [Player.occupied, joined] at free
      · simp [Player.occupied, selected] at free
    refine ⟨rfl, le_rfl, fun started => absurd lobby started, fun j done => ?_, fun j gone => ?_⟩
    · rw [seat_players_ne s _ _ _ _ fun same => by rw [same, empty] at done; cases done]
      exact .inl done
    · rw [seat_players_ne s _ _ _ _ fun same => by rw [same, empty] at gone; cases gone]
      exact gone
  | steer i seq x y orientation now packets bytes racing status =>
    exact .of_statuses rfl le_rfl (modify_players_eq Player.status rfl)

theorem Status.rank_le_disconnected (q : Status) : q.rank ≤ Status.disconnected.rank := by
  cases q <;> decide

theorem Forward.leave {s : Server} (staging : Staging s) {i : Fin 4}
    (seated : (s.players i).occupied = true) : Forward s ((s.disconnect i).vacate i) := by
  refine .of_slot rfl rfl (fun j other => by rw [vacate_players_ne s other]) seated ?_ ?_
  · intro started
    rw [vacate_players_self, if_neg started]
    exact Status.rank_le_disconnected _
  · intro done
    have started : s.phase ≠ .lobby := by
      intro lobby
      rcases (staging.lobby lobby).2 i with empty | joined | selected <;> simp_all
    rw [vacate_players_self, if_neg started]
    exact .inr rfl

/-- One elementary change either moves forward in its generation or begins the
fresh lobby of the next one. -/
theorem Move.forward_or_fresh {s t : Server} (staging : Staging s) (move : Move s t) :
    Forward s t ∨ (t.race = s.race + 1 ∧ Fresh t) := by
  cases move with
  | calm calm => exact .inl (.calm staging calm)
  | acknowledge r i packet seated =>
    exact .inl (.of_statuses rfl le_rfl
      (acknowledge_players_eq Player.status (fun _ _ _ => rfl) s r i packet))
  | select i seated lobby low =>
    refine .inl (.of_slot rfl rfl (fun j other => by rw [modify_players_ne _ _ other]) seated
      (fun started => absurd lobby started) fun done => ?_)
    rcases (staging.lobby lobby).2 i with empty | joined | selected <;> simp_all
  | load i x y orientation now seated loading =>
    refine .inl (.of_slot rfl rfl (fun j other => by rw [modify_players_ne _ _ other]) seated ?_ ?_)
    · intro _
      rw [modify_players_self]
      rcases (staging.loading loading).2 i seated with selected | loaded
      · rw [selected]
        exact (by decide : Status.selected.rank ≤ Status.loaded.rank)
      · rw [loaded]
    · intro done
      rcases (staging.loading loading).2 i seated with selected | loaded <;> simp_all
  | arm i seated counting => exact .inl (.of_statuses rfl le_rfl (modify_players_eq Player.status rfl))
  | finish i racing status =>
    refine .inl (.of_slot rfl rfl (fun j other => by rw [modify_players_ne _ _ other])
      (occupied_iff.mpr (by rw [status]; decide)) ?_ ?_)
    · intro _
      rw [modify_players_self, status]
      exact (by decide : Status.racing.rank ≤ Status.finished.rank)
    · intro _
      rw [modify_players_self]
      exact .inl rfl
  | config lobby low high room track league => exact .inl (.of_statuses rfl le_rfl fun _ => rfl)
  | next i seated host phase => exact .inr ⟨rfl, s.beginLobby_fresh⟩
  | close i seated owner first =>
    refine .inl (.of_slot rfl rfl (fun j other => ?_) seated ?_ ?_)
    · change ((s.disconnect i).players j).status = _
      rw [disconnect, modify_players_ne _ _ other]
    · intro _
      change _ ≤ ((s.disconnect i).players i).status.rank
      rw [disconnect, modify_players_self]
      exact Status.rank_le_disconnected _
    · intro _
      change ((s.disconnect i).players i).status = _ ∨ ((s.disconnect i).players i).status = _
      rw [disconnect, modify_players_self]
      exact .inr rfl
  | leave i seated more => exact .inl (.leave staging seated)
  | empty i seated last =>
    have fresh := beginLobby_fresh ((s.disconnect i).vacate i)
    exact .inr ⟨rfl, ⟨rfl, rfl, fresh.status, fresh.still, fresh.idle⟩⟩
  | allSelected lobby full ready =>
    exact .inl (.of_statuses rfl (rank_le_of_phases (q := .loading) lobby rfl (by decide)) fun _ => rfl)
  | allLoaded now loading ready ahead =>
    exact .inl (.of_statuses rfl (rank_le_of_phases (q := .countdown) loading rfl (by decide)) fun _ => rfl)
  | reschedule now counting missing late ahead => exact .inl (.of_statuses rfl le_rfl fun _ => rfl)
  | go now counting ready due =>
    have loaded := staging.countdown counting
    refine .inl ⟨rfl, rank_le_of_phases (q := .racing) counting rfl (by decide), fun _ i => ?_,
      fun i done => ?_, fun i gone => ?_⟩
    · simp only [release]
      split
      next seated =>
        rw [loaded i seated]
        exact (by decide : Status.loaded.rank ≤ Status.racing.rank)
      next => exact le_rfl
    · have seated : (s.players i).occupied = true := occupied_iff.mpr (by rw [done]; decide)
      rw [loaded i seated] at done
      cases done
    · have vacant : (s.players i).occupied = false := by simp [Player.occupied, gone]
      simp only [release, vacant]
      exact gone
  | allFinished racing ready =>
    exact .inl (.of_statuses rfl (rank_le_of_phases (q := .results) racing rfl (by decide)) fun _ => rfl)
  | shut quiet => exact .inl (.of_statuses quiet.race (by rw [quiet.phase]) quiet.status)

theorem Stay.forward {s t : Server} (stay : Stay s t) (seating : Seating s) (staging : Staging s)
    (live : t.closed = false) : Forward s t := by
  induction stay with
  | refl => exact .refl s
  | @tail u t previous within ih =>
    have liveU := Path.live (.single within.1) live
    have staged := (Path.seating_staging (Stay.path previous) liveU ⟨seating, staging⟩).2
    refine (ih liveU).trans ?_
    rcases within.1.forward_or_fresh staged with forward | ⟨race, _⟩
    · exact forward
    · rw [within.2] at race
      exact absurd race.symm (by simp)

/-- Once out of the race a car is off the track. -/
def OffTrack (s : Server) : Prop := ∀ i, (s.players i).status = .finished ∨
  (s.players i).status = .disconnected → (s.players i).x = 0 ∧ (s.players i).y = 0

theorem OffTrack.modify {s : Server} (off : OffTrack s) {i : Fin 4} {f : Player → Player}
    (fits : (f (s.players i)).status = .finished ∨ (f (s.players i)).status = .disconnected →
      (f (s.players i)).x = 0 ∧ (f (s.players i)).y = 0) : OffTrack (s.modify i f) := by
  intro j
  rw [modify_players]
  split
  · exact fits
  · exact off j

theorem OffTrack.congr {s t : Server} (off : OffTrack s)
    (same : ∀ i, (t.players i).status = (s.players i).status ∧ (t.players i).x = (s.players i).x ∧
      (t.players i).y = (s.players i).y) : OffTrack t := by
  intro i out
  rw [(same i).1] at out
  rw [(same i).2.1, (same i).2.2]
  exact off i out

theorem OffTrack.move {s t : Server} (off : OffTrack s) (move : Move s t) : OffTrack t := by
  cases move with
  | calm calm =>
    cases calm with
    | quiet quiet =>
      exact off.congr fun i => ⟨quiet.status i, quiet.field Player.x (fun _ => rfl) i,
        quiet.field Player.y (fun _ => rfl) i⟩
    | spoil i address lobby free => exact off.modify fun _ => ⟨rfl, rfl⟩
    | seat r address nonce i lobby free drawn room fresh =>
      intro j
      by_cases isJ : j = i
      · subst isJ
        rw [seat_players_self]
        exact fun _ => ⟨rfl, rfl⟩
      · rw [seat_players_ne s _ _ _ _ isJ]
        exact off j
    | steer i seq x y orientation now packets bytes racing status =>
      refine off.modify fun out => ?_
      rw [status] at out
      simp at out
  | acknowledge r i packet seated =>
    exact off.congr fun j => ⟨acknowledge_players_eq Player.status (fun _ _ _ => rfl) s r i packet j,
      acknowledge_players_eq Player.x (fun _ _ _ => rfl) s r i packet j,
      acknowledge_players_eq Player.y (fun _ _ _ => rfl) s r i packet j⟩
  | select i seated lobby low => exact off.modify fun out => by simp at out
  | load i x y orientation now seated loading => exact off.modify fun out => by simp at out
  | arm i seated counting => exact off.modify (off i)
  | finish i racing status => exact off.modify fun _ => ⟨rfl, rfl⟩
  | config lobby low high room track league => exact off
  | next i seated host phase => exact fun j _ => s.beginLobby_fresh.still j
  | close i seated owner first =>
    have down : OffTrack (s.disconnect i) := off.modify fun _ => ⟨rfl, rfl⟩
    exact down
  | leave i seated more =>
    intro j
    by_cases isJ : j = i
    · subst isJ
      rw [vacate_players_self]
      split <;> exact fun _ => ⟨rfl, rfl⟩
    · rw [vacate_players_ne s isJ]
      exact off j
  | empty i seated last => exact fun j _ => (beginLobby_fresh _).still j
  | allSelected lobby full ready => exact off
  | allLoaded now loading ready ahead => exact off
  | reschedule now counting missing late ahead => exact off
  | go now counting ready due =>
    intro i
    simp only [release]
    split
    · exact fun out => by simp at out
    · exact off i
  | allFinished racing ready => exact off
  | shut quiet =>
    have closed : OffTrack { s with closed := true } := off
    exact closed.congr fun i => ⟨quiet.status i, quiet.field Player.x (fun _ => rfl) i,
      quiet.field Player.y (fun _ => rfl) i⟩

theorem reachable_offTrack {s : Server} (reach : system.Reachable s) : OffTrack s := by
  refine reachable_of_moves ?_ (fun s t move off => off.move move) reach
  rintro s ⟨c, session, now, created⟩ i _
  obtain ⟨_, _, _, _, _, rfl⟩ := create_some created
  exact ⟨rfl, rfl⟩

end FzeroVs.Server
