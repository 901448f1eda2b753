import FzeroVs.Server.Staging

namespace FzeroVs.Server

/-- No barrier that only waits for players is left complete. -/
structure Settled (s : Server) : Prop where
  lobby : s.phase = .lobby → s.count < s.expected.toNat ∨ ∃ i, (s.players i).status = .joined
  loading : s.phase = .loading → ∃ i, (s.players i).occupied = true ∧ (s.players i).status ≠ .loaded
  racing : s.phase = .racing → ∃ i, (s.players i).status = .racing

theorem Settled.congr {s t : Server} (settled : Settled s) (phase : t.phase = s.phase)
    (expected : t.expected = s.expected)
    (status : ∀ i, (t.players i).status = (s.players i).status) : Settled t := by
  have occupied (i : Fin 4) := occupied_congr (status i)
  have count := count_congr occupied
  constructor <;> simp only [phase, expected, status, occupied, count]
  · exact settled.lobby
  · exact settled.loading
  · exact settled.racing

theorem Settled.quiet {s t : Server} (settled : Settled s) (quiet : Quiet s t) : Settled t :=
  settled.congr quiet.phase quiet.expected quiet.status

/-- A newcomer has not selected, a car on the track has not finished. -/
theorem Settled.calm {s t : Server} (settled : Settled s) (calm : Calm s t) : Settled t := by
  cases calm with
  | quiet quiet => exact settled.quiet quiet
  | spoil i address lobby free =>
    have count : (s.modify i fun _ => { address := address }).count = s.count :=
      count_congr (modify_players_eq Player.occupied free.symm)
    refine ⟨fun _ => ?_, fun loading => ?_, fun racing => ?_⟩
    · rcases settled.lobby lobby with few | ⟨j, joined⟩
      · exact .inl (by rw [count]; exact few)
      · refine .inr ⟨j, ?_⟩
        rw [modify_players_ne _ _ fun same => by simp [same, Player.occupied] at free joined; simp_all]
        exact joined
    · exact absurd (lobby.symm.trans loading) (by decide)
    · exact absurd (lobby.symm.trans racing) (by decide)
  | seat r address nonce i lobby free drawn room fresh =>
    refine ⟨fun _ => .inr ⟨i, by rw [seat_players_self]⟩, fun loading => ?_, fun racing => ?_⟩
    · exact absurd (lobby.symm.trans loading) (by decide)
    · exact absurd (lobby.symm.trans racing) (by decide)
  | steer i seq x y orientation now packets bytes racing status =>
    exact settled.congr rfl rfl (modify_players_eq Player.status rfl)

/-- A barrier on a status is open only because of some player below it. -/
theorem exists_below {s : Server} {status : Status} (present : 0 < s.count)
    (blocked : ¬ s.allAtLeast status = true) :
    ∃ i, (s.players i).occupied = true ∧ (s.players i).status.rank < status.rank := by
  by_contra none
  push Not at none
  exact blocked (allAtLeast_iff.mpr ⟨present, none⟩)

theorem enterLoading_lobby {s : Server} (seating : Seating s) (staging : Staging s)
    (lobby : s.enterLoading.phase = .lobby) :
    s.enterLoading = s ∧ (s.count < s.expected.toNat ∨ ∃ i, (s.players i).status = .joined) := by
  unfold enterLoading at lobby ⊢
  split at lobby
  · exact nomatch lobby
  next blocked =>
    rw [if_neg blocked]
    refine ⟨rfl, ?_⟩
    by_contra complete
    push Not at complete
    have two := UInt8.le_iff_toNat_le.mp seating.fewest
    have full := Nat.le_antisymm seating.capacity complete.1
    refine blocked ⟨lobby, full, ?_⟩
    by_contra open'
    obtain ⟨i, seated, low⟩ := exists_below (by rw [full]; exact Nat.lt_of_lt_of_le (by decide) two) open'
    rw [occupied_iff] at seated
    have joined := complete.2 i
    rcases (staging.lobby lobby).2 i with empty | isJoined | selected
    · exact seated.1 empty
    · exact joined isJoined
    · rw [selected] at low
      exact absurd low (by decide)

theorem enterCountdown_of_phase {s : Server} {now : UInt64}
    (other : (s.enterCountdown now).phase ≠ .countdown) : s.enterCountdown now = s ∧
      (s.phase = .loading → ¬ s.allAtLeast .loaded = true) := by
  unfold enterCountdown at other ⊢
  split at other
  · exact absurd rfl other
  next blocked =>
    rw [if_neg blocked]
    exact ⟨rfl, fun loading ready => blocked ⟨loading, ready⟩⟩

theorem countdown_of_phase {s : Server} {now : UInt64} (notCounting : (s.countdown now).phase ≠ .countdown)
    (notRacing : (s.countdown now).phase ≠ .racing) : s.countdown now = s := by
  unfold countdown at notCounting notRacing ⊢
  split
  next counting =>
    rw [if_pos counting] at notCounting notRacing
    split at notCounting
    · exact absurd counting notCounting
    next late =>
      rw [if_neg late] at notRacing
      split at notRacing
      · exact absurd rfl notRacing
      next early =>
        rw [if_neg early] at notCounting
        exact absurd counting notCounting
  next => rfl

theorem enterResults_of_phase {s : Server} (other : s.enterResults.phase ≠ .results) :
    s.enterResults = s ∧ (s.phase = .racing → ¬ s.allAtLeast .finished = true) := by
  unfold enterResults at other ⊢
  split at other
  · exact absurd rfl other
  next blocked =>
    rw [if_neg blocked]
    exact ⟨rfl, fun racing ready => blocked ⟨racing, ready⟩⟩

/-- One pass over the barriers leaves none of them complete. -/
theorem passBarriers_settled {s : Server} (now : Micros) (live : s.closed = false) (seating : Seating s)
    (staging : Staging s) : Settled (s.passBarriers now.val) := by
  have staged {t : Server} (path : Path s t) (liveT : t.closed = false) : Staging t :=
    (Path.seating_staging path liveT ⟨seating, staging⟩).2
  have pathL := s.enterLoading_stay.path
  have pathC := pathL.trans (enterCountdown_stay _ now).path
  have pathD := pathC.trans (countdown_stay _ now).path
  have liveL : s.enterLoading.closed = false := by unfold enterLoading; split <;> exact live
  have liveC : (s.enterLoading.enterCountdown now.val).closed = false := by
    unfold enterCountdown; split <;> exact liveL
  have liveD : ((s.enterLoading.enterCountdown now.val).countdown now.val).closed = false := by
    unfold countdown; split <;> (try split) <;> (try split) <;> exact liveC
  unfold passBarriers
  constructor
  · intro lobby
    have last := enterResults_of_phase (by rw [lobby]; decide)
    rw [last.1] at lobby ⊢
    have third := countdown_of_phase (by rw [lobby]; decide) (by rw [lobby]; decide)
    rw [third] at lobby ⊢
    have second := enterCountdown_of_phase (by rw [lobby]; decide)
    rw [second.1] at lobby ⊢
    obtain ⟨same, waits⟩ := enterLoading_lobby seating staging lobby
    rw [same]
    exact waits
  · intro loading
    have last := enterResults_of_phase (by rw [loading]; decide)
    rw [last.1] at loading ⊢
    have third := countdown_of_phase (by rw [loading]; decide) (by rw [loading]; decide)
    rw [third] at loading ⊢
    have second := enterCountdown_of_phase (by rw [loading]; decide)
    rw [second.1] at loading ⊢
    have present := (staged pathL liveL).present (by rw [loading]; decide)
    obtain ⟨i, seated, low⟩ := exists_below present (second.2 loading)
    exact ⟨i, seated, fun loaded => by rw [loaded] at low; exact absurd low (by decide)⟩
  · intro racing
    have last := enterResults_of_phase (by rw [racing]; decide)
    rw [last.1] at racing ⊢
    have stagedD := staged pathD liveD
    obtain ⟨i, seated, low⟩ := exists_below (stagedD.present (by rw [racing]; decide)) (last.2 racing)
    rcases stagedD.racing racing i seated with running | finished
    · exact ⟨i, running⟩
    · rw [finished] at low
      exact absurd low (by decide)

theorem advance_settled {s : Server} (now : Micros) (live : (s.advance now.val).closed = false)
    (seating : Seating s) (staging : Staging s) : Settled (s.advance now.val) := by
  have dropped := dropEach_path now.val slots s
  simp only [advance] at live ⊢
  split at live
  next closed => rw [closed] at live; cases live
  next opened =>
    rw [if_neg opened]
    have liveT : (s.dropSilent now.val).closed = false := by simpa using opened
    have both := Path.seating_staging dropped liveT ⟨seating, staging⟩
    exact passBarriers_settled now liveT both.1 both.2

theorem receivePacket_settled {s : Server} (r : Readings) (random : UInt64) (address : Endpoint)
    (data : List UInt8) (live : (s.receivePacket r random address data).closed = false)
    (seating : Seating s) (staging : Staging s) (settled : Settled s) :
    Settled (s.receivePacket r random address data) := by
  rcases s.receivePacket_cases r random address data with calm | ⟨i, packet, _, takes, same⟩
  · generalize s.receivePacket r random address data = t at calm
    induction calm with
    | refl => exact settled
    | tail _ step ih => exact ih.calm step
  · rw [same] at live ⊢
    have taken := takeCommand_path (s := s.countRx) r packet takes.seated
    have counted := s.countRx_quiet
    have quiet := (snapshot_quiet ((s.countRx.takeCommand r i packet).advance
      r.advanced.val) r.sampled.val)
    have liveA := quiet.closed.symm.trans live
    have liveT := Path.live (advance_path _ r.advanced) liveA
    have both := Path.seating_staging (counted.path.trans taken) liveT ⟨seating, staging⟩
    exact (advance_settled r.advanced liveA both.1 both.2).quiet quiet

theorem timer_settled {s : Server} (now sampled : Micros) (live : (s.timer now sampled).closed = false)
    (seating : Seating s) (staging : Staging s) (settled : Settled s) :
    Settled (s.timer now sampled) := by
  unfold timer at live ⊢
  split at live
  next due =>
    rw [if_pos due]
    dsimp only at live ⊢
    split at live
    next closed => exact absurd live (by simp [closed])
    next opened =>
      rw [if_neg opened]
      have ready := advance_settled now (by simpa using opened) seating staging
      exact (ready.quiet (snapshot_quiet _ _)).quiet (setTick_quiet _ _)
  next early =>
    rw [if_neg early]
    exact settled

/-- In every reachable state of an open room each untimed barrier still waits
for somebody. -/
theorem reachable_settled {s : Server} (reach : system.Reachable s) (live : s.closed = false) :
    Settled s := by
  refine reach.invariant (P := fun s => s.closed = false → Settled s) ?_ ?_ live
  · rintro s ⟨c, session, now, created⟩ _
    have seating := Seating.create created
    obtain ⟨_, _, _, _, _, rfl⟩ := create_some created
    have two := UInt8.le_iff_toNat_le.mp seating.fewest
    constructor
    · intro _
      exact .inl (Nat.lt_of_lt_of_le (by decide : 0 < 2) two)
    · intro loading
      exact nomatch loading
    · intro racing
      exact nomatch racing
  · intro s e reach _ _ holds live
    have liveS := Path.live (s.step_path e) live
    have seating := reachable_seating reach liveS
    have staging := reachable_staging reach liveS
    cases e with
    | packet d => exact receivePacket_settled _ _ _ _ live seating staging (holds liveS)
    | timer now sampled => exact timer_settled now sampled live seating staging (holds liveS)
    | probe now => exact (holds liveS).quiet (s.probe_quiet now)
    | close =>
      rcases s.close_cases with same | ⟨_, closed⟩
      · rw [show system.step s .close = s from same]
        exact holds liveS
      · rw [show (system.step s .close).closed = true from closed] at live
        exact nomatch live

/-- What each phase of an open room says about its players, and which player
an untimed barrier is waiting for. -/
theorem open_room_staging {s : Server} (reach : system.Reachable s) (live : s.closed = false) :
    (s.phase = .lobby → s.start = 0 ∧ ∀ i, (s.players i).status = .empty ∨
      (s.players i).status = .joined ∨ (s.players i).status = .selected) ∧
    (s.phase = .loading → s.start = 0 ∧ ∀ i, (s.players i).occupied = true →
      (s.players i).status = .selected ∨ (s.players i).status = .loaded) ∧
    (s.phase = .countdown → 0 < s.start ∧ ∀ i, (s.players i).occupied = true →
      (s.players i).status = .loaded) ∧
    (s.phase = .racing → ∀ i, (s.players i).occupied = true →
      (s.players i).status = .racing ∨ (s.players i).status = .finished) ∧
    (s.phase = .results → ∀ i, (s.players i).occupied = true → (s.players i).status = .finished) ∧
    (s.phase ≠ .lobby → ∃ i, (s.players i).occupied = true) ∧
    (s.phase = .lobby → s.count < s.expected.toNat ∨ ∃ i, (s.players i).status = .joined) ∧
    (s.phase = .loading → ∃ i, (s.players i).occupied = true ∧ (s.players i).status ≠ .loaded) ∧
    (s.phase = .racing → ∃ i, (s.players i).status = .racing) := by
  have staging := reachable_staging reach live
  have settled := reachable_settled reach live
  refine ⟨staging.lobby, staging.loading, fun counting => ⟨?_, staging.countdown counting⟩,
    staging.racing, staging.results, fun started => count_pos_iff.mp (staging.present started),
    settled.lobby, settled.loading, settled.racing⟩
  have ahead := staging.deadline (by rw [counting])
  exact UInt64.pos_iff_ne_zero.mpr ahead

theorem sampleJoin_staging : (sampleRoom.step sampleJoin).closed = false ∧
    (sampleRoom.step sampleJoin).phase = .lobby ∧ (sampleRoom.step sampleJoin).start = 0 ∧
    ∀ i, ((sampleRoom.step sampleJoin).players i).status = .empty ∨
      ((sampleRoom.step sampleJoin).players i).status = .joined ∨
      ((sampleRoom.step sampleJoin).players i).status = .selected := by
  have live : (sampleRoom.step sampleJoin).closed = false := by decide +kernel
  have lobby : (sampleRoom.step sampleJoin).phase = .lobby := by decide +kernel
  exact ⟨live, lobby, (open_room_staging sampleJoin_reachable live).1 lobby⟩

end FzeroVs.Server
