import FzeroVs.Server.Lobbies

namespace FzeroVs

/-- Where a car is and where it points. -/
structure Position where
  x : UInt16
  y : UInt16
  orientation : UInt8
  deriving DecidableEq, Repr

def Player.position (p : Player) : Position := ⟨p.x, p.y, p.orientation⟩

/-- The content of a STATE. -/
structure Report where
  seq : UInt32
  position : Position
  deriving DecidableEq, Repr

/-- No new position and no new movement sequence: a slot that is loaded or
racing afterwards was so before, unless the start has just released it. -/
structure Player.Still (p q : Player) : Prop where
  early : q.status.rank ≤ Status.loaded.rank →
    q.stateSeq = 0 ∨ (p.status.rank ≤ Status.loaded.rank ∧ q.stateSeq = p.stateSeq)
  kept : q.status = .loaded ∨ q.status = .racing →
    (p.status = q.status ∨ (p.status = .loaded ∧ q.status = .racing)) ∧
      q.position = p.position ∧ q.stateSeq = p.stateSeq

namespace Player

theorem Still.of_eq {p q : Player} (status : q.status = p.status) (position : q.position = p.position)
    (seq : q.stateSeq = p.stateSeq) : Still p q :=
  ⟨fun low => .inr ⟨status ▸ low, seq⟩, fun _ => ⟨.inl status.symm, position, seq⟩⟩

theorem Still.refl (p : Player) : Still p p := .of_eq rfl rfl rfl

theorem Still.trans {p q r : Player} (first : Still p q) (second : Still q r) : Still p r where
  early low := by
    rcases second.early low with zero | ⟨lowQ, same⟩
    · exact .inl zero
    · rcases first.early lowQ with zero | ⟨lowP, same'⟩
      · exact .inl (same.trans zero)
      · exact .inr ⟨lowP, same.trans same'⟩
  kept present := by
    obtain ⟨after, position, seq⟩ := second.kept present
    have presentQ : q.status = .loaded ∨ q.status = .racing := by
      rcases after with same | ⟨loaded, _⟩
      · rwa [same]
      · exact .inl loaded
    obtain ⟨before, position', seq'⟩ := first.kept presentQ
    refine ⟨?_, position.trans position', seq.trans seq'⟩
    rcases after with same | ⟨loaded, racing⟩
    · rwa [← same]
    · rcases before with same | ⟨_, racing'⟩
      · exact .inr ⟨same.trans loaded, racing⟩
      · exact absurd (racing'.symm.trans loaded) (by decide)

/-- A slot that is neither loaded nor racing afterwards only has to have its
sequence cleared. -/
theorem Still.of_out {p q : Player} (loaded : q.status ≠ .loaded) (racing : q.status ≠ .racing)
    (early : q.status.rank ≤ Status.loaded.rank →
      q.stateSeq = 0 ∨ (p.status.rank ≤ Status.loaded.rank ∧ q.stateSeq = p.stateSeq)) : Still p q :=
  ⟨early, fun present => by rcases present with h | h <;> contradiction⟩

end Player

namespace Server

/-- `Player.Still` for every slot. -/
def Still (s t : Server) : Prop := ∀ i, (s.players i).Still (t.players i)

theorem Still.refl (s : Server) : Still s s := fun i => .refl (s.players i)

theorem Still.trans {s t u : Server} (first : Still s t) (second : Still t u) : Still s u :=
  fun i => (first i).trans (second i)

theorem Still.modify {s : Server} {i : Fin 4} {f : Player → Player}
    (still : (s.players i).Still (f (s.players i))) : Still s (s.modify i f) := by
  intro j
  rw [modify_players]
  split
  next same => subst same; exact still
  next => exact .refl _

theorem Quiet.still {s t : Server} (quiet : Quiet s t) : Still s t :=
  fun i => .of_eq (quiet.status i) (quiet.field Player.position (fun _ => rfl) i)
    (quiet.field Player.stateSeq (fun _ => rfl) i)

theorem beginLobby_still (s : Server) : Still s s.beginLobby := by
  intro i
  obtain ⟨status, _, _, seq⟩ := relobby_fresh (s.players i)
  refine .of_out ?_ ?_ fun _ => .inl seq
  all_goals
    change (relobby (s.players i)).status ≠ _
    rcases status with empty | joined <;> simp_all

theorem drop_still (s : Server) (i : Fin 4) : Still s (s.drop i) := by
  have down : Still s (s.disconnect i) := .modify (.of_out (by simp) (by simp) fun low => by simp [Status.rank] at low)
  have cleared : Still (s.disconnect i) ((s.disconnect i).vacate i) := by
    intro j
    by_cases isJ : j = i
    · rw [isJ, vacate_players_self]
      split
      · exact .of_out (by simp) (by simp) fun _ => .inl rfl
      · rw [disconnect, modify_players_self]
        exact .refl _
    · rw [vacate_players_ne s isJ, disconnect, modify_players_ne _ _ isJ]
      exact .refl _
  rcases s.drop_cases i with ⟨same, _⟩ | ⟨same, _⟩ | ⟨same, _⟩
  · rw [same]
    exact down
  · rw [same]
    exact down.trans cleared
  · rw [same]
    exact (down.trans cleared).trans (beginLobby_still _)

theorem dropEach_still (now : UInt64) (l : List (Fin 4)) (s : Server) : Still s (dropEach now l s) :=
  dropEach_invariant (.refl s) fun t i _ still => still.trans (t.drop_still i)

theorem enterLoading_still (s : Server) : Still s s.enterLoading := by
  unfold enterLoading
  split <;> exact .refl s

theorem enterCountdown_still (s : Server) (now : UInt64) : Still s (s.enterCountdown now) := by
  unfold enterCountdown
  split
  · exact fun i => .of_eq rfl rfl rfl
  · exact .refl s

theorem countdown_still {s : Server} (now : UInt64) (staging : Staging s) : Still s (s.countdown now) := by
  unfold countdown
  split
  next counting =>
    split
    · exact fun i => .refl (s.players i)
    · split
      · intro i
        simp only [release]
        split
        next seated =>
          have loaded := staging.countdown counting i seated
          exact ⟨fun low => by simp [Status.rank] at low, fun _ => ⟨.inr ⟨loaded, rfl⟩, rfl, rfl⟩⟩
        next => exact .refl _
      · exact .refl s
  next => exact .refl s

theorem enterResults_still (s : Server) : Still s s.enterResults := by
  unfold enterResults
  split <;> exact .refl s

theorem passBarriers_still {s : Server} (now : Micros) (live : s.closed = false) (seating : Seating s)
    (staging : Staging s) : Still s (s.passBarriers now.val) := by
  have path := s.enterLoading_stay.path.trans (enterCountdown_stay _ now).path
  have opened : (s.enterLoading.enterCountdown now.val).closed = false := by
    unfold enterCountdown enterLoading
    repeat' split
    all_goals exact live
  have staged := (Path.seating_staging path opened ⟨seating, staging⟩).2
  have first := s.enterLoading_still.trans (enterCountdown_still _ now.val)
  exact (first.trans (countdown_still now.val staged)).trans (enterResults_still _)

theorem advance_still {s : Server} (now : Micros)
    (rules : s.closed = false → Seating s ∧ Staging s) : Still s (s.advance now.val) := by
  have dropped := dropEach_still now.val slots s
  by_cases closed : (dropEach now.val slots s).closed = true
  · have same : s.advance now.val = dropEach now.val slots s := if_pos closed
    rw [same]
    exact dropped
  · have same : s.advance now.val = (dropEach now.val slots s).passBarriers now.val := if_neg closed
    have path := dropEach_path now.val slots s
    have liveT : (dropEach now.val slots s).closed = false := by simpa using closed
    have both := Path.seating_staging path liveT (rules (Path.live path liveT))
    rw [same]
    exact dropped.trans (passBarriers_still now liveT both.1 both.2)

theorem acknowledge_still (s : Server) (r : Readings) (i : Fin 4) (packet : Packet) :
    Still s (s.acknowledge r i packet) :=
  fun j => .of_eq (acknowledge_players_eq Player.status (fun _ _ _ => rfl) s r i packet j)
    (acknowledge_players_eq Player.position (fun _ _ _ => rfl) s r i packet j)
    (acknowledge_players_eq Player.stateSeq (fun _ _ _ => rfl) s r i packet j)

theorem commandTail_still (s : Server) (i : Fin 4) (packet : Packet) : Still s (s.commandTail i packet) := by
  unfold commandTail
  split
  · exact s.beginLobby_still
  · exact s.drop_still i
  · exact .refl s

/-- Of the commands only LOADED brings a position. -/
theorem commandEffect_still {s : Server} (r : Readings) {i : Fin 4} {packet : Packet} (staging : Staging s)
    (valid : s.commandValid i packet = true) (other : Command.ofCode (packet.byte 0) ≠ some .loaded) :
    Still s (s.commandEffect r i packet) := by
  unfold commandValid at valid
  unfold commandEffect
  cases hcode : Command.ofCode (packet.byte 0) with
  | none => exact .refl s
  | some command =>
    cases command <;> simp only [hcode, Bool.and_eq_true, beq_iff_eq] at valid
    case select =>
      refine .modify (.of_out (by simp) (by simp) fun _ => .inr ⟨?_, rfl⟩)
      rcases (staging.lobby valid.2).2 i with empty | joined | selected
      · rw [empty]; decide
      · rw [joined]; decide
      · rw [selected]; decide
    case loaded => exact absurd hcode other
    case arm => exact .modify (.of_eq rfl rfl rfl)
    case finish => exact .modify (.of_out (by simp) (by simp) fun low => by simp [Status.rank] at low)
    all_goals exact .refl s

theorem receiveHello_still (s : Server) (r : Readings) (random : UInt64) (address : Endpoint)
    (packet : Packet) : Still s (s.receiveHello r random address packet) := by
  unfold receiveHello
  split
  · exact s.reject_quiet.still
  simp only
  split
  · exact (s.joinError_quiet _ _ _).still
  split
  · exact (s.joinError_quiet _ _ _).still
  split
  · split
    · exact (transmit_quiet _ _ _).still
    · exact .refl s
  split
  · exact (s.joinError_quiet _ _ _).still
  split
  · exact (s.joinError_quiet _ _ _).still
  split
  next i _ =>
    unfold enroll
    split
    · exact .modify (.of_out (by simp) (by simp) fun _ => .inl rfl)
    · refine Still.trans (t := s.seat r random address (u64 packet.payload) i) ?_
        ((transmit_quiet _ _ _).trans (snapshot_quiet _ _)).still
      intro j
      by_cases isJ : j = i
      · rw [isJ, seat_players_self]
        exact .of_out (by simp) (by simp) fun _ => .inl rfl
      · rw [seat_players_ne s _ _ _ _ isJ]
        exact .refl _
  · exact .refl s

def reportOf (packet : Packet) : Report :=
  ⟨packet.seq, u16 packet.payload, u16 (packet.payload.drop 2), packet.byte 4⟩

/-- The five-byte STATE of the current generation that an event delivers to
slot `i`, whose session, token and endpoint it carries, while it is racing. -/
def reports (s : Server) : Event → Fin 4 → Option Report
  | .packet d, i =>
    match decode d.data with
    | some packet =>
      if s.closed = false ∧ (s.players i).status = .racing ∧ packet.is .state = true ∧
          packet.length = 5 ∧ packet.session = s.session ∧ packet.token = (s.players i).token ∧
          d.address = (s.players i).address ∧ packet.race = s.race then some (reportOf packet)
      else none
    | none => none
  | .timer _ _, _ => none
  | .probe _, _ => none
  | .close, _ => none

instance (s : Server) (address : Endpoint) (i : Fin 4) (packet : Packet) :
    Decidable (Takes s address i packet) :=
  decidable_of_iff
    ((s.closed = false ∧ (s.players i).occupied = true ∧ packet.session = s.session ∧
      packet.token = (s.players i).token ∧ address = (s.players i).address) ∧
      packet.is .command = true ∧ packet.race = s.race ∧ 1 ≤ packet.length.toNat ∧
      packet.seq = (s.players i).commandSeq + 1)
    ⟨fun ⟨⟨a, b, c, d, e⟩, f, g, h, k⟩ => ⟨a, b, c, d, e, f, g, h, k⟩,
      fun ⟨a, b, c, d, e, f, g, h, k⟩ => ⟨⟨a, b, c, d, e⟩, f, g, h, k⟩⟩

/-- The position in the LOADED that an event makes the server apply to slot `i`. -/
def loads (s : Server) : Event → Fin 4 → Option Position
  | .packet d, i =>
    match decode d.data with
    | some packet =>
      if Takes s d.address i packet ∧ s.commandValid i packet = true ∧
          Command.ofCode (packet.byte 0) = some .loaded then
        some ⟨u16 (packet.payload.drop 1), u16 (packet.payload.drop 3), packet.byte 5⟩
      else none
    | none => none
  | .timer _ _, _ => none
  | .probe _, _ => none
  | .close, _ => none

theorem loads_some {s : Server} {e : Event} {i : Fin 4} {position : Position}
    (loaded : s.loads e i = some position) : ∃ d packet, e = .packet d ∧
      decode d.data = some packet ∧ Takes s d.address i packet ∧ s.commandValid i packet = true ∧
      Command.ofCode (packet.byte 0) = some .loaded ∧
      position = ⟨u16 (packet.payload.drop 1), u16 (packet.payload.drop 3), packet.byte 5⟩ := by
  cases e with
  | packet d =>
    simp only [loads] at loaded
    split at loaded
    next packet decoded =>
      split at loaded
      next fits =>
        exact ⟨d, packet, rfl, decoded, fits.1, fits.2.1, fits.2.2, (Option.some.inj loaded).symm⟩
      next => exact nomatch loaded
    next => exact nomatch loaded
  | timer now sampled => exact nomatch loaded
  | probe now => exact nomatch loaded
  | close => exact nomatch loaded

theorem reports_some {s : Server} {e : Event} {i : Fin 4} {report : Report}
    (reported : s.reports e i = some report) : ∃ d packet, e = .packet d ∧
      decode d.data = some packet ∧ s.closed = false ∧ (s.players i).status = .racing ∧
      packet.is .state = true ∧ packet.length = 5 ∧ packet.session = s.session ∧
      packet.token = (s.players i).token ∧ d.address = (s.players i).address ∧
      packet.race = s.race ∧ report = reportOf packet := by
  cases e with
  | packet d =>
    simp only [reports] at reported
    split at reported
    next packet decoded =>
      split at reported
      next fits =>
        obtain ⟨live, racing, state, length, session, token, place, race⟩ := fits
        exact ⟨d, packet, rfl, decoded, live, racing, state, length, session, token, place, race,
          (Option.some.inj reported).symm⟩
      next => exact nomatch reported
    next => exact nomatch reported
  | timer now sampled => exact nomatch reported
  | probe now => exact nomatch reported
  | close => exact nomatch reported

theorem Packet.is_state {packet : Packet} (state : packet.is .state = true) :
    packet.is .hello = false ∧ packet.is .pong = false ∧ packet.is .ping = false := by
  simp only [Packet.is, beq_iff_eq] at state ⊢
  rw [state]
  decide

theorem Staging.phase_of_racing {s : Server} (staging : Staging s) {i : Fin 4}
    (racing : (s.players i).status = .racing) : s.phase = .racing := by
  have seated : (s.players i).occupied = true := occupied_iff.mpr (by rw [racing]; decide)
  cases phase : s.phase with
  | racing => rfl
  | lobby => rcases (staging.lobby phase).2 i with h | h | h <;> simp_all
  | loading => rcases (staging.loading phase).2 i seated with h | h <;> simp_all
  | countdown => exact absurd ((staging.countdown phase i seated).symm.trans racing) (by decide)
  | results => exact absurd ((staging.results phase i seated).symm.trans racing) (by decide)

/-- A STATE that is newer than the last one moves its sender's car and nothing
else. -/
theorem reports_received {s : Server} {e : Event} {i : Fin 4} {report : Report} (seating : Seating s)
    (staging : Staging s) (reported : s.reports e i = some report)
    (fresh : newer report.seq (s.players i).stateSeq = true) :
    ((s.step e).players i).status = .racing ∧ ((s.step e).players i).stateSeq = report.seq ∧
    ((s.step e).players i).position = report.position ∧
    ∀ j, j ≠ i → (s.step e).players j = s.players j := by
  obtain ⟨d, packet, rfl, decoded, live, racing, state, length, session, token, place, race, rfl⟩ :=
    reports_some reported
  have seated : (s.players i).occupied = true := occupied_iff.mpr (by rw [racing]; decide)
  have counted := s.countRx_quiet
  have sender := authenticate_eq (s := s.countRx) (seating.quiet counted) seated session
    token place
  obtain ⟨hello, pong, ping⟩ := Packet.is_state state
  have opened : ¬ s.closed = true := by simp [live]
  have phase := staging.phase_of_racing racing
  change newer packet.seq _ = true at fresh
  simp only [step, receivePacket, decoded, if_neg opened, hello, sender, Bool.false_eq_true, if_false]
  rw [receiveFrom, if_neg (by simp [pong]), if_neg (by simp [ping]), if_neg (by simp [race]), if_pos state,
    receiveState, if_neg (by simp [length, phase, racing]), if_neg (by simpa using fresh)]
  refine ⟨?_, ?_, ?_, fun j other => modify_players_ne _ _ other⟩
  · rw [modify_players_self]
    exact racing
  · rw [modify_players_self]
    rfl
  · rw [modify_players_self]
    rfl

/-- What follows the switch brings no further position. -/
theorem receiveCommand_still {s : Server} (r : Readings) {i : Fin 4} {packet : Packet}
    (seated : (s.players i).occupied = true) (seating : Seating s) (staging : Staging s)
    (valid : s.commandValid i packet = true) :
    Still (s.commandEffect r i packet) (s.receiveCommand r i packet) := by
  have path := (commandEffect_path r seated valid).tail
    (.acknowledge r i packet (commandEffect_occupied r packet seated))
  have tail := commandTail_path r seated valid
  have still := (acknowledge_still (s.commandEffect r i packet) r i packet).trans
    (commandTail_still _ i packet)
  have taken : s.takeCommand r i packet =
      ((s.commandEffect r i packet).acknowledge r i packet).commandTail i packet := if_pos valid
  rw [receiveCommand, taken]
  refine still.trans ((advance_still r.advanced fun live => ?_).trans (snapshot_quiet _ _).still)
  exact Path.seating_staging (path.trans tail) live ⟨seating, staging⟩

/-- An applied LOADED puts its position into the sender's slot. -/
theorem loads_received {s : Server} {e : Event} {i : Fin 4} {position : Position}
    (loaded : s.loads e i = some position) (seating : Seating s) (staging : Staging s) :
    ∃ p : Player, p.status = .loaded ∧ p.position = position ∧
      p.stateSeq = (s.players i).stateSeq ∧ p.Still ((s.step e).players i) ∧
      (s.players i).status.rank ≤ Status.loaded.rank ∧
      ∀ j, j ≠ i → (s.players j).Still ((s.step e).players j) := by
  obtain ⟨d, packet, rfl, decoded, takes, valid, code, rfl⟩ := loads_some loaded
  have counted := s.countRx_quiet
  have still := receiveCommand_still (s := s.countRx) d.readings takes.seated
    (seating.quiet counted) (staging.congr rfl rfl fun _ => rfl) valid
  rw [step, takes.received seating decoded]
  simp only [commandEffect, code] at still
  refine ⟨_, ?_, ?_, ?_, still i, ?_, fun j other => ?_⟩
  · rw [modify_players_self]
  · rw [modify_players_self]
    rfl
  · rw [modify_players_self]
    rfl
  · have loading : s.phase = .loading := by
      simp only [commandValid, code, Bool.and_eq_true, beq_iff_eq] at valid
      exact valid.2
    rcases (staging.loading loading).2 i takes.seated with selected | loaded
    · rw [selected]; decide
    · rw [loaded]
  · have others := still j
    rwa [modify_players_ne _ _ other] at others

theorem receiveCommand_still_of_other {s : Server} (r : Readings) {i : Fin 4} {packet : Packet}
    (seated : (s.players i).occupied = true) (seating : Seating s) (staging : Staging s)
    (other : ¬ (s.commandValid i packet = true ∧ Command.ofCode (packet.byte 0) = some .loaded)) :
    Still s (s.receiveCommand r i packet) := by
  by_cases valid : s.commandValid i packet = true
  · have effect := commandEffect_still r staging valid fun loaded => other ⟨valid, loaded⟩
    exact effect.trans (receiveCommand_still r seated seating staging valid)
  · have taken : s.takeCommand r i packet = (s.acknowledge r i packet).commandError i packet :=
      if_neg valid
    have quiet := commandError_quiet (s.acknowledge r i packet) i packet
    have path : Path s ((s.acknowledge r i packet).commandError i packet) :=
      .head (.acknowledge r i packet seated) quiet.path
    rw [receiveCommand, taken]
    refine ((s.acknowledge_still r i packet).trans quiet.still).trans ?_
    refine (advance_still r.advanced fun live => ?_).trans (snapshot_quiet _ _).still
    exact Path.seating_staging path live ⟨seating, staging⟩

theorem receiveState_still {s : Server} (r : Readings) (i : Fin 4) (packet : Packet) (size : Nat)
    (refused : packet.length = 5 → (s.players i).status = .racing →
      newer packet.seq (s.players i).stateSeq = false) :
    Still s (s.receiveState r i packet size) := by
  unfold receiveState
  split
  · exact s.reject_quiet.still
  next fits =>
    simp only [ne_eq, not_or, not_not] at fits
    rw [if_pos (by simp [refused fits.1 fits.2.2])]
    exact s.countStale_quiet.still

/-- Nothing but a newer STATE and an applied LOADED brings a position. -/
theorem step_still {s : Server} {e : Event} (rules : s.closed = false → Seating s ∧ Staging s)
    (stale : ∀ i report, s.reports e i = some report →
      newer report.seq (s.players i).stateSeq = false)
    (unloaded : ∀ i, s.loads e i = none) : Still s (s.step e) := by
  cases e with
  | packet d =>
    have counted := s.countRx_quiet
    simp only [step, receivePacket]
    split
    · split
      · exact (s.joinError_quiet _ _ _).still
      · exact s.reject_quiet.still
    next packet decoded =>
      split
      · exact .refl s
      next opened =>
        have live : s.closed = false := by simpa using opened
        obtain ⟨seating, staging⟩ := rules live
        refine counted.still.trans ?_
        split
        · exact receiveHello_still _ _ _ _ _
        split
        · exact (reject_quiet _).still
        next i found =>
          obtain ⟨seated, session, token, place⟩ := authenticate_some found
          unfold receiveFrom
          split
          · exact (modify_quiet _ i rfl).still
          split
          · exact ((modify_quiet _ i rfl).trans (transmit_quiet _ _ _)).still
          split
          · exact (countStale_quiet _).still
          next current =>
            have race : packet.race = s.race := by simpa using current
            split
            next state =>
              refine receiveState_still _ _ _ _ fun length racing => ?_
              refine stale i (reportOf packet) ?_
              simp only [reports, decoded]
              exact if_pos ⟨live, racing, state, length, session, token, place, race⟩
            split
            · exact (reject_quiet _).still
            next command =>
              split
              · exact (countStale_quiet _).still
              split
              · exact (reject_quiet _).still
              next following =>
                simp only [not_or, not_not, not_lt] at command
                have takes : Takes s d.address i packet :=
                  ⟨live, seated, session, token, place, command.1, race, command.2, by simpa using following⟩
                refine receiveCommand_still_of_other d.readings seated (seating.quiet counted)
                  (staging.congr rfl rfl fun _ => rfl) fun loaded => ?_
                have absent := unloaded i
                simp only [loads, decoded] at absent
                rw [if_pos ⟨takes, loaded.1, loaded.2⟩] at absent
                cases absent
  | timer now sampled =>
    rcases s.timer_quiet now sampled with same | quiet
    · rw [step, same]
      exact .refl s
    · exact (advance_still now rules).trans quiet.still
  | probe now => exact (s.probe_quiet now).still
  | close =>
    rcases s.close_cases with same | ⟨quiet, _⟩
    · rw [step, same]
      exact .refl s
    · exact quiet.still

/-- Slot `i` has raced in this generation. -/
def Raced (s : Server) (i : Fin 4) : Prop :=
  Phase.racing.rank ≤ s.phase.rank ∧ Status.racing.rank ≤ (s.players i).status.rank

theorem Raced.of_status {s t : Server} {i : Fin 4} (raced : Raced s i) (phase : t.phase = s.phase)
    (status : (t.players i).status = (s.players i).status ∨
      Status.racing.rank ≤ (t.players i).status.rank) : Raced t i := by
  refine ⟨by rw [phase]; exact raced.1, ?_⟩
  rcases status with same | high
  · rw [same]
    exact raced.2
  · exact high

theorem Raced.modify {s : Server} {i j : Fin 4} {f : Player → Player} (raced : Raced s i)
    (status : (f (s.players j)).status = (s.players j).status ∨
      Status.racing.rank ≤ (f (s.players j)).status.rank) : Raced (s.modify j f) i := by
  refine raced.of_status rfl ?_
  rw [modify_players]
  split
  next same => subst same; exact status
  next => exact .inl rfl

theorem Raced.not_phase {s : Server} {i : Fin 4} (raced : Raced s i) {phase : Phase}
    (early : phase.rank < Phase.racing.rank) : s.phase ≠ phase := by
  intro same
  have late := raced.1
  rw [same] at late
  omega

/-- A car that has raced can only finish or disconnect. -/
theorem Raced.within {s t : Server} {i : Fin 4} (raced : Raced s i) (move : Move s t)
    (race : t.race = s.race) : Raced t i := by
  have notLobby : s.phase ≠ .lobby := raced.not_phase (by decide)
  cases move with
  | calm calm =>
    cases calm with
    | quiet quiet => exact raced.of_status quiet.phase (.inl (quiet.status i))
    | spoil j address lobby free => exact absurd lobby notLobby
    | seat r address nonce j lobby free drawn room fresh => exact absurd lobby notLobby
    | steer j seq x y orientation now packets bytes racing status => exact raced.modify (.inl rfl)
  | acknowledge r j packet seated =>
    exact raced.of_status rfl
      (.inl (acknowledge_players_eq Player.status (fun _ _ _ => rfl) s r j packet i))
  | select j seated lobby low => exact absurd lobby notLobby
  | load j x y orientation now seated loading => exact absurd loading (raced.not_phase (by decide))
  | arm j seated counting => exact absurd counting (raced.not_phase (by decide))
  | finish j racing status =>
    exact raced.modify (.inr (by decide : Status.racing.rank ≤ Status.finished.rank))
  | config lobby low high room track league => exact absurd lobby notLobby
  | next j seated host phase => exact absurd race (by simp [beginLobby])
  | close j seated owner first =>
    have down : Raced (s.disconnect j) i :=
      raced.modify (.inr (by decide : Status.racing.rank ≤ Status.disconnected.rank))
    exact down
  | leave j seated more =>
    refine raced.of_status rfl ?_
    by_cases isJ : i = j
    · subst isJ
      rw [vacate_players_self, if_neg notLobby]
      exact .inr (by decide : Status.racing.rank ≤ Status.disconnected.rank)
    · rw [vacate_players_ne s isJ]
      exact .inl rfl
  | empty j seated last => exact absurd race (by simp [beginLobby, vacate, disconnect, Server.modify])
  | allSelected lobby full ready => exact absurd lobby notLobby
  | allLoaded now loading ready ahead => exact absurd loading (raced.not_phase (by decide))
  | reschedule now counting missing late ahead => exact raced.of_status rfl (.inl rfl)
  | go now counting ready due => exact absurd counting (raced.not_phase (by decide))
  | allFinished racing ready => exact ⟨(by decide : Phase.racing.rank ≤ Phase.results.rank), raced.2⟩
  | shut quiet => exact raced.of_status quiet.phase (.inl (quiet.status i))

end Server

/-- What the network has brought for each car: the position of the last
LOADED, and the STATEs of the generation in progress, latest first. -/
structure Track where
  loaded : Fin 4 → Option Position := fun _ => none
  delivered : Fin 4 → List Report := fun _ => []

namespace Track

def after (track : Track) (s : Server) (e : Server.Event) : Track where
  loaded i := (s.loads e i).or (track.loaded i)
  delivered i :=
    if (s.step e).race ≠ s.race then [] else (s.reports e i).toList ++ track.delivered i

/-- The server together with what has been delivered to it. -/
def system : System (Server × Track) Server.Event where
  init st := Server.system.init st.1 ∧ st.2 = {}
  enabled _ _ := True
  step st e := (st.1.step e, st.2.after st.1 e)

/-- Senders number their STATEs from one, below half the range, and never use
a number for two positions. -/
def Numbered (st : Server × Track) (e : Server.Event) : Prop :=
  ∀ i, ∀ report ∈ st.1.reports e i,
    1 ≤ report.seq.toNat ∧ report.seq.toNat < 2 ^ 31 ∧
    ∀ earlier ∈ st.2.delivered i, earlier.seq = report.seq → earlier = report

instance (st : Server × Track) (e : Server.Event) : Decidable (Numbered st e) :=
  inferInstanceAs (Decidable (∀ i, ∀ report ∈ st.1.reports e i,
    1 ≤ report.seq.toNat ∧ report.seq.toNat < 2 ^ 31 ∧
    ∀ earlier ∈ st.2.delivered i, earlier.seq = report.seq → earlier = report))

/-- The slot shows the position of the highest sequence number delivered. -/
structure Shows (p : Player) (loaded : Option Position) (delivered : List Report) : Prop where
  early : p.status.rank ≤ Status.loaded.rank → p.stateSeq = 0
  placed : p.status = .loaded → loaded = some p.position
  racing : p.status = .racing →
    (p.stateSeq = 0 ∧ delivered = [] ∧ loaded = some p.position) ∨
    (∃ report ∈ delivered, report.seq = p.stateSeq ∧ report.position = p.position ∧
      ∀ other ∈ delivered, other.seq ≤ report.seq)

/-- What every run keeps of slot `i`. -/
structure Follows (s : Server) (track : Track) (i : Fin 4) : Prop where
  shows : Shows (s.players i) (track.loaded i) (track.delivered i)
  raced : track.delivered i ≠ [] → s.Raced i
  low : ∀ report ∈ track.delivered i, 1 ≤ report.seq.toNat ∧ report.seq.toNat < 2 ^ 31
  functional : ∀ report ∈ track.delivered i, ∀ other ∈ track.delivered i,
    report.seq = other.seq → report = other

/-- Without a new position the slot goes on showing the same one, also when
the start has just released it. -/
theorem Shows.still {p q : Player} {loaded : Option Position} {delivered : List Report}
    (shows : Shows p loaded delivered) (still : p.Still q)
    (raced : delivered ≠ [] → Status.racing.rank ≤ p.status.rank) : Shows q loaded delivered where
  early low := by
    rcases still.early low with zero | ⟨lowP, same⟩
    · exact zero
    · rw [same, shows.early lowP]
  placed placed := by
    obtain ⟨before, position, _⟩ := still.kept (.inl placed)
    rcases before with same | ⟨_, racing⟩
    · rw [position]
      exact shows.placed (same.trans placed)
    · exact absurd (placed.symm.trans racing) (by decide)
  racing racing := by
    obtain ⟨before, position, seq⟩ := still.kept (.inr racing)
    rw [position, seq]
    rcases before with same | ⟨wasLoaded, _⟩
    · exact shows.racing (same.trans racing)
    · have none : delivered = [] := by
        by_contra some
        have high := raced some
        rw [wasLoaded] at high
        exact absurd high (by decide)
      exact .inl ⟨shows.early (by rw [wasLoaded]), none, shows.placed wasLoaded⟩

theorem reports_slot {s : Server} {e : Server.Event} {i j : Fin 4} {report other : Report}
    (seating : s.Seating) (here : s.reports e i = some report) (there : s.reports e j = some other) :
    i = j := by
  obtain ⟨d, _, rfl, _, _, racing, _, _, _, _, place, _⟩ := Server.reports_some here
  obtain ⟨d', _, same, _, _, racing', _, _, _, _, place', _⟩ := Server.reports_some there
  cases same
  refine seating.endpoints i j ?_ ?_ (place.symm.trans place')
  · exact Server.occupied_iff.mpr (by rw [racing]; decide)
  · exact Server.occupied_iff.mpr (by rw [racing']; decide)

theorem loads_slot {s : Server} {e : Server.Event} {i j : Fin 4} {position other : Position}
    (seating : s.Seating) (here : s.loads e i = some position) (there : s.loads e j = some other) :
    i = j := by
  obtain ⟨d, _, rfl, _, takes, _⟩ := Server.loads_some here
  obtain ⟨d', _, same, _, takes', _⟩ := Server.loads_some there
  cases same
  exact seating.endpoints i j takes.seated takes'.seated (takes.address.symm.trans takes'.address)

/-- One packet is not both a STATE and a command. -/
theorem not_reports_and_loads {s : Server} {e : Server.Event} {i j : Fin 4} {report : Report}
    {position : Position} (reported : s.reports e i = some report) (loaded : s.loads e j = some position) :
    False := by
  obtain ⟨d, packet, rfl, decoded, _, _, state, _⟩ := Server.reports_some reported
  obtain ⟨d', packet', same, decoded', takes, _⟩ := Server.loads_some loaded
  cases same
  cases Option.some.inj (decoded.symm.trans decoded')
  have none := (Server.Packet.is_command takes.command).2.2.2
  rw [state] at none
  exact nomatch none

/-- The three ways in which one event can bear on slot `i`. -/
theorem step_position {s : Server} (rules : s.closed = false → s.Seating ∧ s.Staging)
    (e : Server.Event) (i : Fin 4) :
    (s.loads e i = none ∧ (s.players i).Still ((s.step e).players i) ∧
      ∀ report, s.reports e i = some report → newer report.seq (s.players i).stateSeq = false) ∨
    (∃ report, s.reports e i = some report ∧ s.loads e i = none ∧
      newer report.seq (s.players i).stateSeq = true ∧ ((s.step e).players i).status = .racing ∧
      ((s.step e).players i).stateSeq = report.seq ∧
      ((s.step e).players i).position = report.position) ∨
    (∃ (position : Position) (p : Player), s.loads e i = some position ∧ s.reports e i = none ∧
      p.status = .loaded ∧ p.position = position ∧ p.stateSeq = (s.players i).stateSeq ∧
      (s.players i).status.rank ≤ Status.loaded.rank ∧ p.Still ((s.step e).players i)) := by
  by_cases moved : ∃ j report, s.reports e j = some report ∧
      newer report.seq (s.players j).stateSeq = true
  · obtain ⟨j, report, reported, fresh⟩ := moved
    obtain ⟨_, _, _, _, live, _⟩ := Server.reports_some reported
    obtain ⟨seating, staging⟩ := rules live
    obtain ⟨racing, seq, position, others⟩ := Server.reports_received seating staging reported fresh
    have unloaded : s.loads e i = none :=
      Option.eq_none_iff_forall_ne_some.mpr fun _ loaded => not_reports_and_loads reported loaded
    by_cases isJ : i = j
    · subst isJ
      exact .inr (.inl ⟨report, reported, unloaded, fresh, racing, seq, position⟩)
    · refine .inl ⟨unloaded, ?_, fun other there => absurd (reports_slot seating there reported) isJ⟩
      rw [others i isJ]
      exact .refl _
  by_cases placed : ∃ j position, s.loads e j = some position
  · obtain ⟨j, position, loaded⟩ := placed
    obtain ⟨_, _, _, _, takes, _⟩ := Server.loads_some loaded
    obtain ⟨seating, staging⟩ := rules takes.live
    obtain ⟨p, status, shown, seq, still, waiting, others⟩ := Server.loads_received loaded seating staging
    have unreported : s.reports e i = none :=
      Option.eq_none_iff_forall_ne_some.mpr fun _ reported => not_reports_and_loads reported loaded
    by_cases isJ : i = j
    · subst isJ
      exact .inr (.inr ⟨position, p, loaded, unreported, status, shown, seq, waiting, still⟩)
    · refine .inl ⟨?_, others i isJ, fun report reported => ?_⟩
      · exact Option.eq_none_iff_forall_ne_some.mpr fun _ here =>
          isJ (loads_slot seating here loaded)
      · rw [unreported] at reported
        exact nomatch reported
  · simp only [not_exists, not_and, Bool.not_eq_true] at moved placed
    have unloaded (j : Fin 4) : s.loads e j = none :=
      Option.eq_none_iff_forall_ne_some.mpr (placed j)
    exact .inl ⟨unloaded i, Server.step_still rules moved unloaded i, moved i⟩

/-- A STATE that is not newer than the last one changes nothing. -/
theorem Shows.stale {p : Player} {loaded : Option Position} {delivered : List Report} {report : Report}
    (shows : Shows p loaded delivered) (low : ∀ r ∈ delivered, 1 ≤ r.seq.toNat ∧ r.seq.toNat < 2 ^ 31)
    (first : 1 ≤ report.seq.toNat) (half : report.seq.toNat < 2 ^ 31)
    (old : newer report.seq p.stateSeq = false) : Shows p loaded (report :: delivered) where
  early := shows.early
  placed := shows.placed
  racing racing := by
    rcases shows.racing racing with ⟨zero, _⟩ | ⟨best, present, seq, position, highest⟩
    · have fresh := newer_zero_iff.mpr ⟨first, half⟩
      rw [zero, fresh] at old
      exact nomatch old
    · refine .inr ⟨best, .tail _ present, seq, position, fun other present' => ?_⟩
      rcases List.mem_cons.mp present' with rfl | present'
      · rw [← seq] at old
        have order := mt (newer_iff_lt half (low best present).2).mpr
        rw [UInt32.le_iff_toNat_le]
        exact not_lt.mp (order (by simp [old]))
      · exact highest other present'

/-- A newer STATE becomes the one that the slot shows. -/
theorem Shows.fresh {p q : Player} {loaded : Option Position} {delivered : List Report} {report : Report}
    (shows : Shows p loaded delivered) (low : ∀ r ∈ delivered, 1 ≤ r.seq.toNat ∧ r.seq.toNat < 2 ^ 31)
    (half : report.seq.toNat < 2 ^ 31) (fresh : newer report.seq p.stateSeq = true)
    (wasRacing : p.status = .racing) (racing : q.status = .racing) (seq : q.stateSeq = report.seq)
    (position : q.position = report.position) : Shows q loaded (report :: delivered) where
  early early := by
    rw [racing] at early
    exact absurd early (by decide)
  placed placed := absurd (racing.symm.trans placed) (by decide)
  racing _ := by
    refine .inr ⟨report, .head _, seq.symm, position.symm, fun other present => ?_⟩
    rcases List.mem_cons.mp present with rfl | present
    · exact UInt32.le_refl _
    rcases shows.racing wasRacing with ⟨_, none, _⟩ | ⟨best, there, same, _, highest⟩
    · rw [none] at present
      exact nomatch present
    · rw [← same] at fresh
      have order := (newer_iff_lt half (low best there).2).mp fresh
      have above := UInt32.le_iff_toNat_le.mp (highest other present)
      rw [UInt32.le_iff_toNat_le]
      omega

/-- An event that stays in the generation adds at most one STATE. -/
theorem Follows.stay {s : Server} {track : Track} {i : Fin 4} (follows : Follows s track i)
    (rules : s.closed = false → s.Seating ∧ s.Staging) {e : Server.Event}
    (numbered : Numbered (s, track) e) (stay : s.Stay (s.step e)) :
    Follows (s.step e) (track.after s e) i := by
  obtain ⟨shows, raced, low, functional⟩ := follows
  have racedStatus : track.delivered i ≠ [] → Status.racing.rank ≤ (s.players i).status.rank :=
    fun some => (raced some).2
  have keeps (before : s.Raced i) : (s.step e).Raced i :=
    Server.Stay.keeps (P := fun u => u.Raced i) stay (fun _ _ move race raced => raced.within move race)
      before
  cases reported : s.reports e i with
  | none =>
    have same : (track.after s e).delivered i = track.delivered i := by
      simp [after, stay.race, reported]
    refine ⟨?_, fun some => keeps (raced (same ▸ some)), same ▸ low, same ▸ functional⟩
    rw [same]
    rcases step_position rules e i with ⟨unloaded, still, _⟩ | ⟨_, here, _⟩ |
      ⟨position, p, loaded, _, status, shown, seq, waiting, still⟩
    · have kept : (track.after s e).loaded i = track.loaded i := by simp [after, unloaded]
      rw [kept]
      exact shows.still still racedStatus
    · rw [reported] at here
      exact nomatch here
    · have placed : (track.after s e).loaded i = some p.position := by simp [after, loaded, shown]
      have none : track.delivered i = [] := by
        by_contra some
        exact absurd ((racedStatus some).trans waiting) (by decide)
      have base : Shows p (some p.position) (track.delivered i) :=
        ⟨fun _ => seq.trans (shows.early waiting), fun _ => rfl,
          fun racing => absurd (status.symm.trans racing) (by decide)⟩
      rw [placed]
      exact base.still still fun some => absurd none some
  | some report =>
    have same : (track.after s e).delivered i = report :: track.delivered i := by
      simp [after, stay.race, reported]
    obtain ⟨first, half, unique⟩ := numbered i report reported
    obtain ⟨_, _, _, _, live, racing, _⟩ := Server.reports_some reported
    have started : s.Raced i :=
      ⟨by rw [(rules live).2.phase_of_racing racing], by rw [racing]⟩
    refine ⟨?_, fun _ => keeps started, ?_, ?_⟩
    · rw [same]
      rcases step_position rules e i with ⟨unloaded, still, stale⟩ |
        ⟨other, here, unloaded, fresh, racing', seq, position⟩ | ⟨_, _, loaded, _⟩
      · have kept : (track.after s e).loaded i = track.loaded i := by simp [after, unloaded]
        rw [kept]
        have old := (shows.stale low first half (stale report reported))
        exact old.still still fun _ => started.2
      · have kept : (track.after s e).loaded i = track.loaded i := by simp [after, unloaded]
        rw [kept]
        cases Option.some.inj (reported.symm.trans here)
        exact shows.fresh low half fresh racing racing' seq position
      · exact (not_reports_and_loads reported loaded).elim
    · rw [same]
      intro r present
      rcases List.mem_cons.mp present with rfl | present
      · exact ⟨first, half⟩
      · exact low r present
    · rw [same]
      intro r present r' present' seq
      rcases List.mem_cons.mp present with rfl | old <;>
        rcases List.mem_cons.mp present' with rfl | old'
      · rfl
      · exact (unique r' old' seq.symm).symm
      · exact unique r old seq
      · exact functional r old r' old' seq

/-- An event that ends in another generation leaves nobody loaded or racing. -/
theorem Follows.begun {s : Server} {track : Track} {i : Fin 4} (follows : Follows s track i)
    (rules : s.closed = false → s.Seating ∧ s.Staging) {e : Server.Event}
    (changed : (s.step e).race ≠ s.race) (begun : (s.step e).Begun) :
    Follows (s.step e) (track.after s e) i := by
  have cleared : (track.after s e).delivered i = [] := by simp [after, changed]
  have idle : ((s.step e).players i).status ≠ .loaded ∧ ((s.step e).players i).status ≠ .racing := by
    constructor <;> intro status <;>
      have joined := begun.joined i (Server.occupied_iff.mpr (by rw [status]; decide)) <;>
      exact absurd (status.symm.trans joined) (by decide)
  refine ⟨⟨fun early => ?_, fun placed => absurd placed idle.1, fun racing => absurd racing idle.2⟩,
    fun some => absurd cleared some, by simp [cleared], by simp [cleared]⟩
  rcases step_position rules e i with ⟨_, still, _⟩ | ⟨_, _, _, _, racing, _⟩ |
    ⟨_, p, _, _, _, _, seq, waiting, still⟩
  · rcases still.early early with zero | ⟨before, same⟩
    · exact zero
    · rw [same, follows.shows.early before]
  · exact absurd racing idle.2
  · rcases still.early early with zero | ⟨_, same⟩
    · exact zero
    · rw [same, seq, follows.shows.early waiting]

theorem reach_server {allow : Server × Track → Server.Event → Prop} {st : Server × Track}
    (reach : system.Reach allow st) : Server.system.Reachable st.1 := by
  induction reach with
  | start init => exact .start init.1
  | next e _ _ _ ih => exact .next e ih trivial trivial

/-- Every run whose STATEs are numbered keeps `Follows` for every slot. -/
theorem reach_follows {st : Server × Track} (reach : system.Reach Numbered st) (i : Fin 4) :
    Follows st.1 st.2 i := by
  induction reach with
  | @start st init =>
    obtain ⟨⟨c, session, now, created⟩, fresh⟩ := init
    obtain ⟨_, _, _, _, _, same⟩ := Server.create_some created
    rw [same, fresh]
    have shows : Shows {} none [] :=
      ⟨fun _ => rfl, fun placed => absurd placed (by decide), fun racing => absurd racing (by decide)⟩
    exact ⟨shows, fun some => absurd rfl some, by simp, by simp⟩
  | @next st e previous _ numbered ih =>
    have reach := reach_server previous
    have rules (live : st.1.closed = false) :=
      And.intro (Server.reachable_seating reach live) (Server.reachable_staging reach live)
    rcases st.1.step_stay_or_begun e with stay | ⟨later, begun⟩
    · exact ih.stay rules numbered stay
    · exact ih.begun rules later.ne begun

/-- While a slot is racing it shows the highest-numbered STATE delivered in
this generation, or else its last LOADED; so two runs that have delivered the
same STATEs, in whatever order and however often, show the same position. -/
theorem racing_position {st : Server × Track} (reach : system.Reach Numbered st) {i : Fin 4}
    (racing : (st.1.players i).status = .racing) :
    ((st.2.delivered i = [] ∧ st.2.loaded i = some (st.1.players i).position) ∨
      ∃ report ∈ st.2.delivered i, (∀ other ∈ st.2.delivered i, other.seq ≤ report.seq) ∧
        (st.1.players i).position = report.position) ∧
    ∀ (st' : Server × Track) (i' : Fin 4), system.Reach Numbered st' →
      (st'.1.players i').status = .racing → st'.2.loaded i' = st.2.loaded i →
      (∀ report, report ∈ st'.2.delivered i' ↔ report ∈ st.2.delivered i) →
      (st'.1.players i').position = (st.1.players i).position := by
  have follows := reach_follows reach i
  refine ⟨?_, fun st' i' reach' racing' loaded delivered => ?_⟩
  · rcases follows.shows.racing racing with ⟨_, none, placed⟩ | ⟨report, present, _, position, highest⟩
    · exact .inl ⟨none, placed⟩
    · exact .inr ⟨report, present, highest, position.symm⟩
  · rcases (reach_follows reach' i').shows.racing racing' with
      ⟨_, none', placed'⟩ | ⟨best', present', _, position', highest'⟩ <;>
      rcases follows.shows.racing racing with ⟨_, none, placed⟩ | ⟨best, present, _, position, highest⟩
    · rw [loaded, placed] at placed'
      exact (Option.some.inj placed').symm
    · have absent := (delivered best).mpr present
      rw [none'] at absent
      exact nomatch absent
    · have absent := (delivered best').mp present'
      rw [none] at absent
      exact nomatch absent
    · have there := (delivered best').mp present'
      have same := UInt32.le_antisymm (highest best' there) (highest' best ((delivered best).mpr present))
      rw [← position', ← position, follows.functional best' there best present same]

/-- Two STATEs of the first guest, the later one first. -/
def sampleMovement : List Server.Event :=
  Server.sampleCountdown ++
    [.timer Server.sampleStart Server.sampleStart,
      .packet ⟨.at Server.sampleStart, 0, Server.sampleGuest,
        encode maxPacket (Server.samplePacket .state 77 2 [9, 0, 8, 0, 7])⟩,
      .packet ⟨.at Server.sampleStart, 0, Server.sampleGuest,
        encode maxPacket (Server.samplePacket .state 77 1 [6, 0, 5, 0, 4])⟩]

instance (st : Server × Track) (e : Server.Event) : Decidable (system.enabled st e) := .isTrue trivial

def sampleMoved : Server × Track := sampleMovement.foldl system.step (Server.sampleRoom, {})

theorem sampleMoved_reach : system.Reach Numbered sampleMoved :=
  System.Reach.run (.start (S := system) ⟨Server.sampleRoom_init, rfl⟩) (by decide +kernel)

theorem sampleMoved_position : (sampleMoved.1.players 0).status = .racing ∧
    ∃ report ∈ sampleMoved.2.delivered 0, report.seq = 2 ∧
      (sampleMoved.1.players 0).position = report.position := by
  have racing : (sampleMoved.1.players 0).status = .racing := by decide +kernel
  have delivered : sampleMoved.2.delivered 0 = [⟨1, 6, 5, 4⟩, ⟨2, 9, 8, 7⟩] := by decide +kernel
  rcases (racing_position sampleMoved_reach racing).1 with
    ⟨none, _⟩ | ⟨report, present, highest, shown⟩
  · rw [delivered] at none
    exact nomatch none
  · refine ⟨racing, report, present, ?_, shown⟩
    rw [delivered] at present highest
    have above := highest ⟨2, 9, 8, 7⟩ (by simp)
    simp only [List.mem_cons, List.not_mem_nil, or_false] at present
    rcases present with rfl | rfl
    · exact absurd above (by decide)
    · rfl

end Track

end FzeroVs
