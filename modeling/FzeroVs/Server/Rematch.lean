import FzeroVs.Library.Possible
import FzeroVs.Server.Clock
import FzeroVs.Server.Rounds

namespace FzeroVs.Server

def Event.clock : Event → List Nat
  | .packet d => d.clock
  | .timer now sampled => [now.val.toNat, sampled.val.toNat]
  | .probe now => [now.val.toNat]
  | .close => []

/-- The server event by event, and a clock that never goes back. -/
def timed : System (Server × Nat) Event :=
  system.clocked (fun s now => s.summary.toNat ≤ now ∧ s.tick.toNat ≤ now) Event.clock

theorem timed_step (p : Server × Nat) (e : Event) : (timed.step p e).1 = p.1.step e := rfl

/-! Only the timer moves its next round. -/

theorem drop_tick (s : Server) (i : Fin 4) : (s.drop i).tick = s.tick := by
  rcases s.drop_cases i with ⟨same, _⟩ | ⟨same, _⟩ | ⟨same, _⟩ <;>
    · rw [same]
      rfl

theorem passBarriers_tick (s : Server) (now : UInt64) : (s.passBarriers now).tick = s.tick := by
  have loading (s : Server) : s.enterLoading.tick = s.tick := by unfold enterLoading; split <;> rfl
  have counting (s : Server) : (s.enterCountdown now).tick = s.tick := by unfold enterCountdown; split <;> rfl
  have racing (s : Server) : (s.countdown now).tick = s.tick := by
    unfold countdown
    repeat' split
    all_goals rfl
  have results (s : Server) : s.enterResults.tick = s.tick := by unfold enterResults; split <;> rfl
  rw [passBarriers, results, racing, counting, loading]

theorem advance_tick (s : Server) (now : UInt64) : (s.advance now).tick = s.tick := by
  have dropped : (s.dropSilent now).tick = s.tick :=
    dropEach_invariant (P := fun t => t.tick = s.tick) rfl fun t i _ same => (t.drop_tick i).trans same
  simp only [advance]
  split
  · exact dropped
  · rw [passBarriers_tick, dropped]

theorem snapshot_tick (s : Server) (now : UInt64) : (s.snapshot now).tick = s.tick := by rw [snapshot_eq]

theorem takeCommand_tick (s : Server) (r : Readings) (i : Fin 4) (packet : Packet) :
    (s.takeCommand r i packet).tick = s.tick := by
  have effect : (s.commandEffect r i packet).tick = s.tick := by unfold commandEffect; split <;> rfl
  have tail (s : Server) : (s.commandTail i packet).tick = s.tick := by
    unfold commandTail
    split
    · rfl
    · exact s.drop_tick i
    · rfl
  unfold takeCommand
  split
  · rw [tail]
    exact effect
  · rfl

theorem receiveHello_tick (s : Server) (r : Readings) (random : UInt64) (address : Endpoint) (packet : Packet) :
    (s.receiveHello r random address packet).tick = s.tick := by
  have enrolled (i : Fin 4) : (s.enroll r random address (u64 packet.payload) i).tick = s.tick := by
    unfold enroll
    split
    · rfl
    · rw [snapshot_tick]
      rfl
  unfold receiveHello
  dsimp only
  repeat' split
  all_goals first | rfl | exact enrolled _

theorem receiveFrom_tick (s : Server) (r : Readings) (i : Fin 4) (packet : Packet) (size : Nat) :
    (s.receiveFrom r i packet size).tick = s.tick := by
  have steered : (s.receiveState r i packet size).tick = s.tick := by
    unfold receiveState
    repeat' split
    all_goals rfl
  have taken : (s.receiveCommand r i packet).tick = s.tick := by
    rw [receiveCommand, snapshot_tick, advance_tick, takeCommand_tick]
  unfold receiveFrom
  split
  · rfl
  split
  · rfl
  split
  · rfl
  split
  · exact steered
  split
  · rfl
  split
  · rfl
  split
  · rfl
  · exact taken

theorem receivePacket_tick (s : Server) (r : Readings) (random : UInt64) (address : Endpoint) (data : List UInt8) :
    (s.receivePacket r random address data).tick = s.tick := by
  unfold receivePacket
  dsimp only
  repeat' split
  all_goals first | exact receiveHello_tick _ r random address _ | exact receiveFrom_tick _ r _ _ _ | rfl

theorem foldl_tick {f : Server → Fin 4 → Server} (each : ∀ s i, (f s i).tick = s.tick) (l : List (Fin 4)) (s : Server) :
    (l.foldl f s).tick = s.tick := by
  induction l generalizing s with
  | nil => rfl
  | cons i rest ih =>
    rw [List.foldl_cons, ih]
    exact each s i

theorem probe_tick (s : Server) (now : Micros) : (s.probe now).tick = s.tick := by
  unfold probe
  split
  · dsimp only
    refine foldl_tick ?_ s.occupiedSlots s
    exact fun _ _ => rfl
  · rfl

theorem close_tick (s : Server) : s.close.tick = s.tick := by
  unfold close
  split
  · dsimp only
    refine foldl_tick ?_ s.occupiedSlots s
    exact fun _ _ => rfl
  · rfl

/-! The start is announced two seconds ahead. -/

theorem drop_start {s : Server} {limit : Nat} (soon : s.start.toNat ≤ limit) (i : Fin 4) :
    (s.drop i).start.toNat ≤ limit := by
  rcases s.drop_cases i with ⟨same, _⟩ | ⟨same, _⟩ | ⟨same, _⟩
  · rw [same]
    exact soon
  · rw [same]
    exact soon
  · rw [same]
    exact Nat.zero_le limit

theorem advance_start {s : Server} {limit : Nat} (soon : s.start.toNat ≤ limit) (now : Micros)
    (ahead : now.val.toNat + 2000000 ≤ limit) : (s.advance now.val).start.toNat ≤ limit := by
  have deadline : (now.val + 2000000).toNat ≤ limit := by
    rw [now.add_toNat 2000000 (by decide)]
    exact ahead
  have dropped : (s.dropSilent now.val).start.toNat ≤ limit :=
    dropEach_invariant (P := fun t => t.start.toNat ≤ limit) soon fun t i _ soon => drop_start soon i
  have loading {s : Server} (soon : s.start.toNat ≤ limit) : s.enterLoading.start.toNat ≤ limit := by
    unfold enterLoading
    split <;> exact soon
  have counting {s : Server} (soon : s.start.toNat ≤ limit) : (s.enterCountdown now.val).start.toNat ≤ limit := by
    unfold enterCountdown
    split
    · exact deadline
    · exact soon
  have racing {s : Server} (soon : s.start.toNat ≤ limit) : (s.countdown now.val).start.toNat ≤ limit := by
    unfold countdown
    split
    · split
      · exact deadline
      · split <;> exact soon
    · exact soon
  have results {s : Server} (soon : s.start.toNat ≤ limit) : s.enterResults.start.toNat ≤ limit := by
    unfold enterResults
    split <;> exact soon
  simp only [advance]
  split
  · exact dropped
  · exact results (racing (counting (loading dropped)))

theorem CalmPath.start {s t : Server} (path : CalmPath s t) : t.start = s.start := by
  induction path with
  | refl => rfl
  | tail _ calm ih =>
    cases calm with
    | quiet quiet => exact quiet.start.trans ih
    | spoil i address lobby free => exact ih
    | seat r address nonce i lobby free drawn room fresh => exact ih
    | steer i seq x y orientation now packets bytes racing status => exact ih

theorem takeCommand_start {s : Server} {limit : Nat} (soon : s.start.toNat ≤ limit) (r : Readings) (i : Fin 4)
    (packet : Packet) : (s.takeCommand r i packet).start.toNat ≤ limit := by
  have effect : (s.commandEffect r i packet).start = s.start := by unfold commandEffect; split <;> rfl
  unfold takeCommand
  split
  · unfold commandTail
    split
    · exact Nat.zero_le limit
    · refine drop_start ?_ i
      rw [← effect] at soon
      exact soon
    · rw [← effect] at soon
      exact soon
  · exact soon

theorem receivePacket_start {s : Server} {limit : Nat} (soon : s.start.toNat ≤ limit) (r : Readings) (random : UInt64)
    (address : Endpoint) (data : List UInt8) (ahead : r.advanced.val.toNat + 2000000 ≤ limit) :
    (s.receivePacket r random address data).start.toNat ≤ limit := by
  rcases s.receivePacket_cases r random address data with calm | ⟨i, packet, _, _, same⟩
  · rw [calm.start]
    exact soon
  · rw [same, receiveCommand, snapshot_eq]
    exact advance_start (takeCommand_start (s := s.countRx) soon r i packet) r.advanced ahead

/-- No stored time is later than the clock, and the next round of the timer and
the start of the race are near. -/
structure Near (s : Server) (now : Nat) : Prop where
  behind : s.Behind now
  tick : s.tick.toNat ≤ now + 16667
  start : s.start.toNat ≤ now + 2000000

theorem Near.packet {s : Server} {now : Nat} {d : Incoming} (near : s.Near now) (onward : Onward now d.clock) :
    (s.receivePacket d.readings d.random d.address d.data).Near d.readings.sampled.val.toNat := by
  obtain ⟨first, second, third⟩ := Readings.ordered d.readings
  have later : now ≤ d.readings.applied.val.toNat := onward.1
  constructor
  case behind => exact (near.behind.mono later).packet
  case tick =>
    have tick := near.tick
    rw [receivePacket_tick]
    omega
  case start =>
    have start := near.start
    exact receivePacket_start (by omega) _ _ _ _ (by omega)

theorem Near.timer {s : Server} {now sampled : Micros} (near : s.Near now.val.toNat)
    (order : now.val.toNat ≤ sampled.val.toNat) : (s.timer now sampled).Near sampled.val.toNat := by
  have tick := near.tick
  have start := near.start
  have behind := (near.behind.timer order).1.mono order
  refine ⟨behind, ?_, ?_⟩
  · unfold Server.timer
    dsimp only
    split
    · change (now.val + 16667).toNat ≤ _
      rw [now.add_toNat 16667 (by decide)]
      exact Nat.add_le_add_right order _
    · omega
  · have advanced : (s.advance now.val).start.toNat ≤ sampled.val.toNat + 2000000 :=
      advance_start (by omega) now (by omega)
    unfold Server.timer
    dsimp only
    split
    · split
      · exact advanced
      · rw [snapshot_eq]
        exact advanced
    · omega

theorem timed_near {p : Server × Nat} (reach : timed.Reachable p) : p.1.Near p.2 := by
  refine System.clocked_invariant Near reach ?_ ?_
  · rintro s now ⟨c, session, start, created⟩ born
    obtain ⟨_, _, _, _, _, rfl⟩ := create_some created
    have tick := born.2
    exact ⟨⟨fun _ => Player.behind_empty now, born.1⟩, by omega, Nat.zero_le _⟩
  · intro s now e _ onward near
    cases e with
    | packet d => exact near.packet onward
    | timer time sampled =>
      have later : now ≤ time.val.toNat := onward.1
      have tick := near.tick
      have start := near.start
      have still : s.Near time.val.toNat := ⟨near.behind.mono later, by omega, by omega⟩
      exact still.timer onward.2.1
    | probe time =>
      have later : now ≤ time.val.toNat := onward.1
      have tick := near.tick
      have start := near.start
      have quiet := s.probe_quiet time
      refine ⟨(near.behind.mono later).probe, ?_, ?_⟩
      · change (s.probe time).tick.toNat ≤ time.val.toNat + 16667
        rw [probe_tick]
        omega
      · change (s.probe time).start.toNat ≤ time.val.toNat + 2000000
        rw [quiet.start]
        omega
    | close =>
      refine ⟨near.behind.close, ?_, ?_⟩
      · change s.close.tick.toNat ≤ now + 16667
        rw [close_tick]
        exact near.tick
      · change s.close.start.toNat ≤ now + 2000000
        rcases s.close_cases with same | ⟨quiet, _⟩
        · rw [same]
          exact near.start
        · rw [quiet.start]
          exact near.start

/-- What the room can do without anybody from outside: its timer runs, and the
players in it send datagrams. -/
def FromWithin (p : Server × Nat) : Event → Prop
  | .packet d => ∃ i, (p.1.players i).occupied = true ∧ d.address = (p.1.players i).address
  | .timer _ _ => True
  | .probe _ => False
  | .close => False

/-- The same people have the same slots. -/
structure Residents (s t : Server) : Prop extends Company s t where
  same : ∀ j, (s.players j).occupied = true → (t.players j).token = (s.players j).token ∧
    (t.players j).address = (s.players j).address ∧ (t.players j).nonce = (s.players j).nonce

theorem Residents.refl (s : Server) : Residents s s := ⟨.refl s, fun _ _ => ⟨rfl, rfl, rfl⟩⟩

theorem Residents.trans {s t u : Server} (first : Residents s t) (second : Residents t u) : Residents s u := by
  refine ⟨first.toCompany.trans second.toCompany, fun j seated => ?_⟩
  obtain ⟨token, address, nonce⟩ := first.same j seated
  obtain ⟨token', address', nonce'⟩ := second.same j ((first.presence j).trans seated)
  exact ⟨token'.trans token, address'.trans address, nonce'.trans nonce⟩

/-- Nobody in the open room has been silent since `c`. -/
structure Lively (c : Nat) (p : Server × Nat) : Prop where
  reach : timed.Reachable p
  live : p.1.closed = false
  present : 0 < p.1.count
  fresh : ∀ j, (p.1.players j).occupied = true → c ≤ (p.1.players j).seen.toNat

theorem Lively.reachable {c : Nat} {p : Server × Nat} (lively : Lively c p) : system.Reachable p.1 :=
  System.clocked_reachable lively.reach

/-- The room after a stretch of this kind, at the time `now`. -/
structure Onwards (c : Nat) (p q : Server × Nat) (now : Nat) : Prop where
  leads : timed.Leads FromWithin p q
  clock : q.2 = now
  residents : Residents p.1 q.1
  lively : Lively c q

theorem Onwards.trans {c : Nat} {p q r : Server × Nat} {first second : Nat} (onwards : Onwards c p q first)
    (further : Onwards c q r second) : Onwards c p r second where
  leads := onwards.leads.trans further.leads
  clock := further.clock
  residents := onwards.residents.trans further.residents
  lively := further.lively

theorem Onwards.of_leads {c : Nat} {p q : Server × Nat} {now : Nat} (lively : Lively c p)
    (leads : timed.Leads FromWithin p q) (clock : q.2 = now) (residents : Residents p.1 q.1)
    (fresh : ∀ j, (p.1.players j).occupied = true → c ≤ (q.1.players j).seen.toNat) : Onwards c p q now where
  leads := leads
  clock := clock
  residents := residents
  lively := by
    refine ⟨leads.reachable lively.reach, residents.closed.trans lively.live, ?_, fun j seated => ?_⟩
    · rw [count_congr residents.presence]
      exact lively.present
    · rw [residents.presence j] at seated
      exact fresh j seated

/-- These players answer at `now`, one after the other. -/
theorem answers_lead {entry : Fin 4 → Entry} {now : Micros} {order : List (Fin 4)} {p : Server × Nat}
    (later : p.2 ≤ now.val.toNat) (present : ∀ before i after, order = before ++ i :: after →
      ((round entry (fun _ => .at now) p.1 before).players i).occupied = true) :
    timed.Leads FromWithin p (round entry (fun _ => .at now) p.1 order, if order = [] then p.2 else now.val.toNat) := by
  induction order generalizing p with
  | nil => exact .refl p
  | cons i rest ih =>
    have seated : (p.1.players i).occupied = true := present [] i rest rfl
    have onward : Onward p.2 (p.1.answerEvent (entry i) (.at now) i).clock :=
      ⟨later, Nat.le_refl _, Nat.le_refl _, Nat.le_refl _, trivial⟩
    have leads := ih (p := timed.step p (p.1.answerEvent (entry i) (.at now) i)) (Nat.le_refl now.val.toNat)
      fun before j after split => present (i :: before) j after (congrArg (i :: ·) split)
    have clock : (if rest = [] then (timed.step p (p.1.answerEvent (entry i) (.at now) i)).2 else now.val.toNat) =
        now.val.toNat := by
      split <;> rfl
    rw [clock] at leads
    exact .step _ ⟨trivial, onward⟩ ⟨i, seated, rfl⟩ leads

theorem exists_awaits_iff {s : Server} : (∃ i, s.awaits i = true) ↔ slots.filter s.awaits ≠ [] := by
  constructor
  · rintro ⟨i, awaited⟩ none
    have member : i ∈ slots.filter s.awaits := List.mem_filter.mpr ⟨mem_slots i, awaited⟩
    rw [none] at member
    cases member
  · intro some
    obtain ⟨i, member⟩ := List.exists_mem_of_ne_nil _ some
    exact ⟨i, (List.mem_filter.mp member).2⟩

/-- Everybody for whom the room waits answers at `now`. -/
theorem round_leads {c : Nat} {p : Server × Nat} (lively : Lively c p)
    (full : p.1.phase = .lobby → p.1.count = p.1.expected.toNat) (awaited : ∃ i, p.1.awaits i = true) (now : Micros)
    (later : p.2 ≤ now.val.toNat) (soon : now.val.toNat < c + 5000000)
    (early : p.1.phase = .countdown → now.val.toNat + 500000 < p.1.start.toNat) :
    ∃ q, Onwards c p q now.val.toNat ∧ MovedOn p.1 q.1 now.val := by
  have near := timed_near lively.reach
  have some := exists_awaits_iff.mp awaited
  have member (i : Fin 4) : i ∈ slots.filter p.1.awaits ↔ p.1.awaits i = true := by
    rw [List.mem_filter]
    exact and_iff_right (mem_slots i)
  have seen (j : Fin 4) : (p.1.players j).seen.toNat ≤ now.val.toNat := (near.behind.players j).seen.trans later
  have prompt : p.1.Prompt (fun _ => .at now) (slots.filter p.1.awaits) := by
    constructor
    case ordered => exact List.pairwise_of_forall fun _ _ => UInt64.le_refl _
    case past => exact fun _ _ j _ => UInt64.le_iff_toNat_le.mpr (seen j)
    case recent =>
      intro _ _ j seated
      have fresh := lively.fresh j seated
      change now.val.toNat < _
      omega
    case early => exact fun counting _ _ => early counting
  have distinct : slots.Nodup := by decide
  have heard := round_heard lively.reachable lively.live full (fun _ => ⟨0, 0, 0, 0⟩) (distinct.filter _) member
    some prompt
  have leads := answers_lead later fun before i after split => (heard.present before i after split).2
  rw [if_neg some] at leads
  obtain ⟨_, _, passed⟩ := heard.passed
  refine ⟨_, .of_leads lively leads rfl ⟨heard.company, heard.same⟩ fun j seated => ?_, passed⟩
  have fresh := lively.fresh j seated
  rw [heard.seen j seated]
  split
  · exact fresh.trans (seen j)
  · exact fresh

/-- In the countdown no other barrier is passed. -/
theorem passBarriers_counting {s : Server} (staging : Staging s) (counting : s.phase = .countdown) (now : UInt64) :
    s.passBarriers now = s.countdown now := by
  have loading : s.enterLoading.enterCountdown now = s := by
    rw [enterLoading_of_ne (by simp [counting]), enterCountdown_of_ne (by simp [counting])]
  rw [passBarriers, loading]
  unfold countdown
  rw [if_pos counting]
  split
  · exact enterResults_of_ne (by simp [counting])
  split
  · refine if_neg fun ready => ?_
    obtain ⟨i, seated⟩ := count_pos_iff.mp (staging.present (by simp [counting]))
    have high := (allAtLeast_iff.mp ready.2).2 i (by rw [release_occupied]; exact seated)
    simp only [release, seated, if_true] at high
    exact absurd high (by decide)
  · exact enterResults_of_ne (by simp [counting])

theorem countdown_company (s : Server) (now : UInt64) :
    Company s (s.countdown now) ∧ (s.countdown now).race = s.race := by
  have presence := s.countdown_occupied now
  unfold countdown at presence ⊢
  repeat' split
  all_goals exact ⟨⟨rfl, rfl, rfl, fun i => by simp⟩, rfl⟩

theorem Ahead.congr {s t : Server} {now : UInt64} (ahead : Ahead s now) (start : t.start = s.start)
    (armed : t.allArmed = s.allArmed) : Ahead t now := by
  unfold Ahead at ahead ⊢
  rw [start, armed]
  exact ahead

/-- The timer runs at `now`, in the countdown. -/
theorem timer_leads {c : Nat} {p : Server × Nat} (lively : Lively c p) (counting : p.1.phase = .countdown)
    (now : Micros)
    (later : p.2 ≤ now.val.toNat) (due : p.1.tick.toNat ≤ now.val.toNat) (soon : now.val.toNat < c + 5000000) :
    ∃ q, Onwards c p q now.val.toNat ∧ q.1.race = p.1.race ∧
      (q.1.phase = .racing ∨ q.1.phase = .countdown ∧ Ahead q.1 now.val) ∧
      (p.1.allArmed = true → p.1.start.toNat ≤ now.val.toNat → q.1.phase = .racing) := by
  have near := timed_near lively.reach
  have staging := reachable_staging lively.reachable lively.live
  have awake : p.1.Awake now.val := by
    intro j seated
    have fresh := lively.fresh j seated
    have past := (near.behind.players j).seen
    omega
  have passed := passBarriers_counting staging counting now.val
  have advanced : p.1.advance now.val = p.1.countdown now.val := by
    rw [advance_of_awake awake.silent, lively.live, ← passed]
    rfl
  obtain ⟨company, race⟩ := p.1.countdown_company now.val
  have keeps := passBarriers_keeps p.1 now.val
  have presence := passBarriers_presence p.1 now.val
  rw [passed] at keeps presence
  have phase : (p.1.countdown now.val).phase = .racing ∨ (p.1.countdown now.val).phase = .countdown := by
    unfold countdown
    rw [if_pos counting]
    split
    · exact .inr counting
    split
    · exact .inl rfl
    · exact .inr counting
  have ahead := countdown_ahead p.1 now
  have go (armed : p.1.allArmed = true) (start : p.1.start.toNat ≤ now.val.toNat) :
      (p.1.countdown now.val).phase = .racing := by
    unfold countdown
    rw [if_pos counting, if_neg (by simp [armed]), if_pos ⟨armed, UInt64.le_iff_toNat_le.mpr start⟩]
  have timer : p.1.timer now now = { (p.1.countdown now.val).snapshot now.val with tick := now.val + 16667 } := by
    unfold Server.timer
    rw [if_pos (UInt64.le_iff_toNat_le.mpr due), advanced]
    dsimp only
    rw [company.closed, lively.live]
    rfl
  have onward : Onward p.2 (Event.timer now now).clock := ⟨later, Nat.le_refl _, trivial⟩
  have leads : timed.Leads FromWithin p (p.1.timer now now, now.val.toNat) :=
    System.Leads.one (S := timed) (Event.timer now now) ⟨trivial, onward⟩ trivial
  rw [timer, snapshot_eq] at leads
  generalize p.1.countdown now.val = v at leads company race keeps presence phase ahead go
  refine ⟨_, .of_leads lively leads rfl ⟨⟨company.closed, company.expected, company.host, company.presence⟩,
    fun j seated => ?_⟩ fun j seated => ?_, race, phase.imp_right fun counting => ⟨counting, ?_⟩, go⟩
  · obtain ⟨_, same⟩ := keeps.slot j ((company.presence j).trans seated)
    exact ⟨same.token, same.address, same.nonce⟩
  · have seen := (presence j).2 seated
    change c ≤ (v.players j).seen.toNat
    rw [seen]
    exact lively.fresh j seated
  · exact (ahead counting).congr rfl (by simp only [allArmed])

/-- A PING of the player in slot `i`. -/
def pingPacket (s : Server) (i : Fin 4) : Packet where
  type := Kind.ping.code
  length := 8
  session := s.session
  race := s.race
  token := (s.players i).token
  payload := put64 0

def pingEvent (s : Server) (now : Micros) (i : Fin 4) : Event :=
  .packet ⟨.at now, 0, (s.players i).address, encode maxPacket (s.pingPacket i)⟩

theorem pingEvent_heard {s : Server} (seating : Seating s) (live : s.closed = false) {i : Fin 4}
    (seated : (s.players i).occupied = true) (now : Micros) :
    Quiet s (s.step (s.pingEvent now i)) ∧
      ∀ j, ((s.step (s.pingEvent now i)).players j).seen = if j = i then now.val else (s.players j).seen := by
  have counted : Seating s.countRx := seating.quiet s.countRx_quiet
  have own : s.countRx.authenticate (s.players i).address (s.pingPacket i) = some i :=
    authenticate_seated counted seated rfl rfl
  have framed : (s.pingPacket i).Framed := ⟨⟨.ping, rfl⟩, rfl, by change 8 ≤ 220; omega⟩
  have heard : s.step (s.pingEvent now i) = s.countRx.receivePing (.at now) i (s.pingPacket i) := by
    simp only [step, pingEvent, receivePacket, decode_encode framed, live, own]
    have hello : (s.pingPacket i).is .hello = false := rfl
    have pong : (s.pingPacket i).is .pong = false := rfl
    have ping : (s.pingPacket i).is .ping = true := rfl
    have length : (s.pingPacket i).length = 8 := rfl
    simp only [hello, receiveFrom, pong, ping, length]
    rfl
  rw [heard, receivePing]
  constructor
  · exact s.countRx_quiet.trans ((modify_quiet s.countRx i rfl).trans (transmit_quiet _ _ _))
  · intro j
    change ((s.countRx.modify i fun p => { p with seen := now.val }).players j).seen = _
    rw [modify_players]
    split
    · rfl
    · rfl

theorem exists_micros {n : Nat} (below : n < 2 ^ 63) : ∃ now : Micros, now.val.toNat = n := by
  have small : (UInt64.ofNat n).toNat = n := by
    rw [UInt64.toNat_ofNat']
    exact Nat.mod_eq_of_lt (by omega)
  exact ⟨⟨UInt64.ofNat n, by omega⟩, small⟩

/-- These players send a PING at `now`. -/
theorem pings_lead (now : Micros) (order : List (Fin 4)) {p : Server × Nat} (reach : timed.Reachable p)
    (live : p.1.closed = false) (clock : p.2 = now.val.toNat) (seated : ∀ i ∈ order, (p.1.players i).occupied = true) :
    ∃ q, timed.Leads FromWithin p q ∧ q.2 = now.val.toNat ∧ Quiet p.1 q.1 ∧
      ∀ j, (q.1.players j).seen = if j ∈ order then now.val else (p.1.players j).seen := by
  induction order generalizing p with
  | nil => exact ⟨p, .refl p, clock, .refl p.1, fun j => (if_neg List.not_mem_nil).symm⟩
  | cons i rest ih =>
    have present := seated i List.mem_cons_self
    obtain ⟨quiet, seen⟩ := pingEvent_heard (reachable_seating (System.clocked_reachable reach) live) live present now
    have onward : Onward p.2 (p.1.pingEvent now i).clock :=
      ⟨Nat.le_of_eq clock, Nat.le_refl _, Nat.le_refl _, Nat.le_refl _, trivial⟩
    have one : timed.Leads FromWithin p (timed.step p (p.1.pingEvent now i)) :=
      .one _ ⟨trivial, onward⟩ ⟨i, present, rfl⟩
    have passes : (timed.step p (p.1.pingEvent now i)).2 = now.val.toNat := rfl
    rw [← timed_step] at quiet seen
    generalize timed.step p (p.1.pingEvent now i) = t at quiet seen one passes
    obtain ⟨q, leads, time, still, refreshed⟩ := ih (one.reachable reach) (quiet.closed.trans live) passes
      fun k member => (quiet.occupied k).trans (seated k (List.mem_cons_of_mem _ member))
    refine ⟨q, one.trans leads, time, quiet.trans still, fun j => ?_⟩
    rw [refreshed j, seen j]
    by_cases own : j = i
    · have member : j ∈ i :: rest := own ▸ List.mem_cons_self
      rw [if_pos own, if_pos member, ite_self]
    · rw [if_neg own]
      by_cases there : j ∈ rest
      · rw [if_pos there, if_pos (List.mem_cons_of_mem _ there)]
      · rw [if_neg there, if_neg fun whole => (List.mem_cons.mp whole).elim own there]

/-- Everybody in the room shows that he is there. -/
theorem refresh_leads {p : Server × Nat} (reach : timed.Reachable p) (live : p.1.closed = false)
    (present : 0 < p.1.count)
    (below : p.2 < 2 ^ 63) : ∃ q, Onwards p.2 p q p.2 ∧ Quiet p.1 q.1 := by
  obtain ⟨now, clock⟩ := exists_micros below
  obtain ⟨q, leads, time, quiet, seen⟩ := pings_lead now p.1.occupiedSlots reach live clock.symm
    fun i member => (List.mem_filter.mp member).2
  rw [clock] at time
  refine ⟨q, ⟨leads, time, ⟨quiet.company, fun j _ => ?_⟩, leads.reachable reach, quiet.closed.trans live, ?_, ?_⟩,
    quiet⟩
  · exact ⟨quiet.field Player.token (fun _ => rfl) j, quiet.field Player.address (fun _ => rfl) j,
      quiet.field Player.nonce (fun _ => rfl) j⟩
  · rw [count_congr quiet.occupied]
    exact present
  · intro j seated
    rw [quiet.occupied j] at seated
    have member : j ∈ p.1.occupiedSlots := List.mem_filter.mpr ⟨mem_slots j, seated⟩
    rw [seen j, if_pos member, clock]

/-- The players can bring the room to its next race by the time `limit`. -/
def Reopens (p : Server × Nat) (limit : Nat) : Prop :=
  ∃ q, timed.Leads FromWithin p q ∧ q.2 ≤ limit ∧ Residents p.1 q.1 ∧ q.1.closed = false ∧
    q.1.phase = .lobby ∧ q.1.race = p.1.race + 1

theorem Reopens.after {c now limit : Nat} {p q : Server × Nat} (reopens : Reopens q limit) (onwards : Onwards c p q now)
    (race : q.1.race = p.1.race) : Reopens p limit := by
  obtain ⟨r, leads, clock, residents, live, lobby, next⟩ := reopens
  exact ⟨r, onwards.leads.trans leads, clock, onwards.residents.trans residents, live, lobby, race ▸ next⟩

section
variable {c : Nat} {p : Server × Nat}

theorem reopens_of_results (lively : Lively c p) (results : p.1.phase = .results) (soon : p.2 < c + 5000000)
    (below : p.2 < 2 ^ 63) : Reopens p p.2 := by
  have seating := reachable_seating lively.reachable lively.live
  obtain ⟨now, clock⟩ := exists_micros below
  have hosted : p.1.host ≠ 255 := by
    intro none
    have empty := seating.noHost.mp none
    have present := lively.present
    omega
  obtain ⟨i, host, seated⟩ := seating.host hosted
  have awaited : p.1.awaits i = true := by
    rw [awaits, results, seated, host]
    exact beq_self_eq_true i.val
  obtain ⟨q, onwards, passed⟩ := round_leads lively (fun lobby => by cases results.symm.trans lobby) ⟨i, awaited⟩
    _ (Nat.le_of_eq clock.symm) (by omega) (fun counting => by cases results.symm.trans counting)
  rw [MovedOn, results] at passed
  exact ⟨q, onwards.leads, by rw [onwards.clock, clock], onwards.residents, onwards.lively.live, passed⟩

theorem reopens_of_racing (lively : Lively c p) (racing : p.1.phase = .racing) (soon : p.2 < c + 5000000)
    (below : p.2 < 2 ^ 63) : Reopens p p.2 := by
  have settled := reachable_settled lively.reachable lively.live
  obtain ⟨now, clock⟩ := exists_micros below
  obtain ⟨i, runs⟩ := settled.racing racing
  have awaited : p.1.awaits i = true := by
    rw [awaits, racing, Player.occupied, runs]
    rfl
  obtain ⟨q, onwards, passed⟩ := round_leads lively (fun lobby => by cases racing.symm.trans lobby) ⟨i, awaited⟩
    _ (Nat.le_of_eq clock.symm) (by omega) (fun counting => by cases racing.symm.trans counting)
  rw [MovedOn, racing] at passed
  have time : q.2 = p.2 := onwards.clock.trans clock
  have further := reopens_of_results onwards.lively passed.1 (by omega) (by omega)
  rw [time] at further
  exact further.after onwards passed.2

/-- Everybody has acknowledged the start: the race begins when it has come. -/
theorem reopens_of_armed (lively : Lively c p) (counting : p.1.phase = .countdown) (armed : p.1.allArmed = true)
    (soon : p.2 ≤ c + 20000) (below : c + 3000000 < 2 ^ 63) : Reopens p (c + 3000000) := by
  have near := timed_near lively.reach
  have tick := near.tick
  have start := near.start
  obtain ⟨now, clock⟩ := exists_micros (n := max p.2 (max p.1.start.toNat p.1.tick.toNat)) (by omega)
  obtain ⟨q, onwards, race, _, go⟩ := timer_leads lively counting now (by omega) (by omega) (by omega)
  have racing := go armed (by omega)
  have time := onwards.clock
  obtain ⟨r, leads, end', residents, rest⟩ := reopens_of_racing onwards.lively racing (by omega) (by omega)
  have further : Reopens q (c + 3000000) := ⟨r, leads, by omega, residents, rest⟩
  exact further.after onwards race

/-- Whoever has not acknowledged the start does so, after it has been put off if
it was too near. -/
theorem reopens_of_countdown (lively : Lively c p) (counting : p.1.phase = .countdown) (now : p.2 = c)
    (below : c + 3000000 < 2 ^ 63) : Reopens p (c + 3000000) := by
  have near := timed_near lively.reach
  have tick := near.tick
  obtain ⟨time, clock⟩ := exists_micros (n := max p.2 p.1.tick.toNat) (by omega)
  obtain ⟨q, onwards, race, phase, _⟩ := timer_leads lively counting time (by omega) (by omega) (by omega)
  have later := onwards.clock
  refine Reopens.after ?_ onwards race
  rcases phase with racing | ⟨still, ahead⟩
  · obtain ⟨r, leads, end', residents, rest⟩ := reopens_of_racing onwards.lively racing (by omega) (by omega)
    exact ⟨r, leads, by omega, residents, rest⟩
  by_cases awaited : ∃ i, q.1.awaits i = true
  · have far : time.val.toNat + 500000 < q.1.start.toNat := by
      rcases ahead with far | ⟨armed, _⟩
      · exact far
      · obtain ⟨i, missing⟩ := awaited
        rw [awaits, still, Bool.and_eq_true, bne_iff_ne] at missing
        exact absurd (allArmed_iff.mp armed i missing.1) missing.2
    obtain ⟨r, further, passed⟩ := round_leads onwards.lively (fun lobby => by cases still.symm.trans lobby) awaited
      _ (Nat.le_of_eq later) (by omega) fun _ => far
    rw [MovedOn, still] at passed
    have last := further.clock
    exact (reopens_of_armed further.lively passed.1 passed.2.2.2 (by omega) below).after further passed.2.1
  · refine reopens_of_armed onwards.lively still (allArmed_iff.mpr fun i seated => ?_) (by omega) below
    by_contra missing
    refine awaited ⟨i, ?_⟩
    rw [awaits, still, seated]
    exact bne_iff_ne.mpr missing

theorem reopens_of_loading (lively : Lively c p) (loading : p.1.phase = .loading) (now : p.2 = c)
    (below : c + 3000000 < 2 ^ 63) : Reopens p (c + 3000000) := by
  have staging := reachable_staging lively.reachable lively.live
  have settled := reachable_settled lively.reachable lively.live
  obtain ⟨time, clock⟩ := exists_micros (n := c) (by omega)
  obtain ⟨i, seated, missing⟩ := settled.loading loading
  have awaited : p.1.awaits i = true := by
    rcases (staging.loading loading).2 i seated with selected | loaded
    · rw [awaits, loading, seated, selected]
      rfl
    · exact absurd loaded missing
  obtain ⟨q, onwards, passed⟩ := round_leads lively (fun lobby => by cases loading.symm.trans lobby) ⟨i, awaited⟩
    time (by omega) (by omega) (fun counting => by cases loading.symm.trans counting)
  rw [MovedOn, loading] at passed
  exact (reopens_of_countdown onwards.lively passed.1 (onwards.clock.trans clock) below).after onwards passed.2.1

theorem reopens_of_lobby (lively : Lively c p) (lobby : p.1.phase = .lobby) (full : p.1.count = p.1.expected.toNat)
    (now : p.2 = c) (below : c + 3000000 < 2 ^ 63) : Reopens p (c + 3000000) := by
  have settled := reachable_settled lively.reachable lively.live
  obtain ⟨time, clock⟩ := exists_micros (n := c) (by omega)
  have awaited : ∃ i, p.1.awaits i = true := by
    rcases settled.lobby lobby with few | ⟨i, joined⟩
    · omega
    · refine ⟨i, ?_⟩
      rw [awaits, lobby, Player.occupied, joined]
      rfl
  obtain ⟨q, onwards, passed⟩ := round_leads lively (fun _ => full) awaited time (by omega) (by omega)
    (fun counting => by cases lobby.symm.trans counting)
  rw [MovedOn, lobby] at passed
  exact (reopens_of_loading onwards.lively passed.1 (onwards.clock.trans clock) below).after onwards passed.2

end

/-- A room is never stuck. From every state of every run on a clock that does not
go back, the players of an open room, with the lobby full, can bring it within
three seconds to its next race, all of them on the same slots. -/
theorem next_race_possible {p : Server × Nat} (reach : timed.Reachable p) (live : p.1.closed = false)
    (present : 0 < p.1.count) (full : p.1.phase = .lobby → p.1.count = p.1.expected.toNat)
    (below : p.2 + 3000000 < 2 ^ 63) :
    ∃ events, timed.Admits FromWithin p events ∧ (events.foldl timed.step p).2 ≤ p.2 + 3000000 ∧
      Residents p.1 (events.foldl timed.step p).1 ∧ (events.foldl timed.step p).1.closed = false ∧
      (events.foldl timed.step p).1.phase = .lobby ∧ (events.foldl timed.step p).1.race = p.1.race + 1 := by
  obtain ⟨q, onwards, quiet⟩ := refresh_leads reach live present (by omega)
  have clock := onwards.clock
  have reopens : Reopens q (p.2 + 3000000) := by
    cases phase : q.1.phase with
    | lobby =>
      refine reopens_of_lobby onwards.lively phase ?_ clock below
      rw [count_congr quiet.occupied, quiet.expected]
      exact full (quiet.phase.symm.trans phase)
    | loading => exact reopens_of_loading onwards.lively phase clock below
    | countdown => exact reopens_of_countdown onwards.lively phase clock below
    | racing =>
      obtain ⟨r, leads, end', rest⟩ := reopens_of_racing onwards.lively phase (by omega) (by omega)
      exact ⟨r, leads, by omega, rest⟩
    | results =>
      obtain ⟨r, leads, end', rest⟩ := reopens_of_results onwards.lively phase (by omega) (by omega)
      exact ⟨r, leads, by omega, rest⟩
  obtain ⟨r, leads, end', residents, open', lobby, race⟩ := reopens.after onwards quiet.race
  obtain ⟨events, admits, rfl⟩ := leads.events
  exact ⟨events, admits, end', residents, open', lobby, race⟩

/-! The full lobby of the sample. -/

theorem sampleFull_timed : timed.Reachable (sampleFull, 1000000) := by
  have start : timed.Reachable (sampleRoom, 1000000) := .start ⟨sampleRoom_init, Nat.le_refl _, Nat.le_refl _⟩
  have at' : Onward 1000000 [1000000, 1000000, 1000000, 1000000] :=
    ⟨Nat.le_refl _, Nat.le_refl _, Nat.le_refl _, Nat.le_refl _, trivial⟩
  have joined := start.next sampleJoin ⟨trivial, at'⟩ trivial
  exact joined.next (sampleHello sampleRival 78) ⟨trivial, at'⟩ trivial

theorem sampleFull_rematch : ∃ events, timed.Admits FromWithin (sampleFull, 1000000) events ∧
    (events.foldl timed.step (sampleFull, 1000000)).1.phase = .lobby ∧
    (events.foldl timed.step (sampleFull, 1000000)).1.race = 2 := by
  obtain ⟨events, admits, _, _, _, lobby, race⟩ := next_race_possible sampleFull_timed (by decide +kernel)
    (by decide +kernel) (fun _ => by decide +kernel) (by decide)
  have first : sampleFull.race = 1 := by decide +kernel
  refine ⟨events, admits, lobby, ?_⟩
  rw [race, first]
  rfl

end FzeroVs.Server
