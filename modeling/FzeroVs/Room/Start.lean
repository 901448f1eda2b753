import FzeroVs.Server.Deadline
import FzeroVs.Room.Picture
import FzeroVs.Room.Mirror

namespace FzeroVs

namespace Client

/-- Where the automaton of a client may stand that only measures. -/
def Offline (c : Client) : Prop := c.config.baseline = true →
  c.game = .init ∨ c.game = .carSelect ∨ c.game = .race ∨ c.game = .disconnected

theorem Offline.congr {c d : Client} (offline : Offline c) (config : d.config = c.config)
    (game : d.game = c.game ∨ d.game = .init ∨ d.game = .disconnected) : Offline d := by
  intro baseline
  rw [config] at baseline
  rcases game with same | init | gone
  · rw [same]
    exact offline baseline
  · exact .inl init
  · exact .inr (.inr (.inr gone))

theorem Offline.move {c d : Client} (move : Move c d) (offline : Offline c) : Offline d := by
  have queued (command : List UInt8) : Offline (c.queue command) :=
    offline.congr (c.queue_frame command).2.1 (.inl (c.queue_frame command).1)
  cases move with
  | idle idle => exact offline.congr idle.config (.inl idle.game)
  | @retransmit p rest t waiting =>
    refine offline.congr (c.send_kept p.packet).config (.inl ?_)
    unfold send
    split <;> rfl
  | queue command => exact queued command
  | select waiting unsent joined lobby => exact queued _
  | load ram location playing unsent loading => exact queued _
  | finish racing playing unsent => exact queued _
  | arm counting unarmed => exact queued _
  | play before after baseline seated =>
    intro measuring
    exact (baseline measuring).elim (fun race => .inr (.inr (.inl race))) fun select => .inr (.inl select)
  | fail => exact offline.congr rfl (.inr (.inr rfl))

theorem attach_game (c : Client) (random : Option UInt64) (now : UInt64) :
    (c.attach random now).config = c.config ∧
      ((c.attach random now).game = .init ∨ (c.attach random now).game = .disconnected) := by
  have config : c.detach.config = c.config := detach_keeps Client.config (fun _ _ _ _ _ _ => rfl) c
  unfold attach
  dsimp only
  split
  · split
    · exact ⟨config, .inr rfl⟩
    · exact ⟨config, .inl rfl⟩
  · exact ⟨config, .inr rfl⟩

theorem reachable_offline {c : Client} (reach : system.Reachable c) : Offline c := by
  refine reach.invariant (fun c init => ?_) fun c e _ _ _ offline => ?_
  · obtain ⟨config, rfl⟩ := init
    exact fun _ => .inl rfl
  · change Offline (c.step e)
    cases c.step_turn e with
    | path path _ _ => exact Path.keeps path (fun _ _ move offline => offline.move move) offline
    | join t data p isHear decoded admits same =>
      rw [same]
      exact offline.congr rfl (.inl rfl)
    | accept t data p v isHear decoded accepts same =>
      rw [same]
      obtain ⟨config, game⟩ := c.settle_game t p v
      have settled : Offline (c.settle t p v) := offline.congr config (game.imp (fun same => same) .inl)
      exact Path.keeps (c.settle t p v).arm_path (fun _ _ move offline => offline.move move) settled
    | attach random now same =>
      rw [same]
      obtain ⟨config, game⟩ := c.attach_game random now
      exact offline.congr config (.inr game)
    | detach same =>
      rw [same]
      exact offline.congr (detach_keeps Client.config (fun _ _ _ _ _ _ => rfl) c) (.inr (.inl rfl))

/-- A frame that leaves the starting grid has found the start released. -/
theorem frame_released {c : Client} {ram : UInt32 → UInt8} {due : Bool} {now : UInt64} (offline : Offline c)
    (location : c.game = .location) (raced : (c.frame ram due now).game = .race) : c.released due = true := by
  have playing : c.config.baseline = false := by
    cases baseline : c.config.baseline with
    | false => rfl
    | true =>
      have where' := offline baseline
      rw [location] at where'
      simp at where'
  have stands : ¬ c.game = .race := by rw [location]; decide
  unfold frame at raced
  split at raced
  · exact absurd raced stands
  simp only [playing, Bool.false_eq_true, if_false, location] at raced
  split at raced
  · have kept : Kept c (c.load ram) := by
      unfold load
      split
      · exact { c.queue_kept _ with }
      · exact .refl c
    have same : (c.load ram).released due = c.released due := by
      simp only [released, occupiedMask, kept.phase, kept.peers, kept.armedMask]
    have still : (c.load ram).game = c.game := by
      unfold load
      split
      · exact (c.queue_frame _).1
      · rfl
    split at raced
    next go => exact same ▸ go
    next => exact absurd (still.symm.trans raced) stands
  · exact absurd raced stands

theorem occupiedMask_testBit (c : Client) (i : Fin 4) :
    c.occupiedMask.toNat.testBit i.val = (c.peers i).occupied :=
  Server.mask_testBit (fun i => (c.peers i).occupied) i

/-- The start is released by the race itself, or once every occupied slot has
its bit in the mask. -/
theorem released_cases {c : Client} {due : Bool} (go : c.released due = true) : c.phase = .racing ∨
    (c.phase = .countdown ∧ (∃ i, (c.peers i).occupied = true) ∧
      ∀ i : Fin 4, (c.peers i).occupied = true → c.armedMask.toNat.testBit i.val = true) := by
  simp only [released, Bool.or_eq_true, beq_iff_eq, Bool.and_eq_true, bne_iff_ne] at go
  refine go.imp (fun racing => racing) fun ⟨⟨⟨counting, present⟩, mask⟩, _⟩ => ⟨counting, ?_, fun i seated => ?_⟩
  · by_contra nobody
    simp only [not_exists, Bool.not_eq_true] at nobody
    refine present ?_
    simp [occupiedMask, nobody]
  · have bit := congrArg (fun m => m.toNat.testBit i.val) mask
    simp only [UInt8.toNat_and, Nat.testBit_and, occupiedMask_testBit, seated, Bool.and_true] at bit
    exact bit

end Client

namespace Room
variable {ι : Type} [DecidableEq ι] {place : ι ↪ Endpoint}

/-- The packet is sent in the step that leads to moment `n`. -/
def Sends (run : (system place).Behaviour) (n : Nat) (p : Packet) : Prop :=
  ∃ m new d, n = m + 1 ∧ (run.state n).server.sent = (run.state m).server.sent ++ new ∧ d ∈ new ∧
    decode d.data = some p

/-- Every datagram has been sent at some moment. -/
theorem exists_sends (run : (system place).Behaviour) {n : Nat} {d : Datagram} {p : Packet}
    (present : d ∈ (run.state n).server.sent) (decoded : decode d.data = some p) :
    ∃ m ≤ n, Sends run m p := by
  induction n with
  | zero =>
    obtain ⟨c, session, now, created⟩ := run.starts.1
    obtain ⟨_, _, _, _, _, same⟩ := Server.create_some created
    rw [same] at present
    exact nomatch present
  | succ n ih =>
    have old (before : d ∈ (run.state n).server.sent) : ∃ m ≤ n + 1, Sends run m p := by
      obtain ⟨m, earlier, sends⟩ := ih before
      exact ⟨m, Nat.le_succ_of_le earlier, sends⟩
    rcases run.moves n with same | ⟨e, may, moved⟩
    · exact old (same ▸ present)
    · cases e with
      | client i e =>
        rw [moved] at present
        exact old present
      | server e =>
        obtain ⟨new, sent, _⟩ := ((run.state n).server.step_emission e).news
        have now : (run.state (n + 1)).server.sent = (run.state n).server.sent ++ new := by
          rw [moved]
          exact sent
        rw [now, List.mem_append] at present
        rcases present with before | fresh
        · exact old before
        · exact ⟨n + 1, Nat.le_refl _, n, new, d, rfl, now, fresh, decoded⟩

/-- A snapshot shows the room at the moment at which it is sent. -/
theorem Sends.picture {run : (system place).Behaviour} {n : Nat} {p : Packet} (sends : Sends run n p)
    (kind : p.is .snapshot = true) :
    ∃ now i, ((run.state n).server.players i).occupied = true ∧ p = (run.state n).server.picture now i := by
  obtain ⟨m, new, d, rfl, sent, fresh, decoded⟩ := sends
  have silent (same : (run.state (m + 1)).server.sent = (run.state m).server.sent) : False := by
    rw [same, List.self_eq_append_right] at sent
    rw [sent] at fresh
    exact nomatch fresh
  rcases run.moves m with same | ⟨e, may, moved⟩
  · exact (silent (by rw [same])).elim
  · cases e with
    | client i e => exact (silent (by rw [moved]; rfl)).elim
    | server e =>
      obtain ⟨all, sent', news⟩ := ((run.state m).server.step_emission e).news
      have stepped : (run.state (m + 1)).server = (run.state m).server.step e := by rw [moved]; rfl
      rw [stepped] at sent ⊢
      have same : new = all := List.append_cancel_left (sent.symm.trans sent')
      rcases news d (same ▸ fresh) with plain | ⟨i, seated, _, welcome | ⟨_, picture⟩⟩
      · rw [(plain p decoded).2] at kind
        exact nomatch kind
      · rw [decoded] at welcome
        rw [Option.some.inj welcome] at kind
        exact nomatch kind
      · rw [decoded] at picture
        exact ⟨e.sampled, i, seated, Option.some.inj picture⟩

/-- The frame at moment `n` takes client `i` from the grid into the race. -/
structure Releases (run : (system place).Behaviour) (n : Nat) (i : ι) : Prop where
  frame : ∃ ram due now, run.state (n + 1) = (run.state n).step (.client i (.frame ram due now))
  before : ((run.state n).client i).game = .location
  after : ((run.state (n + 1)).client i).game = .race

/-- The last snapshot that the client has accepted at moment `n` was sent at
moment `m`. -/
def Origin (run : (system place).Behaviour) (n : Nat) (i : ι) (m : Nat) : Prop :=
  m ≤ n ∧ ∃ p, ((run.state n).client i).accepted.getLast? = some p ∧ Sends run m p

theorem Releases.released {run : (system place).Behaviour} {n : Nat} {i : ι} (releases : Releases run n i) :
    ∃ due, ((run.state n).client i).released due = true := by
  obtain ⟨ram, due, now, moved⟩ := releases.frame
  have offline := Client.reachable_offline (reach_client (run.reachable n) i)
  have raced := releases.after
  rw [moved, step_client_self] at raced
  exact ⟨due, Client.frame_released offline releases.before raced⟩

/-- What a client on the grid acts on is the state of the room when it sent
the snapshot. -/
theorem Origin.shows {run : (system place).Behaviour} {n m : Nat} {i : ι} (origin : Origin run n i m) :
    ∃ now, ((run.state n).client i).race = (run.state m).server.race ∧
      ((run.state n).client i).phase = (run.state m).server.phase ∧
      ((run.state n).client i).startTime = (run.state m).server.start ∧
      ((run.state n).client i).armedMask = (run.state m).server.armedMask ∧
      ((run.state n).client i).peers = fun j => Server.peer ((run.state m).server.players j) now := by
  obtain ⟨_, p, isLast, sends⟩ := origin
  obtain ⟨v, read, phase, start, mask, peers, race, _⟩ := (reach_mirror (run.reachable n) i).last p isLast
  obtain ⟨now, j, _, picture⟩ := sends.picture (Client.readPicture_kind read)
  have ranged := Server.reachable_ranged (reach_server (run.reachable m))
  rw [picture, Server.readPicture_picture ranged] at read
  cases Option.some.inj read
  exact ⟨now, by rw [race, picture]; rfl, phase, start, mask, peers⟩

theorem Releases.origin {run : (system place).Behaviour} {n : Nat} {i : ι} (releases : Releases run n i) :
    ∃ m, Origin run n i m := by
  obtain ⟨due, go⟩ := releases.released
  have mirror := reach_mirror (run.reachable n) i
  cases shown : ((run.state n).client i).accepted.getLast? with
  | none =>
    have lobby := mirror.blank (List.getLast?_eq_none_iff.mp shown)
    rcases Client.released_cases go with racing | ⟨counting, _⟩
    · exact nomatch lobby.symm.trans racing
    · exact nomatch lobby.symm.trans counting
  | some p =>
    obtain ⟨_, _, data, sent, decoded⟩ :=
      reach_heard (run.reachable n) i p (List.mem_of_getLast? shown)
    obtain ⟨m, earlier, sends⟩ := exists_sends run sent decoded
    exact ⟨m, earlier, p, shown, sends⟩

/-- The room at the moment at which it sent what a released client acts on. -/
theorem Releases.committed {run : (system place).Behaviour} {n m : Nat} {i : ι}
    (releases : Releases run n i) (origin : Origin run n i m) :
    (run.state m).server.start ≠ 0 ∧ ((run.state m).server.phase = .racing ∨
      ((run.state m).server.phase = .countdown ∧ ∀ j, ((run.state m).server.players j).occupied = true →
        ((run.state m).server.players j).armed = (run.state m).server.start)) := by
  obtain ⟨due, go⟩ := releases.released
  obtain ⟨now, _, phase, _, mask, peers⟩ := origin.shows
  have timed := Server.reachable_timed (reach_server (run.reachable m))
  rcases Client.released_cases go with racing | ⟨counting, _, all⟩
  · rw [phase] at racing
    exact ⟨timed (by rw [racing]; decide), .inl racing⟩
  · rw [phase] at counting
    refine ⟨timed (by rw [counting]), .inr ⟨counting, fun j seated => ?_⟩⟩
    have bit := all j (by rw [peers]; exact seated)
    rw [mask, Server.armedMask, Server.mask_testBit] at bit
    simp only [Server.armedFor, Bool.and_eq_true, beq_iff_eq] at bit
    exact bit.1.2

/-- An agreed start outlives everything but the next generation. -/
theorem committed_run (run : (system place).Behaviour) {n m : Nat} {start : UInt64} (later : n ≤ m)
    (committed : (run.state n).server.Committed start)
    (same : ∀ k, n ≤ k → k ≤ m → (run.state k).server.race = (run.state n).server.race) :
    (run.state m).server.Committed start := by
  induction later with
  | refl => exact committed
  | @step m later ih =>
    have before := ih fun k low high => same k low (Nat.le_succ_of_le high)
    rcases run.moves m with still | ⟨e, may, moved⟩
    · rw [still]
      exact before
    · cases e with
      | client i e =>
        rw [moved]
        exact before
      | server e =>
        have race : ((run.state m).server.step e).race = (run.state m).server.race := by
          have now := same (m + 1) (Nat.le_succ_of_le later) (Nat.le_refl _)
          rw [moved] at now
          exact now.trans (same m later (Nat.le_succ m)).symm
        rw [moved]
        rcases (run.state m).server.step_stay_or_begun e with stay | ⟨begun, _⟩
        · exact before.stay stay
        · exact absurd race begun.ne

/-- A client that starts does so on a snapshot of its own generation, sent when
the race was on or when everybody in the room had acknowledged its start time;
from then on the room keeps that start time, so that all who start in one
generation start on the same one. -/
theorem start_barrier (run : (system place).Behaviour) :
    (∀ n i, Releases run n i → ∃ m, Origin run n i m ∧
      (run.state m).server.race = ((run.state n).client i).race ∧
      (run.state m).server.start = ((run.state n).client i).startTime ∧
      ((run.state n).client i).startTime ≠ 0 ∧
      ((run.state m).server.phase = .racing ∨ ((run.state m).server.phase = .countdown ∧
        ∀ j, ((run.state m).server.players j).occupied = true →
          ((run.state m).server.players j).armed = ((run.state n).client i).startTime)) ∧
      ∀ k, m ≤ k → (∀ l, m ≤ l → l ≤ k → (run.state l).server.race = (run.state m).server.race) →
        (run.state k).server.start = ((run.state n).client i).startTime) ∧
    (∀ n i m n' i' m', Releases run n i → Origin run n i m → Releases run n' i' → Origin run n' i' m' →
      (∀ l, min m m' ≤ l → l ≤ max m m' → (run.state l).server.race = (run.state m).server.race) →
      ((run.state n).client i).startTime = ((run.state n').client i').startTime) := by
  have agreed {n m : Nat} {i : ι} (releases : Releases run n i) (origin : Origin run n i m) :
      (run.state m).server.Committed ((run.state n).client i).startTime := by
    obtain ⟨_, state⟩ := releases.committed origin
    obtain ⟨_, _, _, start, _⟩ := origin.shows
    exact ⟨start.symm, state.symm.imp (fun counting => counting) .inl⟩
  refine ⟨fun n i releases => ?_, fun n i m n' i' m' releases origin releases' origin' same => ?_⟩
  · obtain ⟨m, origin⟩ := releases.origin
    obtain ⟨_, race, _, start, _⟩ := origin.shows
    obtain ⟨nonzero, state⟩ := releases.committed origin
    refine ⟨m, origin, race.symm, start.symm, start ▸ nonzero, start ▸ state, fun k later constant => ?_⟩
    exact (committed_run run later (agreed releases origin) constant).start
  · have earlier {n m n' m' : Nat} {i i' : ι} (releases : Releases run n i) (origin : Origin run n i m)
        (releases' : Releases run n' i') (origin' : Origin run n' i' m') (order : m ≤ m')
        (same : ∀ l, m ≤ l → l ≤ m' → (run.state l).server.race = (run.state m).server.race) :
        ((run.state n).client i).startTime = ((run.state n').client i').startTime :=
      (committed_run run order (agreed releases origin) same).start.symm.trans
        (agreed releases' origin').start
    rcases Nat.le_total m m' with order | order
    · rw [min_eq_left order, max_eq_right order] at same
      exact earlier releases origin releases' origin' order same
    · rw [min_eq_right order, max_eq_left order] at same
      refine (earlier releases' origin' releases origin order fun l low high => ?_).symm
      rw [same l low high, same m' (Nat.le_refl _) order]

def sampleRun : (system samplePlace).Behaviour :=
  .ofRun sampleLobby_init sampleEvents (by decide +kernel)

theorem sampleRun_succ {n : Nat} {e : Event (Fin 1)} (atN : sampleEvents[n]? = some e) :
    sampleRun.state (n + 1) = (sampleRun.state n).step e := System.Behaviour.ofRun_succ atN

/-- The last event of the sample is a start. -/
theorem sampleRun_releases : Releases sampleRun 24 0 where
  frame := by
    have last : sampleEvents[24]? = some (.client 0 (.frame sampleGrid true 1500000)) := rfl
    exact ⟨sampleGrid, true, 1500000, sampleRun_succ last⟩
  before := by decide +kernel
  after := by decide +kernel

theorem sampleRun_barrier : ∃ m, Origin sampleRun 24 0 m ∧
    (sampleRun.state m).server.start = ((sampleRun.state 24).client 0).startTime := by
  obtain ⟨m, origin, _, start, _⟩ := (start_barrier sampleRun).1 24 0 sampleRun_releases
  exact ⟨m, origin, start⟩

end Room

end FzeroVs
