import FzeroVs.Server.Roster

namespace FzeroVs.Server

/-- A room with an owner, who sits in slot 0 and hosts until the room closes. -/
structure Owned (s : Server) : Prop where
  hosted : s.ownerNonce ≠ 0
  kept : s.closed = true ∨
    ((s.players 0).occupied = true ∧ (s.players 0).nonce = s.ownerNonce ∧ s.host = 0)

theorem Owned.congr {s t : Server} (owned : Owned s) (owner : t.ownerNonce = s.ownerNonce)
    (closed : t.closed = s.closed) (host : t.host = s.host)
    (occupied : ∀ i, (t.players i).occupied = (s.players i).occupied)
    (nonce : (s.players 0).occupied = true → (t.players 0).nonce = (s.players 0).nonce) : Owned t where
  hosted := by rw [owner]; exact owned.hosted
  kept := by
    rw [closed, host, owner, occupied]
    rcases owned.kept with shut | ⟨seated, own, hosts⟩
    · exact .inl shut
    · exact .inr ⟨seated, (nonce seated).trans own, hosts⟩

theorem Owned.quiet {s t : Server} (owned : Owned s) (quiet : Quiet s t) : Owned t :=
  owned.congr quiet.ownerNonce quiet.closed quiet.host quiet.occupied
    fun _ => quiet.field Player.nonce (fun _ => rfl) 0

theorem Owned.modify {s : Server} (owned : Owned s) {i : Fin 4} {f : Player → Player}
    (occupied : (f (s.players i)).occupied = (s.players i).occupied)
    (nonce : (f (s.players i)).nonce = (s.players i).nonce) : Owned (s.modify i f) :=
  owned.congr rfl rfl rfl (modify_players_eq Player.occupied occupied)
    fun _ => modify_players_eq Player.nonce nonce 0

theorem Owned.beginLobby {s : Server} (owned : Owned s) : Owned s.beginLobby := by
  refine owned.congr rfl rfl rfl (fun i => relobby_occupied _) fun seated => ?_
  simp only [Server.beginLobby, relobby, seated, if_true]

/-- The owner's departure closes the room. Anybody else's leaves the owner in
his slot, so that it neither passes on the host role nor empties the room. -/
theorem Owned.drop {s : Server} (owned : Owned s) (i : Fin 4) : Owned (s.drop i) := by
  rcases owned.kept with shut | ⟨owner, nonce, host⟩
  · rcases s.drop_cases i with ⟨same, _⟩ | ⟨same, _⟩ | ⟨same, _⟩ <;> rw [same]
    · exact ⟨owned.hosted, .inl rfl⟩
    · exact ⟨owned.hosted, .inl shut⟩
    · exact ⟨owned.hosted, .inl shut⟩
  rcases s.drop_cases i with ⟨same, _⟩ | ⟨same, _⟩ | ⟨same, last⟩
  · rw [same]
    exact ⟨owned.hosted, .inl rfl⟩
  all_goals
    by_cases first : i = 0
    · simp only [Server.drop]
      rw [if_pos ⟨owned.hosted, first⟩]
      exact ⟨owned.hosted, .inl rfl⟩
    have other : (0 : Fin 4) ≠ i := fun same => first same.symm
    have stays : ((s.disconnect i).vacate i).players 0 = s.players 0 := vacate_players_ne s other
  · rw [same]
    refine ⟨owned.hosted, .inr ⟨by rw [stays]; exact owner, by rw [stays]; exact nonce, ?_⟩⟩
    change (if s.host.toNat = i.val then (s.disconnect i).electHost else s.host) = 0
    rw [if_neg, host]
    rw [host]
    exact fun clash => other (Fin.ext clash)
  · rw [same] at last
    have free := count_eq_zero_iff.mp last 0
    change (relobby (((s.disconnect i).vacate i).players 0)).occupied = false at free
    rw [relobby_occupied, stays, owner] at free
    cases free

theorem Owned.dropEach {s : Server} (owned : Owned s) (now : UInt64) (l : List (Fin 4)) :
    Owned (dropEach now l s) :=
  dropEach_invariant (P := Owned) owned fun _ i _ owned => owned.drop i

theorem passBarriers_frame (s : Server) (now : UInt64) :
    (s.passBarriers now).ownerNonce = s.ownerNonce ∧ (s.passBarriers now).closed = s.closed ∧
    (s.passBarriers now).host = s.host ∧ (s.passBarriers now).expected = s.expected ∧
    (s.passBarriers now).track = s.track ∧ (s.passBarriers now).league = s.league := by
  have loading (s : Server) : s.enterLoading = { s with phase := s.enterLoading.phase } := by
    unfold enterLoading
    split <;> rfl
  have counting (s : Server) : s.enterCountdown now = { s with
      start := (s.enterCountdown now).start, phase := (s.enterCountdown now).phase,
      players := (s.enterCountdown now).players } := by
    unfold enterCountdown
    split <;> rfl
  have racing (s : Server) : s.countdown now = { s with
      start := (s.countdown now).start, phase := (s.countdown now).phase,
      players := (s.countdown now).players } := by
    unfold countdown
    split
    · split
      · rfl
      · split <;> rfl
    · rfl
  have results (s : Server) : s.enterResults = { s with phase := s.enterResults.phase } := by
    unfold enterResults
    split <;> rfl
  rw [passBarriers, results, racing, counting, loading]
  exact ⟨rfl, rfl, rfl, rfl, rfl, rfl⟩

theorem passBarriers_nonce {s : Server} (now : UInt64) {i : Fin 4} (seated : (s.players i).occupied = true) :
    ((s.passBarriers now).players i).nonce = (s.players i).nonce := by
  have present : ((s.passBarriers now).players i).occupied = true := by
    rw [passBarriers_occupied]
    exact seated
  exact ((passBarriers_keeps s now).slot i present).2.nonce

theorem Owned.advance {s : Server} (owned : Owned s) (now : UInt64) : Owned (s.advance now) := by
  have dropped := owned.dropEach now slots
  simp only [Server.advance]
  split
  · exact dropped
  · change Owned ((Server.dropEach now slots s).passBarriers now)
    obtain ⟨owner, closed, host, _⟩ := (Server.dropEach now slots s).passBarriers_frame now
    exact dropped.congr owner closed host (passBarriers_occupied _ now) (passBarriers_nonce now)

theorem Owned.commandEffect {s : Server} (owned : Owned s) (r : Readings) {i : Fin 4}
    (packet : Packet) (seated : (s.players i).occupied = true) : Owned (s.commandEffect r i packet) := by
  have occupied (p : Player) (status : Status) (there : (status != .empty && status != .disconnected) = true)
      (became : p.status = status) : p.occupied = (s.players i).occupied := by
    rw [seated, Player.occupied, became, there]
  unfold Server.commandEffect
  cases Command.ofCode (packet.byte 0) with
  | none => exact owned
  | some command =>
    cases command
    case select => exact owned.modify (occupied _ .selected rfl rfl) rfl
    case loaded => exact owned.modify (occupied _ .loaded rfl rfl) rfl
    case arm => exact owned.modify rfl rfl
    case finish => exact owned.modify (occupied _ .finished rfl rfl) rfl
    case config => exact owned.congr rfl rfl rfl (fun _ => rfl) fun _ => rfl
    all_goals exact owned

theorem Owned.acknowledge {s : Server} (owned : Owned s) (r : Readings) (i : Fin 4)
    (packet : Packet) : Owned (s.acknowledge r i packet) :=
  owned.congr rfl rfl rfl (acknowledge_players_eq Player.occupied (fun _ _ _ => rfl) s r i packet)
    fun _ => acknowledge_players_eq Player.nonce (fun _ _ _ => rfl) s r i packet 0

theorem Owned.takeCommand {s : Server} (owned : Owned s) (r : Readings) {i : Fin 4}
    (packet : Packet) (seated : (s.players i).occupied = true) : Owned (s.takeCommand r i packet) := by
  unfold Server.takeCommand
  split
  · have applied := (owned.commandEffect r packet seated).acknowledge r i packet
    unfold Server.commandTail
    split
    · exact applied.beginLobby
    · exact applied.drop i
    · exact applied
  · exact (owned.acknowledge r i packet).quiet (commandError_quiet _ i packet)

theorem Owned.receiveCommand {s : Server} (owned : Owned s) (r : Readings) {i : Fin 4}
    (packet : Packet) (seated : (s.players i).occupied = true) : Owned (s.receiveCommand r i packet) :=
  ((owned.takeCommand r packet seated).advance _).quiet (snapshot_quiet _ _)

theorem Owned.receiveFrom {s : Server} (owned : Owned s) (r : Readings) {i : Fin 4}
    (packet : Packet) (size : Nat) (seated : (s.players i).occupied = true) :
    Owned (s.receiveFrom r i packet size) := by
  unfold Server.receiveFrom
  split
  · exact owned.modify rfl rfl
  split
  · exact (owned.modify (i := i) (f := fun p => { p with seen := r.seen.val }) rfl rfl).quiet
      (transmit_quiet _ _ _)
  split
  · exact owned.quiet s.countStale_quiet
  split
  · unfold Server.receiveState
    split
    · exact owned.quiet s.reject_quiet
    split
    · exact owned.quiet s.countStale_quiet
    · exact owned.modify rfl rfl
  split
  · exact owned.quiet s.reject_quiet
  split
  · exact owned.quiet s.countStale_quiet
  split
  · exact owned.quiet s.reject_quiet
  · exact owned.receiveCommand r packet seated

/-- Slots are searched in ascending order. -/
theorem find_slots_first {p : Fin 4 → Bool} {i : Fin 4} (found : slots.find? p = some i) {j : Fin 4}
    (before : j < i) : p j = false := by
  obtain ⟨_, earlier, later, parts, missed⟩ := List.find?_eq_some_iff_append.mp found
  have ascending : (earlier ++ i :: later).Pairwise (· < ·) := by
    rw [← parts]
    decide
  have member := mem_slots j
  rw [parts, List.mem_append, List.mem_cons] at member
  rcases member with inEarlier | rfl | inLater
  · simpa using missed j inEarlier
  · exact absurd before (lt_irrefl _)
  · have above := (List.pairwise_cons.mp (List.pairwise_append.mp ascending).2.1).1 j inLater
    exact absurd (before.trans above) (lt_irrefl _)

/-- The ways in which a HELLO can end: nothing but counters and an answer, a
slot that no token could be drawn for, or a newcomer in the first free slot. -/
inductive Greeted (s : Server) (r : Readings) (address : Endpoint) (nonce : UInt64) : Server → Prop
  | quiet {t : Server} : Quiet s t → Greeted s r address nonce t
  | spoilt (i : Fin 4) : (s.players i).occupied = false →
      Greeted s r address nonce (s.modify i fun _ => { address := address })
  | seated {t : Server} (i : Fin 4) (token : UInt64) : (s.players i).occupied = false →
      (∀ j, j < i → (s.players j).occupied = true) →
      (s.ownerNonce ≠ 0 → (s.players 0).occupied = true ∨ nonce = s.ownerNonce) →
      Quiet (s.seat r token address nonce i) t → Greeted s r address nonce t

theorem receiveHello_greeted (s : Server) (r : Readings) (random : UInt64) (address : Endpoint)
    (packet : Packet) :
    Greeted s r address (u64 packet.payload) (s.receiveHello r random address packet) := by
  unfold receiveHello
  split
  · exact .quiet s.reject_quiet
  dsimp only
  split
  · exact .quiet (s.joinError_quiet _ _ _)
  split
  · exact .quiet (s.joinError_quiet _ _ _)
  next admitted =>
    split
    · split
      · exact .quiet (transmit_quiet _ _ _)
      · exact .quiet (.refl s)
    split
    · exact .quiet (s.joinError_quiet _ _ _)
    split
    · exact .quiet (s.joinError_quiet _ _ _)
    split
    next i found =>
      have free : (s.players i).occupied = false := by simpa using find_slots_some found
      unfold enroll
      split
      · exact .spoilt i free
      · refine .seated i random free (fun j before => ?_) (fun hosted => ?_)
          ((transmit_quiet _ _ _).trans (snapshot_quiet _ _))
        · simpa using find_slots_first found before
        · by_contra refused
          simp only [not_or] at refused
          exact admitted ⟨hosted, refused⟩
    next => exact .quiet (.refl s)

theorem spoil_occupied {s : Server} {i : Fin 4} (free : (s.players i).occupied = false) (address : Endpoint)
    (j : Fin 4) : ((s.modify i fun _ => { address := address }).players j).occupied = (s.players j).occupied :=
  modify_players_eq Player.occupied (by rw [free]; rfl) j

theorem Owned.greeted {s t : Server} (owned : Owned s) {r : Readings} {address : Endpoint} {nonce : UInt64}
    (greeted : Greeted s r address nonce t) : Owned t := by
  cases greeted with
  | quiet quiet => exact owned.quiet quiet
  | spoilt i free =>
    refine owned.congr rfl rfl rfl (spoil_occupied free address) fun seated => ?_
    rw [modify_players_ne s _ fun same => by rw [same, free] at seated; exact nomatch seated]
  | seated i token free first admitted quiet =>
    suffices seated : Owned (s.seat r token address nonce i) from seated.quiet quiet
    refine ⟨owned.hosted, ?_⟩
    rcases owned.kept with shut | ⟨owner, own, hosts⟩
    · exact .inl shut
    have other : (0 : Fin 4) ≠ i := fun same => by
      rw [← same, owner] at free
      exact nomatch free
    have host : (s.seat r token address nonce i).host = if s.host = 255 then UInt8.ofNat i.val else s.host := rfl
    rw [host, seat_players_ne s r token address nonce other, hosts]
    exact .inr ⟨owner, own, rfl⟩

theorem Owned.step {s : Server} (owned : Owned s) (e : Event) : Owned (s.step e) := by
  cases e with
  | packet d =>
    simp only [Server.step, receivePacket]
    split
    · split
      · exact owned.quiet (s.joinError_quiet _ _ _)
      · exact owned.quiet s.reject_quiet
    next packet decoded =>
      split
      · exact owned
      have counted := owned.quiet s.countRx_quiet
      split
      · exact counted.greeted (receiveHello_greeted _ _ _ _ packet)
      · split
        · exact counted.quiet (reject_quiet _)
        next i found => exact counted.receiveFrom _ packet _ (authenticate_some found).1
  | timer now sampled =>
    rcases s.timer_quiet now sampled with same | quiet
    · rw [Server.step, same]
      exact owned
    · exact (owned.advance now.val).quiet quiet
  | probe now => exact owned.quiet (s.probe_quiet now)
  | close =>
    rcases s.close_cases with same | ⟨quiet, closed⟩
    · rw [Server.step, same]
      exact owned
    · exact ⟨by rw [Server.step, quiet.ownerNonce]; exact owned.hosted, .inl closed⟩

/-- A room that still waits for its owner. -/
structure Vacant (s : Server) : Prop where
  hosted : s.ownerNonce ≠ 0
  empty : s.count = 0
  host : s.host = 255

theorem Vacant.quiet {s t : Server} (vacant : Vacant s) (quiet : Quiet s t) : Vacant t where
  hosted := by rw [quiet.ownerNonce]; exact vacant.hosted
  empty := (count_congr quiet.occupied).trans vacant.empty
  host := quiet.host.trans vacant.host

/-- The room is empty, so the first free slot is the reserved one and only the
owner gets it. -/
theorem Vacant.greeted {s t : Server} (vacant : Vacant s) {r : Readings} {address : Endpoint} {nonce : UInt64}
    (greeted : Greeted s r address nonce t) : Owned t ∨ Vacant t := by
  cases greeted with
  | quiet quiet => exact .inr (vacant.quiet quiet)
  | spoilt i free => exact .inr ⟨vacant.hosted, (count_congr (spoil_occupied free address)).trans vacant.empty, vacant.host⟩
  | seated i token free first admitted quiet =>
    have empty := count_eq_zero_iff.mp vacant.empty
    have isFirst : i = 0 := by
      by_contra later
      have taken := first 0 (Fin.pos_iff_ne_zero.mpr later)
      rw [empty 0] at taken
      exact nomatch taken
    subst isFirst
    have owner := (admitted vacant.hosted).resolve_left (by rw [empty 0]; exact Bool.false_ne_true)
    have self := s.seat_players_self r token address nonce 0
    have host : (s.seat r token address nonce 0).host = if s.host = 255 then UInt8.ofNat 0 else s.host := rfl
    suffices seated : Owned (s.seat r token address nonce 0) from .inl (seated.quiet quiet)
    refine ⟨vacant.hosted, .inr ?_⟩
    rw [self, host, if_pos vacant.host]
    exact ⟨rfl, owner, rfl⟩

theorem Vacant.step {s : Server} (vacant : Vacant s) (e : Event) : Owned (s.step e) ∨ Vacant (s.step e) := by
  cases e with
  | packet d =>
    simp only [Server.step, receivePacket]
    split
    · split
      · exact .inr (vacant.quiet (s.joinError_quiet _ _ _))
      · exact .inr (vacant.quiet s.reject_quiet)
    next packet decoded =>
      split
      · exact .inr vacant
      have counted := vacant.quiet s.countRx_quiet
      split
      · exact counted.greeted (receiveHello_greeted _ _ _ _ packet)
      · split
        · exact .inr (counted.quiet (reject_quiet _))
        next i found =>
          have seated := (authenticate_some found).1
          rw [count_eq_zero_iff.mp counted.empty i] at seated
          cases seated
  | timer now sampled =>
    rcases s.timer_quiet now sampled with same | quiet
    · rw [Server.step, same]
      exact .inr vacant
    · refine .inr (Vacant.quiet ?_ quiet)
      simp only [advance, dropSilent, dropEach_of_empty vacant.empty]
      split
      · exact vacant
      · obtain ⟨owner, _, host, _⟩ := s.passBarriers_frame now.val
        exact ⟨by rw [owner]; exact vacant.hosted, (s.passBarriers_count now.val).trans vacant.empty,
          host.trans vacant.host⟩
  | probe now => exact .inr (vacant.quiet (s.probe_quiet now))
  | close =>
    rcases s.close_cases with same | ⟨quiet, closed⟩
    · rw [Server.step, same]
      exact .inr vacant
    · exact .inl ⟨by rw [Server.step, quiet.ownerNonce]; exact vacant.hosted, .inl closed⟩

theorem step_ownerNonce (s : Server) (e : Event) : (s.step e).ownerNonce = s.ownerNonce := by
  refine Path.keeps (P := fun t => t.ownerNonce = s.ownerNonce) (s.step_path e) (fun t u move same => ?_) rfl
  rw [← same]
  cases move
  case calm calm =>
    cases calm
    case quiet quiet => exact quiet.ownerNonce
    all_goals rfl
  case shut quiet => exact quiet.ownerNonce
  all_goals rfl

theorem reachable_owned_or_vacant {s : Server} (reach : system.Reachable s) (hosted : s.ownerNonce ≠ 0) :
    Owned s ∨ Vacant s := by
  refine reach.invariant (P := fun s => s.ownerNonce ≠ 0 → Owned s ∨ Vacant s) ?_ ?_ hosted
  · rintro s ⟨c, session, now, created⟩ hosted
    obtain ⟨_, _, _, _, _, rfl⟩ := create_some created
    exact .inr ⟨hosted, rfl, rfl⟩
  · intro s e _ _ _ holds hosted
    rcases holds ((s.step_ownerNonce e).symm.trans_ne hosted) with owned | vacant
    · exact .inl (owned.step e)
    · exact vacant.step e

/-- Without the owner in the room a HELLO of anybody else is refused. -/
theorem receivePacket_before_owner {s : Server} {d : Incoming} {packet : Packet} (hosted : s.ownerNonce ≠ 0)
    (absent : (s.players 0).occupied = false) (decoded : decode d.data = some packet)
    (hello : packet.is .hello = true) (stranger : u64 packet.payload ≠ s.ownerNonce) :
    Quiet s (s.step (.packet d)) := by
  simp only [step, receivePacket, decoded, hello, if_true]
  split
  · exact .refl s
  unfold receiveHello
  split
  · exact s.countRx_quiet.trans (reject_quiet _)
  dsimp only
  split
  · exact s.countRx_quiet.trans (joinError_quiet _ _ _ _)
  · rw [if_pos ⟨hosted, by rw [countRx_players, absent]; decide, stranger⟩]
    exact s.countRx_quiet.trans (joinError_quiet _ _ _ _)

theorem receivePacket_closed {s : Server} (closed : s.closed = true) (d : Incoming) :
    Quiet s (s.step (.packet d)) := by
  simp only [step, receivePacket, closed, if_true]
  split
  · split
    · exact s.joinError_quiet _ _ _
    · exact s.reject_quiet
  · exact .refl s

theorem step_closed {s : Server} (closed : s.closed = true) (e : Event) : (s.step e).closed = true :=
  Path.keeps (P := fun t => t.closed = true) (s.step_path e) (fun _ _ move => move.closed_of_closed) closed

/-- A closed room reports its end, in the very call that closes it and in all
later ones. -/
theorem pollReport_closed (s : Server) (w : Waiting) (closed : (s.pollReport w).2.closed = true) :
    (s.pollReport w).1 = 0 := by
  unfold pollReport at closed ⊢
  split at closed
  next ended => rw [if_pos ended]
  next opened =>
    rw [if_neg opened]
    split at closed
    next => exact absurd closed opened
    next waited =>
      rw [if_neg waited]
      dsimp only at closed ⊢
      split at closed
      next failed =>
        dsimp only at closed
        rw [failed.2.2] at closed
        exact nomatch closed
      next whole => rw [if_neg whole, if_pos closed]

/-- A room with an owner belongs to him: nobody enters before him, he sits in
slot 0 and hosts for as long as anybody is there, and with him the room ends. -/
theorem hosted_room_reserved {s : Server} (reach : system.Reachable s) (hosted : s.ownerNonce ≠ 0) :
    (s.closed = false →
      ((∃ i, (s.players i).occupied = true) → (s.players 0).occupied = true ∧
        (s.players 0).nonce = s.ownerNonce ∧ s.host = 0) ∧
      ((∀ i, (s.players i).occupied = false) → s.host = 255)) ∧
    (∀ (d : Incoming) (packet : Packet), decode d.data = some packet → packet.is .hello = true →
      u64 packet.payload ≠ s.ownerNonce → (s.players 0).occupied = false →
      ∀ i, ((s.step (.packet d)).players i).occupied = (s.players i).occupied) ∧
    (∀ e, s.closed = false → (s.players 0).occupied = true → ((s.step e).players 0).occupied = false →
      (s.step e).closed = true) ∧
    (s.closed = true →
      (∀ e, (s.step e).closed = true) ∧
      (∀ (d : Incoming) i, ((s.step (.packet d)).players i).occupied = (s.players i).occupied) ∧
      ∀ w, (s.pollReport w).1 = 0) ∧
    ∀ w, (s.pollReport w).2.closed = true → (s.pollReport w).1 = 0 := by
  have reserved := reachable_owned_or_vacant reach hosted
  -- Whoever is in the open room sits there beside its owner.
  have beside {i : Fin 4} (opened : s.closed = false) (seated : (s.players i).occupied = true) :
      (s.players 0).occupied = true ∧ (s.players 0).nonce = s.ownerNonce ∧ s.host = 0 := by
    rcases reserved with owned | vacant
    · exact owned.kept.resolve_left (by rw [opened]; exact Bool.false_ne_true)
    · rw [count_eq_zero_iff.mp vacant.empty i] at seated
      exact nomatch seated
  refine ⟨fun opened => ⟨?_, ?_⟩, ?_, ?_, fun closed => ⟨step_closed closed, ?_, ?_⟩, s.pollReport_closed⟩
  · rintro ⟨i, seated⟩
    exact beside opened seated
  · intro vacant
    exact (reachable_seating reach opened).noHost.mpr (count_eq_zero_iff.mpr vacant)
  · intro d packet decoded hello stranger absent
    exact (receivePacket_before_owner hosted absent decoded hello stranger).occupied
  · intro e opened owner gone
    have owned : Owned s := ⟨hosted, .inr (beside opened owner)⟩
    rcases (owned.step e).kept with shut | ⟨stays, _⟩
    · exact shut
    · rw [gone] at stays
      exact nomatch stays
  · intro d
    exact (receivePacket_closed closed d).occupied
  · intro w
    have ended : s.pollReport w = (0, s) := if_pos closed
    rw [ended]

/-- A hosted room for two, whose owner has the nonce of `sampleHello`. -/
def sampleHosted : Server := { sampleRoom with ownerNonce := 9 }

theorem sampleHosted_init : system.init sampleHosted :=
  ⟨⟨[], 12000, 2, 0, 0, 9⟩, 7, sampleClock, rfl⟩

/-- The owner is in, hosts, and closes the room when he leaves. -/
theorem sampleHosted_reserved :
    ((sampleHosted.step sampleJoin).players 0).nonce = 9 ∧ (sampleHosted.step sampleJoin).host = 0 ∧
    ((sampleHosted.step sampleJoin).step (sampleCommand sampleGuest 77 1 [7])).closed = true := by
  have reach : system.Reachable (sampleHosted.step sampleJoin) :=
    .next sampleJoin (.start sampleHosted_init) trivial trivial
  have reserved := hosted_room_reserved reach (by decide +kernel)
  have opened : (sampleHosted.step sampleJoin).closed = false := by decide +kernel
  have owner : ((sampleHosted.step sampleJoin).players 0).occupied = true := by decide +kernel
  obtain ⟨_, nonce, host⟩ := (reserved.1 opened).1 ⟨0, owner⟩
  refine ⟨nonce.trans (by decide +kernel), host, reserved.2.2.1 _ opened owner (by decide +kernel)⟩

end FzeroVs.Server
