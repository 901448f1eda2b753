import FzeroVs.Server.Lobbies

namespace FzeroVs

/-- What ties a slot to its client. -/
structure Player.Same (p q : Player) : Prop where
  token : q.token = p.token
  address : q.address = p.address
  nonce : q.nonce = p.nonce
  commandSeq : q.commandSeq = p.commandSeq

namespace Server

/-- Nobody has come, no command has been taken, and whoever is still there is
who he was. -/
structure Keeps (s t : Server) : Prop where
  session : t.session = s.session
  consumed : t.consumed = s.consumed
  drawn : t.drawn = s.drawn
  slot : ∀ i, (t.players i).occupied = true →
    (s.players i).occupied = true ∧ (s.players i).Same (t.players i)

theorem Keeps.refl (s : Server) : Keeps s s :=
  ⟨rfl, rfl, rfl, fun _ seated => ⟨seated, rfl, rfl, rfl, rfl⟩⟩

theorem Keeps.trans {s t u : Server} (first : Keeps s t) (second : Keeps t u) : Keeps s u where
  session := second.session.trans first.session
  consumed := second.consumed.trans first.consumed
  drawn := second.drawn.trans first.drawn
  slot i seated := by
    obtain ⟨seatedT, sameT⟩ := second.slot i seated
    obtain ⟨seatedS, sameS⟩ := first.slot i seatedT
    exact ⟨seatedS, sameT.token.trans sameS.token, sameT.address.trans sameS.address,
      sameT.nonce.trans sameS.nonce, sameT.commandSeq.trans sameS.commandSeq⟩

theorem Keeps.modify {s : Server} {i : Fin 4} {f : Player → Player}
    (slot : (f (s.players i)).occupied = true →
      (s.players i).occupied = true ∧ (s.players i).Same (f (s.players i))) :
    Keeps s (s.modify i f) := by
  refine ⟨rfl, rfl, rfl, fun j seated => ?_⟩
  rw [modify_players] at seated ⊢
  split at seated
  next same =>
    subst same
    rw [if_pos rfl]
    exact slot seated
  next other =>
    rw [if_neg other]
    exact ⟨seated, rfl, rfl, rfl, rfl⟩

theorem Quiet.keeps {s t : Server} (quiet : Quiet s t) : Keeps s t where
  session := quiet.session
  consumed := quiet.consumed
  drawn := quiet.drawn
  slot i seated :=
    ⟨(quiet.occupied i).symm.trans seated, quiet.field Player.token (fun _ => rfl) i,
      quiet.field Player.address (fun _ => rfl) i, quiet.field Player.nonce (fun _ => rfl) i,
      quiet.field Player.commandSeq (fun _ => rfl) i⟩

theorem beginLobby_keeps (s : Server) : Keeps s s.beginLobby := by
  refine ⟨rfl, rfl, rfl, fun i seated => ?_⟩
  change (relobby (s.players i)).occupied = true at seated
  change _ ∧ (s.players i).Same (relobby (s.players i))
  rw [relobby_occupied] at seated
  rw [relobby, if_pos seated]
  exact ⟨seated, rfl, rfl, rfl, rfl⟩

theorem drop_keeps (s : Server) (i : Fin 4) : Keeps s (s.drop i) := by
  have down : Keeps s (s.disconnect i) := .modify fun seated => nomatch seated
  have cleared : Keeps (s.disconnect i) ((s.disconnect i).vacate i) := by
    refine ⟨rfl, rfl, rfl, fun j seated => ?_⟩
    by_cases isJ : j = i
    · rw [isJ, vacate_free] at seated
      exact nomatch seated
    · rw [vacate_players_ne s isJ] at seated ⊢
      rw [disconnect, modify_players_ne _ _ isJ]
      exact ⟨seated, rfl, rfl, rfl, rfl⟩
  rcases s.drop_cases i with ⟨same, _⟩ | ⟨same, _⟩ | ⟨same, _⟩
  · rw [same]
    exact ⟨down.session, down.consumed, down.drawn, down.slot⟩
  · rw [same]
    exact down.trans cleared
  · rw [same]
    have begun := (down.trans cleared).trans (beginLobby_keeps _)
    exact ⟨begun.session, begun.consumed, begun.drawn, begun.slot⟩

theorem dropEach_keeps (now : UInt64) (l : List (Fin 4)) (s : Server) : Keeps s (dropEach now l s) :=
  dropEach_invariant (.refl s) fun t i _ keeps => keeps.trans (t.drop_keeps i)

theorem passBarriers_keeps (s : Server) (now : UInt64) : Keeps s (s.passBarriers now) := by
  have loading (s : Server) : Keeps s s.enterLoading := by
    unfold enterLoading
    split <;> exact ⟨rfl, rfl, rfl, (Keeps.refl s).slot⟩
  have counting (s : Server) : Keeps s (s.enterCountdown now) := by
    unfold enterCountdown
    split
    · exact ⟨rfl, rfl, rfl, fun i seated => ⟨seated, rfl, rfl, rfl, rfl⟩⟩
    · exact .refl s
  have racing (s : Server) : Keeps s (s.countdown now) := by
    unfold countdown
    split
    · split
      · exact ⟨rfl, rfl, rfl, (Keeps.refl s).slot⟩
      · split
        · refine ⟨rfl, rfl, rfl, fun i seated => ?_⟩
          rw [release_occupied] at seated
          simp only [release, seated, if_true]
          exact ⟨trivial, rfl, rfl, rfl, rfl⟩
        · exact .refl s
    · exact .refl s
  have results (s : Server) : Keeps s s.enterResults := by
    unfold enterResults
    split <;> exact ⟨rfl, rfl, rfl, (Keeps.refl s).slot⟩
  exact (((loading s).trans (counting _)).trans (racing _)).trans (results _)

theorem advance_keeps (s : Server) (now : UInt64) : Keeps s (s.advance now) := by
  have dropped := dropEach_keeps now slots s
  simp only [advance]
  split
  · exact dropped
  · exact dropped.trans (passBarriers_keeps _ now)

theorem commandEffect_keeps {s : Server} (r : Readings) {i : Fin 4} (packet : Packet)
    (seated : (s.players i).occupied = true) : Keeps s (s.commandEffect r i packet) := by
  unfold commandEffect
  cases Command.ofCode (packet.byte 0) with
  | none => exact .refl s
  | some command =>
    cases command
    case config => exact ⟨rfl, rfl, rfl, (Keeps.refl s).slot⟩
    case next => exact .refl s
    case leave => exact .refl s
    all_goals exact .modify fun _ => ⟨seated, rfl, rfl, rfl, rfl⟩

theorem commandTail_keeps (s : Server) (i : Fin 4) (packet : Packet) : Keeps s (s.commandTail i packet) := by
  unfold commandTail
  split
  · exact s.beginLobby_keeps
  · exact s.drop_keeps i
  · exact .refl s

/-- Slot `i` has had its next command taken. -/
structure Took (s : Server) (i : Fin 4) (packet : Packet) (t : Server) : Prop where
  session : t.session = s.session
  consumed : t.consumed = s.consumed ++ [⟨(s.players i).token, packet.race, packet.seq, packet.body⟩]
  drawn : t.drawn = s.drawn
  slot : ∀ j, (t.players j).occupied = true → (s.players j).occupied = true ∧
    (t.players j).token = (s.players j).token ∧ (t.players j).address = (s.players j).address ∧
    (t.players j).nonce = (s.players j).nonce ∧
    (t.players j).commandSeq = if j = i then packet.seq else (s.players j).commandSeq

theorem acknowledge_took {s : Server} (r : Readings) (i : Fin 4) (packet : Packet) :
    Took s i packet (s.acknowledge r i packet) := by
  refine ⟨rfl, rfl, rfl, fun j seated => ?_⟩
  have same {α : Type} (g : Player → α) (keeps : ∀ (p : Player) (seq : UInt32) (seen : UInt64),
      g { p with commandSeq := seq, seen := seen } = g p) := acknowledge_players_eq g keeps s r i packet j
  refine ⟨(same Player.occupied fun _ _ _ => rfl).symm.trans seated, same Player.token fun _ _ _ => rfl,
    same Player.address fun _ _ _ => rfl, same Player.nonce fun _ _ _ => rfl, ?_⟩
  simp only [acknowledge, modify_players]
  split <;> rfl

theorem Took.keeps {s t u : Server} {i : Fin 4} {packet : Packet} (took : Took s i packet t)
    (keeps : Keeps t u) : Took s i packet u where
  session := keeps.session.trans took.session
  consumed := keeps.consumed.trans took.consumed
  drawn := keeps.drawn.trans took.drawn
  slot j seated := by
    obtain ⟨seatedT, same⟩ := keeps.slot j seated
    obtain ⟨seatedS, token, address, nonce, seq⟩ := took.slot j seatedT
    exact ⟨seatedS, same.token.trans token, same.address.trans address, same.nonce.trans nonce,
      same.commandSeq.trans seq⟩

theorem Keeps.took {s t u : Server} {i : Fin 4} {packet : Packet} (keeps : Keeps s t)
    (seated : (t.players i).occupied = true) (took : Took t i packet u) : Took s i packet u where
  session := took.session.trans keeps.session
  consumed := by rw [took.consumed, keeps.consumed, (keeps.slot i seated).2.token]
  drawn := took.drawn.trans keeps.drawn
  slot j seatedU := by
    obtain ⟨seatedT, token, address, nonce, seq⟩ := took.slot j seatedU
    obtain ⟨seatedS, same⟩ := keeps.slot j seatedT
    refine ⟨seatedS, token.trans same.token, address.trans same.address, nonce.trans same.nonce, ?_⟩
    rw [seq, same.commandSeq]

theorem receiveCommand_took {s : Server} (r : Readings) {i : Fin 4} (packet : Packet)
    (seated : (s.players i).occupied = true) : Took s i packet (s.receiveCommand r i packet) := by
  have took : Took s i packet (s.takeCommand r i packet) := by
    unfold takeCommand
    split
    · have present := commandEffect_occupied r packet seated
      have effect := (commandEffect_keeps r packet seated).took present (acknowledge_took r i packet)
      exact effect.keeps (commandTail_keeps _ i packet)
    · exact (acknowledge_took r i packet).keeps (commandError_quiet _ i packet).keeps
  exact (took.keeps (advance_keeps _ r.advanced.val)).keeps (snapshot_quiet _ _).keeps

/-- The packet is a HELLO that the open room answers by seating its sender, with
the token `d.random`, in slot `i`. -/
structure Seats (s : Server) (d : Incoming) (i : Fin 4) (packet : Packet) (t : Server) : Prop where
  live : s.closed = false
  lobby : s.phase = .lobby
  hello : packet.is .hello = true
  drawnToken : d.random ≠ 0
  newcomer : ∀ j, (s.players j).occupied = true → (s.players j).address ≠ d.address
  free : (s.players i).occupied = false
  session : t.session = s.session
  consumed : t.consumed = s.consumed
  drawn : t.drawn = s.drawn ++ [(d.random, d.address)]
  seq : t.snapshotSeq = s.snapshotSeq + 1
  self : (t.players i).token = d.random ∧ (t.players i).address = d.address ∧
    (t.players i).nonce = u64 packet.payload ∧ (t.players i).commandSeq = 0
  others : ∀ j, j ≠ i → (t.players j).occupied = true →
    (s.players j).occupied = true ∧ (s.players j).Same (t.players j)

theorem enroll_seats {s : Server} {d : Incoming} {i : Fin 4} {packet : Packet}
    (live : s.closed = false) (lobby : s.phase = .lobby) (hello : packet.is .hello = true)
    (newcomer : ∀ j, (s.players j).occupied = true → (s.players j).address ≠ d.address)
    (free : (s.players i).occupied = false) :
    Keeps s (s.enroll d.readings d.random d.address (u64 packet.payload) i) ∨
      Seats s d i packet (s.enroll d.readings d.random d.address (u64 packet.payload) i) := by
  unfold enroll
  split
  · exact .inl (.modify fun seated => nomatch seated)
  next drawn =>
    have seated := s.seat_players_self d.readings d.random d.address (u64 packet.payload) i
    have others (j : Fin 4) (other : j ≠ i) :=
      s.seat_players_ne d.readings d.random d.address (u64 packet.payload) other
    have sent : Quiet (s.seat d.readings d.random d.address (u64 packet.payload) i)
        (((s.seat d.readings d.random d.address (u64 packet.payload) i).welcome i).snapshot
          d.readings.sampled.val) := (transmit_quiet _ _ _).trans (snapshot_quiet _ _)
    have field {α : Type} (g : Player → α) (visible : ∀ p : Player, g p.visible = g p) :=
      sent.field g visible i
    refine .inr ⟨live, lobby, hello, drawn, newcomer, free, sent.session, sent.consumed, sent.drawn,
      ?_, ?_, fun j other present => ?_⟩
    · rw [snapshot_seq]
      rfl
    · rw [field Player.token fun _ => rfl, field Player.address fun _ => rfl,
        field Player.nonce fun _ => rfl, field Player.commandSeq fun _ => rfl, seated]
      exact ⟨rfl, rfl, rfl, rfl⟩
    · have kept := sent.keeps.slot j present
      rwa [others j other] at kept

theorem receiveHello_seats {s : Server} {d : Incoming} {packet : Packet} (live : s.closed = false)
    (hello : packet.is .hello = true) :
    Keeps s (s.receiveHello d.readings d.random d.address packet) ∨
      ∃ i, Seats s d i packet (s.receiveHello d.readings d.random d.address packet) := by
  unfold receiveHello
  split
  · exact .inl s.reject_quiet.keeps
  simp only
  split
  · exact .inl (s.joinError_quiet _ _ _).keeps
  split
  · exact .inl (s.joinError_quiet _ _ _).keeps
  split
  · split
    · exact .inl (transmit_quiet _ _ _).keeps
    · exact .inl (.refl s)
  next absent =>
    split
    · exact .inl (s.joinError_quiet _ _ _).keeps
    next lobby =>
      split
      · exact .inl (s.joinError_quiet _ _ _).keeps
      split
      next i found =>
        have free : (s.players i).occupied = false := by simpa using find_slots_some found
        have newcomer (j : Fin 4) (taken : (s.players j).occupied = true) :
            (s.players j).address ≠ d.address := by
          intro same
          have clash := find_slots_none absent j
          simp [taken, same] at clash
        rcases enroll_seats live (by simpa using lobby) hello newcomer free with keeps | seats
        · exact .inl keeps
        · exact .inr ⟨i, seats⟩
      next => exact .inl (.refl s)

/-- What one event does to the roster. -/
inductive Turn (s : Server) (e : Event) : Prop
  | keeps : Keeps s (s.step e) → Turn s e
  | seats (d : Incoming) (i : Fin 4) (packet : Packet) : e = .packet d → decode d.data = some packet →
      Seats s d i packet (s.step e) → Turn s e
  | took (d : Incoming) (i : Fin 4) (packet : Packet) : e = .packet d → decode d.data = some packet →
      Takes s d.address i packet → Took s i packet (s.step e) → Turn s e

theorem receiveFrom_keeps (s : Server) (r : Readings) (i : Fin 4) (packet : Packet) (size : Nat)
    (seated : (s.players i).occupied = true) : Keeps s (s.receiveFrom r i packet size) ∨
      (packet.is .command = true ∧ packet.race = s.race ∧ 1 ≤ packet.length.toNat ∧
        packet.seq = (s.players i).commandSeq + 1 ∧ Took s i packet (s.receiveFrom r i packet size)) := by
  unfold receiveFrom
  split
  · exact .inl (modify_quiet s i rfl).keeps
  split
  · exact .inl ((modify_quiet s i rfl).trans (transmit_quiet _ _ _)).keeps
  split
  · exact .inl s.countStale_quiet.keeps
  next current =>
    split
    · refine .inl ?_
      unfold receiveState
      split
      · exact s.reject_quiet.keeps
      split
      · exact s.countStale_quiet.keeps
      · exact .modify fun _ => ⟨seated, rfl, rfl, rfl, rfl⟩
    split
    · exact .inl s.reject_quiet.keeps
    next command =>
      split
      · exact .inl s.countStale_quiet.keeps
      split
      · exact .inl s.reject_quiet.keeps
      next following =>
        simp only [not_or, not_not, not_lt] at command
        exact .inr ⟨command.1, by simpa using current, command.2, by simpa using following,
          receiveCommand_took r packet seated⟩

theorem step_turn (s : Server) (e : Event) : Turn s e := by
  cases e with
  | packet d =>
    have unchanged (h : Quiet s (s.step (.packet d))) : Turn s (.packet d) := .keeps h.keeps
    cases decoded : decode d.data with
    | none =>
      refine unchanged ?_
      simp only [step, receivePacket, decoded]
      split
      · exact s.joinError_quiet _ _ _
      · exact s.reject_quiet
    | some packet =>
      by_cases closed : s.closed = true
      · refine .keeps ?_
        simp only [step, receivePacket, decoded, closed, if_true]
        exact .refl s
      have live : s.closed = false := by simpa using closed
      have counted := s.countRx_quiet.keeps
      by_cases hello : packet.is .hello = true
      · have same : s.step (.packet d) = s.countRx.receiveHello d.readings
            d.random d.address packet := by
          simp only [step, receivePacket, decoded, if_neg closed, if_pos hello]
        rcases receiveHello_seats (s := s.countRx) (d := d) live hello with
          keeps | ⟨i, seats⟩
        · exact .keeps (same ▸ counted.trans keeps)
        · refine .seats d i packet rfl decoded ?_
          rw [same]
          exact ⟨seats.live, seats.lobby, hello, seats.drawnToken, seats.newcomer, seats.free, seats.session,
            seats.consumed, seats.drawn, seats.seq, seats.self, seats.others⟩
      cases found : s.countRx.authenticate d.address packet with
      | none =>
        refine .keeps ?_
        simp only [step, receivePacket, decoded, if_neg closed, if_neg hello, found]
        exact counted.trans (reject_quiet _).keeps
      | some i =>
        obtain ⟨seated, session, token, place⟩ := authenticate_some found
        have same : s.step (.packet d) = s.countRx.receiveFrom d.readings i
            packet d.data.length := by
          simp only [step, receivePacket, decoded, if_neg closed, if_neg hello, found]
        rcases receiveFrom_keeps s.countRx d.readings i packet d.data.length seated with
          keeps | ⟨command, race, nonempty, seq, took⟩
        · exact .keeps (same ▸ counted.trans keeps)
        · refine .took d i packet rfl decoded
            ⟨live, seated, session, token, place, command, race, nonempty, seq⟩ ?_
          rw [same]
          exact counted.took seated took
  | timer now sampled =>
    rcases s.timer_quiet now sampled with same | quiet
    · exact .keeps (by rw [step, same]; exact .refl s)
    · exact .keeps ((s.advance_keeps now.val).trans quiet.keeps)
  | probe now => exact .keeps (s.probe_quiet now).keeps
  | close =>
    rcases s.close_cases with same | ⟨quiet, _⟩
    · exact .keeps (by rw [step, same]; exact .refl s)
    · have shut : Keeps s { s with closed := true } := ⟨rfl, rfl, rfl, (Keeps.refl s).slot⟩
      exact .keeps (shut.trans quiet.keeps)

end Server

end FzeroVs
