import FzeroVs.Server.Seating

namespace FzeroVs.Server

/-- What a room keeps from its creation to its end. -/
structure Fixed (s t : Server) : Prop where
  session : t.session = s.session
  port : t.port = s.port
  ownerNonce : t.ownerNonce = s.ownerNonce
  key : t.key = s.key

namespace Fixed

theorem refl (s : Server) : Fixed s s := ⟨rfl, rfl, rfl, rfl⟩

theorem trans {s t u : Server} (first : Fixed s t) (second : Fixed t u) : Fixed s u where
  session := second.session.trans first.session
  port := second.port.trans first.port
  ownerNonce := second.ownerNonce.trans first.ownerNonce
  key := second.key.trans first.key

theorem foldl {α : Type} {f : Server → α → Server} (each : ∀ s a, Fixed s (f s a)) (l : List α) (s : Server) :
    Fixed s (l.foldl f s) :=
  List.foldlRecOn l f (refl s) fun t fixed a _ => fixed.trans (each t a)

end Fixed

theorem sendPlayer_fixed (s : Server) (i : Fin 4) (packet : Packet) : Fixed s (s.sendPlayer i packet) :=
  ⟨rfl, rfl, rfl, rfl⟩

theorem modify_fixed (s : Server) (i : Fin 4) (f : Player → Player) : Fixed s (s.modify i f) :=
  ⟨rfl, rfl, rfl, rfl⟩

theorem snapshot_fixed (s : Server) (now : UInt64) : Fixed s (s.snapshot now) := by
  have numbered : Fixed s { s with snapshotSeq := s.snapshotSeq + 1 } := ⟨rfl, rfl, rfl, rfl⟩
  exact numbered.trans (.foldl (fun s i => s.sendPlayer_fixed i _) _ _)

theorem drop_fixed (s : Server) (i : Fin 4) : Fixed s (s.drop i) := by
  unfold drop
  dsimp only
  split
  · exact ⟨rfl, rfl, rfl, rfl⟩
  · split <;> exact ⟨rfl, rfl, rfl, rfl⟩

theorem dropSilent_fixed (s : Server) (now : UInt64) : Fixed s (s.dropSilent now) := by
  refine .foldl (fun s i => ?_) _ _
  split
  · exact s.drop_fixed i
  · exact .refl s

theorem passBarriers_fixed (s : Server) (now : UInt64) : Fixed s (s.passBarriers now) := by
  have loading (s : Server) : Fixed s s.enterLoading := by
    unfold enterLoading
    split <;> exact ⟨rfl, rfl, rfl, rfl⟩
  have counting (s : Server) : Fixed s (s.enterCountdown now) := by
    unfold enterCountdown
    split <;> exact ⟨rfl, rfl, rfl, rfl⟩
  have racing (s : Server) : Fixed s (s.countdown now) := by
    unfold countdown
    split
    · split
      · exact ⟨rfl, rfl, rfl, rfl⟩
      · split <;> exact ⟨rfl, rfl, rfl, rfl⟩
    · exact .refl s
  have results (s : Server) : Fixed s s.enterResults := by
    unfold enterResults
    split <;> exact ⟨rfl, rfl, rfl, rfl⟩
  exact ((loading s).trans (counting _)).trans ((racing _).trans (results _))

theorem advance_fixed (s : Server) (now : UInt64) : Fixed s (s.advance now) := by
  have dropped := s.dropSilent_fixed now
  unfold advance
  dsimp only
  split
  · exact dropped
  · exact dropped.trans (passBarriers_fixed _ now)

theorem enroll_fixed (s : Server) (r : Readings) (random : UInt64) (address : Endpoint) (nonce : UInt64)
    (i : Fin 4) : Fixed s (s.enroll r random address nonce i) := by
  have seated : Fixed s (s.seat r random address nonce i) := ⟨rfl, rfl, rfl, rfl⟩
  unfold enroll
  split
  · exact s.modify_fixed i _
  · exact (seated.trans (sendPlayer_fixed _ i _)).trans (snapshot_fixed _ _)

theorem joinError_fixed (s : Server) (address : Endpoint) (nonce : UInt64) (reason : Reject) :
    Fixed s (s.joinError address nonce reason) := ⟨rfl, rfl, rfl, rfl⟩

theorem receiveHello_fixed (s : Server) (r : Readings) (random : UInt64) (address : Endpoint) (packet : Packet) :
    Fixed s (s.receiveHello r random address packet) := by
  unfold receiveHello
  split
  · exact ⟨rfl, rfl, rfl, rfl⟩
  dsimp only
  split
  · exact s.joinError_fixed address _ _
  split
  · exact s.joinError_fixed address _ _
  split
  · split
    · exact s.sendPlayer_fixed _ _
    · exact .refl s
  split
  · exact s.joinError_fixed address _ _
  split
  · exact s.joinError_fixed address _ _
  split
  · exact s.enroll_fixed r random address _ _
  · exact .refl s

theorem takeCommand_fixed (s : Server) (r : Readings) (i : Fin 4) (packet : Packet) :
    Fixed s (s.takeCommand r i packet) := by
  have effect : Fixed s (s.commandEffect r i packet) := by
    unfold commandEffect
    split <;> exact ⟨rfl, rfl, rfl, rfl⟩
  have acknowledged (s : Server) : Fixed s (s.acknowledge r i packet) := ⟨rfl, rfl, rfl, rfl⟩
  have tail (s : Server) : Fixed s (s.commandTail i packet) := by
    unfold commandTail
    split
    · exact ⟨rfl, rfl, rfl, rfl⟩
    · exact s.drop_fixed i
    · exact .refl s
  unfold takeCommand
  split
  · exact (effect.trans (acknowledged _)).trans (tail _)
  · exact (acknowledged s).trans ⟨rfl, rfl, rfl, rfl⟩

theorem receiveFrom_fixed (s : Server) (r : Readings) (i : Fin 4) (packet : Packet) (size : Nat) :
    Fixed s (s.receiveFrom r i packet size) := by
  have moved : Fixed s (s.receiveState r i packet size) := by
    unfold receiveState
    split
    · exact ⟨rfl, rfl, rfl, rfl⟩
    · split <;> exact ⟨rfl, rfl, rfl, rfl⟩
  have commanded : Fixed s (s.receiveCommand r i packet) :=
    ((s.takeCommand_fixed r i packet).trans (advance_fixed _ _)).trans (snapshot_fixed _ _)
  unfold receiveFrom
  split
  · exact s.modify_fixed i _
  split
  · exact ⟨rfl, rfl, rfl, rfl⟩
  split
  · exact ⟨rfl, rfl, rfl, rfl⟩
  split
  · exact moved
  split
  · exact ⟨rfl, rfl, rfl, rfl⟩
  split
  · exact ⟨rfl, rfl, rfl, rfl⟩
  split
  · exact ⟨rfl, rfl, rfl, rfl⟩
  · exact commanded

theorem receivePacket_fixed (s : Server) (r : Readings) (random : UInt64) (address : Endpoint) (data : List UInt8) :
    Fixed s (s.receivePacket r random address data) := by
  have counted : Fixed s s.countRx := ⟨rfl, rfl, rfl, rfl⟩
  unfold receivePacket
  split
  · split <;> exact ⟨rfl, rfl, rfl, rfl⟩
  split
  · exact .refl s
  dsimp only
  split
  · exact counted.trans (receiveHello_fixed _ r random address _)
  split
  · exact ⟨rfl, rfl, rfl, rfl⟩
  · exact counted.trans (receiveFrom_fixed _ r _ _ _)

theorem step_fixed (s : Server) (e : Event) : Fixed s (s.step e) := by
  cases e with
  | packet d => exact s.receivePacket_fixed d.readings d.random d.address d.data
  | timer now sampled =>
    have advanced := s.advance_fixed now.val
    unfold step timer
    dsimp only
    split
    · split
      · exact advanced.trans ⟨rfl, rfl, rfl, rfl⟩
      · exact (advanced.trans (snapshot_fixed _ sampled.val)).trans ⟨rfl, rfl, rfl, rfl⟩
    · exact .refl s
  | probe now =>
    unfold step probe
    dsimp only
    split
    · exact (Fixed.foldl (fun s i => (s.modify_fixed i _).trans (sendPlayer_fixed _ i _)) _ s).trans
        ⟨rfl, rfl, rfl, rfl⟩
    · exact .refl s
  | close =>
    unfold step close
    dsimp only
    split
    · exact (Fixed.foldl (fun s i => s.sendPlayer_fixed i _) _ s).trans ⟨rfl, rfl, rfl, rfl⟩
    · exact .refl s

/-- Every reachable room still has the session, the port, the owner and the key
that it was created with. -/
theorem reachable_fixed {s : Server} (reach : system.Reachable s) :
    ∃ c session now first, create c session now = some first ∧ Fixed first s := by
  refine reach.invariant (P := fun s => ∃ c session now first, create c session now = some first ∧ Fixed first s)
    ?_ fun s e _ _ _ before => ?_
  · rintro s ⟨c, session, now, created⟩
    exact ⟨c, session, now, s, created, .refl s⟩
  · obtain ⟨c, session, now, first, created, fixed⟩ := before
    exact ⟨c, session, now, first, created, fixed.trans (s.step_fixed e)⟩

/-- A room never listens on the port of the discovery. -/
theorem reachable_port {s : Server} (reach : system.Reachable s) :
    0 < s.port ∧ s.port < 2 ^ 16 ∧ s.port ≠ 12001 := by
  obtain ⟨c, session, now, first, created, fixed⟩ := reachable_fixed reach
  rw [fixed.port]
  unfold create at created
  split at created
  · exact nomatch created
  rename_i valid
  split at created
  · exact nomatch created
  · obtain rfl := Option.some.inj created
    dsimp only
    omega

end FzeroVs.Server
