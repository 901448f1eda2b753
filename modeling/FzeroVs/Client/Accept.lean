import FzeroVs.Client.Queue

namespace FzeroVs.Client

/-- Acknowledging the start changes the queue, its numbers and its history only. -/
theorem arm_keeps {α : Type} (g : Client → α)
    (keeps : ∀ (c : Client) (seq : UInt32) (issued : List Issued) (pending : List Pending) (armed : UInt64),
      g { c with commandSeq := seq, issued := issued, pending := pending, armedTime := armed } = g c)
    (c : Client) : g c.arm = g c := by
  unfold arm
  split
  · rcases c.queue_cases (Command.arm.code :: put64 c.startTime) with same | ⟨_, _, _, same⟩
    · rw [same]
      exact keeps c c.commandSeq c.issued c.pending c.startTime
    · rw [same]
      exact keeps c _ _ _ c.startTime
  · rfl

theorem arm_pending (c : Client) : c.arm.pending = c.pending ∨
    c.arm.pending = c.pending ++
      [{ packet := commandPacket (c.commandSeq + 1) (Command.arm.code :: put64 c.startTime) }] := by
  unfold arm
  split
  · rcases c.queue_cases (Command.arm.code :: put64 c.startTime) with same | ⟨_, _, _, same⟩
    · exact .inl (by rw [same])
    · exact .inr (by rw [same])
  · exact .inl rfl

/-- Leaving closes the connection, empties the queue and keeps the last picture. -/
theorem detach_keeps {α : Type} (g : Client → α)
    (keeps : ∀ (c : Client) (socket memory : Bool) (seq : UInt32) (sent : List (List UInt8))
      (issued : List Issued), g { c with
        socket := socket, memory := memory, id := none, commandSeq := seq, pending := [],
        snapshotBuffer := [], game := .init, requests := [], sent := sent, issued := issued } = g c)
    (c : Client) : g c.detach = g c := by
  unfold detach
  dsimp only
  split
  · split
    · unfold send
      split
      · exact keeps c _ _ _ _ _
      · exact keeps c _ _ _ _ _
    · exact keeps c _ _ _ _ _
  · exact keeps c _ _ _ _ _

/-- The picture on the screen of the client. -/
structure Shows (c : Client) (v : Picture) : Prop where
  phase : c.phase = v.phase
  expected : c.expected = v.expected
  host : c.host = v.host
  track : c.track = v.track
  league : c.league = v.league
  armedMask : c.armedMask = v.armedMask
  startTime : c.startTime = v.start
  peers : c.peers = v.peers
  buffered : c.snapshotBuffer.getLast? = some ⟨v.time, v.peers⟩

theorem bufferSnapshot_last (c : Client) (time : UInt64) :
    (c.bufferSnapshot time).snapshotBuffer.getLast? = some ⟨time, c.peers⟩ := by
  simp only [bufferSnapshot]
  rw [List.getLast?_drop, List.getLast?_concat, if_neg]
  rw [List.length_append, List.length_singleton]
  omega

theorem accept_shows (c : Client) (t : UInt64) (p : Packet) (v : Picture) : Shows (c.accept t p v) v where
  phase := arm_keeps Client.phase (fun _ _ _ _ _ => rfl) _
  expected := arm_keeps Client.expected (fun _ _ _ _ _ => rfl) _
  host := arm_keeps Client.host (fun _ _ _ _ _ => rfl) _
  track := arm_keeps Client.track (fun _ _ _ _ _ => rfl) _
  league := arm_keeps Client.league (fun _ _ _ _ _ => rfl) _
  armedMask := arm_keeps Client.armedMask (fun _ _ _ _ _ => rfl) _
  startTime := arm_keeps Client.startTime (fun _ _ _ _ _ => rfl) _
  peers := arm_keeps Client.peers (fun _ _ _ _ _ => rfl) _
  buffered := by
    rw [accept, arm_keeps Client.snapshotBuffer (fun _ _ _ _ _ => rfl)]
    exact bufferSnapshot_last _ _

theorem hear_welcome {c : Client} {data : List UInt8} {p : Packet} (t : UInt64)
    (decoded : decode data = some p) (admits : Admits c p) :
    c.hear t data = c.join t p (Fin.ofNat 4 (p.byte 0).toNat) := by
  have notReject : ¬ (c.id = none ∧ p.is .joinReject = true ∧ p.length = 9 ∧ u64 p.payload = c.nonce) := by
    rintro ⟨_, reject, _⟩
    have welcome := admits.welcome
    simp only [Packet.is, beq_iff_eq] at reject welcome
    rw [welcome] at reject
    cases reject
  have welcome : p.is .welcome = true ∧ p.length = 9 ∧ u64 (p.payload.drop 1) = c.nonce ∧ p.byte 0 < 4 ∧
      p.session ≠ 0 ∧ p.token ≠ 0 :=
    ⟨admits.welcome, admits.length, admits.nonce, admits.slot, admits.session, admits.token⟩
  simp only [hear, admits.opened, if_true, decoded, receive]
  rw [if_neg notReject, if_pos welcome, admits.waiting]

theorem readPicture_kind {p : Packet} {v : Picture} (read : readPicture p = some v) :
    p.is .snapshot = true := by
  unfold readPicture at read
  split at read
  · exact nomatch read
  next valid =>
    simp only [not_or, ne_eq, not_not] at valid
    simp [Packet.is, valid.1]

theorem hear_picture {c : Client} {data : List UInt8} {p : Packet} {v : Picture} (t : UInt64)
    (decoded : decode data = some p) (accepts : Accepts c p v) : c.hear t data = c.accept t p v := by
  have kind : p.type = Kind.snapshot.code := by
    simpa [Packet.is] using readPicture_kind accepts.read
  have other (kind' : Kind) (different : Kind.snapshot.code ≠ kind'.code) : p.is kind' = false := by
    simpa [Packet.is, kind] using different
  simp [hear, accepts.opened, decoded, receive, other .joinReject (by decide), other .welcome (by decide),
    other .roomClosed (by decide), other .ping (by decide), other .pong (by decide), accepts.joined,
    accepts.session, accepts.token, receiveSnapshot, accepts.read, accepts.fresh]

theorem accept_pending {c : Client} (t : UInt64) {p : Packet} (v : Picture)
    (same : p.race = c.race) : ∃ queued, c.pending.dropWhile (covered p.ack) ++ queued =
      (c.accept t p v).pending ∧ (queued = [] ∨ queued =
        [{ packet := commandPacket (c.commandSeq + 1) (Command.arm.code :: put64 v.start) }]) := by
  obtain ⟨pending, seq⟩ := settle_same t v same
  have start : (c.settle t p v).startTime = v.start := rfl
  rcases (c.settle t p v).arm_pending with unarmed | armed
  · exact ⟨[], by rw [accept, unarmed, pending, List.append_nil], .inl rfl⟩
  · rw [pending, seq, start] at armed
    exact ⟨_, armed.symm, .inr rfl⟩

/-- What the client holds after an accepted snapshot. -/
structure Took (c : Client) (p : Packet) (d : Client) : Prop where
  socket : d.socket = c.socket
  id : d.id = c.id
  session : d.session = c.session
  token : d.token = c.token
  snapshotSeq : d.snapshotSeq = p.seq
  race : d.race = p.race
  accepted : d.accepted = c.accepted ++ [p]
  stale : d.stale = c.stale

theorem settle_took (c : Client) (t : UInt64) (p : Packet) (v : Picture) : Took c p (c.settle t p v) := by
  by_cases same : p.race = c.race
  · simp only [settle, newRace, same, ne_eq, not_true_eq_false, if_false, display, bufferSnapshot]
    exact ⟨rfl, rfl, rfl, rfl, rfl, same.symm, rfl, rfl⟩
  · simp only [settle, newRace, same, ne_eq, not_false_eq_true, if_true, display, bufferSnapshot, resetGame]
    exact ⟨rfl, rfl, rfl, rfl, rfl, rfl, rfl, rfl⟩

theorem settle_game (c : Client) (t : UInt64) (p : Packet) (v : Picture) :
    (c.settle t p v).config = c.config ∧
      ((c.settle t p v).game = c.game ∨ (c.settle t p v).game = .init) := by
  simp only [settle, newRace, display, bufferSnapshot, resetGame]
  split
  · exact ⟨rfl, .inr rfl⟩
  · exact ⟨rfl, .inl rfl⟩

theorem accept_took (c : Client) (t : UInt64) (p : Packet) (v : Picture) : Took c p (c.accept t p v) := by
  have settled := c.settle_took t p v
  have arm {α : Type} (g : Client → α) (keeps : ∀ (c : Client) (seq : UInt32) (issued : List Issued)
      (pending : List Pending) (armed : UInt64),
      g { c with commandSeq := seq, issued := issued, pending := pending, armedTime := armed } = g c) :
      g (c.accept t p v) = g (c.settle t p v) := arm_keeps g keeps _
  exact
    { socket := (arm Client.socket fun _ _ _ _ _ => rfl).trans settled.socket
      id := (arm Client.id fun _ _ _ _ _ => rfl).trans settled.id
      session := (arm Client.session fun _ _ _ _ _ => rfl).trans settled.session
      token := (arm Client.token fun _ _ _ _ _ => rfl).trans settled.token
      snapshotSeq := (arm Client.snapshotSeq fun _ _ _ _ _ => rfl).trans settled.snapshotSeq
      race := (arm Client.race fun _ _ _ _ _ => rfl).trans settled.race
      accepted := (arm Client.accepted fun _ _ _ _ _ => rfl).trans settled.accepted
      stale := (arm Client.stale fun _ _ _ _ _ => rfl).trans settled.stale }

end FzeroVs.Client
