import FzeroVs.Server.Moves

namespace FzeroVs.Server

/-- Any reading of the visible part of a slot survives a quiet change. -/
theorem Quiet.field {α : Type} {s t : Server} (quiet : Quiet s t) (g : Player → α)
    (reads : ∀ p : Player, g p.visible = g p) (i : Fin 4) : g (t.players i) = g (s.players i) := by
  rw [← reads, quiet.players, reads]

theorem Quiet.occupied {s t : Server} (quiet : Quiet s t) (i : Fin 4) :
    (t.players i).occupied = (s.players i).occupied :=
  quiet.field Player.occupied (fun _ => rfl) i

theorem Quiet.status {s t : Server} (quiet : Quiet s t) (i : Fin 4) :
    (t.players i).status = (s.players i).status :=
  quiet.field Player.status (fun _ => rfl) i

@[simp] theorem relobby_occupied (p : Player) : (relobby p).occupied = p.occupied := by
  unfold relobby
  split
  next seated => rw [seated]; rfl
  next vacant => rw [Bool.not_eq_true] at vacant; rw [vacant]; rfl

@[simp] theorem release_occupied (p : Player) : (release p).occupied = p.occupied := by
  unfold release
  split
  next seated => rw [seated]; rfl
  next => rfl

/-- A departed slot keeps its record until the next lobby. -/
theorem vacate_players_self (s : Server) (i : Fin 4) :
    ((s.disconnect i).vacate i).players i =
      if s.phase = .lobby then {}
      else { s.players i with status := .disconnected, x := 0, y := 0 } := by
  simp only [vacate]
  split <;> simp_all [disconnect, modify]

theorem vacate_players_ne (s : Server) {i j : Fin 4} (other : j ≠ i) :
    ((s.disconnect i).vacate i).players j = s.players j := by
  simp only [vacate]
  split <;> simp [disconnect, modify, other]

theorem vacate_free (s : Server) (i : Fin 4) :
    (((s.disconnect i).vacate i).players i).occupied = false := by
  rw [vacate_players_self]
  split <;> rfl

theorem disconnect_count {s : Server} {i : Fin 4} (seated : (s.players i).occupied = true) :
    (s.disconnect i).count + 1 = s.count := by
  refine count_of_leave seated (by simp [disconnect, Player.occupied]) fun j other => ?_
  rw [disconnect, modify_players_ne _ _ other]

theorem vacate_count {s : Server} {i : Fin 4} (seated : (s.players i).occupied = true) :
    ((s.disconnect i).vacate i).count + 1 = s.count := by
  refine count_of_leave seated (s.vacate_free i) fun j other => ?_
  rw [vacate_players_ne s other]

/-- Who sits in the room, under which settings, and who is in charge. -/
structure Seating (s : Server) : Prop where
  fewest : 2 ≤ s.expected
  most : s.expected ≤ 4
  track : s.track < 5
  league : s.league < 3
  capacity : s.count ≤ s.expected.toNat
  noHost : s.host = 255 ↔ s.count = 0
  host : s.host ≠ 255 → ∃ i : Fin 4, s.host.toNat = i.val ∧ (s.players i).occupied = true
  endpoints : ∀ i j, (s.players i).occupied = true → (s.players j).occupied = true →
    (s.players i).address = (s.players j).address → i = j
  token : ∀ i, (s.players i).occupied = true → (s.players i).token ≠ 0
  car : ∀ i, (s.players i).occupied = true → (s.players i).car < 4
  lobby : s.phase = .lobby → ∀ i, (s.players i).status ≠ .disconnected

/-- Everything that leaves the settings, the host and the identity of the
players alone. -/
theorem Seating.congr {s t : Server} (seating : Seating s) (expected : t.expected = s.expected)
    (track : t.track = s.track) (league : t.league = s.league) (host : t.host = s.host)
    (occupied : ∀ i, (t.players i).occupied = (s.players i).occupied)
    (address : ∀ i, (s.players i).occupied = true → (t.players i).address = (s.players i).address)
    (token : ∀ i, (s.players i).occupied = true → (t.players i).token = (s.players i).token)
    (car : ∀ i, (s.players i).occupied = true → (s.players i).car < 4 → (t.players i).car < 4)
    (lobby : t.phase = .lobby → ∀ i, (t.players i).status ≠ .disconnected) : Seating t where
  fewest := expected ▸ seating.fewest
  most := expected ▸ seating.most
  track := track ▸ seating.track
  league := league ▸ seating.league
  capacity := by
    rw [count_congr occupied, expected]
    exact seating.capacity
  noHost := by
    rw [count_congr occupied, host]
    exact seating.noHost
  host := by
    simp only [host, occupied]
    exact seating.host
  endpoints := by
    intro i j seatedI seatedJ same
    rw [occupied] at seatedI seatedJ
    rw [address i seatedI, address j seatedJ] at same
    exact seating.endpoints i j seatedI seatedJ same
  token := by
    intro i seated
    rw [occupied] at seated
    rw [token i seated]
    exact seating.token i seated
  car := by
    intro i seated
    rw [occupied] at seated
    exact car i seated (seating.car i seated)
  lobby := lobby

theorem Seating.quiet {s t : Server} (seating : Seating s) (quiet : Quiet s t) : Seating t :=
  seating.congr quiet.expected quiet.track quiet.league quiet.host quiet.occupied
    (fun i _ => quiet.field Player.address (fun _ => rfl) i)
    (fun i _ => quiet.field Player.token (fun _ => rfl) i)
    (fun i _ low => (quiet.field Player.car (fun _ => rfl) i).trans_lt low)
    (fun lobby i => (quiet.status i).trans_ne (seating.lobby (quiet.phase ▸ lobby) i))

theorem Seating.setStart {s : Server} (seating : Seating s) (start : UInt64) :
    Seating { s with start := start } := { seating with }

/-- Rewriting one seated player without touching identity or presence. -/
theorem Seating.modify {s : Server} (seating : Seating s) {i : Fin 4} {f : Player → Player}
    (occupied : (f (s.players i)).occupied = (s.players i).occupied)
    (address : (f (s.players i)).address = (s.players i).address)
    (token : (f (s.players i)).token = (s.players i).token)
    (car : (s.players i).car < 4 → (f (s.players i)).car < 4)
    (status : s.phase = .lobby → (f (s.players i)).status ≠ .disconnected) :
    Seating (s.modify i f) := by
  refine seating.congr rfl rfl rfl rfl (modify_players_eq Player.occupied occupied)
    (fun j _ => modify_players_eq Player.address address j)
    (fun j _ => modify_players_eq Player.token token j) ?_ ?_
  · intro j _ low
    rw [modify_players]
    split
    next same => subst same; exact car low
    next => exact low
  · intro lobby j
    rw [modify_players]
    split
    next same => exact status lobby
    next => exact seating.lobby lobby j

theorem seat_players_self (s : Server) (r : Readings) (token : UInt64) (address : Endpoint)
    (nonce : UInt64) (i : Fin 4) : (s.seat r token address nonce i).players i =
      { address := address, token := token, nonce := nonce, seen := r.seen.val, status := .joined } := by
  simp [Server.seat]

theorem seat_players_ne (s : Server) (r : Readings) (token : UInt64) (address : Endpoint)
    (nonce : UInt64) {i j : Fin 4} (other : j ≠ i) :
    (s.seat r token address nonce i).players j = s.players j := by
  simp [Server.seat, modify_players_ne s _ other]

theorem Seating.seat {s : Server} (seating : Seating s) (r : Readings) {token : UInt64}
    {address : Endpoint} (nonce : UInt64) {i : Fin 4} (lobby : s.phase = .lobby)
    (free : (s.players i).occupied = false) (drawn : token ≠ 0) (room : s.count < s.expected.toNat)
    (fresh : ∀ j, (s.players j).occupied = true → (s.players j).address ≠ address) :
    Seating (s.seat r token address nonce i) := by
  have self := s.seat_players_self r token address nonce i
  have others (j : Fin 4) (other : j ≠ i) := s.seat_players_ne r token address nonce other
  have taken : ((s.seat r token address nonce i).players i).occupied = true := by rw [self]; rfl
  have count : (s.seat r token address nonce i).count = s.count + 1 :=
    count_of_enter free taken fun j other => by rw [others j other]
  have host : (s.seat r token address nonce i).host =
      if s.host = 255 then UInt8.ofNat i.val else s.host := rfl
  have slot := ofNat_toNat_slot i
  refine
    { fewest := seating.fewest
      most := seating.most
      track := seating.track
      league := seating.league
      capacity := by rw [count]; exact room
      noHost := ?_
      host := ?_
      endpoints := ?_
      token := ?_
      car := ?_
      lobby := ?_ }
  · rw [count, host]
    split
    next =>
      constructor
      · intro none
        rw [none] at slot
        have bound := i.isLt
        change 255 = i.val at slot
        omega
      · omega
    next named => simp [named]
  · intro _
    rw [host]
    split
    next => exact ⟨i, slot, taken⟩
    next named =>
      obtain ⟨k, hk, seated⟩ := seating.host named
      refine ⟨k, hk, ?_⟩
      rw [others k fun same => by simp [same, free] at seated]
      exact seated
  · intro j k seatedJ seatedK same
    by_cases isJ : j = i <;> by_cases isK : k = i
    · rw [isJ, isK]
    · subst isJ
      rw [self, others k isK] at same
      rw [others k isK] at seatedK
      exact absurd same.symm (fresh k seatedK)
    · subst isK
      rw [self, others j isJ] at same
      rw [others j isJ] at seatedJ
      exact absurd same (fresh j seatedJ)
    · rw [others j isJ, others k isK] at same
      rw [others j isJ] at seatedJ
      rw [others k isK] at seatedK
      exact seating.endpoints j k seatedJ seatedK same
  · intro j seated
    by_cases isJ : j = i
    · subst isJ
      rw [self]
      exact drawn
    · rw [others j isJ] at seated ⊢
      exact seating.token j seated
  · intro j seated
    by_cases isJ : j = i
    · subst isJ
      rw [self]
      exact (by decide : (0 : UInt8) < 4)
    · rw [others j isJ] at seated ⊢
      exact seating.car j seated
  · intro _ j
    by_cases isJ : j = i
    · subst isJ
      rw [self]
      simp
    · rw [others j isJ]
      exact seating.lobby lobby j

/-- Whoever is still seated when another has left has the old record. -/
theorem leave_players {s : Server} {i j : Fin 4}
    (present : (((s.disconnect i).vacate i).players j).occupied = true) :
    ((s.disconnect i).vacate i).players j = s.players j := by
  refine vacate_players_ne s fun same => ?_
  subst same
  rw [vacate_free] at present
  exact absurd present (by decide)

/-- While somebody stays, the host role stays with a seated player. -/
theorem Seating.leave {s : Server} (seating : Seating s) {i : Fin 4}
    (seated : (s.players i).occupied = true) (more : 0 < ((s.disconnect i).vacate i).count) :
    Seating ((s.disconnect i).vacate i) := by
  have count := vacate_count seated
  have elected := electHost_some (s := s.disconnect i) (by have := disconnect_count seated; omega)
  have host : ((s.disconnect i).vacate i).host =
      if s.host.toNat = i.val then (s.disconnect i).electHost else s.host := rfl
  have seatOf (k : Fin 4) (present : ((s.disconnect i).players k).occupied = true) :
      (((s.disconnect i).vacate i).players k).occupied = true := by
    have other : k ≠ i := fun same => by
      subst same
      simp [disconnect, Player.occupied] at present
    rw [vacate_players_ne s other]
    rwa [disconnect, modify_players_ne _ _ other] at present
  refine
    { fewest := seating.fewest
      most := seating.most
      track := seating.track
      league := seating.league
      capacity := by have := seating.capacity; show _ ≤ s.expected.toNat; omega
      noHost := ?_
      host := ?_
      endpoints := ?_
      token := ?_
      car := ?_
      lobby := ?_ }
  · rw [host]
    constructor
    · intro none
      split at none
      next =>
        obtain ⟨k, name, _⟩ := elected
        have slot := ofNat_toNat_slot k
        have bound := k.isLt
        rw [← name, none] at slot
        change 255 = k.val at slot
        omega
      next =>
        have gone := seating.noHost.mp none
        omega
    · omega
  · intro _
    rw [host]
    split
    next =>
      obtain ⟨k, name, present⟩ := elected
      exact ⟨k, by rw [name, ofNat_toNat_slot], seatOf k present⟩
    next stays =>
      have named : s.host ≠ 255 := fun none => by
        have gone := seating.noHost.mp none
        omega
      obtain ⟨k, hk, present⟩ := seating.host named
      refine ⟨k, hk, ?_⟩
      rw [vacate_players_ne s fun same => stays (by rw [hk, same])]
      exact present
  · intro j k presentJ presentK same
    have eqJ := leave_players presentJ
    have eqK := leave_players presentK
    rw [eqJ, eqK] at same
    rw [eqJ] at presentJ
    rw [eqK] at presentK
    exact seating.endpoints j k presentJ presentK same
  · intro j present
    have eqJ := leave_players present
    rw [eqJ] at present ⊢
    exact seating.token j present
  · intro j present
    have eqJ := leave_players present
    rw [eqJ] at present ⊢
    exact seating.car j present
  · intro lobby j
    change s.phase = .lobby at lobby
    by_cases isJ : j = i
    · subst isJ
      rw [vacate_players_self, if_pos lobby]
      simp
    · rw [vacate_players_ne s isJ]
      exact seating.lobby lobby j

theorem relobby_status (p : Player) :
    (relobby p).status = if p.occupied = true then .joined else .empty := by
  unfold relobby
  split <;> rfl

theorem relobby_eq_empty {p : Player} (vacant : p.occupied = false) : relobby p = {} := by
  simp [relobby, vacant]

theorem Seating.beginLobby {s : Server} (seating : Seating s) : Seating s.beginLobby := by
  refine seating.congr rfl rfl rfl rfl (fun i => relobby_occupied _) ?_ ?_ ?_ ?_
  · intro i seated
    simp [Server.beginLobby, relobby, seated]
  · intro i seated
    simp [Server.beginLobby, relobby, seated]
  · intro i seated low
    simpa [Server.beginLobby, relobby, seated] using low
  · intro _ i
    simp only [Server.beginLobby, relobby_status]
    split <;> simp

/-- The last departure leaves nobody to be wrong about. -/
theorem Seating.empty {s : Server} (seating : Seating s) {i : Fin 4}
    (last : ((s.disconnect i).vacate i).count = 0) :
    Seating { ((s.disconnect i).vacate i).beginLobby with host := 255 } := by
  have vacant := count_eq_zero_iff.mp last
  have cleared (j : Fin 4) : (((s.disconnect i).vacate i).beginLobby).players j = {} :=
    relobby_eq_empty (vacant j)
  have zero : ({ ((s.disconnect i).vacate i).beginLobby with host := 255 } : Server).count = 0 := by
    rw [count_eq_zero_iff]
    intro j
    simp only [cleared]
    rfl
  have absent (j : Fin 4) :
      (({ ((s.disconnect i).vacate i).beginLobby with host := 255 } : Server).players j).occupied ≠
        true := by
    rw [count_eq_zero_iff.mp zero j]
    decide
  exact
    { fewest := seating.fewest
      most := seating.most
      track := seating.track
      league := seating.league
      capacity := by rw [zero]; exact Nat.zero_le _
      noHost := ⟨fun _ => zero, fun _ => rfl⟩
      host := fun named => absurd rfl named
      endpoints := fun j _ present => absurd present (absent j)
      token := fun j present => absurd present (absent j)
      car := fun j present => absurd present (absent j)
      lobby := by
        intro _ j
        simp only [cleared]
        decide }

theorem Move.closed_of_closed {s t : Server} (move : Move s t) (closed : s.closed = true) :
    t.closed = true := by
  cases move
  case calm calm =>
    cases calm
    case quiet quiet => rw [quiet.closed, closed]
    all_goals exact closed
  case shut quiet => rw [quiet.closed]
  all_goals first | rfl | exact closed

theorem Seating.calm {s t : Server} (seating : Seating s) (calm : Calm s t) : Seating t := by
  cases calm with
  | quiet quiet => exact seating.quiet quiet
  | spoil i address lobby free =>
    refine seating.congr rfl rfl rfl rfl (modify_players_eq Player.occupied free.symm) ?_ ?_ ?_ ?_
    · intro j seated
      rw [modify_players_ne _ _ fun same => by simp [same, free] at seated]
    · intro j seated
      rw [modify_players_ne _ _ fun same => by simp [same, free] at seated]
    · intro j seated low
      rwa [modify_players_ne _ _ fun same => by simp [same, free] at seated]
    · intro _ j
      rw [modify_players]
      split
      next => simp
      next => exact seating.lobby lobby j
  | seat r address nonce i lobby free drawn room fresh =>
    exact seating.seat r nonce lobby free drawn room fresh
  | steer i seq x y orientation now packets bytes racing status =>
    exact seating.modify rfl rfl rfl id fun lobby => seating.lobby lobby i

theorem Seating.move {s t : Server} (seating : Seating s) (move : Move s t)
    (live : t.closed = false) : Seating t := by
  cases move with
  | calm calm => exact seating.calm calm
  | acknowledge r i packet seated =>
    have kept := seating.modify (i := i)
      (f := fun p => { p with commandSeq := packet.seq, seen := r.seen.val }) rfl rfl rfl id
      (fun lobby => seating.lobby lobby i)
    exact kept.congr rfl rfl rfl rfl (fun _ => rfl) (fun _ _ => rfl) (fun _ _ => rfl)
      (fun _ _ low => low) kept.lobby
  | select i seated lobby low =>
    exact seating.modify (seated.symm ▸ rfl) rfl rfl (fun _ => low) fun _ => by simp
  | load i x y orientation now seated loading =>
    exact seating.modify (seated.symm ▸ rfl) rfl rfl id fun _ => by simp
  | arm i seated counting =>
    exact seating.modify rfl rfl rfl id fun lobby => seating.lobby lobby i
  | finish i racing status =>
    exact seating.modify (by rw [Player.occupied, Player.occupied, status]; rfl) rfl rfl id fun _ => by simp
  | config lobby low high room track league =>
    exact { seating with fewest := low, most := high, track := track, league := league, capacity := room }
  | next i seated host phase => exact seating.beginLobby
  | close i seated owner first => exact absurd live (by simp)
  | leave i seated more => exact seating.leave seated more
  | empty i seated last => exact seating.empty last
  | allSelected lobby full ready => exact { seating with lobby := fun loading => by cases loading }
  | allLoaded now loading ready ahead =>
    exact seating.congr rfl rfl rfl rfl (fun _ => rfl) (fun _ _ => rfl) (fun _ _ => rfl)
      (fun _ _ low => low) fun counting => by cases counting
  | reschedule now counting missing late ahead => exact seating.setStart _
  | go now counting ready due =>
    refine seating.congr rfl rfl rfl rfl (fun i => release_occupied _) ?_ ?_ ?_ fun racing => by cases racing
    · intro i seated
      simp [release, seated]
    · intro i seated
      simp [release, seated]
    · intro i seated low
      simpa [release, seated] using low
  | allFinished racing ready => exact { seating with lobby := fun results => by cases results }
  | shut quiet => exact absurd (quiet.closed.symm.trans live) (by simp)

theorem create_some {c : ServerConfig} {session : UInt64} {now : Micros} {s : Server}
    (created : create c session now = some s) : 2 ≤ c.players ∧ c.players ≤ 4 ∧ c.track ≤ 4 ∧
      c.league ≤ 2 ∧ session ≠ 0 ∧
      s = { session := session, port := c.port, ownerNonce := c.ownerNonce, key := c.key,
            tick := now.val, summary := now.val, expected := UInt8.ofNat c.players,
            track := UInt8.ofNat c.track, league := UInt8.ofNat c.league } := by
  unfold create at created
  split at created
  · exact nomatch created
  next valid =>
    split at created
    · exact nomatch created
    next drawn =>
      simp only [not_or, not_lt] at valid
      exact ⟨by omega, by omega, by omega, by omega, drawn, (Option.some.inj created).symm⟩

theorem Seating.create {c : ServerConfig} {session : UInt64} {now : Micros} {s : Server}
    (created : create c session now = some s) : Seating s := by
  obtain ⟨low, high, track, league, _, rfl⟩ := create_some created
  have small (n : Nat) (bound : n ≤ 4) : (UInt8.ofNat n).toNat = n := by
    rw [UInt8.toNat_ofNat']
    omega
  refine
    { fewest := by rw [UInt8.le_iff_toNat_le, small _ high]; exact low
      most := by rw [UInt8.le_iff_toNat_le, small _ high]; exact high
      track := by rw [UInt8.lt_iff_toNat_lt, small _ track]; exact Nat.lt_succ_of_le track
      league := by rw [UInt8.lt_iff_toNat_lt, small _ (by omega)]; exact Nat.lt_succ_of_le league
      capacity := Nat.zero_le _
      noHost := ⟨fun _ => rfl, fun _ => rfl⟩
      host := fun named => absurd rfl named
      endpoints := fun _ _ present => absurd present Bool.false_ne_true
      token := fun _ present => absurd present Bool.false_ne_true
      car := fun _ present => absurd present Bool.false_ne_true
      lobby := fun _ _ => by simp }

/-- The seating rules hold in every reachable state of an open room, whatever
arrives and whatever the clock says. -/
theorem reachable_seating {s : Server} (reach : system.Reachable s) (live : s.closed = false) :
    Seating s := by
  refine reachable_of_moves (P := fun s => s.closed = false → Seating s) ?_ ?_ reach live
  · rintro s ⟨c, session, now, created⟩ _
    exact .create created
  · intro s t move holds live
    cases closed : s.closed with
    | true => rw [move.closed_of_closed closed] at live; exact nomatch live
    | false => exact (holds closed).move move live

/-- Settings, seats and the host of an open room agree with one another. -/
theorem open_room_seating {s : Server} (reach : system.Reachable s) (live : s.closed = false) :
    (2 ≤ s.expected ∧ s.expected ≤ 4 ∧ s.track < 5 ∧ s.league < 3) ∧
    s.count ≤ s.expected.toNat ∧
    (s.host = 255 ↔ ∀ i, (s.players i).occupied = false) ∧
    (s.host ≠ 255 → ∃ i : Fin 4, s.host.toNat = i.val ∧ (s.players i).occupied = true) ∧
    (∀ i j, (s.players i).occupied = true → (s.players j).occupied = true → i ≠ j →
      (s.players i).address ≠ (s.players j).address) ∧
    (∀ i, (s.players i).occupied = true → (s.players i).token ≠ 0 ∧ (s.players i).car < 4) ∧
    (s.phase = .lobby → ∀ i, (s.players i).status ≠ .disconnected) := by
  have seating := reachable_seating reach live
  refine ⟨⟨seating.fewest, seating.most, seating.track, seating.league⟩, seating.capacity, ?_,
    seating.host, ?_, fun i seated => ⟨seating.token i seated, seating.car i seated⟩, seating.lobby⟩
  · rw [← count_eq_zero_iff]
    exact seating.noHost
  · intro i j seatedI seatedJ different same
    exact different (seating.endpoints i j seatedI seatedJ same)

theorem sampleJoin_seating : (sampleRoom.step sampleJoin).closed = false ∧
    (sampleRoom.step sampleJoin).host ≠ 255 ∧
    ∃ i : Fin 4, (sampleRoom.step sampleJoin).host.toNat = i.val ∧
      ((sampleRoom.step sampleJoin).players i).occupied = true := by
  have live : (sampleRoom.step sampleJoin).closed = false := by decide +kernel
  have hosted : (sampleRoom.step sampleJoin).host ≠ 255 := by decide +kernel
  exact ⟨live, hosted, (open_room_seating sampleJoin_reachable live).2.2.2.1 hosted⟩

end FzeroVs.Server
