import FzeroVs.Server.Generations

namespace FzeroVs.Server

theorem Fresh.quiet {s t : Server} (fresh : Fresh s) (quiet : Quiet s t) : Fresh t where
  phase := quiet.phase.trans fresh.phase
  start := quiet.start.trans fresh.start
  status i := by rw [quiet.status i]; exact fresh.status i
  still i := by
    rw [quiet.field Player.x (fun _ => rfl) i, quiet.field Player.y (fun _ => rfl) i]
    exact fresh.still i
  idle i := by
    rw [quiet.field Player.armed (fun _ => rfl) i, quiet.field Player.stateSeq (fun _ => rfl) i]
    exact fresh.idle i

theorem Fresh.leave {s : Server} (fresh : Fresh s) (i : Fin 4) :
    Fresh ((s.disconnect i).vacate i) := by
  have cleared := s.vacate_players_self i
  rw [if_pos fresh.phase] at cleared
  refine ⟨fresh.phase, fresh.start, fun j => ?_, fun j => ?_, fun j => ?_⟩ <;> by_cases isJ : j = i
  · rw [isJ, cleared]; exact .inl rfl
  · rw [vacate_players_ne s isJ]; exact fresh.status j
  · rw [isJ, cleared]; exact ⟨rfl, rfl⟩
  · rw [vacate_players_ne s isJ]; exact fresh.still j
  · rw [isJ, cleared]; exact ⟨rfl, rfl⟩
  · rw [vacate_players_ne s isJ]; exact fresh.idle j

/-- The three outcomes of one departure. -/
theorem drop_cases (s : Server) (i : Fin 4) :
    (s.drop i = { s.disconnect i with closed := true } ∧ s.ownerNonce ≠ 0 ∧ i = 0) ∨
    (s.drop i = (s.disconnect i).vacate i ∧ 0 < (s.drop i).count) ∨
    (s.drop i = { ((s.disconnect i).vacate i).beginLobby with host := 255 } ∧ (s.drop i).count = 0) := by
  simp only [drop]
  split
  next owner => exact .inl ⟨rfl, owner⟩
  next =>
    split
    next last =>
      refine .inr (.inr ⟨rfl, ?_⟩)
      rw [← last]
      exact count_congr fun j => relobby_occupied _
    next more => exact .inr (.inl ⟨rfl, by omega⟩)

/-- A departure either stays in its generation or leaves a fresh, empty lobby. -/
theorem drop_elapse {s : Server} {i : Fin 4} (seated : (s.players i).occupied = true) :
    (Stay s (s.drop i) ∧ (0 < (s.drop i).count ∨ (s.drop i).closed = true)) ∨
    ((s.drop i).race = s.race + 1 ∧ Fresh (s.drop i) ∧ (s.drop i).count = 0) := by
  have move := drop_move seated
  rcases s.drop_cases i with ⟨same, _⟩ | ⟨same, more⟩ | ⟨same, last⟩
  · exact .inl ⟨.single ⟨move, by rw [same]; rfl⟩, .inr (by rw [same])⟩
  · exact .inl ⟨.single ⟨move, by rw [same]; rfl⟩, .inl more⟩
  · have begun := beginLobby_fresh ((s.disconnect i).vacate i)
    refine .inr ⟨by rw [same]; rfl, ?_, last⟩
    rw [same]
    exact ⟨rfl, rfl, begun.status, begun.still, begun.idle⟩

theorem Fresh.drop {s : Server} (fresh : Fresh s) {i : Fin 4} (seated : (s.players i).occupied = true)
    (live : (s.drop i).closed = false) : Fresh (s.drop i) := by
  rcases s.drop_cases i with ⟨same, _⟩ | ⟨same, _⟩ | ⟨_, last⟩
  · rw [same] at live
    exact nomatch live
  · rw [same]
    exact fresh.leave i
  · rcases drop_elapse seated with ⟨_, more | closed⟩ | ⟨_, again, _⟩
    · exact absurd last more.ne'
    · rw [closed] at live
      exact nomatch live
    · exact again

theorem dropEach_of_empty {now : UInt64} {s : Server} (empty : s.count = 0) (l : List (Fin 4)) :
    dropEach now l s = s := by
  induction l with
  | nil => rfl
  | cons i rest ih =>
    have vacant := count_eq_zero_iff.mp empty i
    simp only [dropEach, List.foldl_cons, silent, vacant, Bool.false_and, Bool.false_eq_true, if_false]
    exact ih

theorem dropEach_cons (now : UInt64) (i : Fin 4) (rest : List (Fin 4)) (s : Server) :
    dropEach now (i :: rest) s = dropEach now rest (if s.silent now i then s.drop i else s) := rfl

theorem Fresh.dropEach {now : UInt64} {s : Server} (fresh : Fresh s) (l : List (Fin 4))
    (live : (dropEach now l s).closed = false) : Fresh (dropEach now l s) := by
  induction l generalizing s with
  | nil => exact fresh
  | cons i rest ih =>
    rw [dropEach_cons] at live ⊢
    refine ih ?_ live
    have before := Path.live (dropEach_path now rest _) live
    split
    next gone =>
      rw [if_pos gone] at before
      exact fresh.drop (silent_occupied gone) before
    next => exact fresh

/-- Timeouts either stay in the generation, leaving somebody in the room or
closing it, or empty it and begin exactly one fresh lobby. -/
theorem dropEach_elapse (now : UInt64) (l : List (Fin 4)) (s : Server) :
    (Stay s (dropEach now l s) ∧
      (0 < s.count → 0 < (dropEach now l s).count ∨ (dropEach now l s).closed = true)) ∨
    ((dropEach now l s).race = s.race + 1 ∧ Fresh (dropEach now l s) ∧ 0 < s.count ∧
      (dropEach now l s).count = 0) := by
  induction l generalizing s with
  | nil => exact .inl ⟨.refl, .inl⟩
  | cons i rest ih =>
    rw [dropEach_cons]
    split
    next gone =>
      have seated := silent_occupied gone
      have present : 0 < s.count := count_pos_iff.mpr ⟨i, seated⟩
      rcases drop_elapse seated with ⟨stay, left⟩ | ⟨race, fresh, last⟩
      · rcases ih (s.drop i) with ⟨onward, stays⟩ | ⟨race, fresh, _, empty⟩
        · refine .inl ⟨stay.trans onward, fun _ => ?_⟩
          rcases left with more | closed
          · exact stays more
          · exact .inr (Path.keeps (P := fun u => u.closed = true) onward.path
              (fun _ _ move => move.closed_of_closed) closed)
        · exact .inr ⟨by rw [race, stay.race], fresh, present, empty⟩
      · rw [dropEach_of_empty last]
        exact .inr ⟨race, fresh, present, last⟩
    next => exact ih s

theorem enterLoading_occupied (s : Server) (i : Fin 4) :
    (s.enterLoading.players i).occupied = (s.players i).occupied := by
  unfold enterLoading
  split <;> rfl

theorem enterCountdown_occupied (s : Server) (now : UInt64) (i : Fin 4) :
    ((s.enterCountdown now).players i).occupied = (s.players i).occupied := by
  unfold enterCountdown
  split <;> rfl

theorem countdown_occupied (s : Server) (now : UInt64) (i : Fin 4) :
    ((s.countdown now).players i).occupied = (s.players i).occupied := by
  unfold countdown
  split
  · split
    · rfl
    · split
      · exact release_occupied _
      · rfl
  · rfl

theorem enterResults_occupied (s : Server) (i : Fin 4) :
    (s.enterResults.players i).occupied = (s.players i).occupied := by
  unfold enterResults
  split <;> rfl

/-- Barriers open and close nobody's seat. -/
theorem passBarriers_occupied (s : Server) (now : UInt64) (i : Fin 4) :
    ((s.passBarriers now).players i).occupied = (s.players i).occupied := by
  rw [passBarriers, enterResults_occupied, countdown_occupied, enterCountdown_occupied,
    enterLoading_occupied]

theorem passBarriers_count (s : Server) (now : UInt64) : (s.passBarriers now).count = s.count :=
  count_congr (s.passBarriers_occupied now)

/-- A lobby in which nobody has selected yet. A closing room may keep the
disconnected record of its owner there. -/
structure Begun (s : Server) : Prop where
  phase : s.phase = .lobby
  joined : ∀ i, (s.players i).occupied = true → (s.players i).status = .joined

theorem Fresh.begun {s : Server} (fresh : Fresh s) : Begun s where
  phase := fresh.phase
  joined i seated := (fresh.status i).resolve_left (occupied_iff.mp seated).1

theorem Begun.quiet {s t : Server} (begun : Begun s) (quiet : Quiet s t) : Begun t where
  phase := quiet.phase.trans begun.phase
  joined i seated := by
    rw [quiet.status i]
    exact begun.joined i (quiet.occupied i ▸ seated)

theorem Begun.drop {s : Server} (begun : Begun s) (i : Fin 4) : Begun (s.drop i) := by
  rcases s.drop_cases i with ⟨same, _⟩ | ⟨same, _⟩ | ⟨same, _⟩
  · rw [same]
    refine ⟨begun.phase, fun j => ?_⟩
    change ((s.disconnect i).players j).occupied = true → ((s.disconnect i).players j).status = .joined
    rw [disconnect, modify_players]
    split
    · exact fun seated => absurd seated Bool.false_ne_true
    · exact begun.joined j
  · rw [same]
    refine ⟨begun.phase, fun j => ?_⟩
    by_cases isJ : j = i
    · rw [isJ, vacate_players_self, if_pos begun.phase]
      exact fun seated => absurd seated Bool.false_ne_true
    · rw [vacate_players_ne s isJ]
      exact begun.joined j
  · rw [same]
    exact ⟨rfl, (beginLobby_fresh ((s.disconnect i).vacate i)).begun.joined⟩

theorem Begun.dropEach {now : UInt64} {s : Server} (begun : Begun s) (l : List (Fin 4)) :
    Begun (dropEach now l s) :=
  dropEach_invariant (P := Begun) begun fun _ i _ begun => begun.drop i

/-- In such a lobby no barrier opens. -/
theorem passBarriers_of_begun {s : Server} (begun : Begun s) (now : UInt64) :
    s.passBarriers now = s := by
  have closed : ¬ s.allAtLeast .selected = true := by
    intro ready
    obtain ⟨present, high⟩ := allAtLeast_iff.mp ready
    obtain ⟨i, seated⟩ := count_pos_iff.mp present
    have rank := high i seated
    rw [begun.joined i seated] at rank
    exact absurd rank (by decide)
  have phase := begun.phase
  have loading : s.enterLoading = s := by simp [enterLoading, closed]
  have counting : s.enterCountdown now = s := by simp [enterCountdown, phase]
  have racing : s.countdown now = s := by simp [countdown, phase]
  have results : s.enterResults = s := by simp [enterResults, phase]
  rw [passBarriers, loading, counting, racing, results]

/-- In such a lobby `advance` is nothing but the timeouts. -/
theorem advance_of_begun {s : Server} (begun : Begun s) (now : UInt64) :
    s.advance now = dropEach now slots s := by
  simp only [advance, dropSilent, passBarriers_of_begun (begun.dropEach slots), ite_self]

theorem Fresh.advance {s : Server} (fresh : Fresh s) {now : UInt64}
    (live : (s.advance now).closed = false) : Fresh (s.advance now) := by
  rw [advance_of_begun fresh.begun] at live ⊢
  exact fresh.dropEach slots live

/-- One pass of `advance` begins at most one fresh lobby, and does so exactly
when it empties the room. -/
theorem advance_elapse (s : Server) (now : Micros) :
    (Stay s (s.advance now.val) ∧
      (0 < s.count → 0 < (s.advance now.val).count ∨ (s.advance now.val).closed = true)) ∨
    ((s.advance now.val).race = s.race + 1 ∧ Fresh (s.advance now.val) ∧ 0 < s.count ∧
      (s.advance now.val).count = 0) := by
  have dropped := dropEach_elapse now.val slots s
  by_cases closed : (dropEach now.val slots s).closed = true
  · have same : s.advance now.val = dropEach now.val slots s := if_pos closed
    rw [same]
    exact dropped
  · have same : s.advance now.val = (dropEach now.val slots s).passBarriers now.val := if_neg closed
    rw [same]
    rcases dropped with ⟨stay, stays⟩ | ⟨race, fresh, present, empty⟩
    · refine .inl ⟨stay.trans (passBarriers_stay _ now), fun present => ?_⟩
      rw [passBarriers_count]
      exact .inl ((stays present).resolve_right closed)
    · rw [passBarriers_of_begun fresh.begun]
      exact .inr ⟨race, fresh, present, empty⟩

/-- The packet is the host's NEXT, and the server takes it. -/
def NextApplied (s : Server) (e : Event) : Prop :=
  ∃ d i packet, e = .packet d ∧ decode d.data = some packet ∧ Takes s d.address i packet ∧
    s.commandValid i packet = true ∧ Command.ofCode (packet.byte 0) = some .next

/-- Everybody who was in the room has been dropped. -/
def Emptied (s t : Server) : Prop := 0 < s.count ∧ t.count = 0

theorem commandEffect_count {s : Server} (r : Readings) {i : Fin 4} {packet : Packet}
    (seated : (s.players i).occupied = true) : (s.commandEffect r i packet).count = s.count := by
  have present := commandEffect_occupied r packet seated
  refine count_congr fun j => ?_
  by_cases isJ : j = i
  · rw [isJ, present, seated]
  · unfold commandEffect
    cases Command.ofCode (packet.byte 0) with
    | none => rfl
    | some command => cases command <;> first | rfl | rw [modify_players_ne _ _ isJ]

theorem acknowledge_count (s : Server) (r : Readings) (i : Fin 4) (packet : Packet) :
    (s.acknowledge r i packet).count = s.count :=
  count_congr (acknowledge_players_eq Player.occupied (fun _ _ _ => rfl) s r i packet)

theorem commandEffect_race (s : Server) (r : Readings) (i : Fin 4) (packet : Packet) :
    (s.commandEffect r i packet).race = s.race := by
  unfold commandEffect
  cases Command.ofCode (packet.byte 0) with
  | none => rfl
  | some command => cases command <;> rfl

/-- Applying the `switch` and acknowledging stays in the generation. -/
theorem commandEffect_stay {s : Server} (r : Readings) {i : Fin 4} {packet : Packet}
    (seated : (s.players i).occupied = true) (valid : s.commandValid i packet = true) :
    Stay s ((s.commandEffect r i packet).acknowledge r i packet) := by
  have present := commandEffect_occupied r packet seated
  refine Relation.ReflTransGen.tail ?_ ⟨.acknowledge r i packet present, rfl⟩
  rcases commandEffect_move r seated valid with same | move
  · rw [same]
  · exact .single ⟨move, s.commandEffect_race r i packet⟩

/-- A command begins a fresh lobby when it is the host's NEXT, or when it is
the LEAVE of the last player. -/
theorem takeCommand_elapse {s : Server} (r : Readings) {i : Fin 4} (packet : Packet)
    (seated : (s.players i).occupied = true) :
    (s.commandValid i packet = true ∧ Command.ofCode (packet.byte 0) = some .next ∧
      (s.takeCommand r i packet).race = s.race + 1 ∧ Fresh (s.takeCommand r i packet) ∧
      0 < (s.takeCommand r i packet).count) ∨
    (¬ (s.commandValid i packet = true ∧ Command.ofCode (packet.byte 0) = some .next) ∧
      ((Stay s (s.takeCommand r i packet) ∧
        (0 < (s.takeCommand r i packet).count ∨ (s.takeCommand r i packet).closed = true)) ∨
       ((s.takeCommand r i packet).race = s.race + 1 ∧ Fresh (s.takeCommand r i packet) ∧
        (s.takeCommand r i packet).count = 0))) := by
  have present : 0 < s.count := count_pos_iff.mpr ⟨i, seated⟩
  unfold takeCommand
  by_cases valid : s.commandValid i packet = true
  · simp only [valid, if_true, true_and]
    have stay := commandEffect_stay r seated valid
    have count : ((s.commandEffect r i packet).acknowledge r i packet).count = s.count :=
      (acknowledge_count _ r i packet).trans (commandEffect_count r seated)
    have taken : (((s.commandEffect r i packet).acknowledge r i packet).players i).occupied = true :=
      (acknowledge_occupied r i packet).trans (commandEffect_occupied r packet seated)
    generalize (s.commandEffect r i packet).acknowledge r i packet = t at *
    unfold commandTail
    cases hcode : Command.ofCode (packet.byte 0) with
    | none => exact .inr ⟨by simp, .inl ⟨stay, .inl (count ▸ present)⟩⟩
    | some command =>
      cases command
      case next =>
        refine .inl ⟨rfl, by rw [← stay.race]; rfl, beginLobby_fresh t, ?_⟩
        have kept : t.beginLobby.count = t.count := count_congr fun j => relobby_occupied _
        rw [kept, count]
        exact present
      case leave =>
        refine .inr ⟨by simp, ?_⟩
        rcases drop_elapse taken with ⟨onward, left⟩ | ⟨race, fresh, last⟩
        · exact .inl ⟨stay.trans onward, left⟩
        · exact .inr ⟨by rw [race, stay.race], fresh, last⟩
      all_goals exact .inr ⟨by simp, .inl ⟨stay, .inl (count ▸ present)⟩⟩
  · simp only [valid, Bool.false_eq_true, if_false, false_and, not_false_eq_true, true_and, false_or]
    have quiet := commandError_quiet (s.acknowledge r i packet) i packet
    refine .inl ⟨.head ⟨.acknowledge r i packet seated, rfl⟩ quiet.stay, .inl ?_⟩
    rw [count_congr quiet.occupied, acknowledge_count]
    exact present

/-- Calm changes send nobody away. -/
theorem calm_count {s t : Server} (path : CalmPath s t) (present : 0 < s.count) : 0 < t.count := by
  induction path with
  | refl => exact present
  | @tail t u previous calm ih =>
    obtain ⟨i, seated⟩ := count_pos_iff.mp ih
    refine count_pos_iff.mpr ⟨i, ?_⟩
    cases calm with
    | quiet quiet => rw [quiet.occupied]; exact seated
    | spoil j address lobby free =>
      rw [modify_players_ne _ _ fun same => by rw [same, free] at seated; exact nomatch seated]
      exact seated
    | seat r address nonce j lobby free drawn room fresh =>
      rw [seat_players_ne t _ _ _ _ fun same => by rw [same, free] at seated; exact nomatch seated]
      exact seated
    | steer j seq x y orientation now packets bytes racing status =>
      exact (modify_players_eq Player.occupied rfl i).trans seated

/-- How the generation moves in one event: by one for the host's NEXT and by
one when the room is emptied, and by two when a call that applies NEXT then
also times everybody out. Without either, the room only moves forward. -/
inductive Elapsed (s : Server) (e : Event) : Prop
  | stay : ¬ NextApplied s e → ¬ Emptied s (s.step e) → Stay s (s.step e) → Elapsed s e
  | next : NextApplied s e → ¬ Emptied s (s.step e) → (s.step e).race = s.race + 1 →
      Fresh (s.step e) → Elapsed s e
  | emptied : ¬ NextApplied s e → Emptied s (s.step e) → (s.step e).race = s.race + 1 →
      Fresh (s.step e) → Elapsed s e
  | both : NextApplied s e → Emptied s (s.step e) → (s.step e).race = s.race + 2 →
      Fresh (s.step e) → Elapsed s e

/-- The packet that a call takes as a command is determined by its bytes. -/
theorem nextApplied_iff {s : Server} {d : Incoming} {i : Fin 4} {packet : Packet}
    (decoded : decode d.data = some packet) (takes : Takes s d.address i packet) (seating : Seating s) :
    NextApplied s (.packet d) ↔
      s.commandValid i packet = true ∧ Command.ofCode (packet.byte 0) = some .next := by
  constructor
  · rintro ⟨d', j, packet', same, decoded', takes', valid, next⟩
    cases same
    cases Option.some.inj (decoded.symm.trans decoded')
    have slot : j = i := seating.endpoints j i takes'.seated takes.seated
      (takes'.address.symm.trans takes.address)
    subst slot
    exact ⟨valid, next⟩
  · rintro ⟨valid, next⟩
    exact ⟨d, i, packet, rfl, decoded, takes, valid, next⟩

/-- What follows `advance` sends and counts only. -/
theorem receiveCommand_quiet (s : Server) (r : Readings) (i : Fin 4) (packet : Packet) :
    Quiet ((s.takeCommand r i packet).advance r.advanced.val) (s.receiveCommand r i packet) :=
  snapshot_quiet _ _

theorem receiveCommand_elapsed {s : Server} {d : Incoming} {i : Fin 4} {packet : Packet}
    (seating : Seating s) (decoded : decode d.data = some packet) (takes : Takes s d.address i packet)
    (same : s.step (.packet d) =
      s.countRx.receiveCommand d.readings i packet)
    (live : (s.step (.packet d)).closed = false) : Elapsed s (.packet d) := by
  have present : 0 < s.count := count_pos_iff.mpr ⟨i, takes.seated⟩
  have isNext := nextApplied_iff decoded takes seating
  have counted := s.countRx_quiet
  have taken := takeCommand_elapse (s := s.countRx) d.readings packet takes.seated
  have quiet := s.countRx.receiveCommand_quiet d.readings i packet
  rw [← same] at quiet
  generalize s.countRx.takeCommand d.readings i packet = t at *
  have liveA := quiet.closed.symm.trans live
  have liveT := Path.live (advance_path _ d.readings.advanced) liveA
  have count := count_congr quiet.occupied
  have advanced := t.advance_elapse d.readings.advanced
  rw [liveA] at advanced
  rw [liveT] at taken
  simp only [Bool.false_eq_true, or_false] at advanced taken
  rcases taken with ⟨valid, next, race, fresh, stays⟩ | ⟨other, ⟨stay, stays⟩ | ⟨race, fresh, empty⟩⟩
  · -- NEXT left the room as full as it was, so only the timeouts can empty it.
    have applied := isNext.mpr ⟨valid, next⟩
    rcases advanced with ⟨onward, kept⟩ | ⟨again, fresh', _, empty⟩
    · refine .next applied (fun emptied => ?_) ?_ ((fresh.advance liveA).quiet quiet)
      · exact (kept stays).ne' (count.symm.trans emptied.2)
      · rw [quiet.race, onward.race, race, counted.race]
    · refine .both applied ⟨present, count.trans empty⟩ ?_ (fresh'.quiet quiet)
      rw [quiet.race, again, race, counted.race, UInt32.add_assoc]
      rfl
  · have notNext : ¬ NextApplied s (.packet d) := fun applied => other (isNext.mp applied)
    rcases advanced with ⟨onward, kept⟩ | ⟨again, fresh, _, empty⟩
    · refine .stay notNext (fun emptied => ?_) ?_
      · exact (kept stays).ne' (count.symm.trans emptied.2)
      · exact ((counted.stay.trans stay).trans onward).trans quiet.stay
    · refine .emptied notNext ⟨present, count.trans empty⟩ ?_ (fresh.quiet quiet)
      rw [quiet.race, again, stay.race, counted.race]
  · -- The last player has left: there is nobody to time out.
    have notNext : ¬ NextApplied s (.packet d) := fun applied => other (isNext.mp applied)
    have done : t.advance d.readings.advanced.val = t := by
      rw [advance_of_begun fresh.begun, dropEach_of_empty empty]
    rw [done] at quiet count
    exact .emptied notNext ⟨present, count.trans empty⟩ (by rw [quiet.race, race, counted.race])
      (fresh.quiet quiet)

/-- Two players never share an endpoint, so a packet has at most one sender. -/
theorem authenticate_eq {s : Server} {address : Endpoint} {packet : Packet} {i : Fin 4}
    (seating : Seating s) (seated : (s.players i).occupied = true) (session : packet.session = s.session)
    (token : packet.token = (s.players i).token) (place : address = (s.players i).address) :
    s.authenticate address packet = some i := by
  cases found : s.authenticate address packet with
  | none =>
    have missed := find_slots_none found i
    simp [seated, session, token, place] at missed
  | some j =>
    obtain ⟨taken, _, _, same⟩ := authenticate_some found
    rw [seating.endpoints i j seated taken (place.symm.trans same)]

theorem Packet.is_command {packet : Packet} (command : packet.is .command = true) :
    packet.is .hello = false ∧ packet.is .pong = false ∧ packet.is .ping = false ∧
      packet.is .state = false := by
  simp only [Packet.is, beq_iff_eq] at command ⊢
  rw [command]
  decide

/-- The next command of a slot is taken, whatever else is going on. -/
theorem Takes.received {s : Server} {address : Endpoint} {i : Fin 4} {packet : Packet}
    (takes : Takes s address i packet) (seating : Seating s) {data : List UInt8}
    (decoded : decode data = some packet) (r : Readings) (random : UInt64) :
    s.receivePacket r random address data =
      s.countRx.receiveCommand r i packet := by
  obtain ⟨hello, pong, ping, state⟩ := Packet.is_command takes.command
  have counted := s.countRx_quiet
  have sender := authenticate_eq (s := s.countRx) (seating.quiet counted) takes.seated
    takes.session takes.token takes.address
  have following := newer_add_one (s.players i).commandSeq
  rw [← takes.seq] at following
  have nonempty := takes.nonempty
  have opened : ¬ s.closed = true := by simp [takes.live]
  simp only [receivePacket, decoded, if_neg opened, hello, sender, Bool.false_eq_true, if_false]
  rw [receiveFrom, if_neg (by simp [pong]), if_neg (by simp [ping]), if_neg (by simp [takes.race]),
    if_neg (by simp [state]), if_neg (by simp [takes.command]; omega),
    if_neg (by simpa using following), if_neg (by simp [takes.seq])]

theorem timer_quiet (s : Server) (now sampled : Micros) : s.timer now sampled = s ∨
    Quiet (s.advance now.val) (s.timer now sampled) := by
  unfold timer
  split
  · refine .inr ?_
    dsimp only
    split
    · exact setTick_quiet _ _
    · exact (snapshot_quiet _ _).trans (setTick_quiet _ _)
  · exact .inl rfl

/-- Every event of an open room moves the generation as `Elapsed` says. -/
theorem step_elapsed {s : Server} (seating : Seating s) (e : Event)
    (live : (s.step e).closed = false) : Elapsed s e := by
  cases e with
  | packet d =>
    by_cases taken : ∃ i packet, decode d.data = some packet ∧ Takes s d.address i packet
    · obtain ⟨i, packet, decoded, takes⟩ := taken
      have same := takes.received seating decoded d.readings d.random
      exact receiveCommand_elapsed seating decoded takes same live
    · rcases s.receivePacket_cases d.readings d.random d.address d.data with
        calm | ⟨i, packet, decoded, takes, _⟩
      · refine .stay ?_ (fun emptied => (calm_count calm emptied.1).ne' emptied.2) (CalmPath.stay calm)
        rintro ⟨d', i, packet, same, decoded, takes, _⟩
        cases same
        exact taken ⟨i, packet, decoded, takes⟩
      · exact absurd ⟨i, packet, decoded, takes⟩ taken
  | timer now sampled =>
    have notNext : ¬ NextApplied s (.timer now sampled) := by
      rintro ⟨d, i, packet, same, _⟩
      exact nomatch same
    rcases s.timer_quiet now sampled with same | quiet
    · refine .stay notNext (fun emptied => ?_) (by rw [step, same])
      rw [step, same] at emptied
      exact absurd emptied.2 emptied.1.ne'
    · have count := count_congr quiet.occupied
      have advanced := s.advance_elapse now
      rw [quiet.closed.symm.trans live] at advanced
      simp only [Bool.false_eq_true, or_false] at advanced
      rcases advanced with ⟨stay, stays⟩ | ⟨race, fresh, present, empty⟩
      · refine .stay notNext (fun emptied => ?_) (stay.trans quiet.stay)
        exact (stays emptied.1).ne' (count.symm.trans emptied.2)
      · exact .emptied notNext ⟨present, count.trans empty⟩ (by rw [step, quiet.race, race])
          (fresh.quiet quiet)
  | probe now =>
    have quiet := s.probe_quiet now
    refine .stay ?_ (fun emptied => ?_) quiet.stay
    · rintro ⟨d, i, packet, same, _⟩
      exact nomatch same
    · exact emptied.1.ne' ((count_congr quiet.occupied).symm.trans emptied.2)
  | close =>
    rcases s.close_cases with same | ⟨_, closed⟩
    · refine .stay ?_ (fun emptied => ?_) s.close_stay
      · rintro ⟨d, i, packet, same, _⟩
        exact nomatch same
      · rw [step, same] at emptied
        exact absurd emptied.2 emptied.1.ne'
    · rw [step, closed] at live
      exact nomatch live

theorem Begun.advance {s : Server} (begun : Begun s) (now : UInt64) : Begun (s.advance now) := by
  rw [advance_of_begun begun]
  exact begun.dropEach slots

/-- The generation has moved on by one or by two. -/
def Later (s t : Server) : Prop := t.race = s.race + 1 ∨ t.race = s.race + 2

theorem Later.ne {s t : Server} (later : Later s t) : t.race ≠ s.race := by
  rcases later with one | two
  · rw [one]
    simp
  · rw [two]
    simp

theorem receiveCommand_stay_or_begun {s : Server} (r : Readings) {i : Fin 4} (packet : Packet)
    (seated : (s.players i).occupied = true) : Stay s (s.receiveCommand r i packet) ∨
      (Later s (s.receiveCommand r i packet) ∧ Begun (s.receiveCommand r i packet)) := by
  have taken := takeCommand_elapse r packet seated
  unfold receiveCommand
  generalize s.takeCommand r i packet = t at *
  have quiet := snapshot_quiet (t.advance r.advanced.val) r.sampled.val
  have advanced := t.advance_elapse r.advanced
  have fromFresh (race : t.race = s.race + 1) (fresh : Fresh t) :
      Later s ((t.advance r.advanced.val).snapshot r.sampled.val) ∧
        Begun ((t.advance r.advanced.val).snapshot r.sampled.val) := by
    refine ⟨?_, (fresh.begun.advance _).quiet quiet⟩
    rw [Later, quiet.race]
    rcases advanced with ⟨onward, _⟩ | ⟨again, _⟩
    · exact .inl (by rw [onward.race, race])
    · refine .inr ?_
      rw [again, race, UInt32.add_assoc]
      rfl
  rcases taken with ⟨_, _, race, fresh, _⟩ | ⟨_, ⟨stay, _⟩ | ⟨race, fresh, _⟩⟩
  · exact .inr (fromFresh race fresh)
  · rcases advanced with ⟨onward, _⟩ | ⟨again, fresh, _⟩
    · exact .inl ((stay.trans onward).trans quiet.stay)
    · exact .inr ⟨.inl (by rw [quiet.race, again, stay.race]), fresh.begun.quiet quiet⟩
  · exact .inr (fromFresh race fresh)

/-- Every event, in an open room or a closed one, either makes only changes
within the generation or ends in a lobby of another. -/
theorem step_stay_or_begun (s : Server) (e : Event) :
    Stay s (s.step e) ∨ (Later s (s.step e) ∧ Begun (s.step e)) := by
  cases e with
  | packet d =>
    rcases s.receivePacket_cases d.readings d.random d.address d.data with
      calm | ⟨i, packet, _, takes, same⟩
    · exact .inl (CalmPath.stay calm)
    · have counted := s.countRx_quiet
      rw [step, same]
      rcases receiveCommand_stay_or_begun (s := s.countRx) d.readings packet takes.seated with
        stay | begun
      · exact .inl (counted.stay.trans stay)
      · exact .inr begun
  | timer now sampled =>
    rcases s.timer_quiet now sampled with same | quiet
    · exact .inl (by rw [step, same])
    · rcases s.advance_elapse now with ⟨stay, _⟩ | ⟨race, fresh, _⟩
      · exact .inl (stay.trans quiet.stay)
      · exact .inr ⟨.inl (by rw [step, quiet.race, race]), fresh.begun.quiet quiet⟩
  | probe now => exact .inl (s.probe_quiet now).stay
  | close => exact .inl s.close_stay

def sampleNext : Packet := samplePacket .command 77 1 [Command.next.code]

/-- The host's NEXT, handled by a process that is suspended for six seconds
between the acknowledgement and the timeouts. -/
def sampleLateNext : Event :=
  .packet
    ⟨⟨sampleClock, sampleClock, ⟨7000000, by decide⟩, ⟨7000000, by decide⟩, UInt64.le_refl _, by decide,
      UInt64.le_refl _⟩, 0, sampleGuest, encode maxPacket sampleNext⟩

/-- A single call can begin two lobbies, one for NEXT and one for the room
that it then finds deserted. -/
theorem two_lobbies_in_one_call : ¬ ∀ (s : Server) (e : Event), system.Reachable s →
    (s.step e).closed = false → (s.step e).race = s.race ∨ (s.step e).race = s.race + 1 := by
  intro always
  have live : ((sampleRoom.step sampleJoin).step sampleLateNext).closed = false := by decide +kernel
  have before : (sampleRoom.step sampleJoin).race = 1 := by decide +kernel
  have after : ((sampleRoom.step sampleJoin).step sampleLateNext).race = 3 := by decide +kernel
  have outcome := always _ sampleLateNext sampleJoin_reachable live
  rw [before, after] at outcome
  exact absurd outcome (by decide)

/-- The generation changes exactly when the host's NEXT is applied or the room
is emptied, by one for each, and always into a fresh lobby; otherwise phase
and players only move forward, and a car that is out stays off the track. -/
theorem generation_step {s : Server} (reach : system.Reachable s) (e : Event)
    (live : (s.step e).closed = false) :
    (¬ NextApplied s e → ¬ Emptied s (s.step e) → (s.step e).race = s.race) ∧
    (NextApplied s e → ¬ Emptied s (s.step e) → (s.step e).race = s.race + 1) ∧
    (¬ NextApplied s e → Emptied s (s.step e) → (s.step e).race = s.race + 1) ∧
    (NextApplied s e → Emptied s (s.step e) → (s.step e).race = s.race + 2) ∧
    ((s.step e).race ≠ s.race → Fresh (s.step e)) ∧
    ((s.step e).race = s.race →
      s.phase.rank ≤ (s.step e).phase.rank ∧
      (s.phase ≠ .lobby → ∀ i, (s.players i).status.rank ≤ ((s.step e).players i).status.rank) ∧
      (∀ i, (s.players i).status = .finished →
        ((s.step e).players i).status = .finished ∨ ((s.step e).players i).status = .disconnected) ∧
      ∀ i, (s.players i).status = .disconnected → ((s.step e).players i).status = .disconnected) ∧
    ∀ i, (s.players i).status = .finished ∨ (s.players i).status = .disconnected →
      (s.players i).x = 0 ∧ (s.players i).y = 0 := by
  have liveS := Path.live (s.step_path e) live
  have one : s.race + 1 ≠ s.race := by simp
  have two : s.race + 2 ≠ s.race := by simp
  have off := reachable_offTrack reach
  have seating := reachable_seating reach liveS
  cases step_elapsed seating e live with
  | stay notNext stays stay =>
    have race := stay.race
    have forward := stay.forward seating (reachable_staging reach liveS) live
    refine ⟨?_, ?_, ?_, ?_, ?_, ?_, off⟩ <;> intros <;> first | contradiction | skip
    · exact race
    · exact ⟨forward.phase, forward.status, forward.finished, forward.gone⟩
  | next applied stays race fresh =>
    refine ⟨?_, ?_, ?_, ?_, ?_, ?_, off⟩ <;> intros <;> first | contradiction | assumption | skip
    next same => exact absurd (race.symm.trans same) one
  | emptied notNext gone race fresh =>
    refine ⟨?_, ?_, ?_, ?_, ?_, ?_, off⟩ <;> intros <;> first | contradiction | assumption | skip
    next same => exact absurd (race.symm.trans same) one
  | both applied gone race fresh =>
    refine ⟨?_, ?_, ?_, ?_, ?_, ?_, off⟩ <;> intros <;> first | contradiction | assumption | skip
    next same => exact absurd (race.symm.trans same) two

theorem sampleLateNext_generation :
    NextApplied (sampleRoom.step sampleJoin) sampleLateNext ∧
    ((sampleRoom.step sampleJoin).step sampleLateNext).race = (sampleRoom.step sampleJoin).race + 2 := by
  have live : ((sampleRoom.step sampleJoin).step sampleLateNext).closed = false := by decide +kernel
  have applied : NextApplied (sampleRoom.step sampleJoin) sampleLateNext := by
    refine ⟨_, 0, sampleNext, rfl, by decide +kernel, ?_, by decide +kernel, by decide⟩
    constructor <;> decide +kernel
  have emptied : Emptied (sampleRoom.step sampleJoin) ((sampleRoom.step sampleJoin).step sampleLateNext) :=
    ⟨by decide +kernel, by decide +kernel⟩
  exact ⟨applied, (generation_step sampleJoin_reachable sampleLateNext live).2.2.2.1 applied emptied⟩

end FzeroVs.Server
