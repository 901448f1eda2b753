import FzeroVs.Protocol.Shots
import FzeroVs.Client.Accept

namespace FzeroVs.Client

/-- Whether the command has been marked as sent in this generation. -/
def marked (c : Client) : Shot → Bool
  | .select => c.selectedSent
  | .loaded => c.loadedSent
  | .finish => c.finishedSent

/-- The command that a frame puts on the queue and marks as sent. -/
def oneShot (c : Client) (ram : UInt32 → UInt8) : Option (Shot × List UInt8) :=
  if c.memory = false ∨ c.config.baseline = true then none
  else
    match c.game with
    | .waiting =>
      if c.id ≠ none ∧ c.selectedSent = false ∧ c.phase = .lobby then
        some (.select, [Command.select.code, c.car])
      else none
    | .location =>
      if (ram 0x54 = 2 ∧ ram 0x55 = 0 ∧ ram 0x56 = 2) ∧ c.loadedSent = false ∧ c.phase = .loading then
        some (.loaded, position ram Command.loaded.code)
      else none
    | .race =>
      if ram 0x54 = 3 ∧ c.finishedSent = false then some (.finish, [Command.finish.code]) else none
    | _ => none

/-- The marks of these commands and the own car are the same. -/
structure Unmarked (c d : Client) : Prop where
  selected : d.selectedSent = c.selectedSent
  loaded : d.loadedSent = c.loadedSent
  finished : d.finishedSent = c.finishedSent
  car : d.car = c.car

theorem Unmarked.marked {c d : Client} (same : Unmarked c d) (shot : Shot) : d.marked shot = c.marked shot := by
  cases shot with
  | select => exact same.selected
  | loaded => exact same.loaded
  | finish => exact same.finished

theorem Unmarked.refl (c : Client) : Unmarked c c := ⟨rfl, rfl, rfl, rfl⟩

theorem send_unmarked (c : Client) (packet : Packet) : Unmarked c (c.send packet) := by
  unfold send
  split <;> exact ⟨rfl, rfl, rfl, rfl⟩

theorem queue_unmarked (c : Client) (command : List UInt8) : Unmarked c (c.queue command) := by
  unfold queue
  split
  · exact .refl c
  · exact ⟨rfl, rfl, rfl, rfl⟩

theorem request_unmarked (c : Client) (command : UInt8) (data : List UInt8) :
    Unmarked c (c.request command data) := by
  unfold request
  split <;> exact ⟨rfl, rfl, rfl, rfl⟩

theorem serve_unmarked (c : Client) (t : UInt64) : Unmarked c (c.serve t) where
  selected := serve_keeps Client.selectedSent (fun _ _ _ _ _ _ _ _ _ => rfl) c t
  loaded := serve_keeps Client.loadedSent (fun _ _ _ _ _ _ _ _ _ => rfl) c t
  finished := serve_keeps Client.finishedSent (fun _ _ _ _ _ _ _ _ _ => rfl) c t
  car := serve_keeps Client.car (fun _ _ _ _ _ _ _ _ _ => rfl) c t

theorem pulse_unmarked (c : Client) (t : UInt64) : Unmarked c (c.pulse t) := by
  have served := c.serve_unmarked t
  unfold pulse
  dsimp only
  generalize (if (c.serve t).id = none then (10000000 : UInt64) else 5000000) = limit
  split
  · exact { served with }
  · exact served

/-- A snapshot of another generation clears the marks. -/
theorem accept_marks (c : Client) (t : UInt64) (p : Packet) (v : Picture) :
    (p.race = c.race ∧ Unmarked c (c.accept t p v)) ∨
      (p.race ≠ c.race ∧ (∀ shot, (c.accept t p v).marked shot = false) ∧ (c.accept t p v).car = 0) := by
  have selected := arm_keeps Client.selectedSent (fun _ _ _ _ _ => rfl) (c.settle t p v)
  have loaded := arm_keeps Client.loadedSent (fun _ _ _ _ _ => rfl) (c.settle t p v)
  have finished := arm_keeps Client.finishedSent (fun _ _ _ _ _ => rfl) (c.settle t p v)
  have car := arm_keeps Client.car (fun _ _ _ _ _ => rfl) (c.settle t p v)
  by_cases same : p.race = c.race
  · have kept : Unmarked c (c.settle t p v) := by
      simp only [settle, newRace, same, ne_eq, not_true_eq_false, if_false, display, bufferSnapshot]
      exact ⟨rfl, rfl, rfl, rfl⟩
    exact .inl ⟨same, selected.trans kept.selected, loaded.trans kept.loaded, finished.trans kept.finished,
      car.trans kept.car⟩
  · have cleared : (c.settle t p v).selectedSent = false ∧ (c.settle t p v).loadedSent = false ∧
        (c.settle t p v).finishedSent = false ∧ (c.settle t p v).car = 0 := by
      simp [settle, newRace, same, display, bufferSnapshot, resetGame]
    refine .inr ⟨same, fun shot => ?_, car.trans cleared.2.2.2⟩
    cases shot with
    | select => exact selected.trans cleared.1
    | loaded => exact loaded.trans cleared.2.1
    | finish => exact finished.trans cleared.2.2.1

/-- A datagram leaves the marks alone, unless it is a snapshot that the client accepts. -/
theorem hear_marks (c : Client) (t : UInt64) (data : List UInt8) : Unmarked c (c.hear t data) ∨
    ∃ p v, decode data = some p ∧ Accepts c p v ∧ c.hear t data = c.accept t p v := by
  have failed : Unmarked c c.failure := ⟨rfl, rfl, rfl, rfl⟩
  unfold hear
  split
  next opened =>
    split
    next p decoded =>
      unfold receive
      split
      · exact .inl failed
      split
      · split
        · exact .inl (.refl c)
        · exact .inl ⟨rfl, rfl, rfl, rfl⟩
      split
      · exact .inl (.refl c)
      next own =>
        simp only [not_or, ne_eq, not_not] at own
        split
        · exact .inl failed
        split
        · exact .inl { c.send_unmarked _ with }
        split
        · dsimp only
          split
          · exact .inl (.refl c)
          · exact .inl ⟨rfl, rfl, rfl, rfl⟩
        unfold receiveSnapshot
        split
        · exact .inl (.refl c)
        next v read =>
          split
          next fresh => exact .inr ⟨p, v, decoded, ⟨opened, own.1, own.2.1, own.2.2, read, fresh⟩, rfl⟩
          next => exact .inl ⟨rfl, rfl, rfl, rfl⟩
    next => exact .inl (.refl c)
  next => exact .inl (.refl c)

theorem menu_lt (line : UInt8) : menu line < 4 := by
  unfold menu
  generalize (line &&& 3).toNat = n
  match n with
  | 0 | 1 | 2 | 3 => decide
  | n + 4 => exact (by decide : (0 : UInt8) < 4)

theorem oneShot_fits {c : Client} {ram : UInt32 → UInt8} {shot : Shot} {command : List UInt8}
    (due : c.oneShot ram = some (shot, command)) : (c.car < 4 → shot.Fits command) ∧
      (shot ≠ .finish → c.phase = shot.phase) ∧
      (c.id ≠ none ∨ c.config.baseline = false ∧ seatedGame c.game = true) := by
  unfold oneShot at due
  split at due
  · exact nomatch due
  next running =>
    have playing : c.config.baseline = false := Bool.not_eq_true _ ▸ fun baseline => running (.inr baseline)
    split at due
    next =>
      split at due
      next ready =>
        cases due
        exact ⟨fun car => ⟨rfl, rfl, fun _ => car⟩, fun _ => ready.2.2, .inl ready.1⟩
      next => exact nomatch due
    next location =>
      split at due
      next ready =>
        cases due
        exact ⟨fun _ => ⟨rfl, rfl, nofun⟩, fun _ => ready.2.2, .inr ⟨playing, by rw [location]; rfl⟩⟩
      next => exact nomatch due
    next racing =>
      split at due
      next =>
        cases due
        exact ⟨fun _ => ⟨rfl, rfl, nofun⟩, fun other => absurd rfl other,
          .inr ⟨playing, by rw [racing]; rfl⟩⟩
      next => exact nomatch due
    next => exact nomatch due

/-- What a frame does to the marks, the queue and the own car. -/
structure Marking (c : Client) (due : Option (Shot × List UInt8)) (d : Client) : Prop where
  marked : ∀ shot, d.marked shot = true → c.marked shot = true ∨
    ∃ command, due = some (shot, command) ∧ d.issued = (c.queue command).issued
  car : c.car < 4 → d.car < 4

theorem Marking.none {c d : Client} (same : Unmarked c d) (due : Option (Shot × List UInt8)) : Marking c due d where
  marked shot marked := .inl (same.marked shot ▸ marked)
  car low := by rwa [same.car]

theorem Marking.queued {c d : Client} {shot : Shot} {command : List UInt8}
    (others : ∀ other, other ≠ shot → d.marked other = c.marked other)
    (issued : d.issued = (c.queue command).issued) (car : d.car = c.car) : Marking c (some (shot, command)) d where
  marked other marked := by
    by_cases same : other = shot
    · subst same
      exact .inr ⟨command, rfl, issued⟩
    · rw [others other same] at marked
      exact .inl marked
  car low := by rwa [car]

theorem Marking.play {c d : Client} {due : Option (Shot × List UInt8)} (marking : Marking c due d) (game : Game) :
    Marking c due { d with game := game } where
  marked shot := by
    cases shot with
    | select => exact marking.marked .select
    | loaded => exact marking.marked .loaded
    | finish => exact marking.marked .finish
  car := marking.car

theorem select_marking {c : Client} (running : ¬ (c.memory = false ∨ c.config.baseline = true))
    (waiting : c.game = .waiting) (ram : UInt32 → UInt8) : Marking c (c.oneShot ram) c.select := by
  rw [oneShot, if_neg running, waiting]
  dsimp only
  unfold select
  split
  next ready =>
    have same := c.queue_unmarked [Command.select.code, c.car]
    refine .queued (fun other ne => ?_) rfl same.car
    cases other with
    | select => exact absurd rfl ne
    | loaded => exact same.loaded
    | finish => exact same.finished
  next => exact .none (.refl c) _

theorem load_marking {c : Client} (running : ¬ (c.memory = false ∨ c.config.baseline = true))
    (location : c.game = .location) {ram : UInt32 → UInt8} (grid : ram 0x54 = 2 ∧ ram 0x55 = 0 ∧ ram 0x56 = 2) :
    Marking c (c.oneShot ram) (c.load ram) := by
  rw [oneShot, if_neg running, location]
  dsimp only
  unfold load
  by_cases ready : c.loadedSent = false ∧ c.phase = .loading
  · have same := c.queue_unmarked (position ram Command.loaded.code)
    rw [if_pos ready, if_pos ⟨grid, ready⟩]
    refine .queued (fun other ne => ?_) rfl same.car
    cases other with
    | select => exact same.selected
    | loaded => exact absurd rfl ne
    | finish => exact same.finished
  · rw [if_neg ready]
    exact .none (.refl c) _

theorem finish_marking {c : Client} (running : ¬ (c.memory = false ∨ c.config.baseline = true))
    (racing : c.game = .race) {ram : UInt32 → UInt8} (ended : ram 0x54 = 3) :
    Marking c (c.oneShot ram) c.finish := by
  rw [oneShot, if_neg running, racing]
  dsimp only
  unfold finish
  by_cases ready : c.finishedSent = false
  · have same := c.queue_unmarked [Command.finish.code]
    rw [if_pos ready, if_pos ⟨ended, ready⟩]
    refine .queued (fun other ne => ?_) rfl same.car
    cases other with
    | select => exact same.selected
    | loaded => exact same.loaded
    | finish => exact absurd rfl ne
  · rw [if_neg ready]
    exact .none (.refl c) _

/-- A mark is set only by the frame that has the command for it. -/
theorem frame_marking (c : Client) (ram : UInt32 → UInt8) (due : Bool) (now : UInt64) :
    Marking c (c.oneShot ram) (c.frame ram due now) := by
  unfold frame
  split
  · exact .none (.refl c) _
  next stopped =>
    split
    · exact (Marking.none (.refl c) _).play _
    next baseline =>
      have running : ¬ (c.memory = false ∨ c.config.baseline = true) :=
        fun idle => idle.elim (fun down => stopped (.inl down)) baseline
      split
      next => exact (Marking.none (.refl c) _).play _
      next =>
        have picked : Marking c (c.oneShot ram)
            (if ram 0x55 = 3 then { c with car := menu (ram 0x5a) } else c) := by
          split
          · exact ⟨fun shot marked => .inl (by cases shot <;> exact marked), fun _ => menu_lt _⟩
          · exact .none (.refl c) _
        dsimp only
        split
        · exact picked.play _
        · exact picked
      next waiting =>
        have selected := select_marking running waiting ram
        dsimp only
        split
        · exact selected.play _
        · exact selected
      next => exact (Marking.none (.refl c) _).play _
      next location =>
        split
        next grid =>
          have loaded := load_marking running location grid
          dsimp only
          split
          · exact loaded.play _
          · exact loaded
        next => exact .none (.refl c) _
      next racing =>
        split
        next ended => exact (finish_marking running racing ended).play _
        next =>
          have sent := send_unmarked { c with stateSeq := c.stateSeq + 1 }
            { type := Kind.state.code, length := 5, seq := c.stateSeq + 1, payload := (position ram 0).drop 1 }
          refine .none ?_ _
          exact ⟨sent.selected, sent.loaded, sent.finished, sent.car⟩
      next =>
        split
        · refine .none ?_ _
          exact ⟨rfl, rfl, rfl, rfl⟩
        · exact .none (.refl c) _
      next =>
        split
        · refine .none ?_ _
          exact { c.queue_unmarked [Command.next.code] with }
        · exact .none (.refl c) _
      next => exact .none (.refl c) _

/-- A full queue drops the command of the frame, which is marked all the same. -/
theorem frame_full {c : Client} {ram : UInt32 → UInt8} {shot : Shot} {command : List UInt8}
    (isDue : c.oneShot ram = some (shot, command)) (full : 8 ≤ c.pending.length) (due : Bool) (now : UInt64) :
    (c.frame ram due now).marked shot = true ∧ (c.frame ram due now).pending = c.pending := by
  have dropped (command : List UInt8) : c.queue command = c := if_pos (.inr (.inl full))
  unfold oneShot at isDue
  split at isDue
  · exact nomatch isDue
  next running =>
    have playing : ¬ c.config.baseline = true := fun baseline => running (.inr baseline)
    have runs {game : Game} (same : c.game = game) (there : game ≠ .disconnected) :
        ¬ (c.memory = false ∨ c.game = .disconnected) :=
      fun stopped => stopped.elim (fun down => running (.inl down)) fun lost => there (same ▸ lost)
    split at isDue
    next waiting =>
      split at isDue
      next ready =>
        cases isDue
        have selected : c.select = { c with selectedSent := true } := by rw [select, if_pos ready, dropped]
        rw [frame, if_neg (runs waiting (by decide)), if_neg playing, waiting]
        dsimp only
        rw [selected]
        split <;> exact ⟨rfl, rfl⟩
      next => exact nomatch isDue
    next location =>
      split at isDue
      next ready =>
        cases isDue
        have loaded : c.load ram = { c with loadedSent := true } := by rw [load, if_pos ready.2, dropped]
        rw [frame, if_neg (runs location (by decide)), if_neg playing, location]
        dsimp only
        rw [if_pos ready.1, loaded]
        split <;> exact ⟨rfl, rfl⟩
      next => exact nomatch isDue
    next racing =>
      split at isDue
      next ready =>
        cases isDue
        have finished : c.finish = { c with finishedSent := true } := by rw [finish, if_pos ready.2, dropped]
        rw [frame, if_neg (runs racing (by decide)), if_neg playing, racing]
        dsimp only
        rw [if_pos ready.1, finished]
        exact ⟨rfl, rfl⟩
      next => exact nomatch isDue
    next => exact nomatch isDue

/-- What an event does to the marks. -/
inductive Marks (c : Client) (e : Event) : Prop
  | same : Unmarked c (c.step e) → Marks c e
  | frame (ram : UInt32 → UInt8) (due : Bool) (now : UInt64) : e = .frame ram due now →
      Marking c (c.oneShot ram) (c.step e) → Marks c e
  | accept (t : UInt64) (data : List UInt8) (p : Packet) (v : Picture) : e = .hear t data →
      decode data = some p → Accepts c p v → c.step e = c.accept t p v → Marks c e
  | attach (random : Option UInt64) (now : UInt64) : e = .attach random now → Marks c e
  | detach : e = .detach → Marks c e

theorem step_marks (c : Client) (e : Event) : Marks c e := by
  cases e with
  | attach random now => exact .attach random now rfl
  | request command data => exact .same (c.request_unmarked command data)
  | hear t data =>
    rcases c.hear_marks t data with same | ⟨p, v, decoded, accepts, same⟩
    · exact .same same
    · exact .accept t data p v rfl decoded accepts same
  | pulse t =>
    refine .same ?_
    simp only [step]
    split
    · exact .refl c
    · exact c.pulse_unmarked t
  | frame ram due now => exact .frame ram due now rfl (c.frame_marking ram due now)
  | detach => exact .detach rfl

/-- The automaton gets to the grid after the client has joined only, and
nothing is marked before. -/
structure Entered (c : Client) : Prop where
  seated : c.config.baseline = false → seatedGame c.game = true → c.id ≠ none
  unmarked : c.id = none → ∀ shot, c.marked shot = false
  car : c.car < 4

theorem Path.seated {c d : Client} (path : Path c d)
    (seated : c.config.baseline = false → seatedGame c.game = true → c.id ≠ none) :
    d.config.baseline = false → seatedGame d.game = true → d.id ≠ none := by
  refine Path.keeps (P := fun d => d.config.baseline = false → seatedGame d.game = true → d.id ≠ none) path
    (fun c d move seated => ?_) seated
  have kept := move.kept
  rw [kept.config, kept.id]
  have queued (command : List UInt8) : (c.queue command).game = c.game := (c.queue_frame command).1
  cases move with
  | idle idle => rw [idle.game]; exact seated
  | @retransmit p rest t waiting =>
    have sent : (c.send p.packet).game = c.game := by
      unfold send
      split <;> rfl
    change _ → seatedGame (c.send p.packet).game = true → _
    rw [sent]
    exact seated
  | queue command => rw [queued]; exact seated
  | select waiting unsent joined lobby => exact fun _ _ => joined
  | load ram location playing unsent loading =>
    change _ → seatedGame (c.queue _).game = true → _
    rw [queued]
    exact seated
  | finish racing playing unsent =>
    change _ → seatedGame (c.queue _).game = true → _
    rw [queued]
    exact seated
  | arm counting unarmed =>
    change _ → seatedGame (c.queue _).game = true → _
    rw [queued]
    exact seated
  | play before after baseline entering =>
    exact fun playing moved => (entering playing moved).elim (seated playing) fun joined => joined
  | fail => exact fun _ lost => nomatch lost

theorem detach_unmarked (c : Client) : Unmarked c c.detach where
  selected := detach_keeps Client.selectedSent (fun _ _ _ _ _ _ => rfl) c
  loaded := detach_keeps Client.loadedSent (fun _ _ _ _ _ _ => rfl) c
  finished := detach_keeps Client.finishedSent (fun _ _ _ _ _ _ => rfl) c
  car := detach_keeps Client.car (fun _ _ _ _ _ _ => rfl) c

/-- A new socket starts without marks, and without a socket nothing changes. -/
theorem attach_marks (c : Client) (random : Option UInt64) (now : UInt64) :
    seatedGame (c.attach random now).game = false ∧ (Unmarked c (c.attach random now) ∨
      (∀ shot, (c.attach random now).marked shot = false) ∧ (c.attach random now).car = 0) := by
  have left := c.detach_unmarked
  have failed : Unmarked c { c.detach with memory := true, sent := [], issued := [], accepted := [] }.failure :=
    ⟨left.selected, left.loaded, left.finished, left.car⟩
  unfold Client.attach
  dsimp only
  split
  · split
    · exact ⟨rfl, .inl failed⟩
    · exact ⟨rfl, .inr ⟨fun shot => by cases shot <;> rfl, rfl⟩⟩
  · exact ⟨rfl, .inl failed⟩

theorem Entered.accept {c : Client} (entered : Entered c) (t : UInt64) {p : Packet} {v : Picture}
    (accepts : Accepts c p v) : Entered (c.accept t p v) := by
  have joined : (c.accept t p v).id ≠ none := (c.accept_took t p v).id ▸ accepts.joined
  refine ⟨fun _ _ => joined, fun waits => absurd waits joined, ?_⟩
  rcases c.accept_marks t p v with ⟨_, same⟩ | ⟨_, _, car⟩
  · rw [same.car]
    exact entered.car
  · rw [car]
    decide

theorem Entered.attach {c : Client} (entered : Entered c) (waits : c.id = none) (random : Option UInt64)
    (now : UInt64) : Entered (c.attach random now) := by
  obtain ⟨left, marks⟩ := c.attach_marks random now
  refine ⟨fun _ moved => (nomatch left.symm.trans moved), fun _ shot => ?_, ?_⟩
  · rcases marks with same | ⟨cleared, _⟩
    · exact (same.marked shot).trans (entered.unmarked waits shot)
    · exact cleared shot
  · rcases marks with same | ⟨_, car⟩
    · rw [same.car]
      exact entered.car
    · rw [car]
      decide

theorem Entered.frame {c : Client} (entered : Entered c) (ram : UInt32 → UInt8) (due : Bool) (now : UInt64) :
    Entered (c.frame ram due now) := by
  have path := c.frame_path ram due now
  have marking := c.frame_marking ram due now
  refine ⟨Path.seated path entered.seated, fun waits shot => ?_, marking.car entered.car⟩
  rw [(Path.kept path).id] at waits
  rw [← Bool.not_eq_true]
  intro marked
  rcases marking.marked shot marked with old | ⟨command, isDue, _⟩
  · exact nomatch (entered.unmarked waits shot).symm.trans old
  · obtain ⟨_, _, place⟩ := oneShot_fits isDue
    exact place.elim (absurd waits) fun grid => entered.seated grid.1 grid.2 waits

theorem Entered.step {c : Client} (entered : Entered c) {e : Event} (stays : e ≠ .detach)
    (once : ∀ random now, e = .attach random now → c.id = none) : Entered (c.step e) := by
  cases c.step_marks e with
  | same same =>
    have car : (c.step e).car < 4 := same.car ▸ entered.car
    cases c.step_turn e with
    | path path _ _ =>
      have kept := Path.kept path
      exact ⟨Path.seated path entered.seated,
        fun waits shot => (same.marked shot).trans (entered.unmarked (kept.id ▸ waits) shot), car⟩
    | join t data p isHear decoded admits joins =>
      have joined : (c.step e).id ≠ none := by
        rw [joins]
        exact nofun
      exact ⟨fun _ _ => joined, fun waits => absurd waits joined, car⟩
    | accept t data p v isHear decoded accepts same =>
      rw [same]
      exact entered.accept t accepts
    | attach random now isAttach =>
      subst isAttach
      exact entered.attach (once random now rfl) random now
    | detach isDetach => exact absurd isDetach stays
  | frame ram due now isFrame _ =>
    subst isFrame
    exact entered.frame ram due now
  | accept t data p v isHear decoded accepts same =>
    rw [same]
    exact entered.accept t accepts
  | attach random now isAttach =>
    subst isAttach
    exact entered.attach (once random now rfl) random now
  | detach isDetach => exact absurd isDetach stays

end FzeroVs.Client
