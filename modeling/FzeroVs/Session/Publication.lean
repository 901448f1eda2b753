import FzeroVs.Session.Moves

namespace FzeroVs.Session

/-- `view()`. -/
def State.view (s : State) : SessionView := s.published

/-- The operation after these commands. -/
def latest (operation : UInt64) (commands : List Command) : UInt64 := commands.foldl (fun _ c => c.generation) operation

theorem latest_append (operation : UInt64) (commands later : List Command) :
    latest operation (commands ++ later) = latest (latest operation commands) later := List.foldl_append

/-- The worker is on its way to the command that was accepted last, if one has
been accepted since it was started. -/
structure Tracked (s : State) : Prop where
  idle : s.worker = none → s.commands = []
  leaving : ∀ w, s.worker = some w → w.place = .finish ∨ w.place = .ended → s.quitting = true
  joining : ∀ w, s.worker = some w → s.quitting = true → s.calling = .join
  ended : ∀ w, s.worker = some w → w.place = .ended → s.commands = []
  unaccepted : s.acceptedHere = 0 → s.commands = [] ∧ ∀ w, s.worker = some w → w.pending = [] ∧ w.operation = 0
  latest : ∀ w, s.worker = some w → 0 < s.acceptedHere → w.place ≠ .ended →
    latest w.operation (w.pending ++ s.commands) = s.generation

/-- The worker goes on within the same run. -/
theorem Tracked.work {s t : State} {w w' : Worker} (tracked : Tracked s) (there : s.worker = some w)
    (next : t.worker = some w') (quitting : t.quitting = s.quitting) (calling : t.calling = s.calling)
    (accepted : t.acceptedHere = s.acceptedHere) (generation : t.generation = s.generation)
    (leaving : w'.place = .finish ∨ w'.place = .ended → s.quitting = true)
    (ended : w'.place = .ended → t.commands = [])
    (unaccepted : s.commands = [] → w.pending = [] → w.operation = 0 →
      t.commands = [] ∧ w'.pending = [] ∧ w'.operation = 0)
    (same : w'.place ≠ .ended → w.place ≠ .ended ∧
      FzeroVs.Session.latest w'.operation (w'.pending ++ t.commands) =
        FzeroVs.Session.latest w.operation (w.pending ++ s.commands)) : Tracked t := by
  constructor
  case idle => exact fun none => nomatch next.symm.trans none
  case leaving =>
    intro v this
    cases Option.some.inj (next.symm.trans this)
    rw [quitting]
    exact leaving
  case joining =>
    intro v this
    rw [quitting, calling]
    exact tracked.joining w there
  case ended =>
    intro v this
    cases Option.some.inj (next.symm.trans this)
    exact ended
  case unaccepted =>
    rw [accepted]
    intro zero
    obtain ⟨queue, worker⟩ := tracked.unaccepted zero
    obtain ⟨pending, operation⟩ := worker w there
    obtain ⟨queue', pending', operation'⟩ := unaccepted queue pending operation
    refine ⟨queue', fun v this => ?_⟩
    cases Option.some.inj (next.symm.trans this)
    exact ⟨pending', operation'⟩
  case latest =>
    intro v this
    cases Option.some.inj (next.symm.trans this)
    rw [accepted, generation]
    intro some goes
    obtain ⟨goes, same⟩ := same goes
    exact same.trans (tracked.latest w there some goes)

/-- The same, when it goes on to a place from which it does not leave. -/
theorem Tracked.onward {s t : State} {w w' : Worker} (tracked : Tracked s) (there : s.worker = some w)
    (next : t.worker = some w') (quitting : t.quitting = s.quitting) (calling : t.calling = s.calling)
    (accepted : t.acceptedHere = s.acceptedHere) (generation : t.generation = s.generation)
    (stays : w'.place ≠ .finish ∧ w'.place ≠ .ended)
    (unaccepted : s.commands = [] → w.pending = [] → w.operation = 0 →
      t.commands = [] ∧ w'.pending = [] ∧ w'.operation = 0)
    (same : w.place ≠ .ended ∧ FzeroVs.Session.latest w'.operation (w'.pending ++ t.commands) =
      FzeroVs.Session.latest w.operation (w.pending ++ s.commands)) : Tracked t := by
  refine tracked.work there next quitting calling accepted generation ?_ ?_ unaccepted fun _ => same
  · exact fun leaves => leaves.elim (fun finish => absurd finish stays.1) fun ended => absurd ended stays.2
  · exact fun ended => absurd ended stays.2

/-- Another command is carried out, out of those that have been taken in. -/
theorem Tracked.take {s t : State} {w w' : Worker} {c : Command} {pending : List Command} (tracked : Tracked s)
    (there : s.worker = some w) (takes : w.Takes c pending w') (next : t.worker = some w')
    (quitting : t.quitting = s.quitting) (calling : t.calling = s.calling) (accepted : t.acceptedHere = s.acceptedHere)
    (generation : t.generation = s.generation) (commands : t.commands = s.commands) : Tracked t := by
  refine tracked.onward there next quitting calling accepted generation takes.stays ?_ ?_
  · intro _ nothing
    cases nothing.symm.trans takes.first
  · have busy : w.place ≠ .ended := by
      intro ended
      have first := takes.first
      rw [Worker.pending, ended] at first
      cases first
    refine ⟨busy, ?_⟩
    rw [takes.first, takes.pending, takes.operation, commands]
    rfl

theorem Tracked.moves {s t : State} {w : Worker} (tracked : Tracked s) (there : s.worker = some w)
    (moves : Moves s w t) : Tracked t := by
  cases moves with
  | @go w' published retry goes =>
    refine tracked.work there rfl rfl rfl rfl rfl ?_ ?_ ?_ ?_
    · exact fun leaves => leaves.elim goes.leaves fun ended => absurd ended goes.stays.2.2
    · exact fun ended => absurd ended goes.stays.2.2
    · exact fun queue pending operation => ⟨queue, goes.pending.trans pending, goes.operation.trans operation⟩
    · intro _
      rw [goes.operation, goes.pending]
      exact ⟨goes.stays.2.1, rfl⟩
  | @intake w' operation current joinKey resolution place pending offered stays =>
    refine tracked.onward there rfl rfl rfl rfl rfl stays ?_ ?_
    · exact fun queue _ zero => ⟨rfl, pending.trans queue, operation.trans zero⟩
    · have nothing : w.pending = [] := by rw [Worker.pending, place]
      rw [operation, pending, nothing, List.append_nil, List.nil_append]
      exact ⟨by simp [place], rfl⟩
  | take takes => exact tracked.take there takes rfl rfl rfl rfl rfl rfl
  | host takes => exact tracked.take there takes rfl rfl rfl rfl rfl rfl
  | @join w' c pending answers takes =>
    obtain ⟨resolvers, count, same⟩ := s.resolve_frame c.address answers
    rw [same]
    exact tracked.take there takes rfl rfl rfl rfl rfl rfl
  | @answered w' r operation current joinKey waiting done error resolution place pending offered stays =>
    refine tracked.onward there rfl rfl rfl rfl rfl stays ?_ ?_
    · exact fun queue _ zero => ⟨queue, pending, operation.trans zero⟩
    · have nothing : w.pending = [] := by rw [Worker.pending, place]
      rw [operation, pending, nothing]
      exact ⟨by simp [place], rfl⟩
  | @offer w' o operation current joinKey resolution pending before offered stays =>
    refine tracked.onward there rfl rfl rfl rfl rfl stays ?_ ?_
    · exact fun queue nothing zero => ⟨queue, pending.trans nothing, operation.trans zero⟩
    · have busy : w.place ≠ .ended := by
        intro ended
        rw [Worker.offered, ended] at before
        cases before
      rw [operation, pending]
      exact ⟨busy, rfl⟩
  | finish place =>
    refine tracked.work there rfl rfl rfl rfl rfl ?_ ?_ ?_ ?_
    · exact fun _ => tracked.leaving w there (.inl place)
    · exact fun _ => rfl
    · exact fun _ _ zero => ⟨rfl, rfl, zero⟩
    · exact fun other => absurd rfl other
  | ended => exact tracked

theorem Tracked.absent {s : State} (none : s.worker = none) (queue : s.commands = []) : Tracked s := by
  have never {w : Worker} (there : s.worker = some w) : False := nomatch none.symm.trans there
  constructor
  case idle => exact fun _ => queue
  case leaving => exact fun w there => (never there).elim
  case joining => exact fun w there => (never there).elim
  case ended => exact fun _ _ _ => queue
  case unaccepted => exact fun _ => ⟨queue, fun w there => (never there).elim⟩
  case latest => exact fun w there => (never there).elim

theorem Tracked.start {s : State} (tracked : Tracked s) (failed : Option String) : Tracked (s.start failed) := by
  unfold State.start
  split
  · exact tracked
  rename_i absent
  have none : s.worker = none := Option.not_isSome_iff_eq_none.mp absent
  have queue := tracked.idle none
  cases failed with
  | some what => exact .absent none queue
  | none =>
    constructor
    case idle => exact nofun
    case leaving =>
      rintro w this (finish | ended)
      · cases this
        exact nomatch finish
      · cases this
        exact nomatch ended
    case joining => exact fun _ _ quitting => nomatch quitting
    case ended => exact fun _ _ _ => queue
    case unaccepted =>
      refine fun _ => ⟨queue, fun w this => ?_⟩
      cases this
      exact ⟨rfl, rfl⟩
    case latest => exact fun _ _ some => absurd some (Nat.lt_irrefl 0)

/-- A call begins or ends. -/
theorem Tracked.calls {s : State} (tracked : Tracked s) (call : Call) (free : s.calling ≠ .join) :
    Tracked { s with calling := call } where
  idle := tracked.idle
  leaving := tracked.leaving
  joining w there quitting := absurd (tracked.joining w there quitting) free
  ended := tracked.ended
  unaccepted := tracked.unaccepted
  latest := tracked.latest

theorem Tracked.enqueue {s : State} (tracked : Tracked s) (c : Command) (free : s.calling ≠ .join) :
    Tracked (s.enqueue c).2 := by
  have running (w : Worker) (there : s.worker = some w) : s.quitting = false := by
    cases quitting : s.quitting with
    | false => rfl
    | true => exact absurd (tracked.joining w there quitting) free
  unfold State.enqueue
  split
  · exact { tracked with }
  rename_i present
  split
  · exact tracked
  constructor
  case idle => exact fun none => absurd none present
  case leaving => exact tracked.leaving
  case joining => exact tracked.joining
  case ended =>
    intro w there ended
    have quitting := tracked.leaving w there (.inr ended)
    exact nomatch quitting.symm.trans (running w there)
  case unaccepted => exact nofun
  case latest =>
    intro w there _ _
    dsimp only
    rw [latest_append, latest_append]
    rfl

theorem Tracked.resolved {s : State} (tracked : Tracked s) (id : Nat) (answer : Except String String) :
    Tracked (s.resolved id answer) := by
  unfold State.resolved
  split
  · exact tracked
  constructor
  case idle =>
    intro none
    exact tracked.idle (Option.map_eq_none_iff.mp none)
  case leaving =>
    intro w there
    obtain ⟨v, was, rfl⟩ := Option.map_eq_some_iff.mp there
    exact tracked.leaving v was
  case joining =>
    intro w there
    obtain ⟨v, was, rfl⟩ := Option.map_eq_some_iff.mp there
    exact tracked.joining v was
  case ended =>
    intro w there
    obtain ⟨v, was, rfl⟩ := Option.map_eq_some_iff.mp there
    exact tracked.ended v was
  case unaccepted =>
    intro zero
    obtain ⟨queue, worker⟩ := tracked.unaccepted zero
    refine ⟨queue, fun w there => ?_⟩
    obtain ⟨v, was, rfl⟩ := Option.map_eq_some_iff.mp there
    exact worker v was
  case latest =>
    intro w there
    obtain ⟨v, was, rfl⟩ := Option.map_eq_some_iff.mp there
    exact tracked.latest v was

theorem Tracked.finish {s : State} (tracked : Tracked s) (free : s.calling ≠ .join) : Tracked s.finish := by
  unfold State.finish
  split
  · rename_i c _
    have same : (s.enqueue c).2.calling = s.calling := by
      unfold State.enqueue
      split
      · rfl
      split <;> rfl
    exact (tracked.enqueue c free).calls .none (same ▸ free)
  · rename_i enabled _
    have browsing : Tracked { s with browsing := enabled } :=
      { tracked with }
    exact browsing.calls .none free
  · have retrying : Tracked { s with discoveryRetry := true } :=
      { tracked with }
    exact retrying.calls .none free
  · exact tracked

theorem Tracked.step {s : State} (tracked : Tracked s) {e : State.Action} (enabled : s.enabled e) :
    Tracked (s.step e) := by
  cases e with
  | start failed => exact tracked.start failed
  | call call failed =>
    have same : (s.start failed).calling = s.calling := by
      unfold State.start
      split
      · rfl
      split <;> rfl
    exact (tracked.start failed).calls call (by rw [same, enabled.1]; exact nofun)
  | finish => exact tracked.finish enabled.2
  | shutdown =>
    exact ⟨tracked.idle, fun _ _ _ => rfl, fun _ _ _ => rfl, tracked.ended, tracked.unaccepted, tracked.latest⟩
  | joined =>
    have queue : s.commands = [] := by
      cases worker : s.worker with
      | none => exact tracked.idle worker
      | some w => exact tracked.ended w worker (enabled.2 w worker)
    exact .absent rfl queue
  | connected =>
    simp only [State.step, State.connected]
    split
    · exact { tracked with }
    · exact tracked
  | takeConnection =>
    simp only [State.step, State.takeConnection]
    split
    · exact tracked
    split <;>
      exact { tracked with }
  | worker answers =>
    cases worker : s.worker with
    | none => simpa only [State.step, worker] using tracked
    | some w =>
      simp only [State.step, worker]
      exact tracked.moves worker (run_moves s w answers)
  | resolved id answer => exact tracked.resolved id answer

theorem reachable_tracked {s : State} (reach : State.system.Reachable s) : Tracked s := by
  refine reach.invariant ?_ fun _ e _ enabled _ tracked => tracked.step enabled
  rintro s rfl
  exact .absent rfl rfl

/-- Exactly when the worker publishes. With no command waiting it has caught up
with the generation, and `view()` becomes its state, if and only if a command
has been accepted since it was started, or none ever. Otherwise the view stays
what it was. -/
theorem publication_iff {s : State} (reach : State.system.Reachable s) {w : Worker} (there : s.worker = some w)
    (place : w.place = .publication) (waiting : s.commands = []) (answers : Answers) :
    ((w.operation = s.generation ∧ ∃ w', (s.step (.worker answers)).worker = some w' ∧
        (s.step (.worker answers)).view = w'.state) ↔
      0 < s.acceptedHere ∨ s.generation = 0) ∧
    (¬ (0 < s.acceptedHere ∨ s.generation = 0) → (s.step (.worker answers)).view = s.view) := by
  have tracked := reachable_tracked reach
  have nothing : w.pending = [] := by rw [Worker.pending, place]
  have caught : w.operation = s.generation ↔ 0 < s.acceptedHere ∨ s.generation = 0 := by
    rcases Nat.eq_zero_or_pos s.acceptedHere with zero | some
    · obtain ⟨_, operation⟩ := (tracked.unaccepted zero).2 w there
      rw [operation, zero, eq_comm, or_iff_right (Nat.lt_irrefl 0)]
    · have last := tracked.latest w there some (by simp [place])
      rw [nothing, waiting] at last
      exact iff_of_true last (.inl some)
  have ran : s.step (.worker answers) = s.publication w answers := by
    simp only [State.step, there, State.run, place]
  have same : (w.confirm s.published).operation = w.operation := (w.confirm_keeps s.published).operation
  refine ⟨⟨fun both => caught.mp both.1, fun once => ⟨caught.mpr once, ?_⟩⟩, fun never => ?_⟩
  · refine ⟨_, by rw [ran]; rfl, ?_⟩
    rw [ran, State.view, State.publication]
    simp only [same, caught.mpr once, if_true]
  · rw [ran, State.view, State.publication]
    simp only [same, if_neg fun even => never (caught.mp even)]
    rfl

/-! A room is hosted and left, and then somebody looks for rooms nearby. The
reply of one room arrives, but the new worker never publishes it. -/

def sampleReply : List UInt8 :=
  [70, 90, 86, 68, 1, 2, 1, 0] ++ put64 1 ++ put64 7 ++ put16 12000 ++ [0, 1, 2, 0, 0, 0] ++ List.replicate 64 0

def sampleFound : Answers where
  now := 5000
  scan := { now := 5000, querying := ["192.168.0.2"], datagrams := [("192.168.0.3", sampleReply)] }

/-- The worker from its start to its first publication. -/
def sampleIteration : List State.Action := List.replicate 9 (.worker sampleFound)

def sampleHosting : List State.Action :=
  [State.Action.call (.enqueue { type := .host }) none, .finish] ++ List.replicate 20 (.worker {})

def sampleLeaving : List State.Action :=
  [State.Action.shutdown] ++ List.replicate 12 (.worker {}) ++ [State.Action.joined]

def sampleBrowsing : List State.Action :=
  [State.Action.call (.browse true) none, .finish] ++ sampleIteration

def samplePublication : State := sampleBrowsing.foldl State.step {}

def sampleUnseen : State := (sampleHosting ++ sampleLeaving ++ sampleBrowsing).foldl State.step {}

theorem samplePublication_reachable : State.system.Reachable samplePublication := by
  have admits : State.system.Admits (fun _ _ => True) {} sampleBrowsing := by decide +kernel
  exact (System.Reach.start rfl).run admits

theorem sampleUnseen_reachable : State.system.Reachable sampleUnseen := by
  have admits : State.system.Admits (fun _ _ => True) {} (sampleHosting ++ sampleLeaving ++ sampleBrowsing) := by
    decide +kernel
  exact (System.Reach.start rfl).run admits

/-- In a new session the room that is found is seen. -/
theorem samplePublication_published :
    ∃ w', (samplePublication.step (.worker sampleFound)).worker = some w' ∧ w'.state.rooms.length = 1 ∧
      (samplePublication.step (.worker sampleFound)).view = w'.state := by
  have busy : samplePublication.worker.any fun w => decide (w.place = .publication) := by decide +kernel
  obtain ⟨w, there, place⟩ := (Option.any_eq_true _ _).mp busy
  have published := publication_iff samplePublication_reachable there (of_decide_eq_true place) rfl sampleFound
  obtain ⟨_, w', next, view⟩ := published.1.mpr (.inr rfl)
  have found : (samplePublication.step (.worker sampleFound)).worker.any fun w => w.state.rooms.length == 1 := by
    decide +kernel
  rw [next] at found
  exact ⟨w', next, eq_of_beq found, view⟩

/-- After another host has been left, the room that is found is never seen. -/
theorem sampleUnseen_stale :
    State.system.Reachable sampleUnseen ∧ sampleUnseen.commands = [] ∧
      ∃ w, sampleUnseen.worker = some w ∧ w.place = .publication ∧ w.operation ≠ sampleUnseen.generation ∧
        w.state.rooms ≠ [] ∧ (sampleUnseen.step (.worker sampleFound)).view.rooms = [] := by
  have busy : sampleUnseen.worker.any fun w =>
      decide (w.place = .publication ∧ w.operation ≠ sampleUnseen.generation ∧ w.state.rooms ≠ []) := by
    decide +kernel
  have unseen : (sampleUnseen.step (.worker sampleFound)).view.rooms = [] := by decide +kernel
  obtain ⟨w, there, stale⟩ := (Option.any_eq_true _ _).mp busy
  obtain ⟨place, operation, rooms⟩ := of_decide_eq_true stale
  exact ⟨sampleUnseen_reachable, rfl, w, there, place, operation, rooms, unseen⟩

end FzeroVs.Session
