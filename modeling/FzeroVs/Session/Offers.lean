import FzeroVs.Library.Counter
import FzeroVs.Session.Address
import FzeroVs.Session.Publication

namespace FzeroVs.Session

/-- The generations that may still lead the worker to a connection. -/
def Worker.trail (w : Worker) : List UInt64 :=
  w.offered.toList.map (·.generation) ++ (w.resolution.toList.map fun _ => w.operation) ++ w.pending.map (·.generation)

/-- The generations of the connections that were returned, and after them those
that may still lead to one. -/
def State.trail (s : State) : List UInt64 :=
  s.returned.map (·.generation) ++ (s.connection.toList.map (·.generation) ++
    (s.worker.toList.flatMap Worker.trail ++ s.commands.map (·.generation)))

theorem State.trail_worker {s : State} {w : Worker} (there : s.worker = some w) :
    s.trail = s.returned.map (·.generation) ++ (s.connection.toList.map (·.generation) ++
      (w.trail ++ s.commands.map (·.generation))) := by
  rw [State.trail, there, Option.toList_some, List.flatMap_singleton]

theorem Worker.Takes.trail {w w' : Worker} {c : Command} {pending : List Command} (takes : w.Takes c pending w') :
    (c.generation :: pending.map (·.generation)).Sublist w.trail := by
  rw [Worker.trail, takes.first]
  exact List.sublist_append_right _ _

/-- The worker never adds a generation, and never changes their order. -/
theorem Moves.trail {s t : State} {w : Worker} (there : s.worker = some w) (moves : Moves s w t) :
    t.trail.Sublist s.trail := by
  rw [State.trail_worker there]
  cases moves with
  | @go w' published retry goes =>
    have less : w'.trail.Sublist w.trail := by
      rw [Worker.trail, Worker.trail, goes.offered, goes.before, goes.pending, goes.operation]
      rcases goes.resolution with same | none
      · rw [same]
      · rw [none]
        exact List.sublist_append_right _ _
    rw [State.trail_worker (w := w') rfl]
    exact ((less.append_right _).append_left _).append_left _
  | @intake w' operation current joinKey resolution place pending offered stays =>
    have same : w'.trail ++ [] = w.trail ++ s.commands.map (·.generation) := by
      have nothing : w.pending = [] ∧ w.offered = none := Place.plain_empty (by rw [place]; rfl)
      rw [Worker.trail, Worker.trail, nothing.1, nothing.2, offered, resolution, pending, operation]
      simp only [List.map_nil, List.append_nil]
    rw [State.trail_worker (w := w') rfl, ← same]
    exact List.Sublist.refl _
  | @take w' c pending takes offered resolution =>
    have less : w'.trail.Sublist w.trail := by
      rw [Worker.trail, offered, resolution, takes.pending]
      exact (List.sublist_cons_self _ _).trans takes.trail
    rw [State.trail_worker (w := w') rfl]
    exact ((less.append_right _).append_left _).append_left _
  | @host w' c pending o takes offered resolution generation created =>
    have less : w'.trail.Sublist w.trail := by
      have first := takes.trail
      rw [← generation] at first
      rw [Worker.trail, offered, resolution, takes.pending]
      exact first
    rw [State.trail_worker (w := w') rfl]
    exact ((less.append_right _).append_left _).append_left _
  | @join w' c pending answers takes type offered joinKey resolution =>
    have less : w'.trail.Sublist w.trail := by
      rw [Worker.trail, offered, resolution, takes.pending, takes.operation]
      exact takes.trail
    obtain ⟨resolvers, count, same⟩ := s.resolve_frame c.address answers
    rw [same, State.trail_worker (w := w') rfl]
    exact ((less.append_right _).append_left _).append_left _
  | @answered w' r operation current joinKey waiting done error resolution place pending offered stays =>
    have same : w'.trail = w.trail := by
      have nothing : w.pending = [] ∧ w.offered = none := Place.plain_empty (by rw [place]; rfl)
      rw [Worker.trail, Worker.trail, nothing.1, nothing.2, waiting, offered, resolution, pending]
      rfl
    rw [State.trail_worker (w := w') rfl, same]
  | @offer w' o operation current joinKey resolution pending before offered stays =>
    have taken : w.trail = o.generation :: w'.trail := by
      rw [Worker.trail, Worker.trail, before, offered, resolution, pending, operation]
      rfl
    rw [State.trail_worker (w := w') rfl, taken]
    refine List.Sublist.append_left ?_ _
    dsimp only
    split
    · exact List.sublist_append_right _ _
    · exact ((List.sublist_cons_self _ _).append_left _)
  | finish place =>
    have less : ({ w with place := Place.ended } : Worker).trail.Sublist w.trail := by
      have nothing : w.pending = [] ∧ w.offered = none := by
        rw [Worker.pending, Worker.offered, place]
        exact ⟨rfl, rfl⟩
      rw [Worker.trail, Worker.trail, nothing.1, nothing.2]
      exact List.Sublist.refl _
    rw [State.trail_worker rfl]
    refine List.Sublist.append_left ?_ _
    exact (less.append (List.nil_sublist _)).trans (List.sublist_append_right _ _)
  | ended => rw [State.trail_worker there]

/-- What the worker leaves to the user interface. -/
structure Frame (s t : State) : Prop where
  generation : t.generation = s.generation
  calling : t.calling = s.calling
  commands : t.commands = s.commands ∨ t.commands = []
  accepted : t.accepted = s.accepted
  acceptedHere : t.acceptedHere = s.acceptedHere
  stopped : t.stopped = s.stopped

theorem Moves.frame {s t : State} {w : Worker} (moves : Moves s w t) : Frame s t := by
  cases moves with
  | intake | finish => exact ⟨rfl, rfl, .inr rfl, rfl, rfl, rfl⟩
  | @join w' c pending answers =>
    obtain ⟨resolvers, count, same⟩ := s.resolve_frame c.address answers
    rw [same]
    exact ⟨rfl, rfl, .inl rfl, rfl, rfl, rfl⟩
  | _ => exact ⟨rfl, rfl, .inl rfl, rfl, rfl, rfl⟩

/-- The accepted commands are numbered from one on, modulo 2^64. -/
structure Numbered (s : State) : Prop where
  generation : s.generation = UInt64.ofNat s.accepted.length
  number : Counter.Given Command.generation id s.accepted

theorem Numbered.kept {s t : State} (numbered : Numbered s) (accepted : t.accepted = s.accepted)
    (generation : t.generation = s.generation) : Numbered t where
  generation := by rw [generation, accepted, numbered.generation]
  number := accepted ▸ numbered.number

theorem Numbered.enqueue {s : State} (numbered : Numbered s) (c : Command) : Numbered (s.enqueue c).2 := by
  have next : s.generation + 1 = UInt64.ofNat (s.accepted.length + 1) := by
    rw [numbered.generation, Counter.succ]
  unfold State.enqueue
  split
  · exact numbered.kept rfl rfl
  split
  · exact numbered
  constructor
  case generation =>
    rw [List.length_append, List.length_singleton]
    exact next
  case number => exact numbered.number.concat next

theorem Numbered.onward {s : State} (numbered : Numbered s) (few : s.accepted.length + 1 < 2 ^ 64) :
    s.generation < s.generation + 1 := numbered.generation ▸ Counter.lt_succ few

/-- Below 2^64 commands the number says which command it is. -/
theorem Numbered.newest {s : State} (numbered : Numbered s) (few : s.accepted.length < 2 ^ 64) {c : Command}
    (member : c ∈ s.accepted) (last : c.generation = s.generation) : s.accepted.getLast? = some c :=
  numbered.number.last Function.injective_id few member (last.trans numbered.generation)

/-- The generations on the trail go up, as far as the one that was given last. -/
structure Ascending (s : State) : Prop where
  sorted : s.trail.Pairwise (· < ·)
  bounded : ∀ g ∈ s.trail, g ≤ s.generation

theorem Ascending.less {s t : State} (ascending : Ascending s) (less : t.trail.Sublist s.trail)
    (generation : t.generation = s.generation) : Ascending t where
  sorted := ascending.sorted.sublist less
  bounded g member := generation ▸ ascending.bounded g (less.subset member)

/-- Another generation comes after all before it, unless the counter wraps. -/
theorem Ascending.enqueue {s : State} (ascending : Ascending s) (numbered : Numbered s) {c : Command}
    (few : (s.enqueue c).2.accepted.length < 2 ^ 64) : Ascending (s.enqueue c).2 := by
  revert few
  unfold State.enqueue
  split
  · exact fun _ => ascending.less (List.Sublist.refl _) rfl
  split
  · exact fun _ => ascending
  dsimp only
  intro few
  have onward : s.generation < s.generation + 1 := numbered.onward (by simpa using few)
  -- What is left of the trail, before the new generation ends it.
  let kept : List UInt64 := s.returned.map (·.generation) ++
    (s.worker.toList.flatMap Worker.trail ++ (if c.type = .stop then [] else s.commands).map (·.generation))
  have less : kept.Sublist s.trail := by
    refine List.Sublist.append_left ?_ _
    refine List.Sublist.trans (List.Sublist.append_left ?_ _) (List.sublist_append_right _ _)
    refine List.Sublist.map _ ?_
    split
    · exact List.nil_sublist _
    · exact List.Sublist.refl _
  have sorted := ascending.sorted.sublist less
  have below (g : UInt64) (member : g ∈ kept) : g < s.generation + 1 :=
    UInt64.lt_of_le_of_lt (ascending.bounded g (less.subset member)) onward
  have next (t : State) (trail : t.trail = kept ++ [s.generation + 1]) (generation : t.generation = s.generation + 1) :
      Ascending t := by
    constructor
    case sorted =>
      rw [trail]
      refine List.pairwise_append.mpr ⟨sorted, List.pairwise_singleton _ _, ?_⟩
      intro g member new isNew
      rw [List.mem_singleton.mp isNew]
      exact below g member
    case bounded =>
      intro g member
      rw [trail, List.mem_append, List.mem_singleton] at member
      rw [generation]
      rcases member with old | new
      · exact UInt64.le_of_lt (below g old)
      · exact UInt64.le_of_eq new
  refine next _ ?_ rfl
  simp only [State.trail, kept, Option.toList_none, List.map_nil, List.nil_append, List.map_append, List.map_cons,
    List.append_assoc]

theorem Ascending.start {s : State} (ascending : Ascending s) (failed : Option String) : Ascending (s.start failed) := by
  unfold State.start
  split
  · exact ascending
  rename_i absent
  have none : s.worker = none := Option.not_isSome_iff_eq_none.mp absent
  cases failed with
  | some what => exact ascending.less (List.Sublist.refl _) rfl
  | none =>
    refine ascending.less ?_ rfl
    rw [State.trail, State.trail, none]
    exact List.Sublist.refl _

theorem Ascending.finish {s : State} (ascending : Ascending s) (numbered : Numbered s)
    (few : s.finish.accepted.length < 2 ^ 64) : Ascending s.finish := by
  revert few
  unfold State.finish
  split
  · intro few
    exact (ascending.enqueue numbered few).less (List.Sublist.refl _) rfl
  · exact fun _ => ascending.less (List.Sublist.refl _) rfl
  · exact fun _ => ascending.less (List.Sublist.refl _) rfl
  · exact fun _ => ascending

/-- The connection that is returned stays where it is on the trail. -/
theorem takeConnection_trail (s : State) : s.takeConnection.2.trail.Sublist s.trail := by
  unfold State.takeConnection
  split
  · exact List.Sublist.refl _
  rename_i out held
  split
  · refine List.Sublist.append_left ?_ _
    exact List.sublist_append_right _ _
  · rw [State.trail, State.trail, held, List.map_append, List.append_assoc]
    exact List.Sublist.refl _

/-- The answer of a resolver task is on the trail already. -/
theorem resolved_trail (s : State) (id : Nat) (answer : Except String String) : (s.resolved id answer).trail = s.trail := by
  unfold State.resolved
  split
  · rfl
  · rw [State.trail, State.trail]
    cases worker : s.worker with
    | none => rfl
    | some w =>
      cases resolution : w.resolution <;> simp [Worker.trail, Worker.offered, Worker.pending, resolution]

/-- Only the second half of a call can accept a command. -/
theorem step_accepts (s : State) (e : State.Action) :
    (s.step e).accepted = s.accepted ∧ (s.step e).generation = s.generation ∨ e = .finish := by
  cases e with
  | start failed | call call failed =>
    simp only [State.step, State.start]
    split
    · exact .inl ⟨rfl, rfl⟩
    split <;> exact .inl ⟨rfl, rfl⟩
  | finish => exact .inr rfl
  | shutdown | joined => exact .inl ⟨rfl, rfl⟩
  | connected =>
    simp only [State.step, State.connected]
    split <;> exact .inl ⟨rfl, rfl⟩
  | takeConnection =>
    simp only [State.step, State.takeConnection]
    split
    · exact .inl ⟨rfl, rfl⟩
    split <;> exact .inl ⟨rfl, rfl⟩
  | worker answers =>
    cases there : s.worker with
    | none =>
      have same : s.step (.worker answers) = s := by simp only [State.step, there]
      rw [same]
      exact .inl ⟨rfl, rfl⟩
    | some w =>
      have frame := (run_moves s w answers).frame
      simp only [State.step, there]
      exact .inl ⟨frame.accepted, frame.generation⟩
  | resolved id answer =>
    simp only [State.step, State.resolved]
    split <;> exact .inl ⟨rfl, rfl⟩

theorem Numbered.step {s : State} (numbered : Numbered s) (e : State.Action) : Numbered (s.step e) := by
  rcases step_accepts s e with ⟨accepted, generation⟩ | rfl
  · exact numbered.kept accepted generation
  · simp only [State.step, State.finish]
    split
    · exact (numbered.enqueue _).kept rfl rfl
    · exact numbered.kept rfl rfl
    · exact numbered.kept rfl rfl
    · exact numbered

theorem reachable_numbered {s : State} (reach : State.system.Reachable s) : Numbered s := by
  refine reach.invariant ?_ fun _ e _ _ _ numbered => numbered.step e
  rintro s rfl
  exact ⟨rfl, fun _ _ nothing => nomatch nothing⟩

theorem enqueue_grows (s : State) (c : Command) : s.accepted.length ≤ (s.enqueue c).2.accepted.length := by
  unfold State.enqueue
  split
  · exact Nat.le_refl _
  split
  · exact Nat.le_refl _
  · rw [List.length_append]
    exact Nat.le_add_right _ _

theorem accepted_grows (s : State) (e : State.Action) : s.accepted.length ≤ (s.step e).accepted.length := by
  rcases step_accepts s e with ⟨accepted, _⟩ | rfl
  · exact Nat.le_of_eq (congrArg List.length accepted.symm)
  · simp only [State.step, State.finish]
    split
    · exact enqueue_grows s _
    · exact Nat.le_refl _
    · exact Nat.le_refl _
    · exact Nat.le_refl _

theorem Ascending.step {s : State} (ascending : Ascending s) (numbered : Numbered s) (e : State.Action)
    (few : (s.step e).accepted.length < 2 ^ 64) : Ascending (s.step e) := by
  cases e with
  | start failed => exact ascending.start failed
  | call call failed => exact (ascending.start failed).less (List.Sublist.refl _) rfl
  | finish => exact ascending.finish numbered few
  | shutdown => exact ascending.less (List.Sublist.refl _) rfl
  | joined =>
    refine ascending.less ?_ rfl
    refine List.Sublist.append_left (List.Sublist.append_left ?_ _) _
    exact List.sublist_append_right _ _
  | connected =>
    simp only [State.step, State.connected]
    split
    · exact ascending.less (List.Sublist.refl _) rfl
    · exact ascending
  | takeConnection =>
    refine ascending.less (takeConnection_trail s) ?_
    simp only [State.step, State.takeConnection]
    split
    · rfl
    · split <;> rfl
  | worker answers =>
    cases there : s.worker with
    | none => simpa only [State.step, there] using ascending
    | some w =>
      have moves := run_moves s w answers
      simp only [State.step, there]
      exact ascending.less (moves.trail there) moves.frame.generation
  | resolved id answer =>
    refine ascending.less (resolved_trail s id answer ▸ List.Sublist.refl _) ?_
    simp only [State.step, State.resolved]
    split <;> rfl

theorem reachable_ascending {s : State} (reach : State.system.Reachable s) (few : s.accepted.length < 2 ^ 64) :
    Ascending s := by
  revert few
  refine reach.invariant (P := fun s => s.accepted.length < 2 ^ 64 → Ascending s) ?_ ?_
  · rintro s rfl _
    exact ⟨List.Pairwise.nil, nofun⟩
  · intro s e before _ _ ascending few
    exact (ascending (Nat.lt_of_le_of_lt (accepted_grows s e) few)).step (reachable_numbered before) e few

/-- What the resolver tasks can still say, or have said, suits the join. -/
structure Resolution.Suits (r : Resolution) (resolvers : List Resolver) (c : Command) : Prop where
  asked : ∀ t ∈ resolvers, t.id = r.id → parseAddress c.address = .lookup t.host t.port
  answered : r.done = true → r.error = "" →
    ∃ host port ip, parseAddress c.address = .lookup host port ∧ r.address = ip ++ ":" ++ port

/-- What the worker has in hand comes from the command it carries out. -/
structure Worker.Linked (w : Worker) (accepted : List Command) (resolvers : List Resolver) : Prop where
  pending : ∀ c ∈ w.pending, c ∈ accepted
  current : ∀ c, w.current = some c → c ∈ accepted ∧ w.operation = c.generation
  offered : ∀ o, w.offered = some o → ∃ c, w.current = some c ∧ o.generation = c.generation ∧ CreatedFor o c
  resolution : ∀ r, w.resolution = some r →
    ∃ c, w.current = some c ∧ c.type = .join ∧ w.joinKey = c.key ∧ r.Suits resolvers c

/-- A connection that waits is one for a command with the number given last. -/
structure Linked (s : State) : Prop where
  queued : ∀ c ∈ s.commands, c ∈ s.accepted
  tasks : ∀ t ∈ s.resolvers, t.id < s.nextResolution
  connection : ∀ o, s.connection = some o →
    o.generation = s.generation ∧ ∃ c ∈ s.accepted, o.generation = c.generation ∧ CreatedFor o c
  worker : ∀ w, s.worker = some w → w.Linked s.accepted s.resolvers

theorem append_reason {text rest : String} (reason : text ≠ "") : text ++ rest ≠ "" := by
  intro empty
  exact reason (String.append_eq_empty_iff.mp empty).1

/-- The worker asks for the address of a join. -/
theorem resolve_suits {s : State} (tasks : ∀ t ∈ s.resolvers, t.id < s.nextResolution) (c : Command)
    (answers : Answers) :
    (s.resolve c.address answers).2.Suits (s.resolve c.address answers).1.resolvers c ∧
      (∀ t ∈ (s.resolve c.address answers).1.resolvers, t.id < (s.resolve c.address answers).1.nextResolution) := by
  have older (t : Resolver) (member : t ∈ s.resolvers) : t.id < s.nextResolution + 1 :=
    Nat.lt_succ_of_lt (tasks t member)
  have stranger (t : Resolver) (member : t ∈ s.resolvers) : t.id ≠ s.nextResolution := Nat.ne_of_lt (tasks t member)
  have refused {error : String} (reason : error ≠ "") :
      ({ id := s.nextResolution, done := true, error := error } : Resolution).Suits s.resolvers c :=
    ⟨fun t member same => absurd same (stranger t member), fun _ silent => absurd silent reason⟩
  unfold State.resolve
  dsimp only
  cases parsed : parseAddress c.address with
  | refused error => exact ⟨refused (refused_reason parsed), older⟩
  | lookup host port =>
    dsimp only
    split
    · exact ⟨refused (by decide), older⟩
    cases answers.resolverStarted with
    | some what => exact ⟨refused (append_reason (by decide)), older⟩
    | none =>
      refine ⟨⟨?_, nofun⟩, ?_⟩
      · intro t member same
        rcases List.mem_append.mp member with old | new
        · exact absurd same (stranger t old)
        · rw [List.mem_singleton] at new
          rw [new, parsed]
      · intro t member
        rcases List.mem_append.mp member with old | new
        · exact older t old
        · rw [List.mem_singleton] at new
          rw [new]
          exact Nat.lt_succ_self _

section

variable {s : State} {w w' : Worker} {accepted : List Command} {resolvers : List Resolver}

/-- The same command is carried out. -/
theorem Worker.Linked.keeps (linked : w.Linked accepted resolvers) (operation : w'.operation = w.operation)
    (current : w'.current = w.current) (joinKey : w'.joinKey = w.joinKey)
    (resolution : w'.resolution = w.resolution ∨ w'.resolution = none) (pending : ∀ c ∈ w'.pending, c ∈ accepted)
    (offered : ∀ o, w'.offered = some o → ∃ c, w.current = some c ∧ o.generation = c.generation ∧ CreatedFor o c) :
    w'.Linked accepted resolvers where
  pending := pending
  current := by
    rw [current, operation]
    exact linked.current
  offered := by
    rw [current]
    exact offered
  resolution r waiting := by
    rcases resolution with same | none
    · rw [current, joinKey]
      exact linked.resolution r (same ▸ waiting)
    · exact nomatch none.symm.trans waiting

/-- Another command takes the place of all that was in hand. -/
theorem Worker.Takes.linked {c : Command} {pending : List Command} (takes : w.Takes c pending w')
    {earlier : List Resolver} (linked : w.Linked accepted earlier)
    (offered : ∀ o, w'.offered = some o → o.generation = c.generation ∧ CreatedFor o c)
    (resolution : ∀ r, w'.resolution = some r → c.type = .join ∧ w'.joinKey = c.key ∧ r.Suits resolvers c) :
    w'.Linked accepted resolvers where
  pending d member := by
    rw [takes.pending] at member
    exact linked.pending d (takes.first ▸ List.mem_cons_of_mem c member)
  current d same := by
    cases Option.some.inj (takes.current.symm.trans same)
    exact ⟨linked.pending c (takes.first ▸ List.mem_cons_self), takes.operation⟩
  offered o waiting := ⟨c, takes.current, offered o waiting⟩
  resolution r waiting := ⟨c, takes.current, resolution r waiting⟩

theorem Linked.moves {t : State} (linked : Linked s) (there : s.worker = some w) (moves : Moves s w t) : Linked t := by
  have busy := linked.worker w there
  cases moves with
  | @go w' published retry goes =>
    have worker : w'.Linked s.accepted s.resolvers := by
      refine busy.keeps goes.operation goes.current goes.joinKey goes.resolution ?_ ?_
      · rw [goes.pending]
        exact busy.pending
      · exact fun o waiting => by cases goes.offered.symm.trans waiting
    exact { linked with worker := fun v next => Option.some.inj next ▸ worker }
  | @intake w' operation current joinKey resolution place pending offered stays =>
    have worker : w'.Linked s.accepted s.resolvers := by
      refine busy.keeps operation current joinKey (.inl resolution) ?_ ?_
      · rw [pending]
        exact linked.queued
      · exact fun o waiting => by cases offered.symm.trans waiting
    exact { linked with
      queued := List.forall_mem_nil _
      worker := fun v next => Option.some.inj next ▸ worker }
  | @take w' c pending takes offered resolution =>
    have worker : w'.Linked s.accepted s.resolvers := by
      refine takes.linked busy ?_ ?_
      · exact fun o waiting => by cases offered.symm.trans waiting
      · exact fun r waiting => by cases resolution.symm.trans waiting
    exact { linked with worker := fun v next => Option.some.inj next ▸ worker }
  | @host w' c pending o takes offered resolution generation created =>
    have worker : w'.Linked s.accepted s.resolvers := by
      refine takes.linked busy ?_ ?_
      · intro p waiting
        cases Option.some.inj (offered.symm.trans waiting)
        exact ⟨generation, created⟩
      · exact fun r waiting => by cases resolution.symm.trans waiting
    exact { linked with worker := fun v next => Option.some.inj next ▸ worker }
  | @join w' c pending answers takes type offered joinKey resolution =>
    obtain ⟨suits, tasks⟩ := resolve_suits linked.tasks c answers
    have worker : w'.Linked s.accepted (s.resolve c.address answers).1.resolvers := by
      refine takes.linked busy ?_ ?_
      · exact fun o waiting => by cases offered.symm.trans waiting
      · intro r waiting
        cases Option.some.inj (resolution.symm.trans waiting)
        exact ⟨type, joinKey, suits⟩
    obtain ⟨resolvers, count, same⟩ := s.resolve_frame c.address answers
    rw [same] at tasks worker ⊢
    exact { linked with tasks := tasks, worker := fun v next => Option.some.inj next ▸ worker }
  | @answered w' r operation current joinKey waiting done error resolution place pending offered stays =>
    have worker : w'.Linked s.accepted s.resolvers := by
      refine busy.keeps operation current joinKey (.inr resolution) ?_ ?_
      · rw [pending]
        exact List.forall_mem_nil _
      · intro o handed
        cases Option.some.inj (offered.symm.trans handed)
        obtain ⟨c, carried, type, key, suits⟩ := busy.resolution r waiting
        refine ⟨c, carried, (busy.current c carried).2, ?_⟩
        rw [CreatedFor, type]
        exact ⟨key, rfl, suits.answered done error⟩
    exact { linked with worker := fun v next => Option.some.inj next ▸ worker }
  | @offer w' o operation current joinKey resolution pending before offered stays =>
    have worker : w'.Linked s.accepted s.resolvers := by
      refine busy.keeps operation current joinKey (.inl resolution) ?_ ?_
      · rw [pending]
        exact busy.pending
      · exact fun o waiting => by cases offered.symm.trans waiting
    refine { linked with connection := ?_, worker := fun v next => Option.some.inj next ▸ worker }
    intro p held
    by_cases last : w.operation = s.generation
    · simp only [if_pos last] at held
      cases Option.some.inj held
      obtain ⟨c, carried, generation, created⟩ := busy.offered o before
      obtain ⟨member, same⟩ := busy.current c carried
      exact ⟨generation.trans (same.symm.trans last), c, member, generation, created⟩
    · simp only [if_neg last] at held
      exact linked.connection p held
  | finish place =>
    have worker : ({ w with place := Place.ended } : Worker).Linked s.accepted s.resolvers :=
      busy.keeps rfl rfl rfl (.inl rfl) (List.forall_mem_nil _) fun o offered => by cases offered
    exact { linked with
      queued := List.forall_mem_nil _
      connection := fun o held => by cases held
      worker := fun v next => Option.some.inj next ▸ worker }
  | ended => exact linked

end

theorem Worker.Linked.more {w : Worker} {accepted later : List Command} {resolvers : List Resolver}
    (linked : w.Linked accepted resolvers) (more : ∀ c ∈ accepted, c ∈ later) : w.Linked later resolvers where
  pending c member := more c (linked.pending c member)
  current c carried := ⟨more c (linked.current c carried).1, (linked.current c carried).2⟩
  offered := linked.offered
  resolution := linked.resolution

theorem Linked.start {s : State} (linked : Linked s) (failed : Option String) : Linked (s.start failed) := by
  unfold State.start
  split
  · exact linked
  cases failed with
  | some what =>
    exact { linked with }
  | none =>
    have worker : ({} : Worker).Linked s.accepted s.resolvers := ⟨fun _ => nofun, fun _ => nofun, fun _ => nofun, fun _ => nofun⟩
    exact { linked with worker := fun v next => Option.some.inj next ▸ worker }

theorem Linked.enqueue {s : State} (linked : Linked s) (c : Command) : Linked (s.enqueue c).2 := by
  unfold State.enqueue
  split
  · exact { linked with }
  split
  · exact linked
  have old (d : Command) (member : d ∈ s.accepted) (new : Command) : d ∈ s.accepted ++ [new] :=
    List.mem_append_left _ member
  constructor
  case queued =>
    intro d member
    rcases List.mem_append.mp member with before | new
    · split at before
      · exact nomatch before
      · exact old d (linked.queued d before) _
    · exact List.mem_append_right _ new
  case tasks => exact linked.tasks
  case connection => exact fun _ => nofun
  case worker => exact fun w there => (linked.worker w there).more fun d member => old d member _

theorem Linked.finish {s : State} (linked : Linked s) : Linked s.finish := by
  unfold State.finish
  split
  · have queued := linked.enqueue ‹Command›
    exact { queued with }
  · exact { linked with }
  · exact { linked with }
  · exact linked

/-- A resolver task says what it was asked for. -/
theorem Linked.resolved {s : State} (linked : Linked s) (id : Nat) (answer : Except String String) :
    Linked (s.resolved id answer) := by
  unfold State.resolved
  split
  · exact linked
  rename_i t found
  have named : t.id = id := by simpa using List.find?_some found
  have asked := List.mem_of_find?_eq_some found
  have fewer (u : Resolver) (member : u ∈ s.resolvers.erase t) : u ∈ s.resolvers := List.mem_of_mem_erase member
  refine { linked with tasks := fun u member => linked.tasks u (fewer u member), worker := ?_ }
  intro w there
  obtain ⟨v, was, rfl⟩ := Option.map_eq_some_iff.mp there
  have busy := linked.worker v was
  refine ⟨busy.pending, busy.current, busy.offered, ?_⟩
  intro r waiting
  obtain ⟨q, before, rfl⟩ := Option.map_eq_some_iff.mp waiting
  obtain ⟨c, carried, type, key, suits⟩ := busy.resolution q before
  refine ⟨c, carried, type, key, ?_⟩
  dsimp only
  split
  · exact ⟨fun u member => suits.asked u (fewer u member), suits.answered⟩
  rename_i own
  have own : q.id = id := not_not.mp own
  cases answer with
  | error what =>
    exact ⟨fun u member => suits.asked u (fewer u member), fun _ silent => absurd silent (append_reason (by decide))⟩
  | ok ip =>
    refine ⟨fun u member => suits.asked u (fewer u member), fun _ _ => ?_⟩
    exact ⟨t.host, t.port, ip, suits.asked t asked (named.trans own.symm), rfl⟩

theorem Linked.step {s : State} (linked : Linked s) (e : State.Action) : Linked (s.step e) := by
  cases e with
  | start failed => exact linked.start failed
  | call call failed =>
    have started := linked.start failed
    exact { started with }
  | finish => exact linked.finish
  | shutdown => exact { linked with }
  | joined => exact { linked with worker := fun w there => by cases there }
  | connected =>
    simp only [State.step, State.connected]
    split
    · exact { linked with }
    · exact linked
  | takeConnection =>
    simp only [State.step, State.takeConnection]
    split
    · exact linked
    split <;> exact { linked with connection := fun o held => by cases held }
  | worker answers =>
    cases there : s.worker with
    | none => simpa only [State.step, there] using linked
    | some w =>
      simp only [State.step, there]
      exact linked.moves there (run_moves s w answers)
  | resolved id answer => exact linked.resolved id answer

theorem reachable_linked {s : State} (reach : State.system.Reachable s) : Linked s := by
  refine reach.invariant ?_ fun _ e _ _ _ linked => linked.step e
  rintro s rfl
  exact ⟨fun _ => nofun, fun _ => nofun, fun _ => nofun, fun _ => nofun⟩

/-- Where no command is carried out there is no connection, nor the prospect of one. -/
structure Quiet (s : State) : Prop where
  absent : s.worker = none → s.connection = none
  ended : ∀ w, s.worker = some w → w.place = .ended → s.connection = none
  unaccepted : s.acceptedHere = 0 →
    s.connection = none ∧ ∀ w, s.worker = some w → w.offered = none ∧ w.resolution = none
  stopped : s.stopped = true →
    s.worker = none ∨ s.acceptedHere = 0 ∨ ∃ c, s.accepted.getLast? = some c ∧ c.type = .stop

/-- The worker stays a worker, and only the end of its run leaves it at the end. -/
theorem Moves.worker {s t : State} {w : Worker} (there : s.worker = some w) (moves : Moves s w t) :
    ∃ w', t.worker = some w' ∧ (w'.place = .ended → t.connection = none ∨ w.place = .ended ∧ t = s) := by
  cases moves with
  | @go w' published retry goes => exact ⟨w', rfl, fun ended => absurd ended goes.stays.2.2⟩
  | @intake w' operation current joinKey resolution place pending offered stays =>
    exact ⟨w', rfl, fun ended => absurd ended stays.2⟩
  | @take w' c pending takes => exact ⟨w', rfl, fun ended => absurd ended takes.stays.2⟩
  | @host w' c pending o takes => exact ⟨w', rfl, fun ended => absurd ended takes.stays.2⟩
  | @join w' c pending answers takes =>
    obtain ⟨resolvers, count, same⟩ := s.resolve_frame c.address answers
    rw [same]
    exact ⟨w', rfl, fun ended => absurd ended takes.stays.2⟩
  | @answered w' r operation current joinKey waiting done error resolution place pending offered stays =>
    exact ⟨w', rfl, fun ended => absurd ended stays.2⟩
  | @offer w' o operation current joinKey resolution pending before offered stays =>
    exact ⟨w', rfl, fun ended => absurd ended stays.2⟩
  | finish place => exact ⟨_, rfl, fun _ => .inl rfl⟩
  | ended place => exact ⟨w, there, fun _ => .inr ⟨place, rfl⟩⟩

/-- Before the first command the worker has nothing to offer. -/
theorem Quiet.unaccepted_moves {s t : State} {w : Worker} (quiet : Quiet s) (tracked : Tracked s)
    (there : s.worker = some w) (moves : Moves s w t) (zero : s.acceptedHere = 0) :
    t.connection = none ∧ ∀ v, t.worker = some v → v.offered = none ∧ v.resolution = none := by
  obtain ⟨connection, worker⟩ := quiet.unaccepted zero
  obtain ⟨offers, waits⟩ := worker w there
  have idle : w.pending = [] := ((tracked.unaccepted zero).2 w there).1
  have nothing {w' : Worker} {c : Command} {pending : List Command} (takes : w.Takes c pending w') : False :=
    nomatch idle.symm.trans takes.first
  cases moves with
  | @go w' published retry goes =>
    refine ⟨connection, fun v next => ?_⟩
    cases Option.some.inj next
    exact ⟨goes.offered, goes.resolution.elim (fun same => same.trans waits) fun none => none⟩
  | @intake w' operation current joinKey resolution place pending offered stays =>
    refine ⟨connection, fun v next => ?_⟩
    cases Option.some.inj next
    exact ⟨offered, resolution.trans waits⟩
  | take takes => exact (nothing takes).elim
  | host takes => exact (nothing takes).elim
  | join answers takes => exact (nothing takes).elim
  | @answered w' r operation current joinKey waiting => exact nomatch waits.symm.trans waiting
  | @offer w' o operation current joinKey resolution pending before => exact nomatch offers.symm.trans before
  | finish place =>
    refine ⟨rfl, fun v next => ?_⟩
    cases Option.some.inj next
    exact ⟨rfl, waits⟩
  | ended => exact ⟨connection, worker⟩

theorem Quiet.moves {s t : State} {w : Worker} (quiet : Quiet s) (tracked : Tracked s) (there : s.worker = some w)
    (moves : Moves s w t) : Quiet t := by
  have frame := moves.frame
  obtain ⟨w', next, ended⟩ := moves.worker there
  constructor
  case absent => exact fun none => nomatch next.symm.trans none
  case ended =>
    intro v now past
    cases Option.some.inj (next.symm.trans now)
    rcases ended past with none | ⟨before, same⟩
    · exact none
    · rw [same]
      exact quiet.ended w there before
  case unaccepted =>
    rw [frame.acceptedHere]
    exact quiet.unaccepted_moves tracked there moves
  case stopped =>
    rw [frame.accepted, frame.acceptedHere, frame.stopped]
    intro once
    rcases quiet.stopped once with none | rest
    · exact nomatch there.symm.trans none
    · exact .inr rest

theorem Quiet.start {s : State} (quiet : Quiet s) (failed : Option String) : Quiet (s.start failed) := by
  unfold State.start
  split
  · exact quiet
  rename_i absent
  have none : s.worker = none := Option.not_isSome_iff_eq_none.mp absent
  have connection := quiet.absent none
  cases failed with
  | some what => exact ⟨quiet.absent, quiet.ended, quiet.unaccepted, quiet.stopped⟩
  | none =>
    refine ⟨nofun, fun _ _ _ => connection, fun _ => ⟨connection, ?_⟩, fun _ => .inr (.inl rfl)⟩
    intro v next
    cases Option.some.inj next
    exact ⟨rfl, rfl⟩

theorem Quiet.enqueue {s : State} (quiet : Quiet s) (c : Command) : Quiet (s.enqueue c).2 := by
  unfold State.enqueue
  split
  · exact ⟨quiet.absent, quiet.ended, quiet.unaccepted, fun _ => .inl ‹_›⟩
  split
  · exact quiet
  refine ⟨fun _ => rfl, fun _ _ _ => rfl, nofun, fun stop => .inr (.inr ?_)⟩
  exact ⟨_, List.getLast?_concat, of_decide_eq_true stop⟩

theorem Quiet.finish {s : State} (quiet : Quiet s) : Quiet s.finish := by
  unfold State.finish
  split
  · have queued := quiet.enqueue ‹Command›
    exact ⟨queued.absent, queued.ended, queued.unaccepted, queued.stopped⟩
  · exact ⟨quiet.absent, quiet.ended, quiet.unaccepted, quiet.stopped⟩
  · exact ⟨quiet.absent, quiet.ended, quiet.unaccepted, quiet.stopped⟩
  · exact quiet

theorem Quiet.resolved {s : State} (quiet : Quiet s) (id : Nat) (answer : Except String String) :
    Quiet (s.resolved id answer) := by
  unfold State.resolved
  split
  · exact quiet
  constructor
  case absent => exact fun none => quiet.absent (Option.map_eq_none_iff.mp none)
  case ended =>
    intro w there
    obtain ⟨v, was, rfl⟩ := Option.map_eq_some_iff.mp there
    exact quiet.ended v was
  case unaccepted =>
    intro zero
    obtain ⟨connection, worker⟩ := quiet.unaccepted zero
    refine ⟨connection, fun w there => ?_⟩
    obtain ⟨v, was, rfl⟩ := Option.map_eq_some_iff.mp there
    obtain ⟨offered, resolution⟩ := worker v was
    exact ⟨offered, by rw [resolution]; rfl⟩
  case stopped =>
    intro once
    rcases quiet.stopped once with none | rest
    · exact .inl (Option.map_eq_none_iff.mpr none)
    · exact .inr rest

theorem Quiet.step {s : State} (quiet : Quiet s) (tracked : Tracked s) {e : State.Action} (enabled : s.enabled e) :
    Quiet (s.step e) := by
  cases e with
  | start failed => exact quiet.start failed
  | call call failed =>
    have started := quiet.start failed
    exact ⟨started.absent, started.ended, started.unaccepted, started.stopped⟩
  | finish => exact quiet.finish
  | shutdown => exact ⟨quiet.absent, quiet.ended, quiet.unaccepted, quiet.stopped⟩
  | joined =>
    have connection : s.connection = none := by
      cases there : s.worker with
      | none => exact quiet.absent there
      | some w => exact quiet.ended w there (enabled.2 w there)
    exact ⟨fun _ => connection, fun _ => nofun, fun _ => ⟨connection, fun _ => nofun⟩, fun _ => .inl rfl⟩
  | connected =>
    simp only [State.step, State.connected]
    split
    · exact ⟨quiet.absent, quiet.ended, quiet.unaccepted, quiet.stopped⟩
    · exact quiet
  | takeConnection =>
    simp only [State.step, State.takeConnection]
    split
    · exact quiet
    split <;>
      exact ⟨fun _ => rfl, fun _ _ _ => rfl, fun zero => ⟨rfl, (quiet.unaccepted zero).2⟩, quiet.stopped⟩
  | worker answers =>
    cases there : s.worker with
    | none => simpa only [State.step, there] using quiet
    | some w =>
      simp only [State.step, there]
      exact quiet.moves tracked there (run_moves s w answers)
  | resolved id answer => exact quiet.resolved id answer

theorem reachable_quiet {s : State} (reach : State.system.Reachable s) : Quiet s := by
  refine reach.invariant ?_ fun _ e before enabled _ quiet => quiet.step (reachable_tracked before) enabled
  rintro s rfl
  exact ⟨fun _ => rfl, fun _ => nofun, fun _ => ⟨rfl, fun _ => nofun⟩, nofun⟩

/-- While a call waits for the mutex the queue only gets shorter. -/
theorem call_holds {s : State} {c : Command} (busy : s.calling = .enqueue c) {e : State.Action}
    (enabled : s.enabled e) (other : e ≠ .finish) :
    (s.step e).calling = .enqueue c ∧ (s.step e).commands.length ≤ s.commands.length := by
  have free : s.calling ≠ .none := by
    rw [busy]
    exact nofun
  cases e with
  | start failed => exact absurd enabled free
  | call call failed => exact absurd enabled.1 free
  | finish => exact absurd rfl other
  | shutdown => exact absurd enabled free
  | joined => exact nomatch busy.symm.trans enabled.1
  | connected =>
    simp only [State.step, State.connected]
    split <;> exact ⟨busy, Nat.le_refl _⟩
  | takeConnection =>
    simp only [State.step, State.takeConnection]
    split
    · exact ⟨busy, Nat.le_refl _⟩
    split <;> exact ⟨busy, Nat.le_refl _⟩
  | worker answers =>
    cases there : s.worker with
    | none =>
      simp only [State.step, there]
      exact ⟨busy, Nat.le_refl _⟩
    | some w =>
      have frame := (run_moves s w answers).frame
      simp only [State.step, there]
      refine ⟨frame.calling.trans busy, ?_⟩
      rcases frame.commands with same | empty
      · rw [same]
      · rw [empty]
        exact Nat.zero_le _
  | resolved id answer =>
    simp only [State.step, State.resolved]
    split <;> exact ⟨busy, Nat.le_refl _⟩

theorem call_waits {s : State} {c : Command} (busy : s.calling = .enqueue c) {between : List State.Action}
    (admits : State.system.Admits (fun _ _ => True) s between) (others : ∀ e ∈ between, e ≠ .finish) :
    (between.foldl State.step s).calling = .enqueue c ∧
      (between.foldl State.step s).commands.length ≤ s.commands.length := by
  induction between generalizing s with
  | nil => exact ⟨busy, Nat.le_refl _⟩
  | cons e rest ih =>
    obtain ⟨enabled, _, admits⟩ := admits
    obtain ⟨still, shorter⟩ := call_holds busy enabled (others e List.mem_cons_self)
    obtain ⟨calling, less⟩ := ih still admits fun f member => others f (List.mem_cons_of_mem e member)
    exact ⟨calling, less.trans shorter⟩

/-- A host or a join that finds eight commands in the queue changes nothing,
whatever the worker does during the call. -/
theorem enqueue_refused {s : State} (reach : State.system.Reachable s) {c : Command} (type : c.type ≠ .stop)
    (failed : Option String) {between : List State.Action} {t : State}
    (admits : State.system.Admits (fun _ _ => True) s (.call (.enqueue c) failed :: between))
    (others : ∀ e ∈ between, e ≠ .finish)
    (now : t = (State.Action.call (.enqueue c) failed :: between).foldl State.step s) (full : 8 ≤ t.commands.length) :
    s.step (.call (.enqueue c) failed) = { s with calling := .enqueue c } ∧ t.enqueue c = (false, t) ∧
      t.step .finish = { t with calling := .none } := by
  have later : State.system.Reachable t := now ▸ reach.run admits
  have begun : (s.step (.call (.enqueue c) failed)).calling = .enqueue c := rfl
  obtain ⟨calling, less⟩ := call_waits begun admits.2.2 others
  rw [List.foldl_cons] at now
  rw [← now] at calling less
  have same : (s.step (.call (.enqueue c) failed)).commands = s.commands := by
    simp only [State.step, State.start]
    split
    · rfl
    split <;> rfl
  have present {u : State} (tracked : Tracked u) (queue : 8 ≤ u.commands.length) : u.worker ≠ none := by
    intro none
    rw [tracked.idle none] at queue
    exact absurd queue (by decide)
  have before : s.worker ≠ none := present (reachable_tracked reach) (full.trans (same ▸ less))
  have refused : t.enqueue c = (false, t) := by
    rw [State.enqueue, if_neg (present (reachable_tracked later) full), if_pos ⟨type, full⟩]
  have idle : s.start failed = s := by
    unfold State.start
    exact if_pos (Option.isSome_iff_ne_none.mpr before)
  refine ⟨?_, refused, ?_⟩
  · rw [State.step, idle]
  · simp only [State.step, State.finish, calling, refused]

/-- Whatever the order of the calls, of the steps of the worker and of the
answers of the resolver tasks: as long as the counter of the commands has not
wrapped, a connection that is returned was created for the command accepted
last, and that is a host or a join; no two are returned for one generation; and
after a stop there is none to return. A host or a join that is refused changes
nothing. -/
theorem cancellation_safety {s : State} (reach : State.system.Reachable s) :
    (s.accepted.length < 2 ^ 64 →
      (∀ o, s.takeConnection.1 = some o → ∃ c, s.accepted.getLast? = some c ∧ (c.type = .host ∨ c.type = .join) ∧
        o.generation = c.generation ∧ CreatedFor o c) ∧
      (s.returned.map (·.generation)).Nodup ∧
      (s.stopped = true → s.takeConnection.1 = none)) ∧
    ∀ c failed between t, c.type ≠ .stop →
      State.system.Admits (fun _ _ => True) s (.call (.enqueue c) failed :: between) →
      (∀ e ∈ between, e ≠ State.Action.finish) →
      t = (State.Action.call (.enqueue c) failed :: between).foldl State.step s → 8 ≤ t.commands.length →
      s.step (.call (.enqueue c) failed) = { s with calling := .enqueue c } ∧ t.enqueue c = (false, t) ∧
        t.step .finish = { t with calling := .none } := by
  refine ⟨fun few => ?_, fun c failed between t type admits others now full =>
    enqueue_refused reach type failed admits others now full⟩
  have linked := reachable_linked reach
  have numbered := reachable_numbered reach
  have quiet := reachable_quiet reach
  have held (o : Connection) (taken : s.takeConnection.1 = some o) : s.connection = some o := by
    unfold State.takeConnection at taken
    split at taken
    · cases taken
    split at taken
    · cases taken
    · exact ‹s.connection = some _›.trans taken
  have newest (o : Connection) (taken : s.takeConnection.1 = some o) :
      ∃ c, s.accepted.getLast? = some c ∧ (c.type = .host ∨ c.type = .join) ∧ o.generation = c.generation ∧
        CreatedFor o c := by
    obtain ⟨last, c, member, generation, created⟩ := linked.connection o (held o taken)
    refine ⟨c, numbered.newest few member (generation.symm.trans last), ?_, generation, created⟩
    cases type : c.type with
    | stop =>
      rw [CreatedFor, type] at created
      exact created.elim
    | host => exact .inl rfl
    | join => exact .inr rfl
  have once : (s.returned.map (·.generation)).Nodup := by
    have sorted := (reachable_ascending reach few).sorted.sublist (List.sublist_append_left _ _)
    exact sorted.imp UInt64.ne_of_lt
  have stopped (stop : s.stopped = true) : s.takeConnection.1 = none := by
    cases taken : s.takeConnection.1 with
    | none => rfl
    | some o =>
      have waiting := held o taken
      rcases quiet.stopped stop with absent | zero | ⟨c, last, type⟩
      · cases (quiet.absent absent).symm.trans waiting
      · cases (quiet.unaccepted zero).1.symm.trans waiting
      · obtain ⟨d, newest, kind, _⟩ := newest o taken
        cases Option.some.inj (last.symm.trans newest)
        rcases kind with host | join
        · cases type.symm.trans host
        · cases type.symm.trans join
  exact ⟨newest, once, stopped⟩

/-! A room is hosted, and left before the connection is taken; and nine joins
follow one another before the worker begins. -/

def sampleOffer : List State.Action := sampleHosting.take 8

def sampleStop : List State.Action := sampleOffer ++ [State.Action.call (.enqueue { type := .stop }) none, .finish]

def sampleJoin : Command := { type := .join, address := "192.168.0.3" }

def sampleJoins : List State.Action :=
  (List.replicate 8 [State.Action.call (.enqueue sampleJoin) none, .finish]).flatten

def sampleConnection : Connection := ⟨"127.0.0.1:12000", "", 1, 1⟩

/-- The ninth join, before it gets the mutex. -/
def sampleRefusal : State := (sampleJoins.foldl State.step {}).step (.call (.enqueue sampleJoin) none)

theorem sampleOffer_safe :
    (∃ c, (sampleOffer.foldl State.step {}).accepted.getLast? = some c ∧ CreatedFor sampleConnection c) ∧
      (sampleStop.foldl State.step {}).takeConnection.1 = none ∧
      sampleRefusal.enqueue sampleJoin = (false, sampleRefusal) := by
  have reach (events : List State.Action) (admits : State.system.Admits (fun _ _ => True) {} events) :
      State.system.Reachable (events.foldl State.step {}) := (System.Reach.start rfl).run admits
  have taken : (sampleOffer.foldl State.step {}).takeConnection.1 = some sampleConnection := by decide +kernel
  have stopped : (sampleStop.foldl State.step {}).stopped = true := by decide +kernel
  have full : 8 ≤ sampleRefusal.commands.length := by decide +kernel
  have begins : State.system.Admits (fun _ _ => True) (sampleJoins.foldl State.step {})
      [State.Action.call (.enqueue sampleJoin) none] := by
    decide +kernel
  obtain ⟨offered, _⟩ := (cancellation_safety (reach sampleOffer (by decide +kernel))).1 (by decide +kernel)
  obtain ⟨_, _, nothing⟩ := (cancellation_safety (reach sampleStop (by decide +kernel))).1 (by decide +kernel)
  obtain ⟨_, refused⟩ := cancellation_safety (reach sampleJoins (by decide +kernel))
  obtain ⟨c, last, _, _, created⟩ := offered sampleConnection taken
  exact ⟨⟨c, last, created⟩, nothing stopped,
    (refused sampleJoin none [] sampleRefusal (by decide) begins (fun _ => nofun) rfl full).2.1⟩

/-- A call of `stop` while the worker runs. -/
theorem stop_step {s : State} (reach : State.system.Reachable s) (free : s.calling = .none) {w : Worker}
    (there : s.worker = some w) :
    ∃ t, State.system.Reachable t ∧ t.calling = .none ∧ t.worker = some w ∧ t.generation = s.generation + 1 ∧
      t.stopped = true ∧ ∃ c, t.accepted.getLast? = some c ∧ c.type = .stop := by
  let stop : Command := { type := .stop }
  have started : s.step (.call (.enqueue stop) none) = { s with calling := .enqueue stop } := by
    simp only [State.step, State.start, there, Option.isSome_some, if_true]
  have called : State.system.enabled s (.call (.enqueue stop) none) := by
    refine ⟨free, ?_, ?_⟩ <;> (intro other; cases other)
  have first : State.system.Reachable { s with calling := .enqueue stop } := by
    rw [← started]
    exact reach.next _ called trivial
  have finished : State.system.enabled { s with calling := .enqueue stop } .finish := by
    refine ⟨?_, ?_⟩ <;> (intro other; cases other)
  have second := first.next .finish finished trivial
  refine ⟨_, second, ?_⟩
  simp [State.system, State.step, State.finish, State.enqueue, there, stop]

theorem stop_steps {s : State} (reach : State.system.Reachable s) (free : s.calling = .none) {w : Worker}
    (there : s.worker = some w) (n : Nat) :
    ∃ t, State.system.Reachable t ∧ t.calling = .none ∧ t.worker = some w ∧
      t.generation = s.generation + UInt64.ofNat (n + 1) ∧ t.stopped = true ∧
      ∃ c, t.accepted.getLast? = some c ∧ c.type = .stop := by
  induction n with
  | zero => exact stop_step reach free there
  | succ n ih =>
    obtain ⟨t, reached, idle, same, generation, _⟩ := ih
    obtain ⟨u, reached, idle, same, next, stopped⟩ := stop_step reached idle same
    refine ⟨u, reached, idle, same, ?_, stopped⟩
    rw [next, generation, UInt64.add_assoc, Counter.succ]

/-- The worker has created the first room, and is about to offer the connection. -/
def sampleOffering : State := (sampleHosting.take 7).foldl State.step {}

/-- When 2^64 stops have followed, the first command has the number of the last
one again, and its connection is returned after the stop. -/
theorem stop_wraps : ∃ s, State.system.Reachable s ∧ s.stopped = true ∧
    (∃ c, s.accepted.getLast? = some c ∧ c.type = .stop) ∧ s.takeConnection.1 = some sampleConnection := by
  have reach : State.system.Reachable sampleOffering := by
    have admits : State.system.Admits (fun _ _ => True) {} (sampleHosting.take 7) := by decide +kernel
    exact (System.Reach.start rfl).run admits
  have busy : sampleOffering.worker.any fun w =>
      decide (w.place = .offer sampleConnection [] ∧ w.operation = 1) := by decide +kernel
  obtain ⟨w, there, holds⟩ := (Option.any_eq_true _ _).mp busy
  obtain ⟨place, operation⟩ := of_decide_eq_true holds
  obtain ⟨t, reached, idle, same, generation, stopped, last⟩ :=
    stop_steps reach (by decide +kernel) there (2 ^ 64 - 1)
  have wrapped : t.generation = 1 := by
    have first : sampleOffering.generation = 1 := by decide +kernel
    rw [generation, first, show 2 ^ 64 - 1 + 1 = 0 + 2 ^ 64 from rfl, Counter.period]
    rfl
  have offered : t.step (.worker {}) = t.offer w sampleConnection (.commands []) := by
    simp only [State.step, same, State.run, place]
  have runs : State.system.enabled t (.worker {}) := Option.isSome_iff_exists.mpr ⟨w, same⟩
  have next : State.system.Reachable (t.offer w sampleConnection (.commands [])) := by
    rw [← offered]
    exact reached.next _ runs trivial
  refine ⟨_, next, stopped, last, ?_⟩
  simp only [State.offer, State.takeConnection, operation, wrapped, if_true]
  rfl

end FzeroVs.Session
