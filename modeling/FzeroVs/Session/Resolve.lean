import FzeroVs.Session.Address

namespace FzeroVs.Session

/-- How far a call of `resolve` is. From its count of a task on it holds one, until
the task has it or it is taken back. -/
inductive Progress
  | called
  | starting (host port : String)
  | releasing (error : String)
  | returned
  | thrown (what : Thrown)
  deriving DecidableEq, Repr

def Progress.holds : Progress → Bool
  | .starting .. | .releasing _ => true
  | .called | .returned | .thrown _ => false

def Progress.starts : Progress → Bool
  | .starting .. => true
  | .called | .releasing _ | .returned | .thrown _ => false

structure Request where
  address : String
  resolution : Resolution
  progress : Progress := .called
  deriving DecidableEq, Repr

def Request.complete (r : Request) (error : String) : Request :=
  { r with progress := .returned, resolution := { r.resolution with done := true, error := error } }

def Request.answer (r : Request) (port : String) (found : Except String String) : Request :=
  let resolution :=
    match found with
    | .ok ip => { r.resolution with done := true, address := ip ++ ":" ++ port }
    | .error what => { r.resolution with done := true, error := "Cannot resolve server: " ++ what }
  { r with resolution }

/-- `resolvers`, the calls of `resolve`, and the tasks until they count down. -/
structure Pool where
  counter : Nat := 0
  requests : List Request := []
  tasks : List Resolver := []
  deriving DecidableEq, Repr

namespace Pool

def put (p : Pool) (i : Nat) (r : Request) : Pool := { p with requests := p.requests.set i r }

def on (p : Pool) (i : Nat) (f : Request → Pool) : Pool :=
  match p.requests[i]? with
  | some r => f r
  | none => p

def call (p : Pool) (address : String) : Pool :=
  { p with requests := p.requests ++ [{ address, resolution := { id := p.requests.length } }] }

/-- A call reads its address, and counts a task. -/
def enter (p : Pool) (i : Nat) : Pool :=
  p.on i fun r =>
    match r.progress with
    | .called =>
      match parseThrowing r.address with
      | .error what => p.put i { r with progress := .thrown what }
      | .ok (.refused error) => p.put i (r.complete error)
      | .ok (.lookup host port) =>
        let progress :=
          if 4 ≤ p.counter then .releasing "Previous DNS requests are still finishing; retry shortly"
          else .starting host port
        { p with counter := p.counter + 1 }.put i { r with progress }
    | _ => p

/-- The thread is started, or its constructor throws. -/
def start (p : Pool) (i : Nat) (failed : Option String) : Pool :=
  p.on i fun r =>
    match r.progress with
    | .starting host port =>
      match failed with
      | none => { p with tasks := p.tasks ++ [Resolver.mk i host port] }.put i { r with progress := .returned }
      | some what => p.put i { r with progress := .releasing ("Cannot start DNS resolver: " ++ what) }
    | _ => p

/-- A call without a task counts down, and returns. -/
def release (p : Pool) (i : Nat) : Pool :=
  p.on i fun r =>
    match r.progress with
    | .releasing error => { p with counter := p.counter - 1 }.put i (r.complete error)
    | _ => p

/-- A task writes its result. -/
def finish (p : Pool) (k : Nat) (found : Except String String) : Pool :=
  match p.tasks[k]? with
  | some t => p.on t.id fun r => p.put t.id (r.answer t.port found)
  | none => p

/-- A task counts down, which is the last it does. -/
def exit (p : Pool) (k : Nat) : Pool := { p with counter := p.counter - 1, tasks := p.tasks.eraseIdx k }

inductive Event
  | call (address : String)
  | enter (i : Nat)
  | start (i : Nat) (failed : Option String)
  | release (i : Nat)
  | finish (k : Nat) (found : Except String String)
  | exit (k : Nat)

def step (p : Pool) : Event → Pool
  | .call address => p.call address
  | .enter i => p.enter i
  | .start i failed => p.start i failed
  | .release i => p.release i
  | .finish k found => p.finish k found
  | .exit k => p.exit k

/-- Calls from any threads, and their tasks, in any order. -/
def system : System Pool Event where
  init p := p = {}
  enabled p
    | .exit k => k < p.tasks.length
    | _ => True
  step := step

instance system.decidable (p : Pool) : (e : Event) → Decidable (system.enabled p e)
  | .exit k => inferInstanceAs (Decidable (k < p.tasks.length))
  | .call _ | .enter _ | .start .. | .release _ | .finish .. => inferInstanceAs (Decidable True)

/-- How many calls have counted a task that is not there. -/
def held (p : Pool) : Nat := p.requests.countP fun r => r.progress.holds

def startable (p : Pool) : Nat := p.requests.countP fun r => r.progress.starts

/-- The invariant of the pool. -/
structure Sound (p : Pool) : Prop where
  counted : p.counter = p.tasks.length + p.held
  bounded : p.tasks.length + p.startable ≤ 4
  caught : ∀ r ∈ p.requests, ∀ what, r.progress ≠ .thrown what
  granted : ∀ r ∈ p.requests, ∀ host port, r.progress = .starting host port →
    Accepted r.address.toList host.toList port.toList
  asked : ∀ t ∈ p.tasks, ∃ r, p.requests[t.id]? = some r ∧ Accepted r.address.toList t.host.toList t.port.toList

theorem countP_put {p : Pool} {i : Nat} {r next : Request} {f : Request → Bool} (there : p.requests[i]? = some r) :
    (p.put i next).requests.countP f + (f r).toNat = p.requests.countP f + (f next).toNat := by
  obtain ⟨within, rfl⟩ := List.getElem?_eq_some_iff.mp there
  have counted : f p.requests[i] = true → 0 < p.requests.countP f := fun own =>
    List.countP_pos_iff.mpr ⟨_, List.getElem_mem within, own⟩
  show (p.requests.set i next).countP f + _ = _
  rw [List.countP_set within]
  cases own : f p.requests[i] with
  | true =>
    have some := counted own
    cases f next with
    | true =>
      rw [if_pos rfl, Nat.sub_add_cancel some]
    | false =>
      rw [if_pos rfl, if_neg Bool.false_ne_true, Nat.add_zero]
      exact Nat.sub_add_cancel some
  | false =>
    cases f next with
    | true => rfl
    | false => rfl

theorem startable_le_held (p : Pool) : p.startable ≤ p.held := by
  apply List.countP_mono_left
  intro r _ starts
  cases here : r.progress with
  | starting host port => rfl
  | called | releasing error | returned | thrown what =>
    rw [here] at starts
    exact nomatch starts

namespace Sound
variable {p : Pool} {i : Nat} {r q : Request}

/-- A call goes on, and what it does to the counter and the tasks it accounts for. -/
theorem move (sound : Sound p) (there : p.requests[i]? = some r) (address : q.address = r.address)
    {counter : Nat} {tasks : List Resolver}
    (counted : counter + p.tasks.length + r.progress.holds.toNat =
      p.counter + tasks.length + q.progress.holds.toNat)
    (bounded : tasks.length + p.startable + q.progress.starts.toNat ≤ 4 + r.progress.starts.toNat)
    (caught : ∀ what, q.progress ≠ .thrown what)
    (granted : ∀ host port, q.progress = .starting host port →
      Accepted r.address.toList host.toList port.toList)
    (asked : ∀ t ∈ tasks, t ∈ p.tasks ∨ t.id = i ∧ Accepted r.address.toList t.host.toList t.port.toList) :
    Sound ({ p with counter := counter, tasks := tasks }.put i q) := by
  have held := @countP_put p i r q (fun r => r.progress.holds) there
  have startable := @countP_put p i r q (fun r => r.progress.starts) there
  obtain ⟨within, _⟩ := List.getElem?_eq_some_iff.mp there
  constructor
  · show counter = tasks.length + (p.put i q).held
    have before := sound.counted
    unfold Pool.held at before ⊢
    omega
  · show tasks.length + (p.put i q).startable ≤ 4
    unfold Pool.startable at bounded ⊢
    omega
  · intro other member
    rcases List.mem_or_eq_of_mem_set member with old | rfl
    · exact sound.caught other old
    · exact caught
  · intro other member host port starting
    rcases List.mem_or_eq_of_mem_set member with old | rfl
    · exact sound.granted other old host port starting
    · rw [address]
      exact granted host port starting
  · intro t member
    have known : ∃ x, p.requests[t.id]? = some x ∧ Accepted x.address.toList t.host.toList t.port.toList := by
      rcases asked t member with old | ⟨own, accepted⟩
      · exact sound.asked t old
      · exact ⟨r, own ▸ there, accepted⟩
    obtain ⟨x, before, accepted⟩ := known
    show ∃ x, (p.requests.set i q)[t.id]? = some x ∧ _
    by_cases own : t.id = i
    · have same : r = x := Option.some.inj (there.symm.trans (own ▸ before))
      rw [own]
      refine ⟨q, List.getElem?_set_self within, ?_⟩
      rw [address, same]
      exact accepted
    · rw [List.getElem?_set_ne (Ne.symm own)]
      exact ⟨x, before, accepted⟩

theorem call (sound : Sound p) (address : String) : Sound (p.call address) where
  counted := by
    show p.counter = p.tasks.length + (p.requests ++ _).countP _
    rw [List.countP_append, sound.counted]
    rfl
  bounded := by
    show p.tasks.length + (p.requests ++ _).countP _ ≤ 4
    rw [List.countP_append]
    exact sound.bounded
  caught := by
    intro r member
    rcases List.mem_append.mp member with old | new
    · exact sound.caught r old
    · rw [List.mem_singleton] at new
      rw [new]
      exact nofun
  granted := by
    intro r member host port starting
    rcases List.mem_append.mp member with old | new
    · exact sound.granted r old host port starting
    · rw [List.mem_singleton] at new
      rw [new] at starting
      exact nomatch starting
  asked := by
    intro t member
    obtain ⟨r, there, accepted⟩ := sound.asked t member
    obtain ⟨within, _⟩ := List.getElem?_eq_some_iff.mp there
    exact ⟨r, (List.getElem?_append_left within).trans there, accepted⟩

theorem exit (sound : Sound p) {k : Nat} (within : k < p.tasks.length) : Sound (p.exit k) where
  counted := by
    show p.counter - 1 = (p.tasks.eraseIdx k).length + p.held
    have before := sound.counted
    rw [List.length_eraseIdx_of_lt within]
    omega
  bounded := by
    show (p.tasks.eraseIdx k).length + p.startable ≤ 4
    have before := sound.bounded
    rw [List.length_eraseIdx_of_lt within]
    omega
  caught := sound.caught
  granted := sound.granted
  asked := fun t member => sound.asked t (List.mem_of_mem_eraseIdx member)

theorem on (sound : Sound p) {f : Request → Pool} (each : ∀ r, p.requests[i]? = some r → Sound (f r)) :
    Sound (p.on i f) := by
  unfold Pool.on
  cases there : p.requests[i]? with
  | none => exact sound
  | some r => exact each r there

theorem enter (sound : Sound p) (i : Nat) : Sound (p.enter i) := by
  refine sound.on fun r there => ?_
  have counted := sound.counted
  have bounded := sound.bounded
  have fewer := p.startable_le_held
  cases called : r.progress with
  | starting | releasing | returned | thrown => exact sound
  | called =>
    dsimp only
    rw [parseThrowing_eq]
    cases parsed : parseAddress r.address with
    | refused error =>
      refine sound.move (q := r.complete error) there rfl ?_ ?_ nofun nofun fun t member => .inl member
      · rw [called]
        rfl
      · rw [called]
        exact bounded
    | lookup host port =>
      have accepted := parseAddress_lookup.mp parsed
      dsimp only
      by_cases full : 4 ≤ p.counter
      · rw [if_pos full]
        refine sound.move (q := { r with progress := .releasing _ }) there rfl ?_ ?_ nofun nofun
          fun t member => .inl member
        · rw [called]
          show p.counter + 1 + p.tasks.length + 0 = p.counter + p.tasks.length + 1
          omega
        · rw [called]
          exact bounded
      · rw [if_neg full]
        refine sound.move (q := { r with progress := .starting host port }) there rfl ?_ ?_ nofun ?_
          fun t member => .inl member
        · rw [called]
          show p.counter + 1 + p.tasks.length + 0 = p.counter + p.tasks.length + 1
          omega
        · rw [called]
          show p.tasks.length + p.startable + 1 ≤ 4 + 0
          omega
        · intro otherHost otherPort same
          obtain ⟨rfl, rfl⟩ := Progress.starting.inj same
          exact accepted

theorem start (sound : Sound p) (i : Nat) (failed : Option String) : Sound (p.start i failed) := by
  refine sound.on fun r there => ?_
  have bounded := sound.bounded
  cases starting : r.progress with
  | called | releasing | returned | thrown => exact sound
  | starting host port =>
    have accepted := sound.granted r (List.mem_of_getElem? there) host port starting
    cases failed with
    | none =>
      refine sound.move (q := { r with progress := .returned }) there rfl ?_ ?_ nofun nofun fun t member => ?_
      · rw [starting, List.length_append]
        show p.counter + p.tasks.length + 1 = p.counter + (p.tasks.length + 1) + 0
        omega
      · rw [starting, List.length_append]
        show p.tasks.length + 1 + p.startable + 0 ≤ 4 + 1
        omega
      · rcases List.mem_append.mp member with old | new
        · exact .inl old
        · rw [List.mem_singleton] at new
          rw [new]
          exact .inr ⟨rfl, accepted⟩
    | some what =>
      refine sound.move (q := { r with progress := .releasing _ }) there rfl ?_ ?_ nofun nofun
        fun t member => .inl member
      · rw [starting]
        rfl
      · exact Nat.le_trans bounded (Nat.le_add_right ..)

theorem release (sound : Sound p) (i : Nat) : Sound (p.release i) := by
  refine sound.on fun r there => ?_
  have counted := sound.counted
  cases releasing : r.progress with
  | called | starting | returned | thrown => exact sound
  | releasing error =>
    have positive : 0 < p.held :=
      List.countP_pos_iff.mpr ⟨r, List.mem_of_getElem? there, by rw [releasing]; rfl⟩
    refine sound.move (q := r.complete error) there rfl ?_ ?_ nofun nofun fun t member => .inl member
    · rw [releasing]
      show p.counter - 1 + p.tasks.length + 1 = p.counter + p.tasks.length + 0
      omega
    · exact Nat.le_trans sound.bounded (Nat.le_add_right ..)

theorem finish (sound : Sound p) (k : Nat) (found : Except String String) : Sound (p.finish k found) := by
  unfold Pool.finish
  cases p.tasks[k]? with
  | none => exact sound
  | some t =>
    refine sound.on fun r there => ?_
    have granted := sound.granted r (List.mem_of_getElem? there)
    have caught := sound.caught r (List.mem_of_getElem? there)
    exact sound.move (q := r.answer t.port found) there rfl rfl (Nat.add_le_add_right sound.bounded _) caught granted
      fun t member => .inl member

theorem step (sound : Sound p) {e : Event} (enabled : system.enabled p e) : Sound (p.step e) := by
  cases e with
  | call address => exact sound.call address
  | enter i => exact sound.enter i
  | start i failed => exact sound.start i failed
  | release i => exact sound.release i
  | finish k found => exact sound.finish k found
  | exit k => exact sound.exit enabled

theorem of_reachable (reach : system.Reachable p) : Sound p := by
  apply reach.invariant
  · rintro _ rfl
    exact ⟨rfl, by decide, nofun, nofun, nofun⟩
  · intro p e _ enabled _ sound
    exact sound.step enabled

/-- The counter of the source is an `unsigned`: it cannot come near its end unless
about as many calls are in progress. -/
theorem counter_le (sound : Sound p) : p.counter ≤ p.held + 4 := by
  have counted := sound.counted
  have bounded := sound.bounded
  omega

end Sound

section Entry
variable {p : Pool} {i : Nat} {r : Request}

theorem enter_called (there : p.requests[i]? = some r) (called : r.progress = .called) :
    p.enter i =
      match parseAddress r.address with
      | .refused error => p.put i (r.complete error)
      | .lookup host port =>
        { p with counter := p.counter + 1 }.put i
          { r with
            progress :=
              if 4 ≤ p.counter then .releasing "Previous DNS requests are still finishing; retry shortly"
              else .starting host port } := by
  simp only [enter, on, there, called, parseThrowing_eq]
  cases parseAddress r.address with
  | refused error => rfl
  | lookup host port => rfl

/-- With a task to spare, an address in the grammar is counted. -/
theorem enter_accepted {host port : String} (there : p.requests[i]? = some r) (called : r.progress = .called)
    (spare : p.counter < 4) (accepted : Accepted r.address.toList host.toList port.toList) :
    p.enter i = { p with counter := p.counter + 1 }.put i { r with progress := .starting host port } := by
  rw [enter_called there called, parseAddress_lookup.mpr accepted]
  dsimp only
  rw [if_neg (Nat.not_le.mpr spare)]

theorem enter_refused (there : p.requests[i]? = some r) (called : r.progress = .called)
    (refused : ¬ ∃ host port : String, Accepted r.address.toList host.toList port.toList) :
    ∃ error, error ≠ "" ∧ p.enter i = p.put i (r.complete error) := by
  cases parsed : parseAddress r.address with
  | lookup host port => exact absurd ⟨host, port, parseAddress_lookup.mp parsed⟩ refused
  | refused error =>
    refine ⟨error, refused_reason parsed, ?_⟩
    rw [enter_called there called, parsed]

theorem start_starting {host port : String} (there : p.requests[i]? = some r)
    (starting : r.progress = .starting host port) :
    p.start i none =
      { p with tasks := p.tasks ++ [Resolver.mk i host port] }.put i { r with progress := .returned } := by
  simp only [start, on, there, starting]

end Entry

/-- A call that nothing comes between. -/
def resolve (p : Pool) (address : String) (failed : Option String) : Pool :=
  (((p.call address).enter p.requests.length).start p.requests.length failed).release p.requests.length

theorem on_last (counter : Nat) (requests : List Request) (r : Request) (tasks : List Resolver) (f : Request → Pool) :
    on { counter, requests := requests ++ [r], tasks } requests.length f = f r := by
  simp only [on, List.getElem?_concat_length]

theorem put_last (counter : Nat) (requests : List Request) (r q : Request) (tasks : List Resolver) :
    put { counter, requests := requests ++ [r], tasks } requests.length q =
      { counter, requests := requests ++ [q], tasks } := by
  simp only [put, List.set_append_right _ _ (Nat.le_refl _), Nat.sub_self, List.set_cons_zero]

section Last
variable (counter : Nat) (requests : List Request) (r : Request) (tasks : List Resolver)

theorem enter_last (called : r.progress = .called) :
    enter ⟨counter, requests ++ [r], tasks⟩ requests.length =
      match parseAddress r.address with
      | .refused error => ⟨counter, requests ++ [r.complete error], tasks⟩
      | .lookup host port =>
        if 4 ≤ counter then
          ⟨counter + 1, requests ++ [{ r with
            progress := .releasing "Previous DNS requests are still finishing; retry shortly" }], tasks⟩
        else ⟨counter + 1, requests ++ [{ r with progress := .starting host port }], tasks⟩ := by
  rw [enter_called List.getElem?_concat_length called]
  cases parseAddress r.address with
  | refused error => exact put_last ..
  | lookup host port =>
    dsimp only
    split <;> exact put_last ..

theorem start_last (failed : Option String) :
    start ⟨counter, requests ++ [r], tasks⟩ requests.length failed =
      match r.progress with
      | .starting host port =>
        match failed with
        | none =>
          ⟨counter, requests ++ [{ r with progress := .returned }], tasks ++ [⟨requests.length, host, port⟩]⟩
        | some what =>
          ⟨counter, requests ++ [{ r with progress := .releasing ("Cannot start DNS resolver: " ++ what) }], tasks⟩
      | _ => ⟨counter, requests ++ [r], tasks⟩ := by
  rw [start, on_last]
  cases r.progress with
  | starting host port =>
    cases failed with
    | none => exact put_last ..
    | some what => exact put_last ..
  | called | releasing | returned | thrown => rfl

theorem release_last :
    release ⟨counter, requests ++ [r], tasks⟩ requests.length =
      match r.progress with
      | .releasing error => ⟨counter - 1, requests ++ [r.complete error], tasks⟩
      | _ => ⟨counter, requests ++ [r], tasks⟩ := by
  rw [release, on_last]
  cases r.progress with
  | releasing error => exact put_last ..
  | called | starting | returned | thrown => rfl

end Last

/-- The tasks and the result are those of the session's `resolve`. -/
theorem resolve_refines {p : Pool} {s : State} (tasks : p.tasks = s.resolvers) (counter : p.counter = p.tasks.length)
    (next : p.requests.length = s.nextResolution) (address : String) (answers : Answers) :
    p.resolve address answers.resolverStarted =
      { counter := (s.resolve address answers).1.resolvers.length
        requests := p.requests ++ [⟨address, (s.resolve address answers).2, .returned⟩]
        tasks := (s.resolve address answers).1.resolvers } := by
  have entered := enter_last p.counter p.requests { address, resolution := { id := p.requests.length } } p.tasks rfl
  rw [resolve, call, entered]
  unfold State.resolve
  dsimp only
  cases parseAddress address with
  | refused error =>
    simp only [start_last, release_last, Request.complete, counter, tasks, ← next]
  | lookup host port =>
    rw [counter, tasks]
    by_cases full : 4 ≤ s.resolvers.length
    · simp only [full, if_true, start_last, release_last, Request.complete, ← next, Nat.add_sub_cancel]
    · cases answers.resolverStarted with
      | none =>
        simp only [full, if_false, start_last, release_last, ← next, List.length_append, List.length_singleton]
      | some what =>
        simp only [full, if_false, start_last, release_last, Request.complete, ← next, Nat.add_sub_cancel]

theorem put_injective {p : Pool} {i : Nat} {r x y : Request} (there : p.requests[i]? = some r)
    (same : p.requests.set i x = p.requests.set i y) : x = y := by
  obtain ⟨within, _⟩ := List.getElem?_eq_some_iff.mp there
  have both := congrArg (fun l => l[i]?) same
  simpa only [List.getElem?_set_self within, Option.some.injEq] using both

/-- Four tasks at most are alive, each for an address in the grammar; the counter is
their number when no call holds a count, and never more than four above the calls
that hold one; and nothing is ever thrown. A call that
counts while fewer than four tasks are alive or about to be starts one for its host
and port exactly if its address is in the grammar, and else returns with an error. -/
theorem resolve_exact :
    (∀ p, system.Reachable p →
      p.tasks.length ≤ 4 ∧ p.counter ≤ p.held + 4 ∧
        ((∀ r ∈ p.requests, r.progress.holds = false) → p.counter = p.tasks.length) ∧
        (∀ r ∈ p.requests, ∀ what, r.progress ≠ .thrown what) ∧
        ∀ t ∈ p.tasks, ∃ r, p.requests[t.id]? = some r ∧ Accepted r.address.toList t.host.toList t.port.toList) ∧
      (∀ p i r, system.Reachable p → p.requests[i]? = some r → r.progress = .called → p.tasks.length + p.held < 4 →
        (∀ host port : String, p.enter i = { p with counter := p.counter + 1 }.put i
          { r with progress := .starting host port } ↔ Accepted r.address.toList host.toList port.toList) ∧
          ((¬ ∃ host port : String, Accepted r.address.toList host.toList port.toList) →
            ∃ error, error ≠ "" ∧ p.enter i = p.put i (r.complete error))) ∧
      ∀ (p : Pool) i r host port, p.requests[i]? = some r → r.progress = .starting host port →
        p.start i none =
          { p with tasks := p.tasks ++ [Resolver.mk i host port] }.put i { r with progress := .returned } := by
  refine ⟨?_, ?_, fun p i r host port there starting => start_starting there starting⟩
  · intro p reach
    have sound := Sound.of_reachable reach
    refine ⟨Nat.le_trans (Nat.le_add_right ..) sound.bounded, sound.counter_le, fun idle => ?_, sound.caught,
      sound.asked⟩
    have none : p.held = 0 := List.countP_eq_zero.mpr fun r member => by rw [idle r member]; exact nofun
    rw [sound.counted, none, Nat.add_zero]
  · intro p i r reach there called spare
    have sound := Sound.of_reachable reach
    rw [← sound.counted] at spare
    refine ⟨fun host port => ⟨fun counted => ?_, enter_accepted there called spare⟩, enter_refused there called⟩
    by_cases accepted : ∃ host port : String, Accepted r.address.toList host.toList port.toList
    · obtain ⟨otherHost, otherPort, accepted⟩ := accepted
      rw [enter_accepted there called spare accepted] at counted
      have same := put_injective there (congrArg Pool.requests counted)
      obtain ⟨rfl, rfl⟩ := Progress.starting.inj (congrArg Request.progress same)
      exact accepted
    · obtain ⟨error, _, refused⟩ := enter_refused there called accepted
      rw [refused] at counted
      have same := put_injective there (congrArg Pool.requests counted)
      exact nomatch congrArg Request.progress same

/-- A call for an address with blanks around it and no port. -/
def samplePool : Pool := call {} "\thost "

theorem samplePool_starts :
    samplePool.tasks.length ≤ 4 ∧ samplePool.counter = samplePool.tasks.length ∧
      samplePool.enter 0 =
        { samplePool with counter := 1 }.put 0
          { address := "\thost ", resolution := { id := 0 }, progress := .starting "host" "12000" } := by
  have reach : system.Reachable samplePool := (System.Reach.start rfl).next (Event.call "\thost ") trivial trivial
  have accepted : Accepted "\thost ".toList "host".toList "12000".toList :=
    parseAddress_lookup.mp (by decide +kernel)
  obtain ⟨bounded, entries, _⟩ := resolve_exact
  obtain ⟨most, _, counted, _⟩ := bounded samplePool reach
  refine ⟨most, counted (by decide), ?_⟩
  exact ((entries samplePool 0 { address := "\thost ", resolution := { id := 0 } } reach rfl rfl (by decide)).1 "host"
    "12000").mpr accepted

end Pool

end FzeroVs.Session
