import FzeroVs.Bridge.Threads

namespace FzeroVs.Bridge

/-- What a bridge becomes by what happens to it. -/
def replay (initial : State) (ran : List Act) : State := (ran.map Act.event).foldl State.step initial

theorem replay_append (initial : State) (ran : List Act) (act : Act) :
    replay initial (ran ++ [act]) = (replay initial ran).step act.event := by
  simp only [replay, List.map_append, List.map_cons, List.map_nil, List.foldl_append, List.foldl_cons, List.foldl_nil]

/-- The request that the worker has taken and not dispatched yet. -/
def WorkerPlace.hand : WorkerPlace → List Nat
  | .dispatching r => [r]
  | _ => []

namespace Exchange
variable (parse : Bytes → Option Document)

/-- The requests that were dispatched, in this order. -/
def served (x : Exchange) : List Nat := x.ran.filterMap Act.request

/-- The requests in the order in which they are dispatched, the queued ones last. -/
def schedule (x : Exchange) : List Nat := x.served ++ x.worker.hand ++ x.queue

/-- The bridge when its act of this number began. -/
def before (x : Exchange) (k : Nat) : State := replay x.initial (x.ran.take k)

/-- The answer that `dispatch` gave when it was the turn of this request. -/
def Dispatched (x : Exchange) (r : Nat) (response : Bytes) : Prop :=
  ∃ k, x.ran[k]? = some ⟨some r, .request (document parse (x.heap r).line)⟩ ∧
    response = ((x.before k).dispatch (document parse (x.heap r).line)).1.encode

/-- What no thread ever takes back. -/
structure Later (x y : Exchange) : Prop where
  initial : y.initial = x.initial
  ran : x.ran <+: y.ran
  made : x.made ≤ y.made
  lines : ∀ r < x.made, (y.heap r).line = (x.heap r).line
  stopping : x.active = false → y.active = false

theorem Later.refl (x : Exchange) : Later x x :=
  ⟨rfl, List.prefix_refl _, Nat.le_refl _, fun _ _ => rfl, id⟩

theorem complete_line (x : Exchange) (r other : Nat) (response : Bytes) :
    ((x.complete r response).heap other).line = (x.heap other).line := by
  simp only [complete]
  by_cases same : other = r
  · rw [same, Function.update_self]
  · rw [Function.update_of_ne same]

theorem later_workerStep (x : Exchange) : Later x (x.workerStep parse) := by
  unfold workerStep
  cases x.worker with
  | idle => exact .refl x
  | popping =>
    cases x.queue with
    | nil => exact ⟨rfl, List.prefix_refl _, Nat.le_refl _, fun _ _ => rfl, id⟩
    | cons r rest => exact ⟨rfl, List.prefix_refl _, Nat.le_refl _, fun _ _ => rfl, id⟩
  | dispatching r => exact ⟨rfl, List.prefix_append _ _, Nat.le_refl _, fun _ _ => rfl, id⟩
  | completing r response =>
    exact ⟨rfl, List.prefix_refl _, Nat.le_refl _, fun other _ => x.complete_line r other response, id⟩
  | notifying r => exact ⟨rfl, List.prefix_refl _, Nat.le_refl _, fun _ _ => rfl, id⟩

theorem later_mainStep (x : Exchange) : Later x x.mainStep := by
  unfold mainStep
  cases x.main with
  | running => exact ⟨rfl, List.prefix_refl _, Nat.le_refl _, fun _ _ => rfl, fun _ => rfl⟩
  | completing requests =>
    cases requests with
    | nil => exact ⟨rfl, List.prefix_refl _, Nat.le_refl _, fun _ _ => rfl, id⟩
    | cons r rest =>
      exact ⟨rfl, List.prefix_refl _, Nat.le_refl _, fun other _ => x.complete_line r other _, id⟩
  | disconnecting | unlistening | failing | joining =>
    exact ⟨rfl, List.prefix_refl _, Nat.le_refl _, fun _ _ => rfl, id⟩
  | stopped => exact .refl x

theorem later_enqueue (x : Exchange) (line : Bytes) : Later x (x.enqueue line) where
  initial := rfl
  ran := List.prefix_refl _
  made := Nat.le_succ _
  lines r below := by
    simp only [enqueue]
    rw [Function.update_of_ne (Nat.ne_of_lt below)]
  stopping := id

theorem later_step (x : Exchange) (e : Event) : Later x (x.step parse e) := by
  cases e with
  | enqueue line => exact x.later_enqueue line
  | boundary => exact ⟨rfl, List.prefix_refl _, Nat.le_refl _, fun _ _ => rfl, id⟩
  | worker => exact x.later_workerStep parse
  | emulator event => exact ⟨rfl, List.prefix_append _ _, Nat.le_refl _, fun _ _ => rfl, id⟩
  | main => exact x.later_mainStep

variable {parse}

theorem Dispatched.later {x y : Exchange} {r : Nat} {response : Bytes} (answered : x.Dispatched parse r response)
    (later : Later x y) (known : r < x.made) : y.Dispatched parse r response := by
  obtain ⟨k, act, rfl⟩ := answered
  obtain ⟨more, ran⟩ := later.ran
  have within : k < x.ran.length := (List.getElem?_eq_some_iff.mp act).1
  refine ⟨k, ?_, ?_⟩
  · rw [later.lines r known, ← ran, List.getElem?_append_left within]
    exact act
  · rw [later.lines r known, before, before, later.initial, ← ran, List.take_append_of_le_length (Nat.le_of_lt within)]

/-- A request is dispatched at most once and in the order of the queue, unless
`failPending` took it; and whoever has to answer it is known. -/
structure Sound (parse : Bytes → Option Document) (x : Exchange) : Prop where
  pending : x.pending = UInt32.ofNat x.queue.length
  ordered : x.schedule.Pairwise (· < ·)
  apart : ∀ r ∈ x.refused, r ∉ x.schedule
  known : ∀ r, r < x.made ↔ r ∈ x.schedule ∨ r ∈ x.refused
  replayed : x.bridge = replay x.initial x.ran
  answered : ∀ r < x.made, (x.heap r).completed = true →
    x.Dispatched parse r (x.heap r).response ∨ r ∈ x.refused ∧ (x.heap r).response = Answered.serverStopping.response
  promised : ∀ r response, x.worker = .completing r response → r ∈ x.schedule ∧ x.Dispatched parse r response
  taken : ∀ requests, x.main = .completing requests → ∀ r ∈ requests, r ∈ x.refused
  unanswered : ∀ r < x.made, (x.heap r).completed = false →
    r ∈ x.queue ∨ x.worker = .dispatching r ∨ (∃ response, x.worker = .completing r response) ∨
      ∃ requests, x.main = .completing requests ∧ r ∈ requests
  stopping : x.active = true ↔ x.main = .running
  refusing : x.active = true → x.refused = []

theorem sound_initial (machine : Machine) :
    Sound parse { bridge := { machine := machine }, initial := { machine := machine } } where
  pending := rfl
  ordered := List.Pairwise.nil
  apart := List.forall_mem_nil _
  known r := by simp [schedule, served, WorkerPlace.hand]
  replayed := rfl
  answered r below := absurd below (Nat.not_lt_zero r)
  promised r response completing := by cases completing
  taken requests completing := by cases completing
  unanswered r below := absurd below (Nat.not_lt_zero r)
  stopping := by simp
  refusing _ := rfl

namespace Sound
variable {x : Exchange}

theorem scheduled (sound : x.Sound parse) {r : Nat} (member : r ∈ x.schedule) : r < x.made :=
  (sound.known r).mpr (.inl member)

/-- A new request is the last in the queue. -/
theorem enqueue (sound : x.Sound parse) (line : Bytes) : (x.enqueue line).Sound parse := by
  have schedule : (x.enqueue line).schedule = x.schedule ++ [x.made] := by
    simp only [Exchange.enqueue, Exchange.schedule, Exchange.served, List.append_assoc]
  have other {r : Nat} (below : r < x.made) : (x.enqueue line).heap r = x.heap r := by
    simp only [Exchange.enqueue]
    rw [Function.update_of_ne (Nat.ne_of_lt below)]
  have fresh : ((x.enqueue line).heap x.made).completed = false := by
    simp only [Exchange.enqueue]
    rw [Function.update_self]
  constructor
  case pending =>
    simp only [Exchange.enqueue, List.length_append, List.length_singleton, UInt32.ofNat_add, sound.pending]
    rfl
  case ordered =>
    rw [schedule, List.pairwise_append]
    refine ⟨sound.ordered, List.pairwise_singleton _ _, fun r member last isLast => ?_⟩
    rw [List.mem_singleton.mp isLast]
    exact sound.scheduled member
  case apart =>
    intro r refused member
    rw [schedule, List.mem_append, List.mem_singleton] at member
    rcases member with member | rfl
    · exact sound.apart r refused member
    · exact absurd ((sound.known _).mpr (.inr refused)) (Nat.lt_irrefl _)
  case known =>
    intro r
    have before := sound.known r
    rw [schedule, List.mem_append, List.mem_singleton]
    simp only [Exchange.enqueue, Nat.lt_succ_iff_lt_or_eq]
    tauto
  case replayed => exact sound.replayed
  case answered =>
    intro r below completed
    rcases Nat.lt_succ_iff_lt_or_eq.mp below with below | rfl
    · rw [other below] at completed ⊢
      exact (sound.answered r below completed).imp_left fun given => given.later (x.later_enqueue line) below
    · rw [fresh] at completed
      exact absurd completed Bool.false_ne_true
  case promised =>
    intro r response completing
    obtain ⟨member, given⟩ := sound.promised r response completing
    exact ⟨schedule ▸ List.mem_append_left _ member, given.later (x.later_enqueue line) (sound.scheduled member)⟩
  case taken => exact sound.taken
  case unanswered =>
    intro r below completed
    rcases Nat.lt_succ_iff_lt_or_eq.mp below with below | rfl
    · rw [other below] at completed
      exact (sound.unanswered r below completed).imp_left (List.mem_append_left _)
    · exact .inl (List.mem_append_right _ (List.mem_singleton_self _))
  case stopping => exact sound.stopping
  case refusing => exact sound.refusing

/-- What the worker does not have is in the queue, or `failPending` has it. -/
theorem elsewhere (sound : x.Sound parse) {r : Nat} (below : r < x.made) (unanswered : (x.heap r).completed = false)
    (taken : x.worker ≠ .dispatching r) (dispatched : ∀ response, x.worker ≠ .completing r response) :
    r ∈ x.queue ∨ ∃ requests, x.main = .completing requests ∧ r ∈ requests := by
  rcases sound.unanswered r below unanswered with member | atWorker | ⟨response, atWorker⟩ | atMain
  · exact .inl member
  · exact absurd atWorker taken
  · exact absurd atWorker (dispatched response)
  · exact .inr atMain

/-- The worker takes the first request of the queue. -/
theorem pop (sound : x.Sound parse) (popping : x.worker = .popping) {r : Nat} {rest : List Nat}
    (queued : x.queue = r :: rest) :
    Sound parse { x with queue := rest, pending := x.pending - 1, worker := .dispatching r } := by
  have schedule :
      schedule { x with queue := rest, pending := x.pending - 1, worker := .dispatching r } = x.schedule := by
    simp only [Exchange.schedule, served, popping, queued, WorkerPlace.hand, List.append_nil, List.append_assoc,
      List.singleton_append]
  constructor
  case pending =>
    simp only [sound.pending, queued, List.length_cons, UInt32.ofNat_add]
    exact UInt32.add_sub_cancel _ _
  case ordered => exact schedule ▸ sound.ordered
  case apart => exact schedule ▸ sound.apart
  case known => exact schedule ▸ sound.known
  case replayed => exact sound.replayed
  case answered => exact sound.answered
  case promised => intro other response completing; cases completing
  case taken => exact sound.taken
  case unanswered =>
    intro other below completed
    have place := sound.elsewhere below completed (by simp [popping]) (by simp [popping])
    rw [queued, List.mem_cons] at place
    rcases place with (rfl | member) | atMain
    · exact .inr (.inl rfl)
    · exact .inl member
    · exact .inr (.inr (.inr atMain))
  case stopping => exact sound.stopping
  case refusing => exact sound.refusing

/-- It is dispatched, as the last act of the bridge so far. -/
theorem dispatch (sound : x.Sound parse) {r : Nat} (dispatching : x.worker = .dispatching r) :
    (x.workerStep parse).Sound parse := by
  have step : x.workerStep parse = { x with
      bridge := (x.bridge.dispatch (document parse (x.heap r).line)).2
      worker := .completing r (x.bridge.dispatch (document parse (x.heap r).line)).1.encode
      ran := x.ran ++ [⟨some r, .request (document parse (x.heap r).line)⟩] } := by
    rw [workerStep, dispatching]
  have schedule : (x.workerStep parse).schedule = x.schedule := by
    rw [step]
    simp only [Exchange.schedule, served, dispatching, WorkerPlace.hand, List.append_nil, List.filterMap_append,
      List.filterMap_cons, List.filterMap_nil]
  have later := x.later_workerStep parse
  have given : (x.workerStep parse).Dispatched parse r
      (x.bridge.dispatch (document parse (x.heap r).line)).1.encode := by
    rw [step]
    refine ⟨x.ran.length, List.getElem?_concat_length .., ?_⟩
    simp only [before, List.take_left, sound.replayed]
  have atHand : r ∈ x.schedule := by
    simp only [Exchange.schedule, dispatching, WorkerPlace.hand]
    exact List.mem_append_left _ (List.mem_append_right _ (List.mem_singleton_self r))
  constructor
  case pending => rw [step]; exact sound.pending
  case ordered => rw [schedule]; exact sound.ordered
  case apart => rw [schedule, step]; exact sound.apart
  case known => rw [schedule, step]; exact sound.known
  case replayed =>
    rw [step]
    simp only [replay_append, ← sound.replayed]
    rfl
  case answered =>
    intro other below completed
    rw [step] at below completed
    have kept : (x.workerStep parse).heap other = x.heap other := by rw [step]
    rw [kept]
    exact (sound.answered other below completed).imp (fun given => given.later later below)
      (And.imp_left fun refused => by rw [step]; exact refused)
  case promised =>
    intro other response completing
    rw [step] at completing
    cases completing
    exact ⟨schedule ▸ atHand, given⟩
  case taken => rw [step]; exact sound.taken
  case unanswered =>
    intro other below completed
    rw [step] at below completed ⊢
    rcases sound.unanswered other below completed with member | atWorker | ⟨response, atWorker⟩ | atMain
    · exact .inl member
    · rw [dispatching] at atWorker
      cases atWorker
      exact .inr (.inr (.inl ⟨_, rfl⟩))
    · rw [dispatching] at atWorker
      cases atWorker
    · exact .inr (.inr (.inr atMain))
  case stopping => rw [step]; exact sound.stopping
  case refusing => rw [step]; exact sound.refusing

/-- A request gets an answer that it may get. -/
theorem complete (sound : x.Sound parse) {r : Nat} {response : Bytes}
    (allowed : r ∈ x.schedule ∧ x.Dispatched parse r response ∨
      r ∈ x.refused ∧ response = Answered.serverStopping.response) :
    ∀ other < x.made, ((x.complete r response).heap other).completed = true →
      (x.complete r response).Dispatched parse other ((x.complete r response).heap other).response ∨
        other ∈ x.refused ∧ ((x.complete r response).heap other).response = Answered.serverStopping.response := by
  intro other below completed
  have later : Later x (x.complete r response) :=
    ⟨rfl, List.prefix_refl _, Nat.le_refl _, fun r' _ => x.complete_line r r' response, id⟩
  by_cases same : other = r
  · subst same
    have given : ((x.complete other response).heap other).response = response := by
      simp only [Exchange.complete]
      rw [Function.update_self]
    rw [given]
    exact allowed.imp (fun dispatched => dispatched.2.later later below) id
  · have kept : (x.complete r response).heap other = x.heap other := by
      simp only [Exchange.complete]
      rw [Function.update_of_ne same]
    rw [kept] at completed ⊢
    exact (sound.answered other below completed).imp_left fun given => given.later later below

theorem not_completed {r other : Nat} {response : Bytes}
    (unanswered : ((x.complete r response).heap other).completed = false) :
    other ≠ r ∧ (x.heap other).completed = false := by
  simp only [Exchange.complete] at unanswered
  by_cases same : other = r
  · rw [same, Function.update_self] at unanswered
    exact absurd unanswered.symm Bool.false_ne_true
  · rw [Function.update_of_ne same] at unanswered
    exact ⟨same, unanswered⟩

theorem workerStep (sound : x.Sound parse) : (x.workerStep parse).Sound parse := by
  cases place : x.worker with
  | idle =>
    have step : x.workerStep parse = x := by rw [Exchange.workerStep, place]
    rw [step]
    exact sound
  | popping =>
    cases queued : x.queue with
    | nil =>
      have step : x.workerStep parse = { x with worker := .idle } := by rw [Exchange.workerStep, place, queued]
      have schedule : schedule { x with worker := .idle } = x.schedule := by
        simp only [Exchange.schedule, served, place, WorkerPlace.hand]
      rw [step]
      exact { sound with
        ordered := schedule ▸ sound.ordered
        apart := schedule ▸ sound.apart
        known := schedule ▸ sound.known
        promised := fun r response completing => by cases completing
        unanswered := fun r below completed =>
          (sound.elsewhere below completed (by simp [place]) (by simp [place])).imp_right (.inr ∘ .inr) }
    | cons r rest =>
      have step : x.workerStep parse =
          { x with queue := rest, pending := x.pending - 1, worker := .dispatching r } := by
        rw [Exchange.workerStep, place, queued]
      rw [step]
      exact sound.pop place queued
  | dispatching r => exact sound.dispatch place
  | completing r response =>
    have step : x.workerStep parse = { x.complete r response with worker := .notifying r } := by
      rw [Exchange.workerStep, place]
    have schedule : schedule { x.complete r response with worker := .notifying r } = x.schedule := by
      simp only [Exchange.schedule, served, place, WorkerPlace.hand, Exchange.complete]
    rw [step]
    exact { sound with
      ordered := schedule ▸ sound.ordered
      apart := schedule ▸ sound.apart
      known := schedule ▸ sound.known
      answered := sound.complete (.inl (sound.promised r response place))
      promised := fun r' response' completing => by cases completing
      unanswered := fun other below completed => by
        obtain ⟨different, unanswered⟩ := not_completed completed
        refine (sound.elsewhere below unanswered (by simp [place]) fun response' atWorker => ?_).imp_right
          (.inr ∘ .inr)
        rw [place] at atWorker
        cases atWorker
        exact different rfl }
  | notifying r =>
    have step : x.workerStep parse = { x with worker := .popping } := by rw [Exchange.workerStep, place]
    have schedule : schedule { x with worker := .popping } = x.schedule := by
      simp only [Exchange.schedule, served, place, WorkerPlace.hand]
    rw [step]
    exact { sound with
      ordered := schedule ▸ sound.ordered
      apart := schedule ▸ sound.apart
      known := schedule ▸ sound.known
      promised := fun r response completing => by cases completing
      unanswered := fun other below completed =>
        (sound.elsewhere below completed (by simp [place]) (by simp [place])).imp_right (.inr ∘ .inr) }

/-- `failPending` takes what is queued. -/
theorem fail (sound : x.Sound parse) (failing : x.main = .failing) :
    Sound parse { x with main := .completing x.queue, queue := [], pending := 0, refused := x.refused ++ x.queue } := by
  have whole : x.schedule = x.served ++ x.worker.hand ++ x.queue := rfl
  have schedule : schedule { x with
      main := .completing x.queue, queue := [], pending := 0, refused := x.refused ++ x.queue } =
        x.served ++ x.worker.hand := by
    simp only [Exchange.schedule, served, List.append_nil]
  have inactive : ¬ x.active = true := by
    rw [sound.stopping, failing]
    intro running
    cases running
  have ordered := sound.ordered
  rw [whole, List.pairwise_append] at ordered
  constructor
  case pending => rfl
  case ordered => exact schedule ▸ ordered.1
  case apart =>
    intro r refused member
    rw [schedule] at member
    rcases List.mem_append.mp refused with refused | queued
    · exact sound.apart r refused (List.mem_append_left _ member)
    · exact Nat.lt_irrefl r (ordered.2.2 r member r queued)
  case known =>
    intro r
    have before := sound.known r
    rw [whole, List.mem_append] at before
    rw [schedule, List.mem_append (s := x.refused)]
    simp only
    tauto
  case replayed => exact sound.replayed
  case answered =>
    exact fun r below completed => (sound.answered r below completed).imp_right (And.imp_left (List.mem_append_left _))
  case promised =>
    intro r response completing
    obtain ⟨member, given⟩ := sound.promised r response completing
    have dispatched : r ∈ x.served ++ x.worker.hand := by
      obtain ⟨k, act, _⟩ := given
      exact List.mem_append_left _ (List.mem_filterMap.mpr ⟨_, List.mem_of_getElem? act, rfl⟩)
    exact ⟨schedule ▸ dispatched, given⟩
  case taken =>
    intro requests completing r member
    cases completing
    exact List.mem_append_right _ member
  case unanswered =>
    intro r below completed
    rcases sound.unanswered r below completed with member | atWorker | atWorker | ⟨requests, atMain, _⟩
    · exact .inr (.inr (.inr ⟨x.queue, rfl, member⟩))
    · exact .inr (.inl atWorker)
    · exact .inr (.inr (.inl atWorker))
    · rw [failing] at atMain
      cases atMain
  case stopping => exact ⟨fun active => absurd active inactive, fun running => by cases running⟩
  case refusing => exact fun active => absurd active inactive

/-- Where `stop` has nothing more to answer it goes on. -/
theorem move (sound : x.Sound parse) {place : MainPlace} (begun : x.main ≠ .running)
    (nothing : ∀ requests, x.main = .completing requests → requests = []) (after : place ≠ .running)
    (done : ∀ requests, place ≠ .completing requests) : Sound parse { x with main := place } :=
  { sound with
    taken := fun requests completing => absurd completing (done requests)
    unanswered := fun r below completed => by
      rcases sound.unanswered r below completed with member | atWorker | atWorker | ⟨requests, atMain, member⟩
      · exact .inl member
      · exact .inr (.inl atWorker)
      · exact .inr (.inr (.inl atWorker))
      · rw [nothing requests atMain] at member
        cases member
    stopping := ⟨fun active => absurd (sound.stopping.mp active) begun, fun running => absurd running after⟩ }

theorem mainStep (sound : x.Sound parse) : x.mainStep.Sound parse := by
  cases place : x.main with
  | running =>
    have step : x.mainStep = { x with active := false, main := .disconnecting } := by rw [Exchange.mainStep, place]
    rw [step]
    exact { sound with
      taken := fun requests completing => by cases completing
      unanswered := fun r below completed => by
        rcases sound.unanswered r below completed with member | atWorker | atWorker | ⟨requests, atMain, _⟩
        · exact .inl member
        · exact .inr (.inl atWorker)
        · exact .inr (.inr (.inl atWorker))
        · rw [place] at atMain
          cases atMain
      stopping := Iff.intro (fun active => by cases active) (fun running => by cases running)
      refusing := fun active => by cases active }
  | disconnecting =>
    have step : x.mainStep = { x with main := .unlistening } := by rw [Exchange.mainStep, place]
    rw [step]
    exact sound.move (by simp [place]) (by simp [place]) (by simp) (by simp)
  | unlistening =>
    have step : x.mainStep = { x with main := .failing } := by rw [Exchange.mainStep, place]
    rw [step]
    exact sound.move (by simp [place]) (by simp [place]) (by simp) (by simp)
  | failing =>
    have step : x.mainStep = { x with
        main := .completing x.queue, queue := [], pending := 0, refused := x.refused ++ x.queue } := by
      rw [Exchange.mainStep, place]
    rw [step]
    exact sound.fail place
  | completing requests =>
    cases requests with
    | nil =>
      have step : x.mainStep = { x with main := .joining } := by rw [Exchange.mainStep, place]
      rw [step]
      exact sound.move (by simp [place]) (by simp [place]) (by simp) (by simp)
    | cons r rest =>
      have step : x.mainStep =
          { x.complete r Answered.serverStopping.response with main := .completing rest } := by
        rw [Exchange.mainStep, place]
      have refused : r ∈ x.refused := sound.taken _ place r (List.mem_cons_self ..)
      have inactive : ¬ x.active = true := by
        rw [sound.stopping, place]
        intro running
        cases running
      rw [step]
      exact { sound with
        answered := sound.complete (.inr ⟨refused, rfl⟩)
        promised := fun r' response completing => by
          obtain ⟨member, given⟩ := sound.promised r' response completing
          have later := x.later_mainStep
          rw [step] at later
          exact ⟨member, given.later later (sound.scheduled member)⟩
        taken := fun requests completing other member => by
          cases completing
          exact sound.taken _ place other (List.mem_cons_of_mem _ member)
        unanswered := fun other below completed => by
          obtain ⟨different, unanswered⟩ := not_completed completed
          rcases sound.unanswered other below unanswered with member | atWorker | atWorker | ⟨requests, atMain, member⟩
          · exact .inl member
          · exact .inr (.inl atWorker)
          · exact .inr (.inr (.inl atWorker))
          · rw [place] at atMain
            cases atMain
            exact .inr (.inr (.inr ⟨rest, rfl, (List.mem_cons.mp member).resolve_left different⟩))
        stopping := Iff.intro (fun active => absurd active inactive) (fun running => by cases running)
        refusing := fun active => absurd active inactive }
  | joining =>
    have step : x.mainStep = { x with main := .stopped } := by rw [Exchange.mainStep, place]
    rw [step]
    exact sound.move (by simp [place]) (by simp [place]) (by simp) (by simp)
  | stopped =>
    have step : x.mainStep = x := by rw [Exchange.mainStep, place]
    rw [step]
    exact sound

/-- The emulator goes on while the worker is outside `processBoundary`. -/
theorem emulator (sound : x.Sound parse) (idle : x.worker = .idle) (event : State.Event) :
    Sound parse { x with bridge := x.bridge.step event, ran := x.ran ++ [⟨none, event⟩] } := by
  have schedule : schedule { x with bridge := x.bridge.step event, ran := x.ran ++ [⟨none, event⟩] } = x.schedule := by
    simp only [Exchange.schedule, served, List.filterMap_append, List.filterMap_cons, List.filterMap_nil,
      List.append_nil]
  have later : Later x { x with bridge := x.bridge.step event, ran := x.ran ++ [⟨none, event⟩] } :=
    ⟨rfl, List.prefix_append _ _, Nat.le_refl _, fun _ _ => rfl, id⟩
  exact { sound with
    ordered := schedule ▸ sound.ordered
    apart := schedule ▸ sound.apart
    known := schedule ▸ sound.known
    replayed := by rw [replay_append, ← sound.replayed]
    answered := fun r below completed =>
      (sound.answered r below completed).imp_left fun given => given.later later below
    promised := fun r response completing => by
      rw [idle] at completing
      cases completing }

theorem boundary (sound : x.Sound parse) (idle : x.worker = .idle) : Sound parse { x with worker := .popping } := by
  have schedule : schedule { x with worker := .popping } = x.schedule := by
    simp only [Exchange.schedule, served, idle, WorkerPlace.hand]
  exact { sound with
    ordered := schedule ▸ sound.ordered
    apart := schedule ▸ sound.apart
    known := schedule ▸ sound.known
    promised := fun r response completing => by cases completing
    unanswered := fun r below completed =>
      (sound.elsewhere below completed (by simp [idle]) (by simp [idle])).imp_right (.inr ∘ .inr) }

theorem step (sound : x.Sound parse) (e : Event) (enabled : x.enabled e) : (x.step parse e).Sound parse := by
  cases e with
  | enqueue line => exact sound.enqueue line
  | boundary => exact sound.boundary enabled
  | worker => exact sound.workerStep
  | emulator event => exact sound.emulator enabled.1 event
  | main => exact sound.mainStep

end Sound

/-- However the threads take turns. -/
theorem sound_of_reachable {x : Exchange} (reach : (system parse).Reachable x) : x.Sound parse :=
  reach.invariant (fun _ start => by
    obtain ⟨machine, rfl⟩ := start
    exact sound_initial machine) (fun _ e _ enabled _ sound => sound.step e enabled)

end Exchange

end FzeroVs.Bridge
