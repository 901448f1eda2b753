import FzeroVs.Bridge.Conversation

namespace FzeroVs.Bridge.Threads
variable {parse : Bytes → Option Document}

/-- What a step of the server thread has to do with the requests. -/
inductive Asks (x y : Threads) : Prop
  | queued (line : Bytes) : x.server.request = none → y.toExchange = x.toExchange.enqueue line →
      y.server = .waiting x.made → Asks x y
  | slept (r : Nat) : x.server = .waiting r → x.active = true → (x.heap r).completed = false →
      y.toExchange = x.toExchange → y.server = .asleep r false → Asks x y
  | woke (r : Nat) (notified : Bool) : x.server = .asleep r notified → y.toExchange = x.toExchange →
      y.server = .waiting r → Asks x y
  | answered (r : Nat) : x.server = .waiting r → (x.heap r).completed = true ∨ x.active = false →
      y.toExchange = x.toExchange → y.server = .sending true → Asks x y
  | other : x.server.request = none → y.toExchange = x.toExchange → y.server.request = none → Asks x y

theorem asks_nextLine {x : Threads} (cutting : x.server = .cutting) : Asks x x.nextLine := by
  have none_ : x.server.request = none := by rw [cutting]; rfl
  unfold nextLine
  cases x.input.idxOf? 10 with
  | none => exact .other none_ rfl rfl
  | some newline =>
    dsimp only
    cases handleLine (x.input.take newline) with
    | requestTooLarge => exact .other none_ rfl rfl
    | enqueue line => exact .queued line none_ rfl rfl

theorem asks_wait {x : Threads} {r : Nat} (waiting : x.server = .waiting r) : Asks x (x.wait r) := by
  unfold wait
  by_cases completed : (x.heap r).completed = true
  · rw [if_pos completed]
    exact .answered r waiting (.inl completed) rfl rfl
  · rw [if_neg completed]
    by_cases active : x.active = true
    · rw [active]
      exact .slept r waiting active (Bool.eq_false_of_not_eq_true completed) rfl rfl
    · rw [Bool.eq_false_of_not_eq_true active]
      exact .answered r waiting (.inr (Bool.eq_false_of_not_eq_true active)) rfl rfl

theorem asks_serverStep (x : Threads) {o : Outcome} (enabled : x.serverEnabled o) : Asks x (x.serverStep o) := by
  unfold serverStep
  cases place : x.server with
  | cutting => exact asks_nextLine place
  | waiting r => exact asks_wait place
  | asleep r notified => exact .woke r notified place rfl rfl
  | checking => cases active : x.active <;> exact .other (by rw [place]; rfl) rfl rfl
  | opening => cases listening : x.listening <;> exact .other (by rw [place]; rfl) rfl rfl
  | accepting => cases o <;> exact .other (by rw [place]; rfl) rfl rfl
  | looping => cases active : x.active <;> exact .other (by rw [place]; rfl) rfl rfl
  | receiving =>
    cases o with
    | data buffer =>
      dsimp only
      unfold received
      dsimp only
      split
      · exact .other (by rw [place]; rfl) rfl rfl
      · exact .other (by rw [place]; rfl) rfl rfl
    | done | connected | interrupted | failed => exact .other (by rw [place]; rfl) rfl rfl
  | sending more => cases more <;> cases o <;> exact .other (by rw [place]; rfl) rfl rfl
  | accepted | closing | leaving => exact .other (by rw [place]; rfl) rfl rfl
  | ended => cases o <;> simp [serverEnabled, place] at enabled

/-- While the bridge is active one request is under way at most, and the server
thread waits for it. A request on which it sleeps is completed by someone, and
whoever completes it notifies the thread. -/
structure Awaited (x : Threads) : Prop where
  alone : x.active = true → ∀ r < x.made, (x.heap r).completed = false → x.server.request = some r
  woken : ∀ r, x.server = .asleep r false → (x.heap r).completed = true → x.worker = .notifying r
  early : ∀ r notified, x.server = .asleep r notified → r ∈ x.queue →
    x.main ∈ [.running, .disconnecting, .unlistening, .failing]

theorem Heard.request {x y : Threads} (heard : Heard x y) : y.server.request = x.server.request := by
  rcases heard.server with same | ⟨r, notified, before, after⟩
  · rw [same]
  · rw [before, after]
    rfl

namespace Awaited
variable {x : Threads}

theorem serverStep (awaited : x.Awaited) (sound : x.toExchange.Sound parse) {o : Outcome}
    (enabled : x.serverEnabled o) : (x.serverStep o).Awaited := by
  cases x.asks_serverStep enabled with
  | queued line idle exchange place =>
    constructor
    case alone =>
      intro active r below unanswered
      rw [exchange] at active below unanswered
      rw [place]
      rcases Nat.lt_succ_iff_lt_or_eq.mp below with before | rfl
      · simp only [Exchange.enqueue] at unanswered
        rw [Function.update_of_ne (Nat.ne_of_lt before)] at unanswered
        have asked := awaited.alone active r before unanswered
        rw [idle] at asked
        cases asked
      · rfl
    case woken => intro r asleep; rw [place] at asleep; cases asleep
    case early => intro r notified asleep; rw [place] at asleep; cases asleep
  | slept r waiting active unanswered exchange place =>
    constructor
    case alone =>
      rw [exchange, place]
      intro active other below uncompleted
      have asked := awaited.alone active other below uncompleted
      rw [waiting] at asked
      exact asked
    case woken =>
      intro other asleep completed
      rw [place] at asleep
      cases asleep
      rw [exchange, unanswered] at completed
      cases completed
    case early =>
      intro other notified _ _
      rw [exchange, sound.stopping.mp active]
      exact List.mem_cons_self
  | woke r notified asleep exchange place =>
    constructor
    case alone =>
      rw [exchange, place]
      intro active other below uncompleted
      have asked := awaited.alone active other below uncompleted
      rw [asleep] at asked
      exact asked
    case woken => intro other asleep; rw [place] at asleep; cases asleep
    case early => intro other notified asleep; rw [place] at asleep; cases asleep
  | answered r waiting answer exchange place =>
    constructor
    case alone =>
      rw [exchange]
      intro active other below uncompleted
      have asked := awaited.alone active other below uncompleted
      rw [waiting] at asked
      cases asked
      rw [active, uncompleted] at answer
      rcases answer with completed | inactive
      · cases completed
      · cases inactive
    case woken => intro other asleep; rw [place] at asleep; cases asleep
    case early => intro other notified asleep; rw [place] at asleep; cases asleep
  | other idle exchange quiet =>
    constructor
    case alone =>
      rw [exchange, quiet, ← idle]
      exact awaited.alone
    case woken => intro other asleep; rw [asleep] at quiet; cases quiet
    case early => intro other notified asleep; rw [asleep] at quiet; cases quiet

theorem completed_step (x : Exchange) {e : Exchange.Event} (other : ∀ line, e ≠ .enqueue line) (r : Nat)
    (unanswered : ((x.step parse e).heap r).completed = false) : (x.heap r).completed = false := by
  cases e with
  | enqueue line => exact absurd rfl (other line)
  | worker =>
    rw [Exchange.step, Exchange.workerStep] at unanswered
    cases place : x.worker with
    | popping =>
      rw [place] at unanswered
      cases queue : x.queue with
      | nil => rw [queue] at unanswered; exact unanswered
      | cons first rest => rw [queue] at unanswered; exact unanswered
    | completing done response =>
      rw [place] at unanswered
      exact (Exchange.Sound.not_completed unanswered).2
    | idle | dispatching _ | notifying _ =>
      rw [place] at unanswered
      exact unanswered
  | main =>
    rw [Exchange.step, Exchange.mainStep] at unanswered
    cases place : x.main with
    | completing requests =>
      rw [place] at unanswered
      cases requests with
      | nil => exact unanswered
      | cons done rest => exact (Exchange.Sound.not_completed unanswered).2
    | running | disconnecting | unlistening | failing | joining | stopped =>
      rw [place] at unanswered
      exact unanswered
  | boundary | emulator _ => exact unanswered

/-- The other threads leave the server thread alone with its request. -/
theorem alone_step (awaited : x.Awaited) (parse : Bytes → Option Document) (e : Event) (other : Exchange.Event)
    (heard : Heard x (x.step parse e)) (outside : ∀ line, other ≠ .enqueue line)
    (same : (x.step parse e).toExchange = x.toExchange.step parse other)
    (active : (x.step parse e).active = true) {r : Nat} (below : r < (x.step parse e).made)
    (unanswered : ((x.step parse e).heap r).completed = false) : (x.step parse e).server.request = some r := by
  rw [same] at active below unanswered
  have was : x.active = true := by
    by_contra inactive
    rw [(x.toExchange.later_step parse other).stopping (Bool.eq_false_of_not_eq_true inactive)] at active
    cases active
  rw [made_step x.toExchange outside] at below
  rw [heard.request]
  exact awaited.alone was r below (completed_step x.toExchange outside r unanswered)

theorem notify_asleep {x : Threads} {r other : Nat} (asleep : (x.notify r).server = .asleep other false) :
    x.server = .asleep other false ∧ other ≠ r := by
  unfold notify at asleep
  split at asleep
  · next sleeper notified place =>
    split at asleep
    · cases asleep
    · next different =>
      rw [place] at asleep
      cases asleep
      exact ⟨place, different⟩
  · next quiet => exact absurd asleep (quiet other false)

theorem asleep_before {y : Threads} (heard : Heard x y) {r : Nat} {notified : Bool}
    (asleep : y.server = .asleep r notified) :
    ∃ before, x.server = .asleep r before := by
  rcases heard.server with same | ⟨sleeper, before, was, is⟩
  · exact ⟨notified, same ▸ asleep⟩
  · rw [is] at asleep
    cases asleep
    exact ⟨before, was⟩

theorem queue_workerStep (x : Exchange) {r : Nat} (queued : r ∈ (x.workerStep parse).queue) : r ∈ x.queue := by
  unfold Exchange.workerStep at queued
  cases place : x.worker with
  | popping =>
    rw [place] at queued
    cases queue : x.queue with
    | nil => rw [queue] at queued; cases queued
    | cons first rest => rw [queue] at queued; exact List.mem_cons_of_mem _ queued
  | idle | dispatching _ | completing _ _ | notifying _ =>
    rw [place] at queued
    exact queued

theorem main_workerStep (x : Exchange) (parse : Bytes → Option Document) : (x.workerStep parse).main = x.main := by
  unfold Exchange.workerStep
  cases x.worker with
  | popping => cases x.queue <;> rfl
  | idle | dispatching _ | completing _ _ | notifying _ => rfl

theorem completed_other {x : Exchange} {r done : Nat} {response : Bytes} (different : r ≠ done)
    (completed : ((x.complete done response).heap r).completed = true) : (x.heap r).completed = true := by
  simp only [Exchange.complete] at completed
  rwa [Function.update_of_ne different] at completed

theorem workerStep (awaited : x.Awaited) (busy : x.worker ≠ .idle) : (x.workerStep parse).Awaited := by
  have exchange := x.workerStep_exchange parse
  have heard := x.heard_workerStep parse
  constructor
  case alone =>
    intro active r below unanswered
    exact awaited.alone_step parse .worker .worker heard (by simp) exchange active below unanswered
  case woken =>
    intro r asleep completed
    rw [exchange] at completed ⊢
    unfold Threads.workerStep at asleep
    unfold Exchange.workerStep at completed ⊢
    cases place : x.worker with
    | idle => exact absurd place busy
    | popping =>
      rw [place] at asleep completed
      have heap : (x.heap r).completed = true := by
        cases queue : x.queue <;> rw [queue] at completed <;> exact completed
      have notifying := awaited.woken r asleep heap
      rw [place] at notifying
      cases notifying
    | dispatching other =>
      rw [place] at asleep completed
      have notifying := awaited.woken r asleep completed
      rw [place] at notifying
      cases notifying
    | completing other response =>
      rw [place] at asleep completed
      by_cases different : r = other
      · rw [different]
      · have notifying := awaited.woken r asleep (completed_other different completed)
        rw [place] at notifying
        cases notifying
    | notifying other =>
      rw [place] at asleep completed
      obtain ⟨before, different⟩ := notify_asleep asleep
      have notifying := awaited.woken r before completed
      rw [place] at notifying
      cases notifying
      exact absurd rfl different
  case early =>
    intro r notified asleep queued
    obtain ⟨before, was⟩ := asleep_before heard asleep
    rw [exchange] at queued ⊢
    rw [main_workerStep]
    exact awaited.early r before was (queue_workerStep x.toExchange queued)

theorem mainStep (awaited : x.Awaited) : x.mainStep.Awaited := by
  have exchange := x.mainStep_exchange
  have heard := x.heard_mainStep
  constructor
  case alone =>
    intro active r below unanswered
    exact awaited.alone_step (fun _ => none) .main .main heard (by simp) exchange active below unanswered
  case woken =>
    intro r asleep completed
    rw [exchange] at completed ⊢
    unfold Threads.mainStep at asleep
    unfold Exchange.mainStep at completed ⊢
    cases place : x.main with
    | completing requests =>
      rw [place] at asleep completed
      cases requests with
      | nil => exact awaited.woken r asleep completed
      | cons other rest =>
        obtain ⟨before, different⟩ := notify_asleep asleep
        exact awaited.woken r before (completed_other different completed)
    | running | disconnecting | unlistening | failing | joining | stopped =>
      rw [place] at asleep completed
      exact awaited.woken r asleep completed
  case early =>
    intro r notified asleep queued
    obtain ⟨before, was⟩ := asleep_before heard asleep
    rw [exchange] at queued ⊢
    unfold Exchange.mainStep at queued ⊢
    cases place : x.main with
    | running | disconnecting | unlistening => simp
    | failing =>
      rw [place] at queued
      cases queued
    | completing requests =>
      have early := awaited.early r before was
      rw [place] at queued early
      cases requests with
      | nil => exact absurd (early queued) (by simp)
      | cons other rest => exact absurd (early queued) (by simp)
    | joining | stopped =>
      have early := awaited.early r before was
      rw [place] at queued early
      exact absurd (early queued) (by simp)

theorem step (awaited : x.Awaited) (sound : x.toExchange.Sound parse) {e : Event} (enabled : x.enabled e) :
    (x.step parse e).Awaited := by
  cases e with
  | server o => exact awaited.serverStep sound enabled
  | worker => exact awaited.workerStep enabled
  | main => exact awaited.mainStep
  | boundary =>
    have idle : x.worker = .idle := enabled
    exact {
      alone := awaited.alone
      woken := fun r asleep completed => by
        have notifying := awaited.woken r asleep completed
        rw [idle] at notifying
        cases notifying
      early := awaited.early }
  | emulator event => exact ⟨awaited.alone, awaited.woken, awaited.early⟩

end Awaited

theorem awaited_of_reachable {x : Threads} (reach : (system parse).Reachable x) : x.Awaited := by
  refine reach.invariant (P := fun t : Threads => t.Awaited) (fun _ start => ?_)
    fun x e reach enabled _ awaited => awaited.step (serving_of_reachable reach).1 enabled
  obtain ⟨machine, rfl⟩ := start
  constructor
  case alone => exact fun _ r below => absurd below (Nat.not_lt_zero r)
  case woken => intro r asleep; cases asleep
  case early => intro r notified asleep; cases asleep

/-- What is still queued has not been answered. -/
theorem queued_unanswered {x : Exchange} (sound : x.Sound parse) {r : Nat} (queued : r ∈ x.queue) :
    (x.heap r).completed = false := by
  have scheduled : r ∈ x.schedule := List.mem_append_right _ queued
  by_contra completed
  rcases sound.answered r (sound.scheduled scheduled) (Bool.eq_true_of_not_eq_false completed) with given | refused
  · obtain ⟨k, act, _⟩ := given
    have served : r ∈ x.served ++ x.worker.hand :=
      List.mem_append_left _ (List.mem_filterMap.mpr ⟨_, List.mem_of_getElem? act, rfl⟩)
    exact Nat.lt_irrefl r ((List.pairwise_append.mp sound.ordered).2.2 r served r queued)
  · exact sound.apart r refused.1 scheduled

/-- An active bridge never has two requests in its queue. -/
theorem queue_of_active {x : Threads} (sound : x.toExchange.Sound parse) (awaited : x.Awaited)
    (active : x.active = true) {r : Nat} (queued : r ∈ x.queue) : x.queue = [r] := by
  have only (other : Nat) (member : other ∈ x.queue) : x.server.request = some other :=
    awaited.alone active other (sound.scheduled (List.mem_append_right _ member)) (queued_unanswered sound member)
  have ordered := (List.pairwise_append.mp sound.ordered).2.1
  cases queue : x.queue with
  | nil => rw [queue] at queued; cases queued
  | cons first rest =>
    rw [queue] at only ordered queued
    have head := only first (List.mem_cons_self ..)
    cases rest with
    | nil => rw [List.mem_singleton.mp queued]
    | cons second rest =>
      have next := only second (List.mem_cons_of_mem _ (List.mem_cons_self ..))
      rw [head] at next
      cases next
      exact absurd ((List.pairwise_cons.mp ordered).1 first (List.mem_cons_self ..)) (Nat.lt_irrefl _)

/-- No wake-up is lost. Where the server thread sleeps it has been notified, or
the worker has its request, or `failPending` has it, or it is queued: then
`pending` calls the worker, or `stop` has not reached `failPending` yet. -/
theorem no_lost_wakeup {x : Threads} (reach : (system parse).Reachable x) {r : Nat} {notified : Bool}
    (asleep : x.server = .asleep r notified) :
    notified = true ∨ x.worker = .dispatching r ∨ (∃ response, x.worker = .completing r response) ∨
      x.worker = .notifying r ∨ (∃ requests, x.main = .completing requests ∧ r ∈ requests) ∨
      r ∈ x.queue ∧ (x.active = true ∧ x.pending ≠ 0 ∨ x.main ∈ [.disconnecting, .unlistening, .failing]) := by
  obtain ⟨sound, serving⟩ := serving_of_reachable reach
  have awaited := awaited_of_reachable reach
  have below : r < x.made := by
    have newest := (serving.newest r (by rw [asleep]; rfl)).1
    omega
  cases notified with
  | true => exact .inl rfl
  | false =>
    cases completed : (x.heap r).completed with
    | true => exact .inr (.inr (.inr (.inl (awaited.woken r asleep completed))))
    | false =>
      rcases sound.unanswered r below completed with queued | atWorker | atWorker | atMain
      · have early := awaited.early r false asleep queued
        refine .inr (.inr (.inr (.inr (.inr ⟨queued, ?_⟩))))
        rcases List.mem_cons.mp early with running | stopping
        · have active := sound.stopping.mpr running
          refine .inl ⟨active, ?_⟩
          rw [sound.pending, queue_of_active sound awaited active queued, List.length_singleton]
          decide
        · exact .inr stopping
      · exact .inr (.inl atWorker)
      · exact .inr (.inr (.inl atWorker))
      · exact .inr (.inr (.inr (.inr (.inl atMain))))

end FzeroVs.Bridge.Threads
