import FzeroVs.Bridge.Waiting
import FzeroVs.Library.Fair

namespace FzeroVs.Bridge

/-- Between `accept` and the end of `clientLoop`. -/
def ServerPlace.connected : ServerPlace → Bool
  | .looping | .receiving | .cutting | .waiting _ | .asleep _ _ | .sending _ | .closing => true
  | _ => false

/-- `clientLoop` found the bridge active before it came here. -/
def ServerPlace.inside : ServerPlace → Bool
  | .receiving | .cutting | .waiting _ | .asleep _ _ | .sending _ => true
  | _ => false

/-- How much the server thread has to do at most before it ends, once the bridge
is no longer active and so many bytes have come in. -/
def ServerPlace.work (length : Nat) : ServerPlace → Nat
  | .ended => 0
  | .leaving => 1
  | .checking => 2
  | .closing => 3
  | .looping => 4
  | .accepted => 5
  | .accepting => 6
  | .opening => 7
  | .cutting => 4 * length + 5
  | .sending _ => 4 * length + 6
  | .waiting _ => 4 * length + 7
  | .asleep _ _ => 4 * length + 8
  | .receiving => 4 * (length + bufferSize) + 7

def WorkerPlace.work : WorkerPlace → Nat
  | .dispatching _ => 3
  | .completing _ _ => 2
  | .notifying _ => 1
  | _ => 0

def MainPlace.work : MainPlace → Nat
  | .running => 7
  | .disconnecting => 6
  | .unlistening => 5
  | .failing => 4
  | .completing requests => requests.length + 2
  | .joining => 1
  | .stopped => 0

namespace Threads
variable {parse : Bytes → Option Document}

/-- The socket of a connection is known to `stop`, unless it has shut it down. -/
structure Plugged (x : Threads) : Prop where
  held : x.server.connected = true → x.clientSocket = !x.shut
  free : x.server.connected = false → x.clientSocket = false
  fresh : x.server = .accepted → x.shut = false
  unplugged : x.main ∉ [.running, .disconnecting] → x.server.inside = true → x.shut = true
  unlistened : x.main ∉ [.running, .disconnecting, .unlistening] → x.listening = false
  joined : x.main = .stopped → x.server = .ended

namespace Plugged
variable {x y : Threads}

/-- Another place in the loops. -/
theorem go (plugged : x.Plugged) (main : y.main = x.main) (listening : y.listening = x.listening)
    (socket : y.clientSocket = x.clientSocket) (shut : y.shut = x.shut)
    (connected : y.server.connected = x.server.connected)
    (entered : y.server.inside = true → x.server.inside = true ∨ x.main = .running)
    (place : y.server ≠ .accepted) (going : x.server ≠ .ended) : y.Plugged where
  held now := by rw [socket, shut]; exact plugged.held (connected ▸ now)
  free now := by rw [socket]; exact plugged.free (connected ▸ now)
  fresh now := absurd now place
  unplugged after inside := by
    rw [main] at after
    rw [shut]
    rcases entered inside with was | running
    · exact plugged.unplugged after was
    · rw [running] at after
      simp at after
  unlistened after := by rw [listening]; exact plugged.unlistened (main ▸ after)
  joined stopped := absurd (plugged.joined (main ▸ stopped)) going

theorem serverStep (plugged : x.Plugged) (sound : x.toExchange.Sound parse) {o : Outcome}
    (enabled : x.serverEnabled o) : (x.serverStep o).Plugged := by
  have outside {y : Threads} (main : y.main = x.main) (listening : y.listening = x.listening)
      (socket : y.clientSocket = x.clientSocket) (shut : y.shut = x.shut)
      (connected : y.server.connected = x.server.connected) (after : y.server.inside = false)
      (place : y.server ≠ .accepted) (going : x.server ≠ .ended) : y.Plugged :=
    plugged.go main listening socket shut connected (fun inside => absurd inside (by simp [after])) place going
  have within {y : Threads} (main : y.main = x.main) (listening : y.listening = x.listening)
      (socket : y.clientSocket = x.clientSocket) (shut : y.shut = x.shut)
      (connected : y.server.connected = x.server.connected) (before : x.server.inside = true)
      (place : y.server ≠ .accepted) (going : x.server ≠ .ended) : y.Plugged :=
    plugged.go main listening socket shut connected (fun _ => .inl before) place going
  unfold Threads.serverStep
  cases place : x.server with
  | checking =>
    cases active : x.active with
    | true => exact outside rfl rfl rfl rfl (by rw [place]; rfl) rfl (by simp) (by simp [place])
    | false => exact outside rfl rfl rfl rfl (by rw [place]; rfl) rfl (by simp) (by simp [place])
  | opening =>
    cases listening : x.listening with
    | true => exact outside rfl listening.symm rfl rfl (by rw [place]; rfl) rfl (by simp) (by simp [place])
    | false => exact outside rfl listening.symm rfl rfl (by rw [place]; rfl) rfl (by simp) (by simp [place])
  | accepting =>
    have free := plugged.free (by rw [place]; rfl)
    cases o with
    | connected =>
      constructor
      case held => intro now; cases now
      case free => exact fun _ => free
      case fresh => exact fun _ => rfl
      case unplugged => intro _ inside; cases inside
      case unlistened => exact plugged.unlistened
      case joined => exact fun stopped => absurd (plugged.joined stopped) (by simp [place])
    | interrupted => exact outside rfl rfl rfl rfl (by rw [place]; rfl) rfl (by simp) (by simp [place])
    | done | data _ | failed => exact outside rfl rfl rfl rfl (by rw [place]; rfl) rfl (by simp) (by simp [place])
  | accepted =>
    have fresh := plugged.fresh place
    constructor
    case held => exact fun _ => by rw [fresh]; rfl
    case free => intro now; cases now
    case fresh => intro now; cases now
    case unplugged => intro _ inside; cases inside
    case unlistened => exact plugged.unlistened
    case joined => exact fun stopped => absurd (plugged.joined stopped) (by simp [place])
  | looping =>
    cases active : x.active with
    | true =>
      exact plugged.go rfl rfl rfl rfl (by rw [place]; rfl) (fun _ => .inr (sound.stopping.mp active)) (by simp)
        (by simp [place])
    | false => exact outside rfl rfl rfl rfl (by rw [place]; rfl) rfl (by simp) (by simp [place])
  | receiving =>
    cases o with
    | data buffer =>
      dsimp only
      unfold received
      dsimp only
      split
      · exact within rfl rfl rfl rfl (by rw [place]; rfl) (by rw [place]; rfl) (by simp [answer]) (by simp [place])
      · exact within rfl rfl rfl rfl (by rw [place]; rfl) (by rw [place]; rfl) (by simp) (by simp [place])
    | done | connected | interrupted | failed =>
      exact outside rfl rfl rfl rfl (by rw [place]; rfl) rfl (by simp) (by simp [place])
  | cutting =>
    dsimp only
    unfold nextLine
    cases x.input.idxOf? 10 with
    | none => exact within rfl rfl rfl rfl (by rw [place]; rfl) (by rw [place]; rfl) (by simp) (by simp [place])
    | some newline =>
      dsimp only
      cases handleLine (x.input.take newline) with
      | requestTooLarge =>
        exact within rfl rfl rfl rfl (by rw [place]; rfl) (by rw [place]; rfl) (by simp [answer]) (by simp [place])
      | enqueue line =>
        exact within rfl rfl rfl rfl (by rw [place]; rfl) (by rw [place]; rfl) (by simp) (by simp [place])
  | waiting r =>
    dsimp only
    unfold wait
    split
    · exact within rfl rfl rfl rfl (by rw [place]; rfl) (by rw [place]; rfl) (by simp [answer]) (by simp [place])
    · split
      · exact within rfl rfl rfl rfl (by rw [place]; rfl) (by rw [place]; rfl) (by simp [answer]) (by simp [place])
      · exact within rfl rfl rfl rfl (by rw [place]; rfl) (by rw [place]; rfl) (by simp) (by simp [place])
  | asleep r notified =>
    exact within rfl rfl rfl rfl (by rw [place]; rfl) (by rw [place]; rfl) (by simp) (by simp [place])
  | sending more =>
    have closing : Plugged { x with server := .closing } :=
      outside rfl rfl rfl rfl (by rw [place]; rfl) rfl (by simp) (by simp [place])
    have cutting : Plugged { x with server := .cutting } :=
      within rfl rfl rfl rfl (by rw [place]; rfl) (by rw [place]; rfl) (by simp) (by simp [place])
    cases more with
    | false => exact closing
    | true =>
      cases o with
      | done => exact cutting
      | connected | data _ | interrupted | failed => exact closing
  | closing =>
    constructor
    case held => intro now; cases now
    case free => exact fun _ => rfl
    case fresh => intro now; cases now
    case unplugged => intro _ inside; cases inside
    case unlistened => exact plugged.unlistened
    case joined => exact fun stopped => absurd (plugged.joined stopped) (by simp [place])
  | leaving =>
    constructor
    case held => intro now; cases now
    case free => exact fun _ => plugged.free (by rw [place]; rfl)
    case fresh => intro now; cases now
    case unplugged => intro _ inside; cases inside
    case unlistened => exact fun _ => rfl
    case joined => exact fun _ => rfl
  | ended => cases o <;> simp [serverEnabled, place] at enabled

/-- To be notified is to stay where one is. -/
theorem notify (plugged : x.Plugged) (r : Nat) : (x.notify r).Plugged := by
  unfold Threads.notify
  split
  · next other notified place =>
    split
    · next same =>
      constructor
      case held => exact fun _ => plugged.held (by rw [place]; rfl)
      case free => intro now; cases now
      case fresh => intro now; cases now
      case unplugged => exact fun after _ => plugged.unplugged after (by rw [place]; rfl)
      case unlistened => exact plugged.unlistened
      case joined => exact fun stopped => absurd (plugged.joined stopped) (by simp [place])
    · exact plugged
  · exact plugged

theorem workerStep (plugged : x.Plugged) : (x.workerStep parse).Plugged := by
  have moved : Plugged { x with toExchange := x.toExchange.workerStep parse } := by
    have main := Awaited.main_workerStep x.toExchange parse
    exact {
      held := plugged.held
      free := plugged.free
      fresh := plugged.fresh
      unplugged := fun after => plugged.unplugged (main ▸ after)
      unlistened := fun after => plugged.unlistened (main ▸ after)
      joined := fun stopped => plugged.joined (main ▸ stopped) }
  unfold Threads.workerStep
  cases x.worker with
  | notifying r => exact moved.notify r
  | idle | popping | dispatching _ | completing _ _ => exact moved

theorem inside_connected {place : ServerPlace} (inside : place.inside = true) : place.connected = true := by
  cases place with
  | receiving | cutting | waiting _ | asleep _ _ | sending _ => rfl
  | checking | opening | accepting | accepted | looping | closing | leaving | ended => cases inside

/-- `stop` takes the connection away first, then the listener. -/
theorem mainStep (plugged : x.Plugged) (enabled : x.enabled .main) : x.mainStep.Plugged := by
  have move {exchange : Exchange} (going : x.main ∉ [.running, .disconnecting, .unlistening, .joining, .stopped])
      (after : exchange.main ≠ .stopped) : Plugged { x with toExchange := exchange } := by
    simp only [List.mem_cons, List.not_mem_nil, or_false, not_or] at going
    exact {
      held := plugged.held
      free := plugged.free
      fresh := plugged.fresh
      unplugged := fun _ => plugged.unplugged (by simp [going])
      unlistened := fun _ => plugged.unlistened (by simp [going])
      joined := fun stopped => absurd stopped after }
  unfold Threads.mainStep Exchange.mainStep
  cases place : x.main with
  | running =>
    constructor
    case held => exact plugged.held
    case free => exact plugged.free
    case fresh => exact plugged.fresh
    case unplugged => exact fun after => absurd (List.mem_cons_of_mem _ List.mem_cons_self) after
    case unlistened => exact fun after => absurd (List.mem_cons_of_mem _ List.mem_cons_self) after
    case joined => intro stopped; cases stopped
  | disconnecting =>
    constructor
    case held =>
      intro now
      have held := plugged.held now
      dsimp only
      rw [held, Bool.or_not_self]
      rfl
    case free => exact fun _ => rfl
    case fresh =>
      intro accepted
      have free := plugged.free (by rw [accepted]; rfl)
      dsimp only
      rw [free, plugged.fresh accepted]
      rfl
    case unplugged =>
      intro _ inside
      have held := plugged.held (inside_connected inside)
      dsimp only
      rw [held, Bool.or_not_self]
    case unlistened =>
      exact fun after => absurd (List.mem_cons_of_mem _ (List.mem_cons_of_mem _ List.mem_cons_self)) after
    case joined => intro stopped; cases stopped
  | unlistening =>
    constructor
    case held => exact plugged.held
    case free => exact plugged.free
    case fresh => exact plugged.fresh
    case unplugged => exact fun _ => plugged.unplugged (by simp [place])
    case unlistened => exact fun _ => rfl
    case joined => intro stopped; cases stopped
  | failing => exact move (by simp [place]) (by simp)
  | completing requests =>
    cases requests with
    | nil => exact move (by simp [place]) (by simp)
    | cons r rest => exact (move (by simp [place]) (by simp)).notify r
  | joining =>
    constructor
    case held => exact plugged.held
    case free => exact plugged.free
    case fresh => exact plugged.fresh
    case unplugged => exact fun _ => plugged.unplugged (by simp [place])
    case unlistened => exact fun _ => plugged.unlistened (by simp [place])
    case joined => exact fun _ => enabled.2 place
  | stopped => exact absurd place enabled.1

theorem step (plugged : x.Plugged) (sound : x.toExchange.Sound parse) {e : Event} (enabled : x.enabled e) :
    (x.step parse e).Plugged := by
  cases e with
  | server o => exact plugged.serverStep sound enabled
  | worker => exact plugged.workerStep
  | main => exact plugged.mainStep enabled
  | boundary => exact ⟨plugged.held, plugged.free, plugged.fresh, plugged.unplugged, plugged.unlistened, plugged.joined⟩
  | emulator event =>
    exact ⟨plugged.held, plugged.free, plugged.fresh, plugged.unplugged, plugged.unlistened, plugged.joined⟩

end Plugged

theorem plugged_of_reachable {x : Threads} (reach : (system parse).Reachable x) : x.Plugged := by
  refine reach.invariant (P := fun t : Threads => t.Plugged) (fun _ start => ?_)
    fun x e reach enabled _ plugged => plugged.step (serving_of_reachable reach).1 enabled
  obtain ⟨machine, rfl⟩ := start
  constructor
  case held => intro now; cases now
  case free => exact fun _ => rfl
  case fresh => intro now; cases now
  case unplugged => exact fun after => absurd List.mem_cons_self after
  case unlistened => exact fun after => absurd List.mem_cons_self after
  case joined => intro stopped; cases stopped

/-- What is left to do for all three threads. -/
def rank (x : Threads) : Nat :=
  8 * x.server.work x.input.length + 4 * x.queue.length + x.worker.work + x.main.work

theorem rank_serverStep {x : Threads} (inactive : x.active = false) {o : Outcome} (enabled : x.serverEnabled o) :
    (x.serverStep o).rank < x.rank := by
  unfold serverStep
  cases place : x.server with
  | checking => simp [rank, place, inactive, ServerPlace.work]
  | opening => cases x.listening <;> simp [rank, place, ServerPlace.work]
  | accepting => cases o <;> simp [rank, place, ServerPlace.work]
  | accepted => simp [rank, place, ServerPlace.work]
  | looping => simp [rank, place, inactive, ServerPlace.work]
  | receiving =>
    cases o with
    | data buffer =>
      have sized : buffer.length ≤ bufferSize := enabled.2.2
      dsimp only
      unfold received
      dsimp only
      split
      · simp only [rank, answer, place, ServerPlace.work, List.length_append]
        omega
      · simp only [rank, place, ServerPlace.work, List.length_append]
        omega
    | done | connected | interrupted | failed =>
      simp only [rank, place, ServerPlace.work]
      omega
  | cutting =>
    dsimp only
    unfold nextLine
    cases found : x.input.idxOf? 10 with
    | none =>
      simp only [rank, place, ServerPlace.work]
      omega
    | some newline =>
      obtain ⟨within, _⟩ := List.idxOf?_eq_some_iff.mp found
      dsimp only
      cases handleLine (x.input.take newline) with
      | requestTooLarge =>
        simp only [rank, answer, place, ServerPlace.work, List.length_drop]
        omega
      | enqueue line =>
        simp only [rank, Exchange.enqueue, place, ServerPlace.work, List.length_drop, List.length_append,
          List.length_singleton]
        omega
  | waiting r =>
    dsimp only
    unfold wait
    split
    · simp only [rank, answer, place, ServerPlace.work]
      omega
    · rw [inactive]
      simp only [rank, answer, place, ServerPlace.work, Bool.not_false, if_true]
      omega
  | asleep r notified =>
    simp only [rank, place, ServerPlace.work]
    omega
  | sending more =>
    cases more <;> cases o <;> simp only [rank, place, ServerPlace.work] <;> omega
  | closing => simp [rank, place, ServerPlace.work]
  | leaving => simp [rank, place, ServerPlace.work]
  | ended => cases o <;> simp [serverEnabled, place] at enabled

theorem rank_notify (x : Threads) (r : Nat) : (x.notify r).rank = x.rank := by
  unfold notify
  split
  · next other notified place =>
    split
    · simp only [rank, place, ServerPlace.work]
    · rfl
  · rfl

/-- The worker answers a request, or leaves `processBoundary`. -/
theorem rank_workerStep {x : Threads} (parse : Bytes → Option Document) (busy : x.worker ≠ .idle) :
    (x.workerStep parse).rank < x.rank ∨
      x.worker = .popping ∧ x.workerStep parse = { x with worker := .idle } := by
  unfold workerStep Exchange.workerStep
  cases place : x.worker with
  | idle => exact absurd place busy
  | popping =>
    cases queue : x.queue with
    | nil => exact .inr ⟨rfl, rfl⟩
    | cons r rest =>
      refine .inl ?_
      simp only [rank, place, queue, WorkerPlace.work, List.length_cons]
      omega
  | dispatching r =>
    refine .inl ?_
    simp only [rank, place, WorkerPlace.work]
    omega
  | completing r response =>
    refine .inl ?_
    simp only [rank, Exchange.complete, place, WorkerPlace.work]
    omega
  | notifying r =>
    refine .inl ?_
    dsimp only
    rw [rank_notify]
    simp only [rank, place, WorkerPlace.work]
    omega

theorem rank_mainStep {x : Threads} (going : x.main ≠ .stopped) : x.mainStep.rank < x.rank := by
  unfold mainStep Exchange.mainStep
  cases place : x.main with
  | completing requests =>
    cases requests with
    | nil => simp [rank, place, MainPlace.work]
    | cons r rest =>
      dsimp only
      rw [rank_notify]
      simp only [rank, Exchange.complete, place, MainPlace.work, List.length_cons]
      omega
  | failing =>
    simp only [rank, place, MainPlace.work, List.length_nil]
    omega
  | running | disconnecting | unlistening | joining => simp [rank, place, MainPlace.work]
  | stopped => exact absurd place going

/-- The threads of the program. -/
inductive Party
  | server
  | worker
  | main
  deriving DecidableEq, Repr

/-- The server thread can only go on when a client does something, or when it is
notified. -/
def Blocked (x : Threads) : Prop :=
  match x.server with
  | .accepting => x.listening = true
  | .receiving => x.shut = false
  | .sending _ => x.shut = false
  | .asleep _ notified => notified = false
  | _ => False

/-- A thread that has something to do in a call of `stop`, and can do it. -/
def Ready : Party → Threads → Prop
  | .server, x => x.server ≠ .ended ∧ ¬ x.Blocked
  | .worker, x => x.worker.work ≠ 0
  | .main, x => x.main ≠ .stopped ∧ (x.main = .joining → x.server = .ended)

def Acts (parse : Bytes → Option Document) : Party → Threads → Threads → Prop
  | .server, x, y => ∃ o, x.serverEnabled o ∧ y = x.serverStep o
  | .worker, x, y => x.worker.work ≠ 0 ∧ y = x.workerStep parse
  | .main, x, y => x.enabled .main ∧ y = x.mainStep

/-- `stop` has begun. -/
def Begun (parse : Bytes → Option Document) (x : Threads) : Prop :=
  (system parse).Reachable x ∧ x.main ≠ .running

theorem main_step {x : Threads} (begun : x.main ≠ .running) (e : Event) : (x.step parse e).main ≠ .running := by
  cases e with
  | server o =>
    have same : (x.serverStep o).main = x.main := by
      rcases x.serverStep_exchange parse o with same | ⟨line, same⟩
      · rw [same]
      · rw [same]
        rfl
    exact same ▸ begun
  | worker =>
    have same : (x.workerStep parse).main = x.main := by
      rw [workerStep_exchange, Awaited.main_workerStep]
    exact same ▸ begun
  | main =>
    show x.mainStep.main ≠ .running
    rw [mainStep_exchange, Exchange.mainStep]
    cases place : x.main with
    | running => exact absurd place begun
    | completing requests => cases requests <;> simp
    | stopped => simp [place]
    | disconnecting | unlistening | failing | joining => simp
  | boundary | emulator _ => exact begun

theorem inactive {x : Threads} (begun : x.Begun parse) : x.active = false := by
  by_contra active
  exact begun.2 ((serving_of_reachable begun.1).1.stopping.mp (Bool.eq_true_of_not_eq_false active))

theorem rank_step {x : Threads} (begun : x.Begun parse) {e : Event} (enabled : x.enabled e) :
    (x.step parse e).rank ≤ x.rank ∧ ((x.step parse e).rank = x.rank →
      (x.step parse e).server = x.server ∧ (x.step parse e).listening = x.listening ∧
        (x.step parse e).shut = x.shut ∧ (x.step parse e).main = x.main ∧ x.worker.work = 0) := by
  cases e with
  | server o =>
    have falls : (x.serverStep o).rank < x.rank := rank_serverStep (inactive begun) enabled
    exact ⟨Nat.le_of_lt falls, fun same => absurd same (Nat.ne_of_lt falls)⟩
  | worker =>
    rcases rank_workerStep parse enabled with falls | ⟨popping, left⟩
    · exact ⟨Nat.le_of_lt falls, fun same => absurd same (Nat.ne_of_lt falls)⟩
    · have same : (x.step parse .worker).rank = x.rank := by
        rw [step, left]
        simp only [rank, popping, WorkerPlace.work]
      refine ⟨Nat.le_of_eq same, fun _ => ?_⟩
      rw [step, left, popping]
      exact ⟨rfl, rfl, rfl, rfl, rfl⟩
  | main =>
    have falls : x.mainStep.rank < x.rank := rank_mainStep enabled.1
    exact ⟨Nat.le_of_lt falls, fun same => absurd same (Nat.ne_of_lt falls)⟩
  | boundary =>
    have idle : x.worker = .idle := enabled
    have same : (x.step parse .boundary).rank = x.rank := by simp only [step, rank, idle, WorkerPlace.work]
    refine ⟨Nat.le_of_eq same, fun _ => ?_⟩
    rw [idle]
    exact ⟨rfl, rfl, rfl, rfl, rfl⟩
  | emulator event =>
    have idle : x.worker = .idle := enabled.1
    refine ⟨Nat.le_refl _, fun _ => ?_⟩
    rw [idle]
    exact ⟨rfl, rfl, rfl, rfl, rfl⟩

/-- Once `failPending` is done, whatever the server thread waits for comes. -/
theorem someone_ready {x : Threads} (begun : x.Begun parse) (going : x.main ≠ .stopped) : ∃ party, Ready party x := by
  by_cases joining : x.main = .joining
  · by_cases ended : x.server = .ended
    · exact ⟨.main, going, fun _ => ended⟩
    by_cases blocked : x.Blocked
    · have plugged := plugged_of_reachable begun.1
      have shut (inside : x.server.inside = true) : x.shut = true :=
        plugged.unplugged (by simp [joining]) inside
      unfold Blocked at blocked
      cases place : x.server with
      | accepting =>
        rw [place] at blocked
        have closed := plugged.unlistened (by simp [joining])
        rw [blocked] at closed
        cases closed
      | receiving | sending _ =>
        rw [place] at blocked
        rw [blocked] at shut
        exact absurd (shut (by rw [place]; rfl)) Bool.false_ne_true
      | asleep r notified =>
        rw [place] at blocked
        refine ⟨.worker, ?_⟩
        rcases no_lost_wakeup begun.1 place with done | atWorker | ⟨response, atWorker⟩ | atWorker | atMain | queued
        · rw [blocked] at done
          cases done
        · simp [Ready, atWorker, WorkerPlace.work]
        · simp [Ready, atWorker, WorkerPlace.work]
        · simp [Ready, atWorker, WorkerPlace.work]
        · obtain ⟨requests, completing, _⟩ := atMain
          rw [joining] at completing
          cases completing
        · rw [inactive begun, joining] at queued
          simp at queued
      | checking | opening | accepted | looping | cutting | waiting _ | closing | leaving | ended =>
        rw [place] at blocked
        exact blocked.elim
    · exact ⟨.server, ended, blocked⟩
  · exact ⟨.main, going, fun now => absurd now joining⟩

/-- Whatever happens in a call of `stop` brings it nearer to its end, or leaves
every thread what it can do. -/
theorem descent : (system parse).Descent Ready (Acts parse) (Begun parse)
    (fun x => x.main = .stopped ∧ x.server = .ended) rank where
  kept x e enabled begun := ⟨.next e begun.1 enabled trivial, main_step begun.2 e⟩
  bounded x e enabled begun := (rank_step begun enabled).1
  patient party x e enabled begun same ready := by
    obtain ⟨server, listening, shut, main, worker⟩ := (rank_step begun enabled).2 same
    cases party with
    | server =>
      have blocked : Blocked (x.step parse e) = x.Blocked := by
        unfold Blocked
        rw [server, listening, shut]
      exact ⟨server ▸ ready.1, blocked ▸ ready.2⟩
    | worker => exact absurd worker ready
    | main => exact ⟨main ▸ ready.1, fun now => server ▸ ready.2 (main ▸ now)⟩
  lowered party x y begun acts := by
    cases party with
    | server =>
      obtain ⟨o, enabled, rfl⟩ := acts
      exact rank_serverStep (inactive begun) enabled
    | worker =>
      obtain ⟨work, rfl⟩ := acts
      have busy : x.worker ≠ .idle := by
        intro idle
        rw [idle] at work
        exact work rfl
      refine (rank_workerStep parse busy).resolve_right fun left => ?_
      rw [left.1] at work
      exact work rfl
    | main =>
      obtain ⟨enabled, rfl⟩ := acts
      exact rank_mainStep enabled.1
  someone x begun going := someone_ready begun fun stopped =>
    going ⟨stopped, (plugged_of_reachable begun.1).joined stopped⟩

/-- `stop` returns. Wherever the threads are when it is called, and whatever the
client does, it comes to its end as long as no thread that can go on is kept from
it for ever, and the server thread has ended by then. -/
theorem stop_returns (run : (system parse).Behaviour) (fair : ∀ party, run.Fair (Ready party) (Acts parse party))
    {n : Nat}
    (begun : (run.state n).main ≠ .running) :
    ∃ m, n ≤ m ∧ (run.state m).main = .stopped ∧ (run.state m).server = .ended :=
  descent.eventually run fair ⟨run.reachable n, begun⟩

/-! The bridge is stopped while the server thread sleeps and its request waits in
the queue. -/

/-- The server thread hands out the answer of `failPending`, and ends. -/
def sampleStop : List Event :=
  sampleTalk ++ sampleRefusal ++
    [.server .done, .server .done, .server .done, .server .done, .server .done, .server .done, .main, .main]

theorem sampleStop_admits : (system sampleParse).Admits (fun _ _ => True) sampleStart sampleStop := by decide +kernel

def sampleRun : (system sampleParse).Behaviour :=
  .ofRun sampleStart_init sampleStop sampleStop_admits

/-- In the end nobody is ready. -/
theorem sampleRun_fair (party : Party) : sampleRun.Fair (Ready party) (Acts sampleParse party) := by
  intro n ready
  have last := ready (n + sampleStop.length) (Nat.le_add_right n _)
  have final : sampleRun.state (n + sampleStop.length) = sampleStop.foldl (step sampleParse) sampleStart :=
    System.Behaviour.ofRun_end n
  rw [final] at last
  cases party with
  | server => exact absurd (by decide +kernel) last.1
  | worker => exact absurd (by decide +kernel) last
  | main => exact absurd (by decide +kernel) last.1

theorem sampleRun_returns : (sampleRun.state 20).server = .asleep 1 false ∧ (sampleRun.state 20).queue = [1] ∧
    ∃ m, 20 ≤ m ∧ (sampleRun.state m).main = .stopped ∧ (sampleRun.state m).server = .ended :=
  ⟨by decide +kernel, by decide +kernel, stop_returns sampleRun sampleRun_fair (by decide +kernel)⟩

end Threads

end FzeroVs.Bridge
