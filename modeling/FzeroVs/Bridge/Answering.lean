import FzeroVs.Bridge.Stopping

namespace FzeroVs.Bridge

/-- What the worker and the main thread have to do at most: to answer what is
queued, and to come to the end of `stop`. -/
def Exchange.toDo (x : Exchange) : Nat :=
  8 * x.queue.length + x.worker.work + (if x.worker = .idle ∧ x.queue ≠ [] then 1 else 0) + x.main.work

theorem Exchange.toDo_workerStep {x : Exchange} (parse : Bytes → Option Document) (busy : x.worker ≠ .idle) :
    (x.workerStep parse).toDo < x.toDo ∨
      x.worker = .popping ∧ x.queue = [] ∧ x.workerStep parse = { x with worker := .idle } := by
  unfold workerStep
  cases place : x.worker with
  | idle => exact absurd place busy
  | popping =>
    cases queue : x.queue with
    | nil => exact .inr ⟨rfl, rfl, rfl⟩
    | cons r rest =>
      refine .inl ?_
      simp only [toDo, place, queue, WorkerPlace.work, List.length_cons, reduceCtorEq, false_and, if_false]
      omega
  | dispatching r =>
    refine .inl ?_
    simp only [toDo, place, WorkerPlace.work, reduceCtorEq, false_and, if_false]
    omega
  | completing r response =>
    refine .inl ?_
    simp only [toDo, complete, place, WorkerPlace.work, reduceCtorEq, false_and, if_false]
    omega
  | notifying r =>
    refine .inl ?_
    simp only [toDo, place, WorkerPlace.work, reduceCtorEq, false_and, if_false]
    omega

theorem Exchange.toDo_boundary {x : Exchange} (parse : Bytes → Option Document) (idle : x.worker = .idle) :
    (x.step parse .boundary).toDo ≤ x.toDo ∧ (x.queue ≠ [] → (x.step parse .boundary).toDo < x.toDo) := by
  unfold step
  by_cases queued : x.queue = []
  · refine ⟨?_, fun more => absurd queued more⟩
    simp [toDo, idle, queued, WorkerPlace.work]
  · simp [toDo, idle, queued, WorkerPlace.work]

theorem Exchange.toDo_mainStep {x : Exchange} (going : x.main ≠ .stopped) : x.mainStep.toDo < x.toDo := by
  unfold mainStep
  cases place : x.main with
  | completing requests =>
    cases requests with
    | nil => simp [toDo, place, MainPlace.work]
    | cons r rest =>
      simp only [toDo, complete, place, MainPlace.work, List.length_cons]
      omega
  | failing =>
    simp only [toDo, place, MainPlace.work, List.length_nil, ne_eq, not_true_eq_false, and_false, if_false]
    omega
  | running | disconnecting | unlistening | joining => simp [toDo, place, MainPlace.work]
  | stopped => exact absurd place going

namespace Threads
variable {parse : Bytes → Option Document}

/-- The server thread need not wait any longer. -/
def Answerable (x : Threads) (r : Nat) : Prop := (x.heap r).completed = true ∨ x.active = false

instance (x : Threads) (r : Nat) : Decidable (x.Answerable r) := inferInstanceAs (Decidable (_ ∨ _))

/-- How far the server thread is from its answer. -/
def lag (x : Threads) (r : Nat) : Nat :=
  if x.Answerable r then
    match x.server with
    | .asleep _ _ => 2
    | _ => 1
  else 3

theorem lag_le (x : Threads) (r : Nat) : x.lag r ≤ 3 := by
  unfold lag
  split
  · cases x.server <;> simp
  · exact Nat.le_refl 3

theorem Heard.lag {x y : Threads} (heard : Heard x y) {r : Nat} (still : x.Answerable r → y.Answerable r) :
    y.lag r ≤ x.lag r := by
  by_cases answerable : x.Answerable r
  · unfold Threads.lag
    rw [if_pos answerable, if_pos (still answerable)]
    rcases heard.server with same | ⟨other, notified, before, after⟩
    · rw [same]
    · rw [before, after]
  · have most := y.lag_le r
    unfold Threads.lag at most ⊢
    rw [if_neg answerable]
    exact most

/-- An answer stays, and so does a call of `stop`. -/
theorem Answerable.step {x : Threads} {r : Nat} (answerable : x.Answerable r) (parse : Bytes → Option Document)
    {e : Event} {other : Exchange.Event} (outside : ∀ line, other ≠ .enqueue line)
    (same : (x.step parse e).toExchange = x.toExchange.step parse other) : (x.step parse e).Answerable r := by
  unfold Answerable
  rw [same]
  rcases answerable with completed | inactive
  · refine .inl ?_
    by_contra unanswered
    have before := Awaited.completed_step x.toExchange outside r (Bool.eq_false_of_not_eq_true unanswered)
    rw [completed] at before
    cases before
  · exact .inr ((x.toExchange.later_step parse other).stopping inactive)

/-- What is left until the answer. -/
def distance (x : Threads) (r : Nat) : Nat :=
  if x.server.request = some r then x.toDo + x.lag r + 1 else 0

/-- Whoever has something to do for the answer, and can do it. The emulator comes
to `processBoundary` when requests are pending. -/
def Due (r : Nat) : Party → Threads → Prop
  | .server, x => x.server.request = some r ∧ x.Answerable r ∧ x.server ≠ .asleep r false
  | .worker, x => x.server.request = some r ∧
    (x.worker.work ≠ 0 ∨ x.queue ≠ [] ∧ (x.worker = .popping ∨ x.worker = .idle ∧ x.pending ≠ 0))
  | .main, x => x.server.request = some r ∧ x.main ∉ [.running, .joining, .stopped]

def Does (parse : Bytes → Option Document) (r : Nat) : Party → Threads → Threads → Prop
  | .server, x, y => Due r .server x ∧ ∃ o, x.serverEnabled o ∧ y = x.serverStep o
  | .worker, x, y => Due r .worker x ∧ (x.worker = .idle ∧ y = { x with worker := .popping } ∨
    x.worker ≠ .idle ∧ y = x.workerStep parse)
  | .main, x, y => Due r .main x ∧ y = x.mainStep

/-- The request has been made. -/
def Made (parse : Bytes → Option Document) (r : Nat) (x : Threads) : Prop :=
  (system parse).Reachable x ∧ r < x.made

/-- The server thread never comes back to a request. -/
theorem request_step {x : Threads} {r : Nat} (below : r < x.made) (away : x.server.request ≠ some r)
    (parse : Bytes → Option Document) {e : Event} (enabled : x.enabled e) :
    (x.step parse e).server.request ≠ some r := by
  rcases x.heard_step parse enabled with ⟨o, rfl⟩ | ⟨heard, _⟩
  · change (x.serverStep o).server.request ≠ some r
    cases x.asks_serverStep enabled with
    | queued line _ _ place =>
      rw [place]
      intro same
      cases same
      exact Nat.lt_irrefl _ below
    | slept other waiting _ _ _ place =>
      rw [waiting] at away
      rw [place]
      exact away
    | woke other notified asleep _ place =>
      rw [asleep] at away
      rw [place]
      exact away
    | answered other _ _ _ place =>
      rw [place]
      intro same
      cases same
    | other _ _ quiet =>
      rw [quiet]
      intro same
      cases same
  · rw [heard.request]
    exact away

/-- The server thread waits on, or has its answer. -/
theorem distance_serverStep {x : Threads} {r : Nat} (asked : x.server.request = some r) {o : Outcome}
    (enabled : x.serverEnabled o) :
    (x.serverStep o).distance r < x.distance r ∨ ¬ x.Answerable r ∧ (x.serverStep o).toExchange = x.toExchange ∧
      (x.serverStep o).server.request = some r := by
  have away {y : Threads} (elsewhere : y.server.request ≠ some r) : y.distance r < x.distance r := by
    unfold distance
    rw [if_pos asked, if_neg elsewhere]
    omega
  cases x.asks_serverStep enabled with
  | queued line idle _ _ =>
    rw [idle] at asked
    cases asked
  | slept other waiting active unanswered exchange place =>
    rw [waiting] at asked
    cases asked
    refine .inr ⟨?_, exchange, by rw [place]; rfl⟩
    rintro (completed | inactive)
    · rw [unanswered] at completed
      cases completed
    · rw [active] at inactive
      cases inactive
  | woke other notified asleep exchange place =>
    rw [asleep] at asked
    cases asked
    by_cases answerable : x.Answerable r
    · refine .inl ?_
      have still : (x.serverStep o).Answerable r := by
        unfold Answerable
        rw [exchange]
        exact answerable
      simp only [distance, lag, place, asleep, exchange, if_pos answerable, if_pos still, ServerPlace.request, if_true]
      omega
    · exact .inr ⟨answerable, exchange, by rw [place]; rfl⟩
  | answered other _ _ _ place => exact .inl (away (by rw [place]; simp [ServerPlace.request]))
  | other _ _ quiet => exact .inl (away (by rw [quiet]; simp))

/-- Another thread does something. -/
theorem distance_other {x : Threads} {r : Nat} (asked : x.server.request = some r) (parse : Bytes → Option Document)
    (e : Event) (other : Exchange.Event) (heard : Heard x (x.step parse e)) (outside : ∀ line, other ≠ .enqueue line)
    (same : (x.step parse e).toExchange = x.toExchange.step parse other) :
    (x.step parse e).distance r + x.toDo ≤ x.distance r + (x.toExchange.step parse other).toDo := by
  have lag := heard.lag (r := r) fun answerable => answerable.step parse outside same
  have request : (x.step parse e).server.request = some r := heard.request.trans asked
  unfold distance
  rw [if_pos asked, if_pos request, same]
  omega

/-- Nothing that happens leads away from the answer, and whoever has something to
do for it and does not do it can still do it. -/
theorem distance_step {x : Threads} {r : Nat} (asked : x.server.request = some r) (parse : Bytes → Option Document)
    {e : Event} (enabled : x.enabled e) : (x.step parse e).distance r < x.distance r ∨
    (x.step parse e).distance r ≤ x.distance r ∧
      ∀ party, Due r party x → Due r party (x.step parse e) := by
  cases e with
  | server o =>
    rcases distance_serverStep asked enabled with falls | ⟨unanswered, exchange, still⟩
    · exact .inl falls
    · refine .inr ⟨?_, fun party due => ?_⟩
      · change (x.serverStep o).distance r ≤ x.distance r
        have lag := (x.serverStep o).lag_le r
        have most : x.lag r = 3 := if_neg unanswered
        unfold distance
        rw [if_pos asked, if_pos still, exchange]
        omega
      · change Due r party (x.serverStep o)
        cases party with
        | server => exact absurd due.2.1 unanswered
        | worker =>
          refine ⟨still, ?_⟩
          rw [exchange]
          exact due.2
        | main =>
          refine ⟨still, ?_⟩
          rw [exchange]
          exact due.2
  | boundary =>
    have idle : x.worker = .idle := enabled
    have nearer := distance_other asked parse .boundary .boundary ⟨rfl, rfl, rfl, .inl rfl⟩ (by simp) rfl
    obtain ⟨most, falls⟩ := Exchange.toDo_boundary parse idle
    by_cases queued : x.queue = []
    · refine .inr ⟨by omega, fun party due => ?_⟩
      cases party with
      | server => exact due
      | main => exact due
      | worker =>
        rcases due.2 with busy | ⟨more, _⟩
        · rw [idle] at busy
          exact absurd rfl busy
        · exact absurd queued more
    · have less := falls queued
      exact .inl (by omega)
  | worker =>
    have nearer := distance_other asked parse .worker .worker (x.heard_workerStep parse) (by simp)
      (x.workerStep_exchange parse)
    change _ ≤ x.distance r + (x.toExchange.workerStep parse).toDo at nearer
    rcases Exchange.toDo_workerStep parse enabled with falls | ⟨popping, empty, left⟩
    · exact .inl (by omega)
    · have same : x.step parse .worker = { x with worker := .idle } := by
        rw [step, workerStep, popping, left]
      have level : (x.toExchange.workerStep parse).toDo = x.toDo := by
        rw [left]
        simp [Exchange.toDo, popping, empty, WorkerPlace.work]
      refine .inr ⟨by omega, fun party due => ?_⟩
      rw [same]
      cases party with
      | server => exact due
      | main => exact due
      | worker =>
        rcases due.2 with busy | ⟨more, _⟩
        · rw [popping] at busy
          exact absurd rfl busy
        · exact absurd empty more
  | emulator event =>
    refine .inr ⟨Nat.le_refl _, fun party due => ?_⟩
    cases party with
    | server => exact due
    | main => exact due
    | worker => exact due
  | main =>
    have nearer := distance_other asked parse .main .main x.heard_mainStep (by simp) x.mainStep_exchange
    change _ ≤ x.distance r + x.toExchange.mainStep.toDo at nearer
    have falls := Exchange.toDo_mainStep enabled.1
    exact .inl (by omega)

/-- A request that has no answer yet is with somebody who can go on. -/
theorem someone_due {x : Threads} {r : Nat} (reach : (system parse).Reachable x) (asked : x.server.request = some r) :
    ∃ party, Due r party x := by
  obtain ⟨sound, serving⟩ := serving_of_reachable reach
  have awaited := awaited_of_reachable reach
  have below : r < x.made := by
    have newest := (serving.newest r asked).1
    omega
  have atWork (busy : x.worker.work ≠ 0) : ∃ party, Due r party x := ⟨.worker, asked, .inl busy⟩
  have queued (active : x.active = true) (member : r ∈ x.queue) : ∃ party, Due r party x := by
    have only := queue_of_active sound awaited active member
    have pending : x.pending ≠ 0 := by
      rw [sound.pending, only, List.length_singleton]
      decide
    have some : x.queue ≠ [] := List.ne_nil_of_mem member
    cases place : x.worker with
    | idle => exact ⟨.worker, asked, .inr ⟨some, .inr ⟨place, pending⟩⟩⟩
    | popping => exact ⟨.worker, asked, .inr ⟨some, .inl place⟩⟩
    | dispatching _ | completing _ _ | notifying _ => exact atWork (by rw [place]; simp [WorkerPlace.work])
  by_cases answerable : x.Answerable r
  · by_cases sleeps : x.server = .asleep r false
    · rcases no_lost_wakeup reach sleeps with done | worker | ⟨response, worker⟩ | worker | ⟨requests, main, _⟩ | waits
      · cases done
      · exact atWork (by rw [worker]; simp [WorkerPlace.work])
      · exact atWork (by rw [worker]; simp [WorkerPlace.work])
      · exact atWork (by rw [worker]; simp [WorkerPlace.work])
      · exact ⟨.main, asked, by rw [main]; simp⟩
      · rcases waits.2 with ⟨active, _⟩ | stopping
        · exact queued active waits.1
        · refine ⟨.main, asked, ?_⟩
          simp only [List.mem_cons, List.not_mem_nil, or_false] at stopping
          rcases stopping with place | place | place <;> simp [place]
    · exact ⟨.server, asked, answerable, sleeps⟩
  · have active : x.active = true := by
      by_contra inactive
      exact answerable (.inr (Bool.eq_false_of_not_eq_true inactive))
    have unanswered : (x.heap r).completed = false := by
      by_contra completed
      exact answerable (.inl (Bool.eq_true_of_not_eq_false completed))
    rcases sound.unanswered r below unanswered with member | worker | ⟨response, worker⟩ | ⟨requests, main, _⟩
    · exact queued active member
    · exact atWork (by rw [worker]; simp [WorkerPlace.work])
    · exact atWork (by rw [worker]; simp [WorkerPlace.work])
    · have running := sound.stopping.mp active
      rw [running] at main
      cases main

theorem distance_does {x y : Threads} {r : Nat} {party : Party} (does : Does parse r party x y) :
    y.distance r < x.distance r := by
  cases party with
  | server =>
    obtain ⟨⟨asked, answerable, _⟩, o, enabled, rfl⟩ := does
    exact (distance_serverStep asked enabled).resolve_right fun waits => waits.1 answerable
  | worker =>
    obtain ⟨⟨asked, work⟩, ⟨idle, rfl⟩ | ⟨busy, rfl⟩⟩ := does
    · have nearer := distance_other asked parse .boundary .boundary ⟨rfl, rfl, rfl, .inl rfl⟩ (by simp) rfl
      have queued : x.queue ≠ [] := by
        rcases work with busy | ⟨queued, _⟩
        · rw [idle] at busy
          exact absurd rfl busy
        · exact queued
      have falls := (Exchange.toDo_boundary parse idle).2 queued
      change ({ x with worker := .popping } : Threads).distance r + _ ≤ _ at nearer
      omega
    · have nearer := distance_other asked parse .worker .worker (x.heard_workerStep parse) (by simp)
        (x.workerStep_exchange parse)
      change (x.workerStep parse).distance r + x.toDo ≤ x.distance r + (x.toExchange.workerStep parse).toDo at nearer
      rcases Exchange.toDo_workerStep parse busy with falls | ⟨popping, empty, _⟩
      · omega
      · rcases work with more | ⟨queued, _⟩
        · rw [popping] at more
          exact absurd rfl more
        · exact absurd empty queued
  | main =>
    obtain ⟨⟨asked, going⟩, rfl⟩ := does
    have nearer := distance_other asked parse .main .main x.heard_mainStep (by simp) x.mainStep_exchange
    change x.mainStep.distance r + x.toDo ≤ x.distance r + x.toExchange.mainStep.toDo at nearer
    have falls := Exchange.toDo_mainStep (x := x.toExchange) fun stopped => going (by rw [stopped]; simp)
    omega

/-- All threads together bring the answer nearer. -/
theorem answering (r : Nat) : (system parse).Descent (Due r) (Does parse r) (Made parse r)
    (fun x => x.server.request ≠ some r) (fun x => x.distance r) where
  kept x e enabled made := ⟨.next e made.1 enabled trivial, Nat.lt_of_lt_of_le made.2 (x.step_later parse enabled).made⟩
  bounded x e enabled made := by
    by_cases asked : x.server.request = some r
    · rcases distance_step asked parse enabled with falls | ⟨most, _⟩
      · exact Nat.le_of_lt falls
      · exact most
    · have away := request_step made.2 asked parse enabled
      change (x.step parse e).distance r ≤ _
      rw [distance, if_neg away]
      exact Nat.zero_le _
  patient party x e enabled made same due := by
    have asked : x.server.request = some r := by cases party <;> exact due.1
    rcases distance_step asked parse enabled with falls | ⟨_, still⟩
    · exact absurd same (Nat.ne_of_lt falls)
    · exact still party due
  lowered party x y _ does := distance_does does
  someone x made waits := someone_due made.1 (not_not.mp waits)

/-- While the server thread waits nothing is answered but its request. -/
theorem turns_step {x : Threads} {r : Nat} (asked : x.server.request = some r) (parse : Bytes → Option Document)
    {e : Event} (enabled : x.enabled e) :
    (x.step parse e).server.request = some r ∧ (x.step parse e).turns = x.turns ∨
      ∃ response, (x.step parse e).turns = x.turns ++ [(some r, response)] := by
  rcases x.heard_step parse enabled with ⟨o, rfl⟩ | ⟨heard, _⟩
  · change (x.serverStep o).server.request = some r ∧ (x.serverStep o).turns = x.turns ∨
      ∃ response, (x.serverStep o).turns = x.turns ++ [(some r, response)]
    unfold serverStep
    cases place : x.server with
    | waiting other =>
      rw [place] at asked
      cases asked
      dsimp only
      unfold wait
      split
      · exact .inr ⟨_, rfl⟩
      split
      · exact .inr ⟨_, rfl⟩
      · exact .inl ⟨rfl, rfl⟩
    | asleep other notified =>
      rw [place] at asked
      exact .inl ⟨asked, rfl⟩
    | checking | opening | accepting | accepted | looping | receiving | cutting | sending _ | closing | leaving
    | ended =>
      rw [place] at asked
      cases asked
  · exact .inl ⟨heard.request.trans asked, heard.turns⟩

/-- Every request is answered. Whatever the clients, the emulator and `stop` do,
the server thread gets on with the request that it waits for, as long as no thread
that can go on is kept from it for ever. -/
theorem request_answered (run : (system parse).Behaviour) {n r : Nat}
    (fair : ∀ party, run.Fair (Due r party) (Does parse r party)) (asked : (run.state n).server.request = some r) :
    ∃ m, n ≤ m ∧ ∃ response, (run.state m).turns = (run.state n).turns ++ [(some r, response)] := by
  have made : Made parse r (run.state n) := by
    obtain ⟨_, serving⟩ := serving_of_reachable (run.reachable n)
    have newest := (serving.newest r asked).1
    exact ⟨run.reachable n, by omega⟩
  obtain ⟨m, later, gone⟩ := (answering r).eventually run fair made
  by_contra never
  have waits : (run.state m).server.request = some r ∧ (run.state m).turns = (run.state n).turns := by
    clear gone
    induction later with
    | refl => exact ⟨asked, rfl⟩
    | @step k later ih =>
      obtain ⟨still, turns⟩ := ih
      rcases run.moves k with same | ⟨e, enabled, moved⟩
      · rw [same]
        exact ⟨still, turns⟩
      · rcases turns_step still parse enabled with ⟨again, kept⟩ | ⟨response, answered⟩
        · rw [moved]
          exact ⟨again, kept.trans turns⟩
        · refine absurd ⟨k + 1, Nat.le_succ_of_le later, response, ?_⟩ never
          rw [moved, ← turns]
          exact answered
  exact gone waits.1

/-! The first request of the client is answered. -/

theorem sampleTalk_admits : (system sampleParse).Admits (fun _ _ => True) sampleStart sampleTalk := by decide +kernel

def sampleAsking : (system sampleParse).Behaviour :=
  .ofRun sampleStart_init sampleTalk sampleTalk_admits

/-- In the end it is the second one that waits. -/
theorem sampleAsking_fair (party : Party) : sampleAsking.Fair (Due 0 party) (Does sampleParse 0 party) := by
  intro n due
  have last := due (n + sampleTalk.length) (Nat.le_add_right n _)
  have final : sampleAsking.state (n + sampleTalk.length) = sampleTalk.foldl (step sampleParse) sampleStart :=
    System.Behaviour.ofRun_end n
  rw [final] at last
  have away : (sampleTalk.foldl (step sampleParse) sampleStart).server.request ≠ some 0 := by decide +kernel
  cases party <;> exact absurd last.1 away

theorem sampleAsking_answered : ∃ m, 8 ≤ m ∧ ∃ response,
    (sampleAsking.state m).turns = (sampleAsking.state 8).turns ++ [(some 0, response)] :=
  request_answered sampleAsking sampleAsking_fair (by decide +kernel)

end Threads

end FzeroVs.Bridge
