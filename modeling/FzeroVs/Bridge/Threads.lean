import FzeroVs.Bridge.Cuts
import FzeroVs.Bridge.Envelope

namespace FzeroVs.Bridge

/-- `DebugBridge::Request`. -/
structure Request where
  line : Bytes := []
  response : Bytes := []
  completed : Bool := false
  deriving DecidableEq, Repr

/-- Where the server thread stands in `serverLoop` and in the `clientLoop` that
it calls. Between two places it takes a mutex once at most. -/
inductive ServerPlace
  | checking
  | opening
  | accepting
  | accepted
  | looping
  | receiving
  | cutting
  | waiting (r : Nat)
  | asleep (r : Nat) (notified : Bool)
  | sending (more : Bool)
  | closing
  | leaving
  | ended
  deriving DecidableEq, Repr

/-- Where the worker of the emulator stands in `processBoundary`. -/
inductive WorkerPlace
  | idle
  | popping
  | dispatching (r : Nat)
  | completing (r : Nat) (response : Bytes)
  | notifying (r : Nat)
  deriving DecidableEq, Repr

/-- Where the main thread stands in `stop`. -/
inductive MainPlace
  | running
  | disconnecting
  | unlistening
  | failing
  | completing (requests : List Nat)
  | joining
  | stopped
  deriving DecidableEq, Repr

/-- Something that happened to the bridge: the emulator went on, or a request
was dispatched. -/
structure Act where
  request : Option Nat := none
  event : State.Event

/-- The requests, and the two threads that answer them. -/
structure Exchange where
  bridge : State
  active : Bool := true
  queue : List Nat := []
  pending : UInt32 := 0
  -- The requests that were made, by number.
  heap : Nat → Request := fun _ => {}
  made : Nat := 0
  worker : WorkerPlace := .idle
  main : MainPlace := .running
  -- History: the bridge at the start, what happened to it, and the requests that
  -- `failPending` took.
  initial : State
  ran : List Act := []
  refused : List Nat := []

/-- The bridge with all its threads, from `start` on. -/
structure Threads extends Exchange where
  server : ServerPlace := .checking
  input : Bytes := []
  listening : Bool := true
  -- `_clientSocket` holds the connection that is served.
  clientSocket : Bool := false
  -- `stop` has shut down the connection that is served.
  shut : Bool := false
  -- History of this connection: what came in, and for each line that was
  -- answered the request that it became and the answer.
  buffers : List Bytes := []
  turns : List (Option Nat × Bytes) := []

namespace Exchange

def enqueue (x : Exchange) (line : Bytes) : Exchange :=
  { x with
    heap := Function.update x.heap x.made { line := line }
    made := x.made + 1
    queue := x.queue ++ [x.made]
    pending := x.pending + 1 }

/-- A request gets its answer, under its mutex. -/
def complete (x : Exchange) (r : Nat) (response : Bytes) : Exchange :=
  { x with heap := Function.update x.heap r { x.heap r with response := response, completed := true } }

variable (parse : Bytes → Option Document)

/-- `line.c_str()` ends at the first NUL. -/
def document (line : Bytes) : Option Document := parse (line.takeWhile (· ≠ 0))

/-- `processBoundary`. -/
def workerStep (x : Exchange) : Exchange :=
  match x.worker with
  | .idle => x
  | .popping =>
    match x.queue with
    | [] => { x with worker := .idle }
    | r :: rest => { x with queue := rest, pending := x.pending - 1, worker := .dispatching r }
  | .dispatching r =>
    let request := document parse (x.heap r).line
    let result := x.bridge.dispatch request
    { x with
      bridge := result.2
      worker := .completing r result.1.encode
      ran := x.ran ++ [⟨some r, .request request⟩] }
  | .completing r response => { x.complete r response with worker := .notifying r }
  | .notifying _ => { x with worker := .popping }

/-- `stop`, and `failPending` in it. -/
def mainStep (x : Exchange) : Exchange :=
  match x.main with
  | .running => { x with active := false, main := .disconnecting }
  | .disconnecting => { x with main := .unlistening }
  | .unlistening => { x with main := .failing }
  | .failing => { x with main := .completing x.queue, queue := [], pending := 0, refused := x.refused ++ x.queue }
  | .completing [] => { x with main := .joining }
  | .completing (r :: rest) => { x.complete r Answered.serverStopping.response with main := .completing rest }
  | .joining => { x with main := .stopped }
  | .stopped => x

/-- What the emulator does on its own: anything that is not a request. A game is
loaded with the bridge as it is. -/
def Own (x : Exchange) : State.Event → Prop
  | .request _ => False
  | .gameLoaded active _ => active = x.active
  | _ => True

inductive Event
  | enqueue (line : Bytes)
  | boundary
  | worker
  | emulator (event : State.Event)
  | main

instance (x : Exchange) : (event : State.Event) → Decidable (x.Own event)
  | .request _ => .isFalse id
  | .gameLoaded active _ => inferInstanceAs (Decidable (active = x.active))
  | .gameUnloaded | .captureFrame .. | .run _ => .isTrue trivial

def enabled (x : Exchange) : Event → Prop
  | .enqueue _ => True
  | .boundary => x.worker = .idle
  | .worker => x.worker ≠ .idle
  | .emulator event => x.worker = .idle ∧ x.Own event
  | .main => x.main ≠ .stopped

def step (x : Exchange) : Event → Exchange
  | .enqueue line => x.enqueue line
  | .boundary => { x with worker := .popping }
  | .worker => x.workerStep parse
  | .emulator event => { x with bridge := x.bridge.step event, ran := x.ran ++ [⟨none, event⟩] }
  | .main => x.mainStep

/-- Any thread may queue requests here. -/
def system : System Exchange Event where
  init x := ∃ machine, x = { bridge := { machine := machine }, initial := { machine := machine } }
  enabled := enabled
  step := step parse

end Exchange

namespace Threads

/-- What a call into the system answers the server thread. -/
inductive Outcome
  | done
  | connected
  | data (buffer : Bytes)
  | interrupted
  | failed
  deriving DecidableEq, Repr

inductive Event
  | server (outcome : Outcome)
  | boundary
  | worker
  | emulator (event : State.Event)
  | main

/-- `condition.notify_one`. Who does not sleep does not hear it. -/
def notify (x : Threads) (r : Nat) : Threads :=
  match x.server with
  | .asleep other _ => if other = r then { x with server := .asleep r true } else x
  | _ => x

/-- What `sendAll` is given, and whether the loop goes on after it. -/
def answer (x : Threads) (r : Option Nat) (response : Bytes) (more : Bool) : Threads :=
  { x with server := .sending more, turns := x.turns ++ [(r, response)] }

/-- `clientLoop` after `recv`. -/
def received (x : Threads) (buffer : Bytes) : Threads :=
  let x := { x with input := x.input ++ buffer, buffers := x.buffers ++ [buffer] }
  if maximumRequestLine < x.input.length ∧ 10 ∉ x.input then
    x.answer none Answered.requestTooLarge.response false
  else { x with server := .cutting }

/-- The inner loop of `clientLoop` takes the next line from what has arrived. -/
def nextLine (x : Threads) : Threads :=
  match x.input.idxOf? 10 with
  | none => { x with server := .looping }
  | some newline =>
    let line := x.input.take newline
    let x := { x with input := x.input.drop (newline + 1) }
    match handleLine line with
    | .requestTooLarge => x.answer none Answered.requestTooLarge.response true
    | .enqueue line => { x with toExchange := x.toExchange.enqueue line, server := .waiting x.made }

/-- The predicate of the wait, and what follows it, under the mutex of the request. -/
def wait (x : Threads) (r : Nat) : Threads :=
  if (x.heap r).completed then x.answer (some r) (x.heap r).response true
  else if !x.active then x.answer (some r) Answered.serverStopping.response true
  else { x with server := .asleep r false }

/-- `serverLoop`, with `clientLoop` in it. -/
def serverStep (x : Threads) (outcome : Outcome) : Threads :=
  match x.server, outcome with
  | .checking, _ => { x with server := if x.active then .opening else .leaving }
  | .opening, _ => { x with server := if x.listening then .accepting else .leaving }
  | .accepting, .connected =>
    { x with server := .accepted, shut := false, input := [], buffers := [], turns := [] }
  | .accepting, .interrupted => { x with server := .checking }
  | .accepting, _ => { x with server := .leaving }
  | .accepted, _ => { x with server := .looping, clientSocket := true }
  | .looping, _ => { x with server := if x.active then .receiving else .closing }
  | .receiving, .data buffer => x.received buffer
  | .receiving, .interrupted => { x with server := .looping }
  | .receiving, _ => { x with server := .closing }
  | .cutting, _ => x.nextLine
  | .waiting r, _ => x.wait r
  | .asleep r _, _ => { x with server := .waiting r }
  | .sending true, .done => { x with server := .cutting }
  | .sending _, _ => { x with server := .closing }
  | .closing, _ => { x with server := .checking, clientSocket := false }
  | .leaving, _ => { x with server := .ended, listening := false }
  | .ended, _ => x

/-- What the server thread may be told where it stands. A thread that sleeps may
also wake up without having been notified. -/
def serverEnabled (x : Threads) : Outcome → Prop
  | .done => x.server ∉ [.accepting, .receiving, .ended]
  | .connected => x.server = .accepting ∧ x.listening = true
  | .data buffer => x.server = .receiving ∧ buffer ≠ [] ∧ buffer.length ≤ bufferSize
  | .interrupted => x.server ∈ [.accepting, .receiving]
  | .failed => x.server ∈ [.accepting, .receiving, .sending true, .sending false]

instance (x : Threads) : (outcome : Outcome) → Decidable (x.serverEnabled outcome)
  | .done => inferInstanceAs (Decidable (x.server ∉ _))
  | .connected => inferInstanceAs (Decidable (_ ∧ _))
  | .data _ => inferInstanceAs (Decidable (_ ∧ _ ∧ _))
  | .interrupted => inferInstanceAs (Decidable (x.server ∈ _))
  | .failed => inferInstanceAs (Decidable (x.server ∈ _))

variable (parse : Bytes → Option Document)

def workerStep (x : Threads) : Threads :=
  let next := { x with toExchange := x.toExchange.workerStep parse }
  match x.worker with
  | .notifying r => next.notify r
  | _ => next

def mainStep (x : Threads) : Threads :=
  let next := { x with toExchange := x.toExchange.mainStep }
  match x.main with
  | .disconnecting => { next with clientSocket := false, shut := x.shut || x.clientSocket }
  | .unlistening => { next with listening := false }
  | .completing (r :: _) => next.notify r
  | _ => next

def enabled (x : Threads) : Event → Prop
  | .server outcome => x.serverEnabled outcome
  | .boundary => x.worker = .idle
  | .worker => x.worker ≠ .idle
  | .emulator event => x.worker = .idle ∧ x.Own event
  | .main => x.main ≠ .stopped ∧ (x.main = .joining → x.server = .ended)

def step (x : Threads) : Event → Threads
  | .server outcome => x.serverStep outcome
  | .boundary => { x with worker := .popping }
  | .worker => x.workerStep parse
  | .emulator event => { x with bridge := x.bridge.step event, ran := x.ran ++ [⟨none, event⟩] }
  | .main => x.mainStep

/-- The bridge has been started, with nothing loaded. -/
def system : System Threads Event where
  init x := ∃ machine, x = { bridge := { machine := machine }, initial := { machine := machine } }
  enabled := enabled
  step := step parse

instance (x : Threads) : (e : Event) → Decidable ((system parse).enabled x e)
  | .server outcome => inferInstanceAs (Decidable (x.serverEnabled outcome))
  | .boundary => inferInstanceAs (Decidable (x.worker = .idle))
  | .worker => inferInstanceAs (Decidable (x.worker ≠ .idle))
  | .emulator event => inferInstanceAs (Decidable (x.worker = .idle ∧ x.Own event))
  | .main => inferInstanceAs (Decidable (x.main ≠ .stopped ∧ (x.main = .joining → x.server = .ended)))

end Threads

end FzeroVs.Bridge
