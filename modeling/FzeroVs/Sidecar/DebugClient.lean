import FzeroVs.Bridge.Framing
import FzeroVs.Library.Run
import Mathlib.Logic.Function.Basic

namespace FzeroVs.Sidecar

open Bridge

/-- The arguments of `request`. -/
structure Call where
  command : String
  parameters : List (String × Value) := []
  retryable : Option Bool := none

def readOnlyCommands : List String :=
  ["emulator.status", "cpu.registers", "cpu.disassemble", "memory.read", "rom.read", "rom.patch.list"]

/-- Reading the bus may have an effect. -/
def Call.readsBus (c : Call) : Bool :=
  c.command == "memory.read" &&
    match c.parameters.lookup "domain" with
    | some (.text domain) => domain == ascii "bus"
    | _ => false

def Call.retries (c : Call) : Bool := c.retryable.getD (readOnlyCommands.contains c.command && !c.readsBus)

def Call.attempts (c : Call) : Nat := if c.retries then 2 else 1

/-- A response object. Its fields are here under their names, as JSON text. -/
structure Reply where
  id : Option Nat
  ok : Bool := true
  error : Option (Option Bytes × Option Bytes) := none
  fields : List (String × Bytes) := []
  -- History: the request that the bridge answers.
  about : Option Nat

/-- A line as `json.loads` takes it. What is not UTF-8 is no `JSONDecodeError`. -/
inductive Line
  | reply (r : Reply)
  | notObject
  | malformed
  | undecodable

/-- `connection` may say that the mutation may have completed. -/
inductive Error
  | connection (mayHaveCompleted : Bool)
  | command (code message : Bytes)
  | incompatible
  | cancelled
  | unexpected

/-- Where a call is: each place but the first and the last two is an `await` under
the lock. What `returned` gives back is the fields of its reply. -/
inductive Place
  | waiting
  | connecting (attempt : Nat)
  | draining (attempt id : Nat) (handshake : Bool)
  | reading (attempt id : Nat) (handshake : Bool)
  | disconnecting (attempt : Nat) (next : Option Error)
  | returned (id : Nat) (reply : Reply)
  | raised (error : Error)

/-- The stream that is open: the lines that have arrived and not been read. -/
structure Connection where
  arrived : List Line := []
  ended : Bool := false
  closing : Bool := false

/-- A line that was written. -/
structure Sent where
  id : Nat
  call : Nat
  handshake : Bool
  line : Bytes

/-- `AresDebugClient`, with the calls that were made of it. -/
structure DebugClient where
  connection : Option Connection := none
  compatible : Bool := false
  nextId : Nat := 1
  locked : Option Nat := none
  calls : List Call := []
  place : Nat → Place := fun _ => .waiting
  -- History: every line written.
  sent : List Sent := []

namespace DebugClient

def call (s : DebugClient) (k : Nat) : Call := s.calls.getD k { command := "" }

def go (s : DebugClient) (k : Nat) (p : Place) : DebugClient := { s with place := Function.update s.place k p }

/-- The call ends, and lets go of the lock. -/
def leave (s : DebugClient) (k : Nat) (p : Place) : DebugClient := { s.go k p with locked := none }

/-- `_exchange_locked` up to its first `await`. Whoever calls it has the stream
before him. -/
def write (s : DebugClient) (k attempt : Nat) (handshake : Bool) : DebugClient :=
  let requestId := s.nextId
  let line :=
    if handshake then requestLine requestId "emulator.status" []
    else requestLine requestId (s.call k).command (s.call k).parameters
  { s.go k (.draining attempt requestId handshake) with
    nextId := requestId + 1
    sent := s.sent ++ [⟨requestId, k, handshake, line⟩] }

def ensureConnected (s : DebugClient) (k attempt : Nat) : DebugClient :=
  match s.connection with
  | some c => if !c.closing && s.compatible then s.write k attempt false else s.go k (.connecting attempt)
  | none => s.go k (.connecting attempt)

/-- After an error there is another attempt, or the error is raised. -/
def proceed (s : DebugClient) (k attempt : Nat) : Option Error → DebugClient
  | none => s.ensureConnected k (attempt + 1)
  | some e => s.leave k (.raised e)

/-- `_disconnect_locked`, and what comes after it. -/
def disconnect (s : DebugClient) (k attempt : Nat) (next : Option Error) : DebugClient :=
  let closed := { s with connection := none, compatible := false }
  if s.connection.isSome then closed.go k (.disconnecting attempt next) else closed.proceed k attempt next

/-- The errors that may be followed by a second attempt. -/
def fail (s : DebugClient) (k attempt : Nat) : DebugClient :=
  s.disconnect k attempt
    (if attempt + 1 < (s.call k).attempts then none else some (.connection (!(s.call k).retries)))

/-- `_exchange_locked` after its last `await`. -/
def receive (s : DebugClient) (k attempt id : Nat) (handshake : Bool) : Line → DebugClient
  | .malformed | .notObject => s.fail k attempt
  | .undecodable => s.leave k (.raised .unexpected)
  | .reply r =>
    if r.id ≠ some id then s.fail k attempt
    else if !r.ok then
      match r.error with
      | some (code, message) =>
        s.leave k (.raised (.command (code.getD (ascii "UNKNOWN_ERROR"))
          (message.getD (ascii "ares rejected the request"))))
      | none => s.fail k attempt
    else if handshake then
      if r.fields.lookup "protocol_version" ≠ some (ascii "1") then s.disconnect k attempt (some .incompatible)
      else { s with compatible := true }.write k attempt false
    else s.leave k (.returned id r)

/-- A line is read, or nothing before the end of the stream. -/
def readLine (s : DebugClient) (k attempt id : Nat) (handshake : Bool) : DebugClient :=
  match s.connection with
  | some c =>
    match c.arrived with
    | line :: rest =>
      { s with connection := some { c with arrived := rest } }.receive k attempt id handshake line
    | [] => s.fail k attempt
  | none => s.fail k attempt

/-- How an `await` ends: `broken` is an `OSError` or a timeout. -/
inductive Outcome
  | done
  | broken
  | cancelled
  | unexpected

def resume (s : DebugClient) (k : Nat) : Outcome → DebugClient
  | .cancelled => s.leave k (.raised .cancelled)
  | .unexpected => s.leave k (.raised .unexpected)
  | .broken =>
    match s.place k with
    | .connecting attempt | .draining attempt _ _ | .reading attempt _ _ => s.fail k attempt
    | .disconnecting attempt next => s.proceed k attempt next
    | .waiting | .returned .. | .raised _ => s
  | .done =>
    match s.place k with
    | .connecting attempt => { s with connection := some {}, compatible := false }.write k attempt true
    | .draining attempt id handshake => s.go k (.reading attempt id handshake)
    | .reading attempt id handshake => s.readLine k attempt id handshake
    | .disconnecting attempt next => s.proceed k attempt next
    | .waiting | .returned .. | .raised _ => s

/-- A task calls `request`, is cancelled before it has the lock, gets the lock, or
goes on after an `await`; somebody calls `close`; a line arrives, the stream ends,
or its writer begins to close. -/
inductive Event
  | call (c : Call)
  | withdraw (k : Nat)
  | acquire (k : Nat)
  | resume (k : Nat) (o : Outcome)
  | close
  | arrive (line : Line)
  | ended
  | closing

/-- An answer carries the id of the request that it answers, or null. -/
def Echoes (s : DebugClient) : Line → Prop
  | .reply r => (r.id = none ∨ r.id = r.about) ∧ ∀ i ∈ r.about, i ∈ s.sent.map Sent.id
  | _ => True

instance Echoes.decidable (s : DebugClient) : (line : Line) → Decidable (s.Echoes line)
  | .reply r =>
    inferInstanceAs (Decidable ((r.id = none ∨ r.id = r.about) ∧ ∀ i ∈ r.about, i ∈ s.sent.map Sent.id))
  | .notObject | .malformed | .undecodable => inferInstanceAs (Decidable True)

def onConnection (s : DebugClient) (f : Connection → Connection) : DebugClient :=
  { s with connection := s.connection.map f }

def step (s : DebugClient) : Event → DebugClient
  | .call c => { s with calls := s.calls ++ [c] }
  | .withdraw k => s.go k (.raised .cancelled)
  | .acquire k => { s with locked := some k }.ensureConnected k 0
  | .resume k o => s.resume k o
  | .close => { s with connection := none, compatible := false }
  | .arrive line => s.onConnection fun c => { c with arrived := c.arrived ++ [line] }
  | .ended => s.onConnection fun c => { c with ended := true }
  | .closing => s.onConnection fun c => { c with closing := true }

def isWaiting : Place → Bool
  | .waiting => true
  | _ => false

def isReading : Place → Bool
  | .reading .. => true
  | _ => false

/-- A read that ends has a line before it, or the end of the stream. -/
def Ready (s : DebugClient) (k : Nat) : Outcome → Prop
  | .done => isReading (s.place k) = true → ∀ c ∈ s.connection, c.arrived.isEmpty = true → c.ended = true
  | .broken | .cancelled | .unexpected => True

instance Ready.decidable (s : DebugClient) (k : Nat) : (o : Outcome) → Decidable (s.Ready k o)
  | .done =>
    inferInstanceAs (Decidable
      (isReading (s.place k) = true → ∀ c ∈ s.connection, c.arrived.isEmpty = true → c.ended = true))
  | .broken | .cancelled | .unexpected => inferInstanceAs (Decidable True)

/-- Any tasks, in any order, against a bridge that says what it likes but echoes
ids. No tool has a parameter `id`: it would take the place of the request's. -/
def system : System DebugClient Event where
  init s := s = {}
  enabled s
    | .call c => c.parameters.lookup "id" = none
    | .withdraw k => k < s.calls.length ∧ isWaiting (s.place k) = true
    | .acquire k => k < s.calls.length ∧ isWaiting (s.place k) = true ∧ s.locked = none
    | .resume k o => s.locked = some k ∧ s.Ready k o
    | .close => s.locked = none
    | .arrive line => s.connection.isSome = true ∧ Echoes s line
    | .ended | .closing => s.connection.isSome = true
  step := step

instance system.decidable (s : DebugClient) : (e : Event) → Decidable (system.enabled s e)
  | .call c => inferInstanceAs (Decidable (c.parameters.lookup "id" = none))
  | .withdraw k => inferInstanceAs (Decidable (k < s.calls.length ∧ isWaiting (s.place k) = true))
  | .acquire k => inferInstanceAs (Decidable (k < s.calls.length ∧ isWaiting (s.place k) = true ∧ s.locked = none))
  | .resume k o => inferInstanceAs (Decidable (s.locked = some k ∧ s.Ready k o))
  | .close => inferInstanceAs (Decidable (s.locked = none))
  | .arrive line => inferInstanceAs (Decidable (s.connection.isSome = true ∧ s.Echoes line))
  | .ended | .closing => inferInstanceAs (Decidable (s.connection.isSome = true))

/-- What a call has transmitted of its own command. -/
def transmitted (s : DebugClient) (k : Nat) : List Sent := s.sent.filter fun t => t.call == k && !t.handshake

end DebugClient

end FzeroVs.Sidecar
