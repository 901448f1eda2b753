import FzeroVs.Session.State

namespace FzeroVs.Session

namespace Worker

/-- The log keeps the last 512 events. -/
def push (w : Worker) (e : Event) : Worker :=
  let kept := if w.state.events.length = 512 then w.state.events.tail else w.state.events
  { w with state := { w.state with events := kept ++ [e] } }

def drain (w : Worker) (events : List Event) : Worker := events.foldl push w

def stopServer (w : Worker) (answers : Answers) : Worker :=
  let w := if w.server then { w.drain answers.closing with server := false } else w
  { w with
    logFile := false
    ownsReadyFile := false
    discovery := { w.discovery with listener := false, responder := false }
    resolution := none
    state := { w.state with hosting := false, server := {} }
    ready := false }

def setState (w : Worker) (state : Stage) : Worker := { w with state := { w.state with state := state } }

def fail (w : Worker) (message : String) : Worker := { w with state := { w.state with state := .error, message := message } }

/-- Stop the server, and only then say why. -/
def give (w : Worker) (state : Stage) (message : String) (answers : Answers) : Worker :=
  (({ w with state := { w.state with message := message } } : Worker).stopServer answers).setState state

/-- The addresses under which guests can reach the host. -/
def addresses (w : Worker) : String :=
  let reachable := w.discovery.networks.filter fun ip =>
    ip ≠ "127.0.0.1" && (w.options.bind = "0.0.0.0" || w.options.bind = ip)
  let listed := String.join (reachable.map fun ip => ip ++ ":" ++ toString w.options.port ++ "\n")
  if w.options.bind = "0.0.0.0" then listed ++ "127.0.0.1:" ++ toString w.options.port
  else if listed = "" then w.options.bind ++ ":" ++ toString w.options.port
  else listed

/-- Every command begins with the end of the one before. -/
def take (w : Worker) (c : Command) (answers : Answers) : Worker :=
  let w := w.stopServer answers
  { w with
    operation := c.generation
    current := some c
    state := { w.state with generation := c.generation, message := "", state := .idle } }

def named (options : HostOptions) : HostOptions :=
  if options.name = "" then { options with name := "F-Zero VS" } else options

/-- Create the room, if its name, the server and the log allow it. -/
def createRoom (w : Worker) (pending : List Command) (answers : Answers) : Worker :=
  if 63 < w.options.name.utf8ByteSize then w.fail "Room name must be at most 63 bytes"
  else
    match answers.created with
    | .error error => w.fail error
    | .ok () =>
      if w.options.logPath ≠ "" ∧ answers.logOpened = false then
        { w with server := true }.give .error "Cannot open host log file" answers
      else
        { w with
          server := true
          logFile := w.options.logPath ≠ ""
          started := answers.now
          state := { w.state with hosting := true, addresses := w.addresses }
          place := .offer ⟨w.options.localAddress, w.options.key, answers.nonce, w.operation⟩ pending }

def host (w : Worker) (options : HostOptions) (pending : List Command) (answers : Answers) : Worker :=
  let w := { w.setState .starting with options := options, place := .commands pending }
  if answers.nonce = 0 then w.fail "Cannot create host identity"
  else { w with options := named options }.createRoom pending answers

/-- Look whether the resolver task is done, if there is one. -/
def readResolution (w : Worker) : Worker :=
  match w.resolution with
  | none => { w with place := .serve }
  | some r =>
    if r.done then
      let w := { w with resolution := none }
      if r.error ≠ "" then { w.fail r.error with place := .serve }
      else
        { w.setState .connecting with place := .offerResolved ⟨r.address, w.joinKey, 0, w.operation⟩ }
    else { w with place := .serve }

def listen (w : Worker) (answers : ListenAnswers) : Worker :=
  let heard := w.discovery.listen w.state.discoveryWarning w.options.bind answers
  { w with discovery := heard.1, state := { w.state with discoveryWarning := heard.2 } }

/-- The replies that `advertise` could not send. -/
def advertise (w : Worker) (answers : Answers) : Worker :=
  if w.discovery.listener = true ∧ w.state.server.ownerJoined = true ∧ w.state.server.closed = false then
    { w with discovery := answers.unanswered.foldl (fun d failed => d.hostFailure "send reply" failed.1 failed.2) w.discovery }
  else w

def wantsReadyFile (w : Worker) : Bool := w.options.readyFile ≠ ""

/-- The owner has joined the room that was created for it. -/
def becomeReady (w : Worker) (answers : Answers) : Worker :=
  if w.wantsReadyFile && !(answers.readyOpened && answers.readyWritten) then
    { w with ownsReadyFile := answers.readyOpened || w.ownsReadyFile }.give .error "Cannot write host readiness file" answers
  else
    { w.setState .hosting with
      ownsReadyFile := w.wantsReadyFile || w.ownsReadyFile
      ready := true }.listen answers.listen

/-- What the poll of the server says about the room. -/
def answerPoll (w : Worker) (answers : Answers) : Worker :=
  if answers.poll < 0 then w.give .error "Server socket failed" answers
  else if answers.poll = 0 then w.give .idle "Host left; room ended" answers
  else if w.ready = false ∧ w.state.server.ownerJoined = true then w.becomeReady answers
  else if w.ready = false ∧ 10000 < answers.now - w.started then
    w.give .error "Local host failed to join reserved P1 slot" answers
  else w

/-- Try to listen again after two seconds. -/
def relisten (w : Worker) (answers : Answers) : Worker :=
  if w.discovery.listener = false ∧ 2000 ≤ answers.now - w.discovery.lastListen then w.listen answers.relisten else w

def setServer (w : Worker) (status : ServerStatus) : Worker := { w with state := { w.state with server := status } }

def pollServer (w : Worker) (answers : Answers) : Worker :=
  if w.server = false then w
  else
    let w := ((w.drain answers.drained).setServer answers.status).answerPoll answers
    if w.server = true ∧ w.ready = true then (w.relisten answers).advertise answers else w

/-- The field of an event holds 511 bytes. -/
def message (text : String) : String := .ofList (text.toList.take 511)

/-- One event for each failure. -/
def reportFailure (w : Worker) (answers : Answers) : Worker :=
  let key := toString w.operation ++ w.state.message
  if w.state.state = .error ∧ key ≠ w.lastFailure then
    ({ w with lastFailure := key }).push
      { timeUs := answers.now * 1000, level := 0, player := -1, message := message w.state.message }
  else w

def serve (w : Worker) (answers : Answers) : Worker :=
  { (w.pollServer answers).reportFailure answers with place := .scan }

/-- Find rooms, or forget them when nobody browses. -/
def look (w : Worker) (browsing : Bool) (answers : Answers) : Worker :=
  if browsing then
    let found := w.discovery.scan w.state.rooms w.state.discoveryWarning answers.scan
    { w with
      discovery := found.1
      state := { w.state with
        rooms := Discovery.fresh answers.now found.2.1
        discoveryWarning := found.2.2 } }
  else
    { w with
      discovery := { w.discovery with query := false, browseStarted := 0 }
      state := { w.state with rooms := [] } }

def scan (w : Worker) (browsing : Bool) (answers : Answers) : Worker :=
  { w.look browsing answers with place := .report }

def retryDiscovery (w : Worker) (interfaces : List String) : Worker :=
  { w with
    discovery := w.discovery.retry interfaces
    state := { w.state with discoveryWarning := "", rooms := [] } }

/-- The player is connected, as the user interface has said. -/
def confirm (w : Worker) (published : SessionView) : Worker :=
  if published.state = .connected ∧ w.state.state = .connecting ∧ published.generation = w.operation then
    w.setState .connected
  else w

def reportText (failures : List DiscoveryFailure) : String :=
  String.join (failures.map fun f =>
    f.operation ++ " [" ++ f.interface ++ "]: " ++ f.message ++ " (" ++ toString f.code ++ ")\n")

/-- Tell of the discovery when there is something new. -/
def tell (w : Worker) (answers : Answers) : Worker :=
  let text := reportText w.state.discovery.failures
  if text ≠ w.lastDiscoveryReport then
    { w.push
        { timeUs := answers.now * 1000
          player := -1
          level := if text = "" then 1 else 0
          message := message ("Discovery: " ++ if text = "" then "recovered" else text) } with
      lastDiscoveryReport := text }
  else w

def publishDiscovery (w : Worker) (browsing : Bool) (answers : Answers) : Worker :=
  let discovery := w.discovery.publish browsing w.state.rooms answers.now
  let warning := if discovery.status.phase ≠ .unavailable then "" else w.state.discoveryWarning
  { w with
    discovery := discovery
    state := { w.state with discovery := discovery.status, discoveryWarning := warning } }

/-- The last stretch before it may be time to publish. -/
def report (w : Worker) (browsing : Bool) (answers : Answers) : Worker :=
  let w := (w.publishDiscovery browsing answers).tell answers
  { w with place := if 50 ≤ answers.now - w.lastPublish then .publication else .wait }

end Worker

namespace State

def process (s : State) (w : Worker) (c : Command) (pending : List Command) (answers : Answers) : State :=
  let w := w.take c answers
  match c.type with
  | .stop => { s with worker := some { w with place := .commands pending } }
  | .host => { s with worker := some (w.host c.host pending answers) }
  | .join =>
    let asked := s.resolve c.address answers
    { asked.1 with
      worker := some { w.setState .resolving with
        joinKey := c.key
        resolution := some asked.2
        place := .commands pending } }

/-- Hand a connection over, unless another command has been accepted. -/
def offer (s : State) (w : Worker) (connection : Connection) (place : Place) : State :=
  { s with
    connection := if w.operation = s.generation then some connection else s.connection
    worker := some { w with place := place } }

def publication (s : State) (w : Worker) (answers : Answers) : State :=
  let w := w.confirm s.published
  { s with
    published := if w.operation = s.generation then w.state else s.published
    worker := some { w with lastPublish := answers.now, place := .wait } }

/-- The worker goes on to its next place. -/
def run (s : State) (w : Worker) (answers : Answers) : State :=
  match w.place with
  | .start =>
    { s with worker := some { w with
        state := { w.state with events := s.published.events }
        discovery := { networks := answers.interfaces }
        place := .loop } }
  | .loop =>
    if s.quitting then { s with worker := some { (w.stopServer answers).setState .idle with place := .finish } }
    else { s with worker := some { w with place := .intake } }
  | .intake => { s with commands := [], worker := some { w with place := .retry s.commands } }
  | .retry pending =>
    let w := if s.discoveryRetry then w.retryDiscovery answers.interfaces else w
    { s with discoveryRetry := false, worker := some { w with place := .commands pending } }
  | .commands [] => { s with worker := some { w with place := .resolution } }
  | .commands (c :: pending) => s.process w c pending answers
  | .offer connection pending => s.offer w connection (.commands pending)
  | .resolution => { s with worker := some w.readResolution }
  | .offerResolved connection => s.offer w connection .serve
  | .serve => { s with worker := some (w.serve answers) }
  | .scan => { s with worker := some (w.scan s.browsing answers) }
  | .report => { s with worker := some (w.report s.browsing answers) }
  | .publication => s.publication w answers
  | .wait => { s with worker := some { w with place := .loop } }
  | .finish =>
    { s with
      published := w.state
      connection := none
      commands := []
      worker := some { w with place := .ended } }
  | .ended => s

/-- `failed` is why the thread could not be started, if it could not. -/
def start (s : State) (failed : Option String) : State :=
  if s.worker.isSome then s
  else
    match failed with
    | none => { s with quitting := false, worker := some {}, acceptedHere := 0 }
    | some what =>
      { s with
        quitting := false
        published := { s.published with state := .error, message := "Cannot start session worker: " ++ what } }

/-- `enqueue` after its `start`. -/
def enqueue (s : State) (c : Command) : Bool × State :=
  if s.worker = none then (false, { s with stopped := s.stopped || c.type = .stop })
  else if c.type ≠ .stop ∧ 8 ≤ s.commands.length then (false, s)
  else
    let c := { c with generation := s.generation + 1 }
    (true,
      { s with
        generation := s.generation + 1
        published := { s.published with
          state := if c.type = .stop then .stopping else .starting
          message := ""
          generation := s.generation + 1 }
        commands := (if c.type = .stop then [] else s.commands) ++ [c]
        connection := none
        accepted := s.accepted ++ [c]
        acceptedHere := s.acceptedHere + 1
        stopped := c.type = .stop })

def takeConnection (s : State) : Option Connection × State :=
  match s.connection with
  | none => (none, s)
  | some out =>
    if out.generation ≠ s.generation then (none, { s with connection := none })
    else (some out, { s with connection := none, returned := s.returned ++ [out] })

def connected (s : State) : State :=
  if s.published.state = .connecting then { s with published := { s.published with state := .connected } } else s

/-- A resolver task shares its result. -/
def resolved (s : State) (id : Nat) (answer : Except String String) : State :=
  match s.resolvers.find? fun t => t.id == id with
  | none => s
  | some t =>
    let done (r : Resolution) : Resolution :=
      if r.id ≠ id then r
      else
        match answer with
        | .error what => { r with done := true, error := "Cannot resolve server: " ++ what }
        | .ok ip => { r with done := true, address := ip ++ ":" ++ t.port }
    { s with
      resolvers := s.resolvers.erase t
      worker := s.worker.map fun w => { w with resolution := w.resolution.map done } }

/-- The second half of a call. -/
def finish (s : State) : State :=
  match s.calling with
  | .enqueue c => { (s.enqueue c).2 with calling := .none }
  | .browse enabled => { s with browsing := enabled, calling := .none }
  | .retryDiscovery => { s with discoveryRetry := true, calling := .none }
  | _ => s

inductive Action
  | start (failed : Option String)
  | call (call : Call) (failed : Option String)
  | finish
  | shutdown
  | joined
  | connected
  | takeConnection
  | worker (answers : Answers)
  | resolved (id : Nat) (answer : Except String String)

/-- The user interface is one thread, so it makes one call at a time. -/
def enabled (s : State) : Action → Prop
  | .start _ => s.calling = .none
  | .call call _ => s.calling = .none ∧ call ≠ .none ∧ call ≠ .join
  | .finish => s.calling ≠ .none ∧ s.calling ≠ .join
  | .shutdown => s.calling = .none
  | .joined => s.calling = .join ∧ ∀ w, s.worker = some w → w.place = .ended
  | .connected | .takeConnection => True
  | .worker _ => s.worker.isSome = true
  | .resolved id _ => ∃ t ∈ s.resolvers, t.id = id

def step (s : State) : Action → State
  | .start failed => s.start failed
  | .call call failed => { s.start failed with calling := call }
  | .finish => s.finish
  | .shutdown => { s with quitting := true, calling := .join }
  | .joined => { s with worker := none, calling := .none }
  | .connected => s.connected
  | .takeConnection => s.takeConnection.2
  | .worker answers =>
    match s.worker with
    | none => s
    | some w => s.run w answers
  | .resolved id answer => s.resolved id answer

def system : System State Action where
  init s := s = {}
  enabled := enabled
  step := step

instance system.decidable (s : State) : (e : Action) → Decidable (system.enabled s e)
  | .start _ => inferInstanceAs (Decidable (s.calling = .none))
  | .call call _ => inferInstanceAs (Decidable (s.calling = .none ∧ call ≠ .none ∧ call ≠ .join))
  | .finish => inferInstanceAs (Decidable (s.calling ≠ .none ∧ s.calling ≠ .join))
  | .shutdown => inferInstanceAs (Decidable (s.calling = .none))
  | .joined => inferInstanceAs (Decidable (s.calling = .join ∧ ∀ w ∈ s.worker, w.place = .ended))
  | .connected | .takeConnection => inferInstanceAs (Decidable True)
  | .worker _ => inferInstanceAs (Decidable (s.worker.isSome = true))
  | .resolved id _ => inferInstanceAs (Decidable (∃ t ∈ s.resolvers, t.id = id))

end State

end FzeroVs.Session
