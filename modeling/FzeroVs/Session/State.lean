import FzeroVs.Session.Discovery
import FzeroVs.Library.Run

namespace FzeroVs.Session

structure HostOptions where
  bind : String := "0.0.0.0"
  key : String := ""
  name : String := ""
  logPath : String := ""
  readyFile : String := ""
  port : Nat := 12000
  players : Nat := 2
  track : Nat := 0
  league : Nat := 0
  deriving DecidableEq, Repr

structure Connection where
  address : String := ""
  key : String := ""
  ownerNonce : UInt64 := 0
  generation : UInt64 := 0
  deriving DecidableEq, Repr

/-- `SessionView::state`. -/
inductive Stage
  | idle | stopping | starting | error | resolving | connecting | connected | hosting
  deriving DecidableEq, Repr

/-- `fz_server_event`. -/
structure Event where
  timeUs : Nat := 0
  session : UInt64 := 0
  race : UInt32 := 0
  level : Int := 0
  player : Int := 0
  message : String := ""
  deriving DecidableEq, Repr

/-- What the worker and the discovery read of `fz_server_status`. -/
structure ServerStatus where
  session : UInt64 := 0
  port : Nat := 0
  phase : Nat := 0
  players : Nat := 0
  occupied : Nat := 0
  track : Nat := 0
  league : Nat := 0
  ownerJoined : Bool := false
  closed : Bool := false
  deriving DecidableEq, Repr

structure SessionView where
  state : Stage := .idle
  message : String := ""
  discoveryWarning : String := ""
  addresses : String := ""
  discovery : DiscoveryStatus := {}
  hosting : Bool := false
  generation : UInt64 := 0
  server : ServerStatus := {}
  rooms : List Room := []
  events : List Event := []
  deriving DecidableEq, Repr

/-- `Command::type`. -/
inductive Kind
  | stop | host | join
  deriving DecidableEq, Repr

structure Command where
  type : Kind
  host : HostOptions := {}
  address : String := ""
  key : String := ""
  generation : UInt64 := 0
  deriving DecidableEq, Repr

/-- The result that a resolver task shares with the worker that asked for it. -/
structure Resolution where
  id : Nat
  done : Bool := false
  address : String := ""
  error : String := ""
  deriving DecidableEq, Repr

/-- A resolver task that is still under way. -/
structure Resolver where
  id : Nat
  host : String
  port : String
  deriving DecidableEq, Repr

/-- Where the worker is in `run`. Between two places it holds the mutex once at most. -/
inductive Place
  | start
  | loop
  | intake
  | retry (pending : List Command)
  | commands (pending : List Command)
  | offer (connection : Connection) (pending : List Command)
  | resolution
  | offerResolved (connection : Connection)
  | serve
  | scan
  | report
  | publication
  | wait
  | finish
  | ended
  deriving DecidableEq, Repr

/-- The local variables of `run`. -/
structure Worker where
  place : Place := .start
  server : Bool := false
  options : HostOptions := {}
  state : SessionView := {}
  discovery : Discovery := {}
  resolution : Option Resolution := none
  joinKey : String := ""
  operation : UInt64 := 0
  started : Nat := 0
  lastPublish : Nat := 0
  ready : Bool := false
  ownsReadyFile : Bool := false
  logFile : Bool := false
  lastFailure : String := ""
  lastDiscoveryReport : String := ""
  -- History: the command that is carried out.
  current : Option Command := none

/-- Where the thread of the user interface is in a call. -/
inductive Call
  | none
  | enqueue (command : Command)
  | browse (enabled : Bool)
  | retryDiscovery
  | join
  deriving DecidableEq, Repr

/-- The `Session` object, with its two threads and the resolver tasks. -/
structure State where
  commands : List Command := []
  connection : Option Connection := none
  published : SessionView := {}
  worker : Option Worker := none
  quitting : Bool := false
  browsing : Bool := false
  discoveryRetry : Bool := false
  generation : UInt64 := 0
  calling : Call := .none
  resolvers : List Resolver := []
  nextResolution : Nat := 0
  -- History: the commands accepted, how many of them since the worker was
  -- started, the connections returned, and whether a stop has returned since
  -- the last host or join was accepted.
  accepted : List Command := []
  acceptedHere : Nat := 0
  returned : List Connection := []
  stopped : Bool := false

/-- What a worker finds outside of the session on its way to the next place. One
reading of the clock stands for the few of a stretch. -/
structure Answers where
  now : Nat := 0
  interfaces : List String := []
  nonce : UInt64 := 1
  created : Except String Unit := .ok ()
  logOpened : Bool := true
  closing : List Event := []
  resolverStarted : Option String := none
  poll : Int := 1
  drained : List Event := []
  status : ServerStatus := {}
  readyOpened : Bool := true
  readyWritten : Bool := true
  listen : ListenAnswers := {}
  relisten : ListenAnswers := {}
  unanswered : List (String × Errno) := []
  scan : ScanAnswers := {}

def blank (c : Char) : Bool := c = ' ' || c = '\t' || c = '\r' || c = '\n'

def trim (text : List Char) : List Char := ((text.dropWhile blank).reverse.dropWhile blank).reverse

def portNumber (digits : List Char) : Nat := digits.foldl (fun n c => 10 * n + (c.toNat - 48)) 0

inductive Lookup
  | refused (error : String)
  | lookup (host port : String)
  deriving DecidableEq, Repr

/-- What `resolve` makes of an address before it asks. -/
def parseAddress (address : String) : Lookup :=
  let trimmed := trim address.toList
  if trimmed = [] then .refused "Enter a host address"
  else
    let address := if ':' ∈ trimmed then trimmed else trimmed ++ ":12000".toList
    let port := (address.reverse.takeWhile (· ≠ ':')).reverse
    let host := address.take (address.length - port.length - 1)
    if host = [] ∨ port = [] then .refused "Enter a hostname or IPv4 address followed by :port"
    else if 5 < port.length ∨ (port.any fun c => !c.isDigit) = true ∨ portNumber port = 0 ∨ 65535 < portNumber port ∨
        portNumber port = 12001 then
      .refused "Invalid game port (12001 is reserved for discovery)"
    else .lookup (.ofList host) (.ofList port)

/-- `resolve`: at most four tasks at a time. -/
def State.resolve (s : State) (address : String) (answers : Answers) : State × Resolution :=
  let id := s.nextResolution
  let s := { s with nextResolution := id + 1 }
  match parseAddress address with
  | .refused error => (s, { id, done := true, error })
  | .lookup host port =>
    if 4 ≤ s.resolvers.length then
      (s, { id, done := true, error := "Previous DNS requests are still finishing; retry shortly" })
    else
      match answers.resolverStarted with
      | some what => (s, { id, done := true, error := "Cannot start DNS resolver: " ++ what })
      | none => ({ s with resolvers := s.resolvers ++ [⟨id, host, port⟩] }, { id })

/-- The address of a connection to the host itself. -/
def HostOptions.localAddress (options : HostOptions) : String :=
  (if options.bind = "0.0.0.0" then "127.0.0.1" else options.bind) ++ ":" ++ toString options.port

end FzeroVs.Session
