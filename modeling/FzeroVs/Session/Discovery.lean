import FzeroVs.Protocol.Bytes
import Mathlib

namespace FzeroVs.Session

structure Room where
  session : UInt64 := 0
  seen : Nat := 0
  name : String := ""
  address : String := ""
  players : UInt8 := 0
  occupied : UInt8 := 0
  phase : UInt8 := 0
  track : UInt8 := 0
  league : UInt8 := 0
  version : UInt8 := 0
  password : Bool := false
  deriving DecidableEq, Repr

inductive DiscoveryPhase
  | idle | searching | empty | rooms | unavailable
  deriving DecidableEq, Repr

structure DiscoveryFailure where
  operation : String
  interface : String
  message : String
  code : Int
  deriving DecidableEq, Repr

structure DiscoveryStatus where
  phase : DiscoveryPhase := .idle
  failures : List DiscoveryFailure := []
  queries : Nat := 0
  replies : Nat := 0
  deriving DecidableEq, Repr

/-- `errno` and what `strerror` says about it. -/
structure Errno where
  code : Int
  text : String

/-- What the system answers to `listen`. -/
structure ListenAnswers where
  now : Nat := 0
  interfaces : List String := []
  socket : Option Errno := none
  bind : Option Errno := none
  membership : String → Option Errno := fun _ => none
  responder : Option Errno := none

/-- What the system answers to `scan`, and the datagrams that have arrived with
their senders. -/
structure ScanAnswers where
  now : Nat := 0
  opening : List String := []
  querying : List String := []
  socket : Option Errno := none
  bind : Option Errno := none
  nonce : UInt64 := 1
  inputOutput : Errno := ⟨5, "Input/output error"⟩
  options : Option Errno := none
  multicast : String → Option Errno := fun _ => none
  send : String → Option Errno := fun _ => none
  unreachable : Errno := ⟨101, "Network is unreachable"⟩
  datagrams : List (String × List UInt8) := []
  receive : Option Errno := none

/-- The sockets are here as whether they are open. -/
structure Discovery where
  listener : Bool := false
  query : Bool := false
  responder : Bool := false
  lastQuery : Nat := 0
  nonce : UInt64 := 0
  networks : List String := []
  status : DiscoveryStatus := {}
  hostFailures : List DiscoveryFailure := []
  browseFailures : List DiscoveryFailure := []
  browseStarted : Nat := 0
  lastListen : Nat := 0

namespace Discovery

def failure (errors : List DiscoveryFailure) (operation interface : String) (error : Errno) : List DiscoveryFailure :=
  if errors.length < 16 then errors ++ [⟨operation, interface, error.text, error.code⟩] else errors

def hostFailure (d : Discovery) (operation interface : String) (error : Errno) : Discovery :=
  { d with hostFailures := failure d.hostFailures operation interface error }

def browseFailure (d : Discovery) (operation interface : String) (error : Errno) : Discovery :=
  { d with browseFailures := failure d.browseFailures operation interface error }

def retry (d : Discovery) (interfaces : List String) : Discovery :=
  { d with
    listener := false
    responder := false
    query := false
    networks := interfaces
    lastQuery := 0
    lastListen := 0
    browseStarted := 0
    status := {}
    hostFailures := []
    browseFailures := [] }

def publish (d : Discovery) (browsing : Bool) (rooms : List Room) (now : Nat) : Discovery :=
  let phase : DiscoveryPhase :=
    if browsing then
      if rooms ≠ [] then .rooms
      else if d.query = false ∧ d.browseFailures ≠ [] then .unavailable
      else if now - d.browseStarted < 2000 then .searching
      else .empty
    else if d.hostFailures = [] then .idle
    else .unavailable
  { d with status := { d.status with failures := d.hostFailures ++ d.browseFailures, phase := phase } }

/-- Open the sockets that answer browsers, and say what stands in the way. -/
def listen (d : Discovery) (error bindAddress : String) (answers : ListenAnswers) : Discovery × String :=
  if d.listener then (d, error)
  else
    let d := { d with networks := answers.interfaces, hostFailures := [], lastListen := answers.now }
    match answers.socket, answers.bind with
    | some failed, _ =>
      (d.hostFailure "socket" "discovery listener" failed,
        "LAN discovery socket unavailable; direct address still works")
    | none, some failed =>
      (d.hostFailure "bind" "0.0.0.0:12001" failed, "LAN discovery port unavailable; direct address still works")
    | none, none =>
      let joined := d.networks.any fun ip => (answers.membership ip).isNone
      let d : Discovery := d.networks.foldl (fun d ip =>
        match answers.membership ip with
        | some failed => d.hostFailure "IP_ADD_MEMBERSHIP" ip failed
        | none => d) d
      if !joined then (d, "LAN multicast unavailable; direct address still works")
      else
        match answers.responder with
        | some failed =>
          (d.hostFailure "bind reply socket" bindAddress failed,
            "LAN reply socket unavailable; direct address still works")
        | none => ({ d with listener := true, responder := true }, error)

/-- A printable character, or a question mark. -/
def printable (b : UInt8) : Char := if 32 ≤ b ∧ b < 127 then Char.ofNat b.toNat else '?'

/-- The room that a reply to our query describes. -/
def parseReply (nonce : UInt64) (now : Nat) (sender : String) (b : List UInt8) : Option Room :=
  let byte (k : Nat) := b.getD k 0
  if b.length ≠ 96 ∨ b.take 4 ≠ [70, 90, 86, 68] ∨ byte 4 ≠ 1 ∨ byte 5 ≠ 2 ∨ u64 (b.drop 8) ≠ nonce ∨
      u64 (b.drop 16) = 0 ∨ u16 (b.drop 24) = 0 ∨ u16 (b.drop 24) = 12001 ∨ 4 < byte 26 ∨ 4 < byte 27 ∨
      byte 28 < 2 ∨ 4 < byte 28 ∨ 4 < byte 29 ∨ 2 < byte 30 ∨ 1 < byte 31 then
    none
  else
    some
      { session := u64 (b.drop 16)
        seen := now
        version := byte 6
        phase := byte 26
        occupied := byte 27
        players := byte 28
        track := byte 29
        league := byte 30
        password := byte 31 ≠ 0
        name := .ofList (((b.drop 32).takeWhile (· ≠ 0)).map printable)
        address := sender ++ ":" ++ toString (u16 (b.drop 24)).toNat }

/-- The newest reply of a session stands for its room. -/
def enter (rooms : List Room) (r : Room) : List Room :=
  match rooms.findIdx? fun x => x.session == r.session with
  | some old => rooms.set old r
  | none => if rooms.length < 64 then rooms ++ [r] else rooms

/-- Rooms that have not answered for six seconds are forgotten. -/
def fresh (now : Nat) (rooms : List Room) : List Room := rooms.filter fun r => decide (now - r.seen ≤ 6000)

/-- Open the socket that browses, unless it is open. -/
def openQuery (d : Discovery) (answers : ScanAnswers) : Discovery :=
  if d.query then d
  else
    let d := { d with
      networks := answers.opening
      browseFailures := []
      lastQuery := answers.now
      nonce := answers.nonce }
    match answers.socket, answers.bind with
    | some failed, _ => d.browseFailure "socket" "discovery browser" failed
    | none, some failed => d.browseFailure "bind" "browser ephemeral port" failed
    | none, none =>
      if answers.nonce = 0 then d.browseFailure "random nonce" "browser" answers.inputOutput
      else
        match answers.options with
        | some failed => d.browseFailure "multicast options" "browser" failed
        | none => { d with query := true, lastQuery := 0 }

/-- Ask every network once in two seconds. -/
def ask (d : Discovery) (warning : String) (answers : ScanAnswers) : Discovery × String :=
  if answers.now - d.lastQuery < 2000 then (d, warning)
  else
    let d := { d with networks := answers.querying, browseFailures := [] }
    let sent := d.networks.any fun ip => (answers.multicast ip).isNone && (answers.send ip).isNone
    let d : Discovery := d.networks.foldl (fun d ip =>
      match answers.multicast ip, answers.send ip with
      | some failed, _ => d.browseFailure "IP_MULTICAST_IF" ip failed
      | none, some failed => d.browseFailure "send query" ip failed
      | none, none => { d with status := { d.status with queries := d.status.queries + 1 } }) d
    let d :=
      if sent = false ∧ d.browseFailures = [] then
        d.browseFailure "enumerate interfaces" "IPv4" answers.unreachable
      else d
    if sent then ({ d with lastQuery := answers.now }, "")
    else
      ({ d with query := false, lastQuery := answers.now },
        "Nearby games unavailable. Enter a host address or retry.")

/-- At most 64 datagrams at a time. -/
def hear (d : Discovery) (rooms : List Room) (answers : ScanAnswers) : Discovery × List Room :=
  if d.query then
    let heard := answers.datagrams.take 64
    let replies := heard.filterMap fun datagram => parseReply d.nonce answers.now datagram.1 datagram.2
    let d := { d with status := { d.status with replies := d.status.replies + replies.length } }
    let d :=
      match answers.receive with
      | some failed =>
        if heard.length < 64 then { d.browseFailure "receive reply" "browser" failed with query := false } else d
      | none => d
    (d, replies.foldl enter rooms)
  else (d, rooms)

theorem hear_nonce (d : Discovery) (rooms : List Room) (answers : ScanAnswers) :
    (d.hear rooms answers).1.nonce = d.nonce := by
  unfold hear
  split
  · dsimp only
    split
    · split <;> rfl
    · rfl
  · rfl

def scan (d : Discovery) (rooms : List Room) (warning : String) (answers : ScanAnswers) :
    Discovery × List Room × String :=
  let d := if d.browseStarted = 0 then { d with browseStarted := answers.now } else d
  if d.query = false ∧ answers.now - d.lastQuery < 2000 then (d, rooms, warning)
  else
    let d := d.openQuery answers
    if d.query = false then (d, rooms, warning)
    else
      let asked := d.ask warning answers
      let heard := asked.1.hear rooms answers
      (heard.1, fresh answers.now heard.2, asked.2)

end Discovery

end FzeroVs.Session
