import FzeroVs.Server.Ledger
import FzeroVs.Client.Queue
import Mathlib.Data.Fintype.Basic

namespace FzeroVs

/-- The server, its honest clients and the network between them. The network
is the history of both sides: whatever was once sent may be delivered at any
time, any number of times, or never. -/
structure Room (ι : Type) where
  server : Server
  client : ι → Client
  -- Whether the client has had its socket, and the last clock of a snapshot.
  attached : ι → Bool := fun _ => false
  clock : UInt64 := 0

namespace Room

inductive Event (ι : Type)
  | server (e : Server.Event)
  | client (i : ι) (e : Client.Event)

variable {ι : Type}

/-- Packets and timer rounds are the events that may take a snapshot. -/
def ticked (clock : UInt64) : Server.Event → UInt64
  | .packet d => d.readings.sampled.val
  | .timer _ sampled => sampled.val
  | _ => clock

def attaches : Client.Event → Bool
  | .attach _ _ => true
  | _ => false

/-- From the endpoint of a client only its own datagrams arrive, and it hears
only what was sent there; everybody else may send what he likes. No token is
drawn twice and the clock of the snapshots does not go back. A client has one
socket: whoever attaches again is another client. -/
def enabled (place : ι ↪ Endpoint) (room : Room ι) : Event ι → Prop
  | .server (.packet d) => Server.Undrawn room.server (.packet d) ∧
    room.clock ≤ d.readings.sampled.val ∧ ∀ i, d.address = place i → d.data ∈ (room.client i).sent
  | .server e => room.clock ≤ ticked room.clock e
  | .client i (.hear _ data) => ⟨place i, data⟩ ∈ room.server.sent
  | .client i (.attach _ _) => room.attached i = false
  | .client _ _ => True

instance enabled.decidable [Fintype ι] (place : ι ↪ Endpoint) (room : Room ι) :
    (e : Event ι) → Decidable (enabled place room e)
  | .server (.packet d) => inferInstanceAs (Decidable ((d.random = 0 ∨
      ∀ x ∈ room.server.drawn, x.1 ≠ d.random) ∧ room.clock ≤ d.readings.sampled.val ∧
      ∀ i, d.address = place i → d.data ∈ (room.client i).sent))
  | .server (.timer _ sampled) => inferInstanceAs (Decidable (room.clock ≤ sampled.val))
  | .server (.probe _) => inferInstanceAs (Decidable (room.clock ≤ room.clock))
  | .server .close => inferInstanceAs (Decidable (room.clock ≤ room.clock))
  | .client i (.hear _ data) => inferInstanceAs (Decidable (⟨place i, data⟩ ∈ room.server.sent))
  | .client i (.attach _ _) => inferInstanceAs (Decidable (room.attached i = false))
  | .client _ (.request _ _) => inferInstanceAs (Decidable True)
  | .client _ (.pulse _) => inferInstanceAs (Decidable True)
  | .client _ (.frame _ _ _) => inferInstanceAs (Decidable True)
  | .client _ .detach => inferInstanceAs (Decidable True)

variable {place : ι ↪ Endpoint} {room : Room ι}

theorem enabled_undrawn {e : Server.Event} (may : enabled place room (.server e)) :
    Server.Undrawn room.server e := by
  cases e with
  | packet d => exact may.1
  | timer now sampled => exact .inl rfl
  | probe now => exact .inl rfl
  | close => exact .inl rfl

theorem enabled_sent {d : Server.Incoming} (may : enabled place room (.server (.packet d))) {i : ι}
    (own : d.address = place i) : d.data ∈ (room.client i).sent := may.2.2 i own

theorem enabled_clock {e : Server.Event} (may : enabled place room (.server e)) :
    room.clock ≤ ticked room.clock e := by
  cases e with
  | packet d => exact may.2.1
  | timer now sampled => exact may
  | probe now => exact may
  | close => exact may

theorem enabled_attach {i : ι} {e : Client.Event} (may : enabled place room (.client i e))
    (attach : attaches e = true) : room.attached i = false := by
  cases e with
  | attach random now => exact may
  | _ => exact nomatch attach

variable [DecidableEq ι]

def step (room : Room ι) : Event ι → Room ι
  | .server e => { room with server := room.server.step e, clock := ticked room.clock e }
  | .client i e =>
    { room with
      client := Function.update room.client i ((room.client i).step e)
      attached := if attaches e then Function.update room.attached i true else room.attached }

def system (place : ι ↪ Endpoint) : System (Room ι) (Event ι) where
  init room := Server.system.init room.server ∧ (∀ i, Client.system.init (room.client i)) ∧
    ∀ i, room.attached i = false
  enabled := enabled place
  step := step

instance system.decidable [Fintype ι] (place : ι ↪ Endpoint) (room : Room ι) (e : Event ι) :
    Decidable ((system place).enabled room e) := enabled.decidable place room e

@[simp] theorem step_server_client (e : Server.Event) : (room.step (.server e)).client = room.client := rfl

@[simp] theorem step_server_server (e : Server.Event) :
    (room.step (.server e)).server = room.server.step e := rfl

@[simp] theorem step_client_server (i : ι) (e : Client.Event) :
    (room.step (.client i e)).server = room.server := rfl

@[simp] theorem step_client_self (i : ι) (e : Client.Event) :
    (room.step (.client i e)).client i = (room.client i).step e := by
  simp [step]

theorem step_client_ne {i j : ι} (e : Client.Event) (other : j ≠ i) :
    (room.step (.client i e)).client j = room.client j := by
  simp [step, other]

variable {allow : Room ι → Event ι → Prop}

theorem reach_server (reach : (system place).Reach allow room) : Server.system.Reachable room.server := by
  refine reach.invariant (P := fun room => Server.system.Reachable room.server)
    (fun room init => .start init.1) fun room e _ may _ holds => ?_
  cases e with
  | server e => exact .next e holds trivial trivial
  | client i e => exact holds

/-- The induction over what the server and one client do. -/
theorem reach_pair {i : ι} {P : Server → Client → Prop} (reach : (system place).Reach allow room)
    (initial : ∀ s c, Server.system.init s → Client.system.init c → P s c)
    (server : ∀ room e, (system place).Reach allow room → enabled place room (.server e) →
      allow room (.server e) → P room.server (room.client i) → P (room.server.step e) (room.client i))
    (client : ∀ room e, (system place).Reach allow room → enabled place room (.client i e) →
      allow room (.client i e) → P room.server (room.client i) → P room.server ((room.client i).step e)) :
    P room.server (room.client i) := by
  refine reach.invariant (P := fun room => P room.server (room.client i))
    (fun room init => initial _ _ init.1 (init.2.1 i)) fun room e previous may allowed holds => ?_
  cases e with
  | server e => exact server room e previous may allowed holds
  | client j e =>
    change P room.server ((room.step (.client j e)).client i)
    by_cases isJ : i = j
    · subst isJ
      rw [step_client_self]
      exact client room e previous may allowed holds
    · rw [step_client_ne e isJ]
      exact holds

theorem reach_client (reach : (system place).Reach allow room) (i : ι) :
    Client.system.Reachable (room.client i) :=
  reach_pair (P := fun _ c => Client.system.Reachable c) reach (fun _ _ _ init => .start init)
    (fun _ _ _ _ _ holds => holds) fun _ e _ _ _ holds => .next e holds trivial trivial

theorem reach_ledger (reach : (system place).Reach allow room) : Server.Ledger room.server := by
  refine reach.invariant (P := fun room => Server.Ledger room.server)
    (fun room init => .create init.1) fun room e _ may _ ledger => ?_
  cases e with
  | server e => exact ledger.step (enabled_undrawn may)
  | client i e => exact ledger

/-! A client in a race against a rival whose datagrams are just made up. -/

def samplePlace : Fin 1 ↪ Endpoint := ⟨fun _ => Server.sampleGuest, fun _ _ _ => Subsingleton.elim _ _⟩

def sampleLobby : Room (Fin 1) where
  server := Server.sampleRoom
  client _ := {}

instance : NeZero 1 := ⟨by decide⟩

/-- The client hears the last datagram sent to it. -/
def sampleHear (room : Room (Fin 1)) : Event (Fin 1) :=
  .client 0 (.hear 1500000
    ((room.server.sent.filter fun d => d.address = Server.sampleGuest).getLastD ⟨Server.sampleGuest, []⟩).data)

/-- The server receives the last datagram of this kind that the client sent. -/
def sampleDeliver (kind : Kind) (token : UInt64) (room : Room (Fin 1)) : Event (Fin 1) :=
  .server (.packet ⟨.at Server.sampleClock, token, Server.sampleGuest,
    ((room.client 0).sent.filter fun data => (decode data).any (·.is kind)).getLastD []⟩)

def sampleMenu (address : UInt32) : UInt8 := if address = 0x55 then 5 else 0

def sampleGrid (address : UInt32) : UInt8 := if address = 0x54 ∨ address = 0x56 then 2 else 0

/-- The events of a script whose lines depend on what has happened before. -/
def play (room : Room ι) : List (Room ι → Event ι) → List (Event ι)
  | [] => []
  | line :: rest => line room :: (room.step (line room)).play rest

def sampleScript : List (Room (Fin 1) → Event (Fin 1)) :=
  let frame ram : Room (Fin 1) → Event (Fin 1) := fun _ => .client 0 (.frame ram true 1500000)
  let pulse : Room (Fin 1) → Event (Fin 1) := fun _ => .client 0 (.pulse 1500000)
  let rival command : Room (Fin 1) → Event (Fin 1) := fun _ => .server command
  [fun _ => .client 0 (.attach (some 9) 1000000), pulse, sampleDeliver .hello 77,
    fun room => .client 0 (.hear 1500000 ((room.server.sent.headD ⟨Server.sampleGuest, []⟩).data)),
    sampleHear, frame sampleMenu, frame sampleMenu, frame sampleMenu, pulse,
    rival (Server.sampleHello Server.sampleRival 78),
    rival (Server.sampleCommand Server.sampleRival 78 1 [1, 3]), sampleDeliver .command 0, sampleHear,
    frame sampleGrid, frame sampleGrid, frame sampleGrid, pulse,
    rival (Server.sampleCommand Server.sampleRival 78 2 [2, 4, 0, 5, 0, 6]), sampleDeliver .command 0, sampleHear,
    pulse, rival (Server.sampleCommand Server.sampleRival 78 3 (3 :: put64 3000000)), sampleDeliver .command 0,
    sampleHear, frame sampleGrid]

def sampleEvents : List (Event (Fin 1)) := sampleLobby.play sampleScript

theorem sampleLobby_init : (system samplePlace).init sampleLobby :=
  ⟨Server.sampleRoom_init, fun _ => ⟨{}, rfl⟩, fun _ => rfl⟩

end Room

end FzeroVs
