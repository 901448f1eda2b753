import FzeroVs.Client.Receive

namespace FzeroVs.Client

/-- A 16-bit word of the emulated memory. -/
def word (ram : UInt32 → UInt8) (address : UInt32) : UInt16 := u16 [ram address, ram (address + 1)]

/-- A command byte with the position of the own car. -/
def position (ram : UInt32 → UInt8) (command : UInt8) : List UInt8 :=
  command :: put16 (word ram 0xb70) ++ put16 (word ram 0xb90) ++ [ram 0xbd1]

/-- Bit `i` is set when slot `i` is occupied in the last snapshot. -/
def occupiedMask (c : Client) : UInt8 :=
  [(0 : Fin 4), 1, 2, 3].foldl
    (fun mask i => if (c.peers i).occupied then mask ||| 1 <<< UInt8.ofNat i.val else mask) 0

/-- Whether the start may be made. `due` is the comparison of the estimated
server clock with the start time, in floating point. -/
def released (c : Client) (due : Bool) : Bool :=
  c.phase == .racing || (c.phase == .countdown && c.occupiedMask != 0 &&
    c.armedMask &&& c.occupiedMask == c.occupiedMask && due)

def select (c : Client) : Client :=
  if c.id ≠ none ∧ c.selectedSent = false ∧ c.phase = .lobby then
    { c.queue [Command.select.code, c.car] with selectedSent := true }
  else c

def load (c : Client) (ram : UInt32 → UInt8) : Client :=
  if c.loadedSent = false ∧ c.phase = .loading then
    { c.queue (position ram Command.loaded.code) with loadedSent := true }
  else c

def finish (c : Client) : Client :=
  if c.finishedSent = false then { c.queue [Command.finish.code] with finishedSent := true } else c

def sendState (c : Client) (ram : UInt32 → UInt8) : Client :=
  let c := { c with stateSeq := c.stateSeq + 1 }
  c.send
    { type := Kind.state.code
      length := 5
      seq := c.stateSeq
      payload := (position ram 0).drop 1 }

/-- The car behind each line of the selection menu. -/
def menu (line : UInt8) : UInt8 := [0, 2, 1, 3].getD (line &&& 3).toNat 0

/-- One emulated frame: the steps of the automaton that follows the game. What
`frame` writes into the emulated memory and the cartridge is left out. -/
def frame (c : Client) (ram : UInt32 → UInt8) (due : Bool) (now : UInt64) : Client :=
  if c.memory = false ∨ c.game = .disconnected then c
  else if c.config.baseline then { c with game := if ram 0x54 = 2 then .race else .carSelect }
  else
    match c.game with
    | .init => { c with game := .carSelect }
    | .carSelect =>
      let c := if ram 0x55 = 3 then { c with car := menu (ram 0x5a) } else c
      if ram 0x55 = 5 then { c with game := .waiting } else c
    | .waiting =>
      let c := c.select
      if c.id ≠ none ∧ c.phase = .loading then { c with game := .prepare } else c
    | .prepare => { c with game := .location }
    | .location =>
      if ram 0x54 = 2 ∧ ram 0x55 = 0 ∧ ram 0x56 = 2 then
        let c := c.load ram
        if c.released due then { c with game := .race } else c
      else c
    | .race =>
      if ram 0x54 = 3 then { c.finish with game := .finished } else c.sendState ram
    | .finished =>
      if c.phase = .results then { c with resultsTime := now, game := .results } else c
    | .results =>
      if c.config.autoNext ∧ (∃ i, c.id = some i ∧ i.val = c.host.toNat) ∧ c.resultsTime ≠ 0 ∧
          3000000 < now - c.resultsTime then
        { c.queue [Command.next.code] with resultsTime := 0 }
      else c
    | .disconnected => c

/-- The ways in which the program drives its client. -/
inductive Event
  | attach (random : Option UInt64) (now : UInt64)
  | request (command : UInt8) (data : List UInt8)
  | hear (t : UInt64) (data : List UInt8)
  | pulse (t : UInt64)
  | frame (ram : UInt32 → UInt8) (due : Bool) (now : UInt64)
  | detach

/-- A tick is taken apart into the datagrams it hears and its pulse. -/
def step (c : Client) : Event → Client
  | .attach random now => c.attach random now
  | .request command data => c.request command data
  | .hear t data => c.hear t data
  | .pulse t => if c.socket = false ∨ c.game = .disconnected then c else c.pulse t
  | .frame ram due now => c.frame ram due now
  | .detach => c.detach

end FzeroVs.Client
