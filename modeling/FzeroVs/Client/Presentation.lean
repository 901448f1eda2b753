import FzeroVs.Client.Frame

namespace FzeroVs

/-- What `publish` hands to the user interface, as far as the room panel reads
it. A client without a slot has player -1. -/
structure View where
  connected : Bool := false
  player : Int := -1
  host : Int := -1
  expected : Int := 2
  phase : Phase := .lobby
  track : Int := 0
  league : Int := 0
  peers : Fin 4 → Peer := fun _ => {}

def Client.publish (c : Client) : View where
  connected := c.id != none && c.game != .disconnected
  player := match c.id with
    | some i => i.val
    | none => -1
  host := c.host.toNat
  expected := c.expected.toNat
  phase := c.phase
  track := c.track.toNat
  league := c.league.toNat
  peers := c.peers

def carName (n : Nat) : String :=
  ["Blue Falcon", "Wild Goose", "Golden Fox", "Fire Stingray"].getD n "unknown"

/-- Zero is a machine as well, so a slot without a selection goes by its status. -/
def selectedCarName (status : Status) (car : Nat) : String :=
  if Status.selected.rank ≤ status.rank ∧ status.rank ≤ Status.finished.rank then carName car
  else "Machine not selected"

def playerColor (player : Nat) : String := ["Pink", "Blue", "Green", "Yellow"].getD player "Unknown"

structure RoomPresentation where
  connected : Bool := false
  canConfigure : Bool := false
  canNext : Bool := false
  occupied : UInt32 := 0
  guidance : String := ""
  players : List String := []
  deriving DecidableEq

/-- The slots the panel has a line for. -/
def shownSlots (v : View) : List (Fin 4) := [(0 : Fin 4), 1, 2, 3].take (max 2 (min v.expected 4)).toNat

def slotLine (v : View) (i : Fin 4) : String :=
  "P" ++ toString (i.val + 1) ++ "  ·  Color: " ++ playerColor i.val ++
    (if (i.val : Int) = v.player then "  ·  You" else "") ++
    (if (i.val : Int) = v.host then "  ·  Host" else "") ++ "  —  " ++
    if (v.peers i).occupied then "Machine: " ++ selectedCarName (v.peers i).status (v.peers i).car.toNat
    else "Open slot"

def guidance (v : View) (occupied : UInt32) : String :=
  match v.phase with
  | .results => "Race complete"
  | .racing => "Racing"
  | .countdown => "Race starting"
  | .loading => "Loading track"
  | .lobby =>
    if occupied < UInt32.ofInt v.expected then "Waiting for players"
    else if ∃ i : Fin 4, (i.val : Int) = v.player ∧ (v.peers i).status.rank < Status.selected.rank then
      "Select your machine in the game"
    else "Waiting for machine selections"

def presentRoom (v : View) : RoomPresentation :=
  if v.connected = false then { guidance := "Connect to a room to see network statistics" }
  else
    let occupied := UInt32.ofNat ((shownSlots v).countP fun i => (v.peers i).occupied)
    { connected := v.connected
      canConfigure := v.player == v.host && v.phase == .lobby
      canNext := v.player == v.host && v.phase == .results
      occupied := occupied
      guidance := guidance v occupied
      players := (shownSlots v).map (slotLine v) }

/-- Whether the panel lets its user ask for these settings. -/
def validRoomChange (v : View) (players track league : UInt32) : Bool :=
  let p := presentRoom v
  p.canConfigure && decide (2 ≤ players) && decide (players ≤ 4) && decide (p.occupied ≤ players) &&
    decide (track < 5) && decide (league < 3) &&
    (players != UInt32.ofInt v.expected || track != UInt32.ofInt v.track ||
      league != UInt32.ofInt v.league)

end FzeroVs
