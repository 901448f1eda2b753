import FzeroVs.Protocol.Packet

namespace FzeroVs

/-- The commands that bring a player past a barrier, each of which a client
numbers once in a generation. -/
inductive Shot
  | select | loaded | finish
  deriving DecidableEq, Repr

namespace Shot

def command : Shot → Command
  | .select => .select
  | .loaded => .loaded
  | .finish => .finish

/-- The status that the command gives to its slot. -/
def status : Shot → Status
  | .select => .selected
  | .loaded => .loaded
  | .finish => .finished

/-- The phase in which the room applies the command. -/
def phase : Shot → Phase
  | .select => .lobby
  | .loaded => .loading
  | .finish => .racing

def size : Shot → Nat
  | .select => 2
  | .loaded => 6
  | .finish => 1

/-- The payload is such a command, well formed. -/
structure Fits (shot : Shot) (payload : List UInt8) : Prop where
  size : payload.length = shot.size
  command : payload.getD 0 0 = shot.command.code
  car : shot = .select → payload.getD 1 0 < 4

instance Fits.decidable (shot : Shot) (payload : List UInt8) : Decidable (shot.Fits payload) :=
  decidable_of_iff (payload.length = shot.size ∧ payload.getD 0 0 = shot.command.code ∧
    (shot = .select → payload.getD 1 0 < 4))
    ⟨fun ⟨size, command, car⟩ => ⟨size, command, car⟩, fun fits => ⟨fits.size, fits.command, fits.car⟩⟩

end Shot

theorem Packet.body_getD {packet : Packet} {k : Nat} (within : k < packet.body.length) :
    packet.body.getD k 0 = packet.byte k := by
  have short : k < packet.length.toNat := by simpa [Packet.body] using within
  simp [Packet.body, short]

theorem Shot.Fits.packet {shot : Shot} {packet : Packet} (fits : shot.Fits packet.body) :
    packet.length = UInt16.ofNat shot.size ∧ Command.ofCode (packet.byte 0) = some shot.command ∧
      (shot = .select → packet.byte 1 < 4) := by
  have length : packet.length.toNat = shot.size := by simpa [Packet.body] using fits.size
  have byte {k : Nat} (within : k < shot.size) : packet.body.getD k 0 = packet.byte k :=
    Packet.body_getD (by rw [fits.size]; exact within)
  refine ⟨by rw [← length, UInt16.ofNat_toNat], ?_, fun select => ?_⟩
  · rw [← byte (by cases shot <;> decide), fits.command, Command.ofCode_code]
  · rw [← byte (by rw [select]; decide)]
    exact fits.car select

end FzeroVs
