import FzeroVs.Library.Serial
import FzeroVs.Library.Run
import FzeroVs.Library.Counter
import FzeroVs.Protocol.Bytes
import FzeroVs.Protocol.Packet
import FzeroVs.Server.State
import FzeroVs.Server.Receive
import FzeroVs.Server.Poll
import FzeroVs.Server.Slots
import FzeroVs.Server.Moves
import FzeroVs.Server.Seating
import FzeroVs.Server.Staging
import FzeroVs.Server.Barriers
import FzeroVs.Server.Generations
import FzeroVs.Server.Lobbies
import FzeroVs.Server.Advance
import FzeroVs.Server.Movement
import FzeroVs.Server.Deadline
import FzeroVs.Server.Roster
import FzeroVs.Server.Wire
import FzeroVs.Server.Ledger
import FzeroVs.Server.Receipts
import FzeroVs.Server.Chronicle
import FzeroVs.Client.State
import FzeroVs.Client.Interpolation
import FzeroVs.Client.Receive
import FzeroVs.Client.Frame
import FzeroVs.Client.Moves
import FzeroVs.Client.Queue
import FzeroVs.Client.Accept
import FzeroVs.Client.Course
import FzeroVs.Client.Account
import FzeroVs.Room.Picture
import FzeroVs.Room.Newcomer
import FzeroVs.Room.System
import FzeroVs.Room.Mirror
import FzeroVs.Room.Start
import FzeroVs.Room.View
import FzeroVs.Protocol.Codec
import FzeroVs.Server.Reservation
import FzeroVs.Server.Admission
import FzeroVs.Server.Authority
import FzeroVs.Client.Presentation
import FzeroVs.Room.Panel
import FzeroVs.Client.Cartridge
import FzeroVs.Client.Restoration
import FzeroVs.Bridge.Dispatch
import FzeroVs.Bridge.Overlay
import FzeroVs.Bridge.Patches
import FzeroVs.Bridge.Framing
import FzeroVs.Bridge.Answers
import FzeroVs.Bridge.Limits
import FzeroVs.Session.Discovery
import FzeroVs.Session.State
import FzeroVs.Session.Run
import FzeroVs.Session.Moves
import FzeroVs.Session.Publication
import FzeroVs.Session.Offers
import FzeroVs.Library.Ring
import FzeroVs.Library.Rounding
import FzeroVs.Server.Events
import FzeroVs.Library.Clock
import FzeroVs.Server.Clock
import FzeroVs.Client.Clock
import FzeroVs.Room.Clock
import FzeroVs.Server.Fixed
import FzeroVs.Session.Resources
import FzeroVs.Session.Advertise
import FzeroVs.Bridge.Indices
import FzeroVs.Sidecar.Labels
import FzeroVs.Sidecar.DebugClient
import FzeroVs.Sidecar.Pairing
import FzeroVs.Room.Commands
import FzeroVs.Client.Marks
import FzeroVs.Protocol.Shots
import FzeroVs.Server.Shots
import FzeroVs.Room.OneShots
import FzeroVs.Bridge.Numbers
import FzeroVs.Bridge.Writes
import FzeroVs.Library.Json
import FzeroVs.Sidecar.Writes
import FzeroVs.Bridge.Envelope
import FzeroVs.Bridge.Cuts
import FzeroVs.Sidecar.Broken
import FzeroVs.Sidecar.Handles
import FzeroVs.Session.Address
import FzeroVs.Session.Resolve
import FzeroVs.Session.Rooms
import FzeroVs.Library.Fair
import FzeroVs.Bridge.Threads
import FzeroVs.Bridge.Exchange
import FzeroVs.Bridge.Conversation
import FzeroVs.Bridge.Waiting
import FzeroVs.Bridge.Answering
import FzeroVs.Bridge.Stopping
import FzeroVs.Client.Opponents
import FzeroVs.Server.Rounds
import FzeroVs.Library.Possible
import FzeroVs.Server.Rematch
import FzeroVs.Room.Reports
import FzeroVs.Room.Sightings
import FzeroVs.Room.Rivals
import FzeroVs.Room.Terms
