import FzeroVs.Server.Clock
import FzeroVs.Client.Clock

namespace FzeroVs

/-- A difference that does not wrap is the time that has passed. -/
theorem true_elapsed {d : UInt64 × UInt64} (order : d.2 ≤ d.1) :
    d.2 ≤ d.1 ∧ (d.1 - d.2).toNat + d.2.toNat = d.1.toNat := by
  refine ⟨order, ?_⟩
  rw [UInt64.toNat_sub_of_le _ _ order]
  have small := UInt64.le_iff_toNat_le.mp order
  omega

/-- With a clock that does not go back no subtraction of a stored time wraps, in
the server or in a client: so the server drops a player exactly at the first
`advance` five seconds after his last refresh, and a client gives up the
connection only after five seconds, or ten before its admission, of silence. -/
theorem clock_never_wraps {p : Server × Nat} {q : Client × Nat} (server : Server.clocked.Reachable p)
    (client : Client.clocked.Reachable q) :
    (∀ call : Server.Call, Onward p.2 call.clock → ∀ m ∈ p.1.moments call,
      (∀ d ∈ m.differences, d.2 ≤ d.1 ∧ (d.1 - d.2).toNat + d.2.toNat = d.1.toNat) ∧
      ∀ s now, m = .advance s now → ∀ i, (s.players i).occupied = true →
        (((s.advance now.val).players i).occupied = false ↔
          (s.players i).seen.toNat + 5000000 ≤ now.val.toNat)) ∧
    (∀ e : Client.Event, Onward q.2 e.clock → ∀ d ∈ q.1.differences e,
      d.2 ≤ d.1 ∧ (d.1 - d.2).toNat + d.2.toNat = d.1.toNat) ∧
    (∀ t : UInt64, q.2 ≤ t.toNat → q.1.socket = true → q.1.game ≠ .disconnected →
      ((q.1.step (.pulse t)).game = .disconnected ↔
        q.1.lastRecv.toNat + (if q.1.id = none then 10000000 else 5000000) < t.toNat)) := by
  refine ⟨fun call onward m member => ?_, fun e onward d member => ?_, fun t later opened live => ?_⟩
  · have timely := Server.clocked_timely server onward m member
    exact ⟨fun d pair => true_elapsed (timely.order d pair), timely.drops⟩
  · exact true_elapsed (Client.clocked_order client onward d member)
  · exact Client.clocked_lost client later opened live

/-- The HELLO of a guest, in the first poll of the room. -/
def sampleFirstPoll : Server.Call :=
  .poll
    { failed := false
      incoming :=
        [⟨.at Server.sampleClock, 77, Server.sampleGuest,
          encode maxPacket { type := Kind.hello.code, length := 9, payload := put64 9 ++ [0] }⟩]
      broken := false
      now := Server.sampleClock
      sampled := Server.sampleClock }

/-- The guest has been silent for five seconds. -/
def sampleLatePoll : Server.Call := .poll ⟨false, [], false, Server.sampleLate, Server.sampleLate⟩

def samplePolled : Server × Nat := Server.clocked.step (Server.sampleRoom, 1000000) sampleFirstPoll

theorem samplePolled_reachable : Server.clocked.Reachable samplePolled := by
  refine .next sampleFirstPoll (.start ⟨Server.sampleRoom_init, by decide⟩) ⟨trivial, ?_⟩ trivial
  exact ⟨by decide, by decide, by decide, by decide, by decide, by decide, trivial⟩

theorem samplePolled_dropped :
    (samplePolled.1.players 0).occupied = true ∧
      ((samplePolled.1.advance Server.sampleLate.val).players 0).occupied = false := by
  have onward : Onward samplePolled.2 sampleLatePoll.clock := ⟨by decide, by decide, trivial⟩
  have live : samplePolled.1.closed = false := by decide +kernel
  have due : samplePolled.1.tick ≤ Server.sampleLate.val := by decide +kernel
  have seated : (samplePolled.1.players 0).occupied = true := by decide +kernel
  have silent : (samplePolled.1.players 0).seen.toNat + 5000000 ≤ Server.sampleLate.val.toNat := by
    decide +kernel
  have client : Client.clocked.Reachable ({}, 0) := .start ⟨⟨{}, rfl⟩, trivial⟩
  have timely := (clock_never_wraps samplePolled_reachable client).1 sampleLatePoll onward
  generalize samplePolled = p at *
  have member : Server.Moment.advance p.1 Server.sampleLate ∈ p.1.moments sampleLatePoll := by
    simp [Server.moments, sampleLatePoll, Server.pollMoments, Server.drain, Server.timerMoments, live, due]
  exact ⟨seated, ((timely _ member).2 _ _ rfl 0 seated).mpr silent⟩

end FzeroVs
