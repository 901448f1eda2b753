import FzeroVs.Client.Queue
import FzeroVs.Library.Clock

namespace FzeroVs.Client

/-- No time stored in the client is later than `now`. -/
structure Behind (c : Client) (now : Nat) : Prop where
  lastHello : c.lastHello.toNat ≤ now
  lastPing : c.lastPing.toNat ≤ now
  lastRecv : c.lastRecv.toNat ≤ now
  resultsTime : c.resultsTime.toNat ≤ now
  sent : ∀ p ∈ c.pending, p.sent.toNat ≤ now

theorem Behind.mono {c : Client} {now later : Nat} (behind : c.Behind now) (order : now ≤ later) : c.Behind later where
  lastHello := behind.lastHello.trans order
  lastPing := behind.lastPing.trans order
  lastRecv := behind.lastRecv.trans order
  resultsTime := behind.resultsTime.trans order
  sent p member := (behind.sent p member).trans order

/-- Changes that leave all stored times alone, and may give up commands. -/
theorem Behind.congr {c d : Client} {now : Nat} (behind : c.Behind now) (lastHello : d.lastHello = c.lastHello)
    (lastPing : d.lastPing = c.lastPing) (lastRecv : d.lastRecv = c.lastRecv)
    (resultsTime : d.resultsTime = c.resultsTime) (pending : ∀ p ∈ d.pending, p ∈ c.pending) : d.Behind now where
  lastHello := lastHello ▸ behind.lastHello
  lastPing := lastPing ▸ behind.lastPing
  lastRecv := lastRecv ▸ behind.lastRecv
  resultsTime := resultsTime ▸ behind.resultsTime
  sent p member := behind.sent p (pending p member)

theorem Behind.send {c : Client} {now : Nat} (behind : c.Behind now) (packet : Packet) : (c.send packet).Behind now := by
  unfold Client.send
  split
  · exact behind.congr rfl rfl rfl rfl fun _ member => member
  · exact behind

theorem Behind.queue {c : Client} {now : Nat} (behind : c.Behind now) (command : List UInt8) :
    (c.queue command).Behind now := by
  unfold Client.queue
  split
  · exact behind
  · refine { behind with sent := fun p member => ?_ }
    rcases List.mem_append.mp member with old | new
    · exact behind.sent p old
    · obtain rfl := List.mem_singleton.mp new
      exact Nat.zero_le _

theorem Behind.failure {c : Client} {now : Nat} (behind : c.Behind now) : c.failure.Behind now :=
  behind.congr rfl rfl rfl rfl fun _ member => member

theorem Behind.resetGame {c : Client} {now : Nat} (behind : c.Behind now) : c.resetGame.Behind now :=
  behind.congr rfl rfl rfl rfl fun _ member => member

theorem Behind.accept {c : Client} {now : Nat} (behind : c.Behind now) {t : UInt64} (reading : t.toNat ≤ now)
    (p : Packet) (v : Picture) : (c.accept t p v).Behind now := by
  have covered : ∀ q ∈ c.pending.dropWhile (covered p.ack), q ∈ c.pending :=
    fun q member => (List.dropWhile_sublist _).subset member
  have settled : (c.settle t p v).Behind now := by
    unfold Client.settle Client.newRace
    dsimp only
    split
    · exact
        { lastHello := behind.lastHello
          lastPing := behind.lastPing
          lastRecv := reading
          resultsTime := behind.resultsTime
          sent := List.forall_mem_nil _ }
    · exact
        { lastHello := behind.lastHello
          lastPing := behind.lastPing
          lastRecv := reading
          resultsTime := behind.resultsTime
          sent := fun q member => behind.sent q (covered q member) }
  unfold Client.accept Client.arm
  split
  · exact (settled.queue _).congr rfl rfl rfl rfl fun _ member => member
  · exact settled

theorem Behind.receive {c : Client} {now : Nat} (behind : c.Behind now) {t : UInt64} (reading : t.toNat ≤ now)
    (p : Packet) : (c.receive t p).Behind now := by
  unfold Client.receive
  split
  · exact behind.failure
  split
  · split
    · exact behind
    · exact { behind with lastRecv := reading }
  split
  · exact behind
  split
  · exact behind.failure
  split
  · exact { behind.send _ with lastRecv := reading }
  split
  · dsimp only
    split
    · exact behind
    · exact { behind with lastRecv := reading }
  · unfold Client.receiveSnapshot
    split
    · exact behind
    · split
      · exact behind.accept reading p _
      · exact behind.congr rfl rfl rfl rfl fun _ member => member

theorem Behind.hear {c : Client} {now : Nat} (behind : c.Behind now) {t : UInt64} (reading : t.toNat ≤ now)
    (data : List UInt8) : (c.hear t data).Behind now := by
  unfold Client.hear
  split
  · split
    · exact behind.receive reading _
    · exact behind
  · exact behind

theorem Behind.takeRequests {c : Client} {now : Nat} (behind : c.Behind now) : c.takeRequests.Behind now := by
  have emptied : Client.Behind { c with requests := [] } now :=
    behind.congr rfl rfl rfl rfl fun _ member => member
  exact takeRequests_invariant (P := fun d => d.Behind now) emptied fun _ command behind => behind.queue command

theorem Behind.retransmit {c : Client} {now : Nat} (behind : c.Behind now) {t : UInt64} (reading : t.toNat ≤ now) :
    (c.retransmit t).Behind now := by
  unfold Client.retransmit
  split
  · exact behind
  next p rest waiting =>
    split
    · have counted : (if p.sent ≠ 0 then { c with retries := c.retries + 1 } else c).Behind now := by
        split
        · exact behind.congr rfl rfl rfl rfl fun _ member => member
        · exact behind
      refine { counted.send p.packet with sent := fun q member => ?_ }
      rcases List.mem_cons.mp member with rfl | later
      · exact reading
      · exact behind.sent q (waiting ▸ List.mem_cons_of_mem p later)
    · exact behind

theorem Behind.serve {c : Client} {now : Nat} (behind : c.Behind now) {t : UInt64} (reading : t.toNat ≤ now) :
    (c.serve t).Behind now := by
  unfold Client.serve
  split
  · unfold Client.hello
    split
    · exact { behind.send _ with lastHello := reading }
    · exact behind
  · have served := behind.takeRequests.retransmit reading
    unfold Client.ping
    split
    · exact { served.send _ with lastPing := reading }
    · exact served

/-- How long nothing may come from the server, before and after the admission. -/
def patience (c : Client) : UInt64 := if c.id = none then 10000000 else 5000000

theorem pulse_eq (c : Client) (t : UInt64) :
    c.pulse t = if (c.serve t).patience < t - (c.serve t).lastRecv then (c.serve t).failure else c.serve t := rfl

theorem Behind.pulse {c : Client} {now : Nat} (behind : c.Behind now) {t : UInt64} (reading : t.toNat ≤ now) :
    (c.pulse t).Behind now := by
  have served := behind.serve reading
  rw [pulse_eq]
  split
  · exact served.failure
  · exact served

theorem Behind.detach {c : Client} {now : Nat} (behind : c.Behind now) : c.detach.Behind now := by
  have empty {d : Client} (behind : d.Behind now) :
      ({ d with memory := false, id := none, pending := [], snapshotBuffer := [], game := .init, requests := [] }
        : Client).Behind now :=
    behind.congr rfl rfl rfl rfl fun _ member => nomatch member
  unfold Client.detach
  refine empty ?_
  split
  · dsimp only
    split
    · have issued : (c.issue [Command.leave.code]).Behind now := behind.congr rfl rfl rfl rfl fun _ member => member
      exact (issued.send _).congr rfl rfl rfl rfl fun _ member => member
    · exact behind.congr rfl rfl rfl rfl fun _ member => member
  · exact behind

theorem Behind.attach {c : Client} {now : Nat} (behind : c.Behind now) (random : Option UInt64) {t : UInt64}
    (reading : t.toNat ≤ now) : (c.attach random t).Behind now := by
  have detached : ({ c.detach with memory := true, sent := [], issued := [], accepted := [] } : Client).Behind now :=
    behind.detach.congr rfl rfl rfl rfl fun _ member => member
  unfold Client.attach
  dsimp only
  split
  · split
    · exact detached.failure
    · exact
        { lastHello := Nat.zero_le _
          lastPing := Nat.zero_le _
          lastRecv := reading
          resultsTime := detached.resultsTime
          sent := List.forall_mem_nil _ }
  · exact detached.failure

theorem Behind.frame {c : Client} {now : Nat} (behind : c.Behind now) (ram : UInt32 → UInt8) (due : Bool) {t : UInt64}
    (reading : t.toNat ≤ now) : (c.frame ram due t).Behind now := by
  have play {d : Client} (behind : d.Behind now) (game : Game) : ({ d with game := game } : Client).Behind now :=
    behind.congr rfl rfl rfl rfl fun _ member => member
  unfold Client.frame
  split
  · exact behind
  split
  · exact play behind _
  split
  · exact play behind _
  · have chosen : (if ram 0x55 = 3 then { c with car := menu (ram 0x5a) } else c).Behind now := by
      split
      · exact behind.congr rfl rfl rfl rfl fun _ member => member
      · exact behind
    dsimp only
    generalize (if ram 0x55 = 3 then { c with car := menu (ram 0x5a) } else c) = d at *
    split
    · exact play chosen _
    · exact chosen
  · have selected : c.select.Behind now := by
      unfold Client.select
      split
      · exact (behind.queue _).congr rfl rfl rfl rfl fun _ member => member
      · exact behind
    dsimp only
    split
    · exact play selected _
    · exact selected
  · exact play behind _
  · split
    · have loaded : (c.load ram).Behind now := by
        unfold Client.load
        split
        · exact (behind.queue _).congr rfl rfl rfl rfl fun _ member => member
        · exact behind
      dsimp only
      split
      · exact play loaded _
      · exact loaded
    · exact behind
  · split
    · have finished : c.finish.Behind now := by
        unfold Client.finish
        split
        · exact (behind.queue _).congr rfl rfl rfl rfl fun _ member => member
        · exact behind
      exact play finished _
    · unfold Client.sendState
      have counted : ({ c with stateSeq := c.stateSeq + 1 } : Client).Behind now :=
        behind.congr rfl rfl rfl rfl fun _ member => member
      exact counted.send _
  · split
    · exact { behind with resultsTime := reading }
    · exact behind
  · split
    · exact { behind.queue _ with resultsTime := Nat.zero_le _ }
    · exact behind
  · exact behind

/-- The subtraction of `receive`, which the test for a PONG from the future
guards. -/
def receiveDifferences (c : Client) (t : UInt64) (p : Packet) : List (UInt64 × UInt64) :=
  if c.id = none ∧ p.is .joinReject ∧ p.length = 9 ∧ u64 p.payload = c.nonce then []
  else if p.is .welcome ∧ p.length = 9 ∧ u64 (p.payload.drop 1) = c.nonce ∧ p.byte 0 < 4 ∧
      p.session ≠ 0 ∧ p.token ≠ 0 then []
  else if c.id = none ∨ p.session ≠ c.session ∨ p.token ≠ c.token then []
  else if p.is .roomClosed ∧ p.length = 1 then []
  else if p.is .ping ∧ p.length = 8 then []
  else if p.is .pong ∧ p.length = 16 then
    let sent := u64 p.payload
    if t < sent then [] else [(t, sent)]
  else []

def serveDifferences (c : Client) (t : UInt64) : List (UInt64 × UInt64) :=
  match c.id with
  | none => [(t, c.lastHello)]
  | some _ =>
    (c.takeRequests.pending.head?.toList.map fun p => (t, p.sent)) ++
      [(t, (c.takeRequests.retransmit t).lastPing)]

/-- The subtractions of stored times from the clock, minuend first. -/
def differences (c : Client) : Event → List (UInt64 × UInt64)
  | .hear t data =>
    if c.socket then
      match decode data with
      | some p => c.receiveDifferences t p
      | none => []
    else []
  | .pulse t =>
    if c.socket = false ∨ c.game = .disconnected then []
    else c.serveDifferences t ++ [(t, (c.serve t).lastRecv)]
  | .frame _ _ now =>
    if c.memory = false ∨ c.game = .disconnected then []
    else if c.config.baseline then []
    else
      match c.game with
      | .results =>
        if c.config.autoNext ∧ (∃ i, c.id = some i ∧ i.val = c.host.toNat) ∧ c.resultsTime ≠ 0 then
          [(now, c.resultsTime)]
        else []
      | _ => []
  | _ => []

/-- The readings of the clock that an event makes. -/
def Event.clock : Event → List Nat
  | .attach _ now => [now.toNat]
  | .hear t _ => [t.toNat]
  | .pulse t => [t.toNat]
  | .frame _ _ now => [now.toNat]
  | _ => []

/-- The client and a clock that never goes back. -/
def clocked : System (Client × Nat) Event := System.clocked system (fun _ _ => True) Event.clock

theorem Behind.step {c : Client} {now : Nat} (behind : c.Behind now) (e : Event) (onward : Onward now e.clock) :
    (c.step e).Behind (latest now e.clock) := by
  cases e with
  | attach random t => exact (behind.mono onward.1).attach random (Nat.le_refl _)
  | request command data =>
    change (c.request command data).Behind now
    unfold Client.request
    split
    · exact behind.congr rfl rfl rfl rfl fun _ member => member
    · exact behind
  | hear t data => exact (behind.mono onward.1).hear (Nat.le_refl _) data
  | pulse t =>
    have current : c.Behind t.toNat := behind.mono onward.1
    change (if c.socket = false ∨ c.game = .disconnected then c else c.pulse t).Behind t.toNat
    split
    · exact current
    · exact current.pulse (Nat.le_refl _)
  | frame ram due t => exact (behind.mono onward.1).frame ram due (Nat.le_refl _)
  | detach => exact behind.detach

/-- In every run with a clock that does not go back, no stored time is later
than the clock. -/
theorem clocked_behind {p : Client × Nat} (reach : clocked.Reachable p) : p.1.Behind p.2 := by
  refine System.clocked_invariant Behind reach ?_ fun c now e _ onward behind => behind.step e onward
  rintro c now ⟨config, rfl⟩ _
  exact ⟨Nat.zero_le _, Nat.zero_le _, Nat.zero_le _, Nat.zero_le _, List.forall_mem_nil _⟩

theorem Behind.serveDifferences {c : Client} {t : UInt64} (behind : c.Behind t.toNat) :
    ∀ d ∈ c.serveDifferences t, d.2 ≤ d.1 := by
  intro d member
  unfold Client.serveDifferences at member
  split at member
  · obtain rfl := List.mem_singleton.mp member
    exact UInt64.le_iff_toNat_le.mpr behind.lastHello
  · have taken := behind.takeRequests
    rcases List.mem_append.mp member with first | second
    · obtain ⟨p, front, rfl⟩ := List.mem_map.mp first
      have waiting : p ∈ c.takeRequests.pending := List.mem_of_mem_head? (Option.mem_toList.mp front)
      exact UInt64.le_iff_toNat_le.mpr (taken.sent p waiting)
    · obtain rfl := List.mem_singleton.mp second
      exact UInt64.le_iff_toNat_le.mpr (taken.retransmit (Nat.le_refl _)).lastPing

theorem receiveDifferences_order (c : Client) (t : UInt64) (p : Packet) :
    ∀ d ∈ c.receiveDifferences t p, d.2 ≤ d.1 := by
  unfold receiveDifferences
  split
  · exact List.forall_mem_nil _
  split
  · exact List.forall_mem_nil _
  split
  · exact List.forall_mem_nil _
  split
  · exact List.forall_mem_nil _
  split
  · exact List.forall_mem_nil _
  split
  · dsimp only
    split
    · exact List.forall_mem_nil _
    next guarded =>
      intro d member
      obtain rfl := List.mem_singleton.mp member
      exact UInt64.not_lt.mp guarded
  · exact List.forall_mem_nil _

theorem clocked_order {p : Client × Nat} (reach : clocked.Reachable p) {e : Event} (onward : Onward p.2 e.clock) :
    ∀ d ∈ p.1.differences e, d.2 ≤ d.1 := by
  have behind := clocked_behind reach
  cases e with
  | hear t data =>
    simp only [differences]
    split
    · split
      · exact receiveDifferences_order _ _ _
      · exact List.forall_mem_nil _
    · exact List.forall_mem_nil _
  | pulse t =>
    have current : p.1.Behind t.toNat := behind.mono onward.1
    simp only [differences]
    split
    · exact List.forall_mem_nil _
    · intro d member
      rcases List.mem_append.mp member with first | second
      · exact current.serveDifferences d first
      · obtain rfl := List.mem_singleton.mp second
        exact UInt64.le_iff_toNat_le.mpr (current.serve (Nat.le_refl _)).lastRecv
  | frame ram due t =>
    have current : p.1.Behind t.toNat := behind.mono onward.1
    simp only [differences]
    split
    · exact List.forall_mem_nil _
    split
    · exact List.forall_mem_nil _
    split
    · split
      · intro d member
        obtain rfl := List.mem_singleton.mp member
        exact UInt64.le_iff_toNat_le.mpr current.resultsTime
      · exact List.forall_mem_nil _
    · exact List.forall_mem_nil _
  | attach random t => exact List.forall_mem_nil _
  | request command data => exact List.forall_mem_nil _
  | detach => exact List.forall_mem_nil _

/-- What serving the clock leaves to the check of the connection. -/
structure Held (c d : Client) : Prop where
  id : d.id = c.id
  lastRecv : d.lastRecv = c.lastRecv
  game : d.game = c.game

theorem serve_held (c : Client) (t : UInt64) : Held c (c.serve t) where
  id := serve_keeps Client.id (fun _ _ _ _ _ _ _ _ _ => rfl) c t
  lastRecv := serve_keeps Client.lastRecv (fun _ _ _ _ _ _ _ _ _ => rfl) c t
  game := serve_keeps Client.game (fun _ _ _ _ _ _ _ _ _ => rfl) c t

/-- The connection is given up exactly when nothing has come for too long. -/
theorem clocked_lost {p : Client × Nat} (reach : clocked.Reachable p) {t : UInt64} (later : p.2 ≤ t.toNat)
    (opened : p.1.socket = true) (live : p.1.game ≠ .disconnected) :
    (p.1.step (.pulse t)).game = .disconnected ↔
      p.1.lastRecv.toNat + (if p.1.id = none then 10000000 else 5000000) < t.toNat := by
  have behind : p.1.Behind t.toNat := (clocked_behind reach).mono later
  have held := p.1.serve_held t
  have step : p.1.step (.pulse t) = p.1.pulse t := by
    refine if_neg ?_
    rw [opened]
    exact fun ended => ended.elim (fun shut => nomatch shut) live
  have elapsed : (t - p.1.lastRecv).toNat = t.toNat - p.1.lastRecv.toNat :=
    UInt64.toNat_sub_of_le _ _ (UInt64.le_iff_toNat_le.mpr behind.lastRecv)
  have limit : p.1.patience.toNat = if p.1.id = none then 10000000 else 5000000 := by
    unfold patience
    split <;> rfl
  have order := behind.lastRecv
  have patient : (p.1.serve t).patience = p.1.patience := by
    unfold patience
    rw [held.id]
  have due : (p.1.serve t).patience < t - (p.1.serve t).lastRecv ↔
      p.1.lastRecv.toNat + (if p.1.id = none then 10000000 else 5000000) < t.toNat := by
    rw [patient, held.lastRecv, UInt64.lt_iff_toNat_lt, elapsed, limit]
    omega
  rw [step, pulse_eq, ← due]
  split
  next lost => exact iff_of_true rfl lost
  next kept =>
    rw [held.game]
    exact iff_of_false live kept

end FzeroVs.Client
