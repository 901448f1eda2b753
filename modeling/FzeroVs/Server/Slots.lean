import FzeroVs.Server.Receive
import Mathlib.Tactic.FinCases

namespace FzeroVs.Server

@[simp] theorem countRx_players (s : Server) : s.countRx.players = s.players := rfl

@[simp] theorem countRx_race (s : Server) : s.countRx.race = s.race := rfl

@[simp] theorem countRx_phase (s : Server) : s.countRx.phase = s.phase := rfl

@[simp] theorem modify_players_self (s : Server) (i : Fin 4) (f : Player → Player) :
    (s.modify i f).players i = f (s.players i) := by
  simp [modify]

theorem modify_players_ne (s : Server) {i j : Fin 4} (f : Player → Player) (other : j ≠ i) :
    (s.modify i f).players j = s.players j := by
  simp [modify, other]

theorem modify_players (s : Server) (i j : Fin 4) (f : Player → Player) :
    (s.modify i f).players j = if j = i then f (s.players i) else s.players j := by
  split
  next same => subst same; exact modify_players_self s j f
  next other => exact modify_players_ne s f other

/-- What a rewrite keeps of a slot and of all others holds of every slot. -/
theorem modify_players_eq {α : Type} (g : Player → α) {s : Server} {i : Fin 4} {f : Player → Player}
    (keeps : g (f (s.players i)) = g (s.players i)) (j : Fin 4) :
    g ((s.modify i f).players j) = g (s.players j) := by
  rw [modify_players]
  split
  next same => subst same; exact keeps
  next => rfl

/-- Any reading of a slot but its command sequence and heartbeat survives an
acknowledgement. -/
theorem acknowledge_players_eq {α : Type} (g : Player → α)
    (keeps : ∀ (p : Player) (seq : UInt32) (seen : UInt64),
      g { p with commandSeq := seq, seen := seen } = g p)
    (s : Server) (r : Readings) (i : Fin 4) (packet : Packet) (j : Fin 4) :
    g ((s.acknowledge r i packet).players j) = g (s.players j) := by
  simp only [acknowledge]
  exact modify_players_eq g (keeps _ _ _) j

theorem occupied_iff {p : Player} :
    p.occupied = true ↔ p.status ≠ .empty ∧ p.status ≠ .disconnected := by
  simp [Player.occupied]

theorem count_eq_zero_iff {s : Server} : s.count = 0 ↔ ∀ i, (s.players i).occupied = false := by
  simp [count, List.countP_eq_zero, mem_slots]

theorem count_pos_iff {s : Server} : 0 < s.count ↔ ∃ i, (s.players i).occupied = true := by
  simp [count, List.countP_pos_iff, mem_slots]

theorem count_congr {s t : Server} (same : ∀ i, (t.players i).occupied = (s.players i).occupied) :
    t.count = s.count := by
  simp [count, same]

/-- Only slot `i` changes, from free to taken. -/
theorem count_of_enter {s t : Server} {i : Fin 4} (free : (s.players i).occupied = false)
    (taken : (t.players i).occupied = true)
    (others : ∀ j, j ≠ i → (t.players j).occupied = (s.players j).occupied) :
    t.count = s.count + 1 := by
  have h0 := others 0
  have h1 := others 1
  have h2 := others 2
  have h3 := others 3
  fin_cases i <;> simp_all [count, slots, List.countP_cons] <;> omega

/-- Only slot `i` changes, from taken to free. -/
theorem count_of_leave {s t : Server} {i : Fin 4} (taken : (s.players i).occupied = true)
    (free : (t.players i).occupied = false)
    (others : ∀ j, j ≠ i → (t.players j).occupied = (s.players j).occupied) :
    t.count + 1 = s.count := by
  exact (count_of_enter free taken fun j other => (others j other).symm).symm

theorem allAtLeast_iff {s : Server} {status : Status} : s.allAtLeast status = true ↔
    0 < s.count ∧ ∀ i, (s.players i).occupied = true → status.rank ≤ (s.players i).status.rank := by
  simp only [allAtLeast, Bool.and_eq_true, bne_iff_ne, ne_eq, List.all_eq_true, mem_slots,
    forall_const, Bool.or_eq_true, Bool.not_eq_true', decide_eq_true_eq, Nat.pos_iff_ne_zero]
  refine and_congr_right fun _ => forall_congr' fun i => ?_
  cases (s.players i).occupied <;> simp

theorem allArmed_iff {s : Server} : s.allArmed = true ↔
    ∀ i, (s.players i).occupied = true → (s.players i).armed = s.start := by
  simp only [allArmed, List.all_eq_true, mem_slots, forall_const, Bool.or_eq_true,
    Bool.not_eq_true', beq_iff_eq]
  refine forall_congr' fun i => ?_
  cases (s.players i).occupied <;> simp

/-- A search over the slots that finds the first with a property. -/
theorem find_slots_some {p : Fin 4 → Bool} {i : Fin 4} (found : slots.find? p = some i) :
    p i = true := List.find?_some found

theorem find_slots_none {p : Fin 4 → Bool} (found : slots.find? p = none) (i : Fin 4) :
    p i = false := by
  simpa using List.find?_eq_none.mp found i (mem_slots i)

theorem electHost_none {s : Server} (empty : s.count = 0) : s.electHost = 255 := by
  have vacant : slots.find? (fun i => (s.players i).occupied) = none := by
    rw [List.find?_eq_none]
    intro i _
    simp [count_eq_zero_iff.mp empty i]
  simp [electHost, vacant]

/-- In a room that is not empty the election names an occupied slot. -/
theorem electHost_some {s : Server} (present : 0 < s.count) :
    ∃ i : Fin 4, s.electHost = UInt8.ofNat i.val ∧ (s.players i).occupied = true := by
  obtain ⟨k, taken⟩ := count_pos_iff.mp present
  cases found : slots.find? (fun i => (s.players i).occupied) with
  | none => simp [find_slots_none found k] at taken
  | some i => exact ⟨i, by simp [electHost, found], find_slots_some found⟩

theorem ofNat_toNat_slot (i : Fin 4) : (UInt8.ofNat i.val).toNat = i.val := by
  revert i
  decide

def wire (address : Endpoint) (packet : Packet) : Datagram := ⟨address, encode maxPacket packet⟩

/-- The snapshot as it goes to slot `i`. -/
def picture (s : Server) (now : UInt64) (i : Fin 4) : Packet := s.addressed i (s.snapshotPacket now)

def pictures (s : Server) (now : UInt64) : List Datagram :=
  s.occupiedSlots.map fun i => wire (s.players i).address (s.picture now i)

theorem foldl_sendPlayer (packet : Packet) (l : List (Fin 4)) (s : Server) :
    l.foldl (fun s i => s.sendPlayer i packet) s =
      { s with sent := s.sent ++ l.map fun i => wire (s.players i).address (s.addressed i packet) } := by
  induction l generalizing s with
  | nil => simp
  | cons i rest ih =>
    rw [List.foldl_cons, ih]
    simp only [sendPlayer, transmit, List.map_cons, List.append_assoc, List.singleton_append]
    rfl

theorem snapshot_eq (s : Server) (now : UInt64) :
    s.snapshot now =
      { s with
        snapshotSeq := s.snapshotSeq + 1
        sent := s.sent ++ pictures { s with snapshotSeq := s.snapshotSeq + 1 } now } :=
  foldl_sendPlayer _ _ _

theorem snapshot_seq (s : Server) (now : UInt64) :
    (s.snapshot now).snapshotSeq = s.snapshotSeq + 1 := by
  rw [snapshot_eq]

theorem snapshot_players (s : Server) (now : UInt64) : (s.snapshot now).players = s.players := by
  rw [snapshot_eq]

theorem snapshot_sent (s : Server) (now : UInt64) :
    (s.snapshot now).sent = s.sent ++ (s.snapshot now).pictures now := by
  rw [snapshot_eq]
  rfl

theorem snapshot_welcome (s : Server) (now : UInt64) (i : Fin 4) :
    (s.snapshot now).addressed i ((s.snapshot now).welcomePacket i) = s.addressed i (s.welcomePacket i) := by
  rw [snapshot_eq]
  rfl

end FzeroVs.Server
