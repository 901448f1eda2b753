import FzeroVs.Server.Ledger

namespace FzeroVs.Server

/-- The commands taken under the token in generation `r`. -/
def consumedIn (s : Server) (token : UInt64) (r : UInt32) : List Consumed :=
  s.consumed.filter fun x => x.token == token && x.race == r

/-- What an event does to a token that it does not draw: nothing, or the slot
that has it has its next command taken. -/
inductive Booking (s : Server) (e : Event) (token : UInt64) : Prop
  | idle : (∀ x ∈ (s.step e).consumed, x.token = token → x ∈ s.consumed) →
      (∀ r, (s.step e).consumedIn token r = s.consumedIn token r) →
      (∀ i ∈ (s.step e).holders token, i ∈ s.holders token ∧
        ((s.step e).players i).commandSeq = (s.players i).commandSeq) → Booking s e token
  | took (d : Incoming) (i : Fin 4) (packet : Packet) : e = .packet d → decode d.data = some packet →
      Takes s d.address i packet → i ∈ s.holders token →
      (s.step e).consumed = s.consumed ++ [⟨token, packet.race, packet.seq, packet.body⟩] →
      (∀ j ∈ (s.step e).holders token, j = i ∧ ((s.step e).players j).commandSeq = packet.seq) →
      Booking s e token

theorem step_booking {s : Server} (ledger : Ledger s) {e : Event} {token : UInt64}
    (undrawn : e.random ≠ token) : Booking s e token := by
  have before {i : Fin 4} := holders_step (s := s) (i := i) undrawn
  cases s.step_turn e with
  | keeps keeps =>
    refine .idle (fun x member _ => keeps.consumed ▸ member) (fun r => ?_) fun i holds => ⟨before holds, ?_⟩
    · rw [consumedIn, keeps.consumed]
      rfl
    · exact (keeps.slot i (mem_holders.mp holds).1).2.commandSeq
  | seats d j packet isPacket decoded seats =>
    refine .idle (fun x member _ => seats.consumed ▸ member) (fun r => ?_) fun i holds => ⟨before holds, ?_⟩
    · rw [consumedIn, seats.consumed]
      rfl
    · obtain ⟨seated, own⟩ := mem_holders.mp holds
      have other : i ≠ j := by
        rintro rfl
        rw [isPacket] at undrawn
        exact undrawn (seats.self.1.symm.trans own)
      exact (seats.others i other seated).2.commandSeq
  | took d j packet isPacket decoded takes took =>
    by_cases own : (s.players j).token = token
    · have holdsJ : j ∈ s.holders token := mem_holders.mpr ⟨takes.seated, own⟩
      refine .took d j packet isPacket decoded takes holdsJ (own ▸ took.consumed) fun i holds => ?_
      have isJ : i = j := ledger.sole token i j (before holds) holdsJ
      obtain ⟨_, _, _, _, seq⟩ := took.slot i (mem_holders.mp holds).1
      rw [if_pos isJ] at seq
      exact ⟨isJ, seq⟩
    · refine .idle (fun x member own' => ?_) (fun r => ?_) fun i holds => ⟨before holds, ?_⟩
      · rw [took.consumed] at member
        rcases List.mem_append.mp member with old | new
        · exact old
        · rw [List.mem_singleton.mp new] at own'
          exact absurd own' own
      · rw [consumedIn, took.consumed, List.filter_append]
        simp [consumedIn, own]
      · obtain ⟨_, _, _, _, seq⟩ := took.slot i (mem_holders.mp holds).1
        have other : i ≠ j := by
          rintro rfl
          exact own (mem_holders.mp (before holds)).2
        rw [if_neg other] at seq
        exact seq

/-- A new WELCOME or SNAPSHOT shows what its slot has had taken. -/
theorem answer_step {s : Server} {e : Event} {d : Datagram} (member : d ∈ (s.step e).sent) {p : Packet}
    (decoded : decode d.data = some p) (kind : p.is .welcome = true ∨ p.is .snapshot = true) :
    d ∈ s.sent ∨ ∃ i ∈ (s.step e).holders p.token, p.ack = ((s.step e).players i).commandSeq ∧
      p.race = (s.step e).race := by
  obtain ⟨new, sent, news⟩ := (s.step_emission e).news
  rw [sent] at member
  rcases List.mem_append.mp member with old | added
  · exact .inl old
  · rcases news d added with other | ⟨j, seated, _, isWelcome | ⟨_, isPicture⟩⟩
    · obtain ⟨notWelcome, notPicture⟩ := other p decoded
      rw [notWelcome, notPicture] at kind
      exact nomatch kind
    · rw [isWelcome] at decoded
      cases decoded
      exact .inr ⟨j, mem_holders.mpr ⟨seated, rfl⟩, rfl, rfl⟩
    · rw [isPicture] at decoded
      cases decoded
      exact .inr ⟨j, mem_holders.mpr ⟨seated, rfl⟩, rfl, rfl⟩

theorem race_mono {s : Server} (low : s.race.toNat < 2 ^ 31) (e : Event) :
    s.race.toNat ≤ (s.step e).race.toNat := by
  rcases s.step_stay_or_begun e with stay | ⟨one | two, _⟩
  · rw [Stay.race stay]
  · rw [one, toNat_add_one (by omega)]
    omega
  · rw [two, toNat_add_two (by omega)]
    omega

/-- The commands taken and the answers sent so far are under drawn tokens, and
the answers are of no later generation. -/
structure Receipts (s : Server) : Prop where
  drawn : ∀ x ∈ s.drawn, x.1 ≠ 0
  consumed : ∀ x ∈ s.consumed, ∃ a, (x.token, a) ∈ s.drawn
  answers : ∀ d ∈ s.sent, ∀ p, decode d.data = some p → p.is .welcome = true ∨ p.is .snapshot = true →
    p.race.toNat ≤ s.race.toNat

/-- No event draws a token that has been drawn. -/
theorem Receipts.undrawn {s : Server} (receipts : Receipts s) {e : Event} (undrawn : Undrawn s e) {token : UInt64}
    {a : Endpoint} (drawn : (token, a) ∈ s.drawn) : e.random ≠ token := by
  rcases undrawn with none | new
  · rw [none]
    exact (receipts.drawn _ drawn).symm
  · exact (new _ drawn).symm

theorem Receipts.step {s : Server} (receipts : Receipts s) (ledger : Ledger s)
    (low : s.race.toNat < 2 ^ 31) (e : Event) : Receipts (s.step e) := by
  have consumed : ∀ x ∈ s.consumed, ∃ a, (x.token, a) ∈ (s.step e).drawn := by
    intro x member
    obtain ⟨a, drawn⟩ := receipts.consumed x member
    exact ⟨a, s.drawn_step e drawn⟩
  refine ⟨?_, ?_, fun d member p decoded kind => ?_⟩
  · cases s.step_turn e with
    | keeps keeps => exact keeps.drawn ▸ receipts.drawn
    | seats d j packet isPacket decoded seats =>
      intro x member
      rw [seats.drawn] at member
      rcases List.mem_append.mp member with old | new
      · exact receipts.drawn x old
      · rw [List.mem_singleton.mp new]
        exact seats.drawnToken
    | took d j packet isPacket decoded takes took => exact took.drawn ▸ receipts.drawn
  · cases s.step_turn e with
    | keeps keeps => rw [keeps.consumed]; exact consumed
    | seats d j packet isPacket decoded seats => rw [seats.consumed]; exact consumed
    | took d j packet isPacket decoded takes took =>
      intro x member
      rw [took.consumed] at member
      rcases List.mem_append.mp member with old | new
      · exact consumed x old
      · rw [List.mem_singleton.mp new]
        exact ⟨_, s.drawn_step e (ledger.seated j takes.seated)⟩
  · rcases answer_step member decoded kind with old | ⟨_, _, _, race⟩
    · exact (receipts.answers d old p decoded kind).trans (race_mono low e)
    · rw [race]

theorem Receipts.create {s : Server} (init : system.init s) : Receipts s := by
  obtain ⟨c, session, now, created⟩ := init
  obtain ⟨_, _, _, _, _, rfl⟩ := create_some created
  exact ⟨fun x member => (nomatch member), fun x member => (nomatch member), fun d member => (nomatch member)⟩

/-- Nothing has been taken under the token. -/
structure Untouched (s : Server) (token : UInt64) : Prop where
  consumed : ∀ x ∈ s.consumed, x.token ≠ token
  slot : ∀ i ∈ s.holders token, (s.players i).commandSeq = 0
  answers : ∀ d ∈ s.sent, ∀ p, decode d.data = some p → p.is .welcome = true ∨ p.is .snapshot = true →
    p.token = token → p.ack = 0

/-- A token stays untouched as long as no command is taken under it. -/
theorem Untouched.step {s : Server} {e : Event} {token : UInt64} (untouched : Untouched s token) (ledger : Ledger s)
    (undrawn : e.random ≠ token) (mute : ∀ d i packet, e = .packet d → decode d.data = some packet →
      Takes s d.address i packet → i ∉ s.holders token) : Untouched (s.step e) token := by
  cases step_booking ledger undrawn with
  | took d i packet isPacket decoded takes holds =>
    exact absurd holds (mute d i packet isPacket decoded takes)
  | idle consumed _ slot =>
    have zero : ∀ i ∈ (s.step e).holders token, ((s.step e).players i).commandSeq = 0 := by
      intro i holds
      obtain ⟨before, same⟩ := slot i holds
      exact same.trans (untouched.slot i before)
    refine ⟨fun x member own => untouched.consumed x (consumed x member own) own, zero,
      fun d member p decoded kind own => ?_⟩
    rcases answer_step member decoded kind with old | ⟨i, holds, ack, _⟩
    · exact untouched.answers d old p decoded kind own
    · rw [ack]
      exact zero i (own ▸ holds)

/-- A token is untouched when it is drawn. -/
theorem Seats.untouched {s : Server} {d : Incoming} {i : Fin 4} {packet : Packet}
    (seats : Seats s d i packet (s.step (.packet d))) (receipts : Receipts s) (ledger : Ledger s)
    (undrawn : Undrawn s (.packet d)) : Untouched (s.step (.packet d)) d.random := by
  have new : ∀ x ∈ s.drawn, x.1 ≠ d.random := undrawn.resolve_left seats.drawnToken
  have zero : ∀ j ∈ (s.step (.packet d)).holders d.random,
      ((s.step (.packet d)).players j).commandSeq = 0 := by
    intro j holds
    obtain ⟨seated, own⟩ := mem_holders.mp holds
    by_cases isI : j = i
    · rw [isI]
      exact seats.self.2.2.2
    · obtain ⟨before, same⟩ := seats.others j isI seated
      exact absurd (same.token.symm.trans own) (new _ (ledger.seated j before))
  refine ⟨fun x member own => ?_, zero, fun a member p decoded kind own => ?_⟩
  · rw [seats.consumed] at member
    obtain ⟨a, drawn⟩ := receipts.consumed x member
    exact new _ drawn own
  · rcases answer_step member decoded kind with old | ⟨j, holds, ack, _⟩
    · exact absurd own (new _ (ledger.answers a old p decoded kind).2)
    · rw [ack]
      exact zero j (own ▸ holds)

end FzeroVs.Server
