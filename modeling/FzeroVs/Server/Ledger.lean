import FzeroVs.Server.Wire

namespace FzeroVs.Server

theorem mem_holders {s : Server} {token : UInt64} {i : Fin 4} :
    i ∈ s.holders token ↔ (s.players i).occupied = true ∧ (s.players i).token = token := by
  simp [holders, occupiedSlots, mem_slots, and_comm]

/-- At most one slot has the token. -/
def Sole (s : Server) (token : UInt64) : Prop :=
  ∀ i j, i ∈ s.holders token → j ∈ s.holders token → i = j

theorem Sole.holders {s : Server} {token : UInt64} (sole : Sole s token) :
    s.holders token = [] ∨ ∃ i, s.holders token = [i] := by
  have nodup : (s.holders token).Nodup := List.Nodup.filter _ (List.Nodup.filter _ (by decide))
  cases listed : s.holders token with
  | nil => exact .inl rfl
  | cons i rest =>
    refine .inr ⟨i, ?_⟩
    cases rest with
    | nil => rfl
    | cons j others =>
      have same := sole i j (by simp [listed]) (by simp [listed])
      rw [listed, same] at nodup
      simp at nodup

/-- The token that an event may give out. -/
def Event.random : Event → UInt64
  | .packet d => d.random
  | _ => 0

/-- Whoever has the token after an event had it before, unless it was drawn. -/
theorem holders_step {s : Server} {e : Event} {token : UInt64} (undrawn : e.random ≠ token) {i : Fin 4}
    (holds : i ∈ (s.step e).holders token) : i ∈ s.holders token := by
  rw [mem_holders] at holds ⊢
  obtain ⟨seated, own⟩ := holds
  cases s.step_turn e with
  | keeps keeps =>
    obtain ⟨before, same⟩ := keeps.slot i seated
    exact ⟨before, same.token.symm.trans own⟩
  | seats d j packet isPacket decoded seats =>
    by_cases isJ : i = j
    · rw [isJ, seats.self.1] at own
      rw [isPacket] at undrawn
      exact absurd own undrawn
    · obtain ⟨before, same⟩ := seats.others i isJ seated
      exact ⟨before, same.token.symm.trans own⟩
  | took d j packet isPacket decoded takes took =>
    obtain ⟨before, same, _⟩ := took.slot i seated
    exact ⟨before, same.symm.trans own⟩

theorem step_session (s : Server) (e : Event) : (s.step e).session = s.session := by
  cases s.step_turn e with
  | keeps keeps => exact keeps.session
  | seats d j packet isPacket decoded seats => exact seats.session
  | took d j packet isPacket decoded takes took => exact took.session

theorem reachable_session {s : Server} (reach : system.Reachable s) : s.session ≠ 0 := by
  refine reach.invariant (P := fun s => s.session ≠ 0) (fun s init => ?_) fun s e _ _ _ holds => ?_
  · obtain ⟨c, session, now, created⟩ := init
    obtain ⟨_, _, _, _, drawn, rfl⟩ := create_some created
    exact drawn
  · change (s.step e).session ≠ 0
    rw [step_session]
    exact holds

/-- Snapshots are only ever added. -/
theorem shown_run (s : Server) (events : List Event) (token : UInt64) :
    ∃ stream, (events.foldl step s).shown token = s.shown token ++ stream := by
  induction events generalizing s with
  | nil => exact ⟨[], (List.append_nil _).symm⟩
  | cons e rest ih =>
    obtain ⟨later, run⟩ := ih (s.step e)
    rcases (s.step_emission e).shown token with ⟨_, same⟩ | ⟨_, more⟩
    · exact ⟨later, by rw [List.foldl_cons, run, same]⟩
    · exact ⟨_, by rw [List.foldl_cons, run, more, List.append_assoc]⟩

/-- What the history of the room says about its tokens: every slot and every
answer has one that was drawn for its endpoint, and none was drawn twice. -/
structure Ledger (s : Server) : Prop where
  seated : ∀ i, (s.players i).occupied = true → ((s.players i).token, (s.players i).address) ∈ s.drawn
  apart : (s.drawn.map Prod.fst).Nodup
  tokens : ∀ i j, (s.players i).occupied = true → (s.players j).occupied = true →
    (s.players i).token = (s.players j).token → i = j
  places : ∀ i j, (s.players i).occupied = true → (s.players j).occupied = true →
    (s.players i).address = (s.players j).address → i = j
  answers : ∀ d ∈ s.sent, ∀ p, decode d.data = some p → p.is .welcome = true ∨ p.is .snapshot = true →
    p.session = s.session ∧ (p.token, d.address) ∈ s.drawn

/-- The random source never repeats a token. -/
def Undrawn (s : Server) (e : Event) : Prop := e.random = 0 ∨ ∀ x ∈ s.drawn, x.1 ≠ e.random

theorem Ledger.sole {s : Server} (ledger : Ledger s) (token : UInt64) : Sole s token := by
  intro i j holdsI holdsJ
  rw [mem_holders] at holdsI holdsJ
  exact ledger.tokens i j holdsI.1 holdsJ.1 (holdsI.2.trans holdsJ.2.symm)

/-- A token belongs to one endpoint. -/
theorem Ledger.address_eq {s : Server} (ledger : Ledger s) {token : UInt64} {a b : Endpoint}
    (first : (token, a) ∈ s.drawn) (second : (token, b) ∈ s.drawn) : a = b := by
  have nodup := ledger.apart
  have same := List.inj_on_of_nodup_map nodup first second rfl
  exact congrArg Prod.snd same

/-- A command taken from the slot of a token has come from the endpoint of the token. -/
theorem Takes.from_place {s : Server} {address a : Endpoint} {k : Fin 4} {packet : Packet} {token : UInt64}
    (takes : Takes s address k packet) (ledger : Ledger s) (holds : k ∈ s.holders token)
    (drawn : (token, a) ∈ s.drawn) : address = a := by
  obtain ⟨seated, own⟩ := mem_holders.mp holds
  have place := ledger.seated k seated
  rw [own, ← takes.address] at place
  exact ledger.address_eq place drawn

/-- Old slots keep their token and endpoint, whatever is drawn for new ones. -/
theorem Ledger.slots {s : Server} (ledger : Ledger s) {e : Event} (undrawn : Undrawn s e) :
    (∀ i, ((s.step e).players i).occupied = true →
      (((s.step e).players i).token, ((s.step e).players i).address) ∈ (s.step e).drawn) ∧
    ((s.step e).drawn.map Prod.fst).Nodup ∧
    (∀ i j, ((s.step e).players i).occupied = true → ((s.step e).players j).occupied = true →
      ((s.step e).players i).token = ((s.step e).players j).token ∨
      ((s.step e).players i).address = ((s.step e).players j).address → i = j) := by
  have kept {t : Server} (drawn : t.drawn = s.drawn)
      (slot : ∀ i, (t.players i).occupied = true → (s.players i).occupied = true ∧
        (t.players i).token = (s.players i).token ∧ (t.players i).address = (s.players i).address) :
      (∀ i, (t.players i).occupied = true → ((t.players i).token, (t.players i).address) ∈ t.drawn) ∧
      (t.drawn.map Prod.fst).Nodup ∧
      (∀ i j, (t.players i).occupied = true → (t.players j).occupied = true →
        (t.players i).token = (t.players j).token ∨ (t.players i).address = (t.players j).address → i = j) := by
    refine ⟨fun i seated => ?_, drawn ▸ ledger.apart, fun i j seatedI seatedJ same => ?_⟩
    · obtain ⟨before, token, address⟩ := slot i seated
      rw [token, address, drawn]
      exact ledger.seated i before
    · obtain ⟨beforeI, tokenI, addressI⟩ := slot i seatedI
      obtain ⟨beforeJ, tokenJ, addressJ⟩ := slot j seatedJ
      rw [tokenI, tokenJ, addressI, addressJ] at same
      exact same.elim (ledger.tokens i j beforeI beforeJ) (ledger.places i j beforeI beforeJ)
  cases s.step_turn e with
  | keeps keeps =>
    refine kept keeps.drawn fun i seated => ?_
    obtain ⟨before, same⟩ := keeps.slot i seated
    exact ⟨before, same.token, same.address⟩
  | took d j packet isPacket decoded takes took =>
    refine kept took.drawn fun i seated => ?_
    obtain ⟨before, token, address, _⟩ := took.slot i seated
    exact ⟨before, token, address⟩
  | seats d k packet isPacket decoded seats =>
    subst isPacket
    have new : ∀ x ∈ s.drawn, x.1 ≠ d.random := undrawn.resolve_left seats.drawnToken
    obtain ⟨token, address, _⟩ := seats.self
    have apart {j : Fin 4} (other : j ≠ k) (seated : ((s.step (.packet d)).players j).occupied = true) :
        ((s.step (.packet d)).players j).token ≠ d.random ∧
        ((s.step (.packet d)).players j).address ≠ d.address := by
      obtain ⟨before, same⟩ := seats.others j other seated
      rw [same.token, same.address]
      exact ⟨new _ (ledger.seated j before), seats.newcomer j before⟩
    refine ⟨fun i seated => ?_, ?_, fun i j seatedI seatedJ clash => ?_⟩
    · rw [seats.drawn]
      by_cases isK : i = k
      · rw [isK, token, address]
        simp
      · obtain ⟨before, same⟩ := seats.others i isK seated
        rw [same.token, same.address]
        exact List.mem_append_left _ (ledger.seated i before)
    · rw [seats.drawn, List.map_append, List.nodup_append]
      refine ⟨ledger.apart, by simp, fun a old b last => ?_⟩
      obtain ⟨x, member, rfl⟩ := List.mem_map.mp old
      simp only [List.map_cons, List.map_nil, List.mem_singleton] at last
      rw [last]
      exact new x member
    · by_cases isI : i = k
      · by_cases isJ : j = k
        · rw [isI, isJ]
        · rw [isI, token, address] at clash
          obtain ⟨tokenJ, addressJ⟩ := apart isJ seatedJ
          exact (clash.elim (tokenJ ·.symm) (addressJ ·.symm)).elim
      · by_cases isJ : j = k
        · rw [isJ, token, address] at clash
          obtain ⟨tokenI, addressI⟩ := apart isI seatedI
          exact (clash.elim tokenI addressI).elim
        · obtain ⟨beforeI, sameI⟩ := seats.others i isI seatedI
          obtain ⟨beforeJ, sameJ⟩ := seats.others j isJ seatedJ
          rw [sameI.token, sameJ.token, sameI.address, sameJ.address] at clash
          exact clash.elim (ledger.tokens i j beforeI beforeJ) (ledger.places i j beforeI beforeJ)

theorem drawn_step (s : Server) (e : Event) {x : UInt64 × Endpoint} (member : x ∈ s.drawn) :
    x ∈ (s.step e).drawn := by
  cases s.step_turn e with
  | keeps keeps => exact keeps.drawn ▸ member
  | seats d k packet isPacket decoded seats =>
    rw [seats.drawn]
    exact List.mem_append_left _ member
  | took d j packet isPacket decoded takes took => exact took.drawn ▸ member

theorem sent_step (s : Server) (e : Event) {d : Datagram} (member : d ∈ s.sent) : d ∈ (s.step e).sent := by
  obtain ⟨new, sent, _⟩ := (s.step_emission e).news
  rw [sent]
  exact List.mem_append_left _ member

theorem Ledger.step {s : Server} (ledger : Ledger s) {e : Event} (undrawn : Undrawn s e) :
    Ledger (s.step e) := by
  obtain ⟨seated, apart, distinct⟩ := ledger.slots undrawn
  refine ⟨seated, apart, fun i j seatedI seatedJ same => distinct i j seatedI seatedJ (.inl same),
    fun i j seatedI seatedJ same => distinct i j seatedI seatedJ (.inr same), fun d present p decoded kind => ?_⟩
  obtain ⟨new, sent, news⟩ := (s.step_emission e).news
  rw [sent, List.mem_append] at present
  rcases present with old | fresh
  · obtain ⟨session, drawn⟩ := ledger.answers d old p decoded kind
    exact ⟨session.trans (s.step_session e).symm, s.drawn_step e drawn⟩
  rcases news d fresh with plain | ⟨i, occupied, place, shows⟩
  · obtain ⟨notWelcome, notPicture⟩ := plain p decoded
    rw [notWelcome, notPicture] at kind
    simp at kind
  · have header : p.session = (s.step e).session ∧ p.token = ((s.step e).players i).token := by
      rcases shows with welcome | ⟨_, picture⟩
      · rw [decoded] at welcome
        cases Option.some.inj welcome
        exact ⟨rfl, rfl⟩
      · rw [decoded] at picture
        cases Option.some.inj picture
        exact ⟨rfl, rfl⟩
    rw [header.1, header.2, place]
    exact ⟨rfl, seated i occupied⟩

theorem Ledger.create {s : Server} (init : system.init s) : Ledger s := by
  obtain ⟨c, session, now, created⟩ := init
  obtain ⟨_, _, _, _, _, rfl⟩ := create_some created
  have vacant (i : Fin 4) (seated : (({} : Player)).occupied = true) : False := nomatch seated
  exact ⟨fun i seated => (vacant i seated).elim, List.nodup_nil, fun i _ seated => (vacant i seated).elim,
    fun i _ seated => (vacant i seated).elim, fun d present => nomatch present⟩

end FzeroVs.Server
