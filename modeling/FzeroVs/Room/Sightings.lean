import FzeroVs.Room.Reports
import FzeroVs.Room.Picture

namespace FzeroVs

/-- A machine that is not on the track stands at the origin. -/
def Player.Parked (p : Player) : Prop := p.status ≠ .loaded → p.status ≠ .racing → p.x = 0 ∧ p.y = 0

theorem Player.Parked.of_eq {p q : Player} (parked : p.Parked) (status : q.status = p.status) (x : q.x = p.x)
    (y : q.y = p.y) : q.Parked := by
  intro loaded racing
  rw [status] at loaded racing
  rw [x, y]
  exact parked loaded racing

namespace Server

/-- In the lobby every machine is parked. -/
structure Parked (s : Server) : Prop where
  out : ∀ i, (s.players i).Parked
  lobby : s.phase = .lobby → ∀ i, (s.players i).status ≠ .loaded ∧ (s.players i).status ≠ .racing

namespace Parked
variable {s t : Server}

theorem of_eq (parked : Parked s) (phase : t.phase = s.phase)
    (players : ∀ i, (t.players i).status = (s.players i).status ∧ (t.players i).x = (s.players i).x ∧
      (t.players i).y = (s.players i).y) : Parked t where
  out i := (parked.out i).of_eq (players i).1 (players i).2.1 (players i).2.2
  lobby lobby i := by
    rw [(players i).1]
    exact parked.lobby (phase ▸ lobby) i

theorem quiet (parked : Parked s) (quiet : Quiet s t) : Parked t :=
  parked.of_eq quiet.phase fun i => ⟨quiet.status i, quiet.field Player.x (fun _ => rfl) i,
    quiet.field Player.y (fun _ => rfl) i⟩

/-- One slot is rewritten. -/
theorem modify (parked : Parked s) (i : Fin 4) {f : Player → Player} (out : (f (s.players i)).Parked)
    (lobby : s.phase = .lobby → (f (s.players i)).status ≠ .loaded ∧ (f (s.players i)).status ≠ .racing) :
    Parked (s.modify i f) where
  out j := by
    rw [modify_players]
    by_cases isJ : j = i
    · rw [if_pos isJ]
      exact out
    · rw [if_neg isJ]
      exact parked.out j
  lobby phase j := by
    rw [modify_players]
    by_cases isJ : j = i
    · rw [if_pos isJ]
      exact lobby phase
    · rw [if_neg isJ]
      exact parked.lobby phase j

/-- A slot that is not on the track afterwards. -/
theorem modify_off (parked : Parked s) (i : Fin 4) {f : Player → Player} (loaded : (f (s.players i)).status ≠ .loaded)
    (racing : (f (s.players i)).status ≠ .racing) (x : (f (s.players i)).x = 0) (y : (f (s.players i)).y = 0) :
    Parked (s.modify i f) :=
  parked.modify i (fun _ _ => ⟨x, y⟩) fun _ => ⟨loaded, racing⟩

theorem beginLobby (s : Server) : Parked s.beginLobby := by
  have cleared (i : Fin 4) : (s.beginLobby.players i).status ≠ .loaded ∧ (s.beginLobby.players i).status ≠ .racing ∧
      (s.beginLobby.players i).x = 0 ∧ (s.beginLobby.players i).y = 0 := by
    change (relobby (s.players i)).status ≠ .loaded ∧ (relobby (s.players i)).status ≠ .racing ∧
      (relobby (s.players i)).x = 0 ∧ (relobby (s.players i)).y = 0
    unfold relobby
    split
    · exact ⟨by simp, by simp, rfl, rfl⟩
    · exact ⟨by simp, by simp, rfl, rfl⟩
  exact ⟨fun i _ _ => (cleared i).2.2, fun _ i => ⟨(cleared i).1, (cleared i).2.1⟩⟩

theorem disconnect (parked : Parked s) (i : Fin 4) : Parked (s.disconnect i) :=
  parked.modify_off i (by simp) (by simp) rfl rfl

theorem vacate (parked : Parked s) (i : Fin 4) : Parked (s.vacate i) := by
  have cleared (j : Fin 4) : (s.vacate i).players j = s.players j ∨ (s.vacate i).players j = {} := by
    unfold Server.vacate
    dsimp only
    split
    · by_cases isJ : j = i
      · exact .inr (by rw [isJ, Function.update_self])
      · exact .inl (Function.update_of_ne isJ ..)
    · exact .inl rfl
  refine ⟨fun j => ?_, fun lobby j => ?_⟩
  · rcases cleared j with same | empty
    · rw [same]
      exact parked.out j
    · rw [empty]
      exact fun _ _ => ⟨rfl, rfl⟩
  · rcases cleared j with same | empty
    · rw [same]
      exact parked.lobby lobby j
    · rw [empty]
      exact ⟨by decide, by decide⟩

theorem move (move : Move s t) (parked : Parked s) : Parked t := by
  cases move with
  | calm calm =>
    cases calm with
    | quiet quiet => exact parked.quiet quiet
    | spoil i address lobby free => exact parked.modify_off i (by simp) (by simp) rfl rfl
    | @seat r token address nonce i lobby free drawn room fresh =>
      have seated := parked.modify_off (f := fun _ =>
        { address := address, token := token, nonce := nonce, seen := r.seen.val, status := .joined }) i
        (by simp) (by simp) rfl rfl
      exact seated.of_eq rfl fun _ => ⟨rfl, rfl, rfl⟩
    | steer i seq x y orientation now packets bytes phase racing =>
      refine parked.modify i (fun _ off => absurd racing off) fun lobby => ?_
      rw [phase] at lobby
      cases lobby
  | acknowledge r i packet seated =>
    exact parked.of_eq rfl fun j => ⟨acknowledge_players_eq Player.status (fun _ _ _ => rfl) ..,
      acknowledge_players_eq Player.x (fun _ _ _ => rfl) .., acknowledge_players_eq Player.y (fun _ _ _ => rfl) ..⟩
  | @select i car seated lobby small =>
    obtain ⟨x, y⟩ := parked.out i (parked.lobby lobby i).1 (parked.lobby lobby i).2
    exact parked.modify_off i (by simp) (by simp) x y
  | load i x y orientation now seated loading =>
    refine parked.modify i (fun off => absurd rfl off) fun lobby => ?_
    rw [loading] at lobby
    cases lobby
  | arm i seated counting => exact parked.modify i (parked.out i) fun lobby => parked.lobby lobby i
  | finish i racing status => exact parked.modify_off i (by simp) (by simp) rfl rfl
  | config lobby low high room trackSmall leagueSmall => exact parked.of_eq rfl fun _ => ⟨rfl, rfl, rfl⟩
  | next i seated host phase => exact beginLobby s
  | close i seated owner zero => exact (parked.disconnect i).of_eq rfl fun _ => ⟨rfl, rfl, rfl⟩
  | leave i seated others => exact (parked.disconnect i).vacate i
  | empty i seated last => exact (beginLobby _).of_eq rfl fun _ => ⟨rfl, rfl, rfl⟩
  | allSelected lobby full selected => exact ⟨parked.out, fun phase => by cases phase⟩
  | allLoaded now loading loaded deadline => exact ⟨fun i => parked.out i, fun phase => by cases phase⟩
  | reschedule now counting unarmed late deadline => exact parked.of_eq rfl fun _ => ⟨rfl, rfl, rfl⟩
  | go now counting armed due =>
    refine ⟨fun i => ?_, fun phase => by cases phase⟩
    change (release (s.players i)).Parked
    unfold release
    split
    · exact fun _ off => absurd rfl off
    · exact parked.out i
  | allFinished racing finished => exact ⟨parked.out, fun phase => by cases phase⟩
  | shut quiet =>
    have closed : Parked { s with closed := true } := parked.of_eq rfl fun _ => ⟨rfl, rfl, rfl⟩
    exact closed.quiet quiet

end Parked

theorem reachable_parked {s : Server} (reach : system.Reachable s) : Parked s := by
  refine reachable_of_moves (fun s init => ?_) (fun _ _ move parked => parked.move move) reach
  obtain ⟨c, session, now, created⟩ := init
  obtain ⟨_, _, _, _, _, rfl⟩ := create_some created
  exact ⟨fun _ _ _ => ⟨rfl, rfl⟩, fun _ _ => ⟨by simp, by simp⟩⟩

end Server

namespace Server

/-- The token has been given out for slot `id`. -/
structure Names (s : Server) (token : UInt64) (id : Fin 4) : Prop where
  nonzero : token ≠ 0
  drawn : ∃ address, (token, address) ∈ s.drawn
  holder : ∀ k ∈ s.holders token, k = id

theorem Names.step {s : Server} {token : UInt64} {id : Fin 4} (names : Names s token id) {e : Event}
    (undrawn : Undrawn s e) : Names (s.step e) token id where
  nonzero := names.nonzero
  drawn := by
    obtain ⟨address, drawn⟩ := names.drawn
    exact ⟨address, s.drawn_step e drawn⟩
  holder k holds := by
    refine names.holder k (holders_step (fun same => ?_) holds)
    obtain ⟨address, drawn⟩ := names.drawn
    rcases undrawn with none | new
    · exact names.nonzero (same ▸ none)
    · exact new _ drawn same.symm

theorem slot_ofNat (i : Fin 4) : Fin.ofNat 4 (UInt8.ofNat i.val).toNat = i := by
  revert i
  decide

/-- Every WELCOME so far has named the slot of its token. -/
def Welcomed (s : Server) : Prop := ∀ d ∈ s.sent, ∀ p, decode d.data = some p → p.is .welcome = true →
  p.token ≠ 0 → Names s p.token (Fin.ofNat 4 (p.byte 0).toNat)

theorem Welcomed.step {s : Server} (welcomed : Welcomed s) (ledger : Ledger s) {e : Event} (undrawn : Undrawn s e) :
    Welcomed (s.step e) := by
  intro d member p decoded welcome token
  obtain ⟨new, sent, news⟩ := (s.step_emission e).news
  rw [sent] at member
  rcases List.mem_append.mp member with old | added
  · exact (welcomed d old p decoded welcome token).step undrawn
  rcases news d added with other | ⟨i, seated, _, isWelcome | ⟨_, isPicture⟩⟩
  · rw [(other p decoded).1] at welcome
    cases welcome
  · rw [isWelcome] at decoded
    obtain rfl := Option.some.inj decoded
    have later := ledger.step undrawn
    refine ⟨token, ⟨_, later.seated i seated⟩, fun k holds => ?_⟩
    obtain ⟨seatedK, same⟩ := mem_holders.mp holds
    change k = Fin.ofNat 4 (UInt8.ofNat i.val).toNat
    rw [slot_ofNat]
    exact later.tokens k i seatedK seated same
  · rw [isPicture] at decoded
    obtain rfl := Option.some.inj decoded
    cases welcome

end Server

namespace Room
variable {ι : Type} [DecidableEq ι] {place : ι ↪ Endpoint} {room : Room ι} {allow : Room ι → Event ι → Prop}

theorem reach_welcomed (reach : (system place).Reach allow room) : room.server.Welcomed := by
  refine reach.invariant (P := fun room => room.server.Welcomed) (fun room init d member => ?_)
    fun room e previous may _ welcomed => ?_
  · obtain ⟨c, session, now, created⟩ := init.1
    obtain ⟨_, _, _, _, _, same⟩ := Server.create_some created
    rw [same] at member
    exact absurd member List.not_mem_nil
  · cases e with
    | server e => exact welcomed.step (reach_ledger previous) (enabled_undrawn may)
    | client i e => exact welcomed

/-- A client that has joined plays in the slot of its token. -/
theorem reach_names (reach : (system place).Reach allow room) (i : ι) {id : Fin 4}
    (joined : (room.client i).id = some id) : room.server.Names (room.client i).token id := by
  revert id
  refine reach_pair (P := fun s c => ∀ {id : Fin 4}, c.id = some id → s.Names c.token id) reach
    (fun _ c _ init => ?_) (fun room e previous may _ names => ?_) fun room e previous may _ names => ?_
  · obtain ⟨config, rfl⟩ := init
    intro id joined
    cases joined
  · exact fun joined => (names joined).step (enabled_undrawn may)
  · intro id joined
    generalize room.client i = c at *
    cases c.step_turn e with
    | path path _ _ =>
      have kept := Client.Path.kept path
      rw [kept.token]
      exact names (kept.id ▸ joined)
    | join t data p isHear decoded admits same =>
      subst isHear
      rw [same] at joined ⊢
      obtain rfl := Option.some.inj joined
      exact reach_welcomed previous _ may p decoded admits.welcome admits.token
    | accept t data p v isHear decoded accepts same =>
      have took := c.accept_took t p v
      rw [same, took.id] at joined
      rw [same, took.token]
      exact names joined
    | attach random now same =>
      rw [same, Client.step, (c.attach_blank random now).2.1] at joined
      cases joined
    | detach same =>
      rw [same] at joined
      cases joined

end Room

/-- What the games of the clients have shown. -/
abbrev Film (ι : Type) := ι → List Sighting

namespace Film
variable {ι : Type}

/-- The game of the player who has slot `id` under the token has had his machine there in this race. -/
def Has (film : Film ι) (id : Fin 4) (token : UInt64) (race : UInt32) (position : Position) : Prop :=
  ∃ i, (⟨id, token, race, position⟩ : Sighting) ∈ film i

/-- A machine on the track is where it has been seen, any other at the origin. -/
structure Sighted (film : Film ι) (race : UInt32) (id : Fin 4) (status : Status) (position : Position) : Prop where
  onTrack : status = .loaded ∨ status = .racing → ∃ token, film.Has id token race position
  parked : status ≠ .loaded → status ≠ .racing → position.x = 0 ∧ position.y = 0

variable [DecidableEq ι]

/-- The history after an event. -/
def after (film : Film ι) (room : Room ι) : Room.Event ι → Film ι
  | .client i e => Function.update film i (film i ++ (room.client i).seenIn e)
  | .server _ => film

theorem mem_after {film : Film ι} {i : ι} {x : Sighting} (member : x ∈ film i) (room : Room ι) (e : Room.Event ι) :
    x ∈ film.after room e i := by
  cases e with
  | server e => exact member
  | client j e =>
    by_cases isJ : i = j
    · subst isJ
      rw [after, Function.update_self]
      exact List.mem_append_left _ member
    · rw [after, Function.update_of_ne isJ]
      exact member

theorem Has.after {film : Film ι} {id : Fin 4} {token : UInt64} {race : UInt32} {position : Position}
    (has : film.Has id token race position) (room : Room ι) (e : Room.Event ι) :
    (film.after room e).Has id token race position := by
  obtain ⟨i, member⟩ := has
  exact ⟨i, mem_after member room e⟩

theorem Sighted.after {film : Film ι} {id : Fin 4} {race : UInt32} {status : Status} {position : Position}
    (sighted : film.Sighted race id status position) (room : Room ι) (e : Room.Event ι) :
    (film.after room e).Sighted race id status position :=
  ⟨fun onTrack => (sighted.onTrack onTrack).imp fun _ has => has.after room e, sighted.parked⟩

/-- The room with its history. -/
def system (place : ι ↪ Endpoint) : System (Room ι × Film ι) (Room.Event ι) where
  init f := (Room.system place).init f.1 ∧ f.2 = fun _ => []
  enabled f := (Room.system place).enabled f.1
  step f e := (f.1.step e, f.2.after f.1 e)

/-- Everybody in the room plays with this client, and drives it through its window. -/
def Closed (place : ι ↪ Endpoint) (_ : Room ι × Film ι) : Room.Event ι → Prop
  | .server (.packet d) => ∃ i, d.address = place i
  | .server _ => True
  | .client _ e => Client.Polite e

variable {place : ι ↪ Endpoint} {f : Room ι × Film ι}

theorem reach_room (reach : (system place).Reach (Closed place) f) : (Room.system place).Reachable f.1 := by
  induction reach with
  | start init => exact .start init.1
  | next e _ may _ ih => exact .next e ih may trivial

theorem reach_truthful (reach : (system place).Reach (Closed place) f) (i : ι) :
    (f.1.client i).Truthful (f.2 i) := by
  induction reach with
  | @start f init =>
    obtain ⟨⟨_, fresh, _⟩, blank⟩ := init
    obtain ⟨config, same⟩ := fresh i
    rw [same, blank]
    exact ⟨fun _ => rfl, fun r member => absurd member List.not_mem_nil, fun q member => absurd member List.not_mem_nil,
      fun data member => absurd member List.not_mem_nil⟩
  | @next f e previous may closed ih =>
    cases e with
    | server e => exact ih
    | client j e =>
      change ((f.1.step (.client j e)).client i).Truthful (f.2.after f.1 (.client j e) i)
      by_cases isJ : i = j
      · subst isJ
        rw [Room.step_client_self, after, Function.update_self]
        exact ih.step (Room.reach_client (reach_room previous) i) closed
      · rw [Room.step_client_ne e isJ, after, Function.update_of_ne isJ]
        exact ih

/-- Whoever has been seen was the player of his slot. -/
theorem reach_cast (reach : (system place).Reach (Closed place) f) {i : ι} {x : Sighting} (member : x ∈ f.2 i) :
    f.1.server.Names x.token x.id := by
  induction reach with
  | @start f init =>
    rw [init.2] at member
    exact absurd member List.not_mem_nil
  | @next f e previous may closed ih =>
    cases e with
    | server e => exact (ih member).step (Room.enabled_undrawn may)
    | client j e =>
      change x ∈ f.2.after f.1 (.client j e) i at member
      change f.1.server.Names x.token x.id
      by_cases isJ : i = j
      · subst isJ
        rw [after, Function.update_self] at member
        rcases List.mem_append.mp member with old | new
        · exact ih old
        · obtain ⟨joined, token⟩ := Client.mem_seenIn new
          rw [token]
          exact Room.reach_names (reach_room previous) i joined
      · rw [after, Function.update_of_ne isJ] at member
        exact ih member

end Film

end FzeroVs
