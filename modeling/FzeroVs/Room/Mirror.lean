import FzeroVs.Room.System
import FzeroVs.Client.Accept

namespace FzeroVs

namespace Client

theorem Move.socket {c d : Client} (move : Move c d) : d.socket = c.socket ∨ d.socket = false := by
  cases move with
  | idle idle => exact .inl idle.socket
  | retransmit t waiting =>
    refine .inl ?_
    unfold send
    split <;> rfl
  | queue command => exact .inl (c.queue_socket command)
  | select waiting unsent joined lobby => exact .inl (c.queue_socket _)
  | load ram location playing unsent loading => exact .inl (c.queue_socket _)
  | finish racing playing unsent => exact .inl (c.queue_socket _)
  | arm counting unarmed => exact .inl (c.queue_socket _)
  | play before after baseline seated => exact .inl rfl
  | fail => exact .inr rfl

theorem Path.socket {c d : Client} (path : Path c d) : d.socket = c.socket ∨ d.socket = false := by
  induction path with
  | refl => exact .inl rfl
  | tail _ move ih =>
    rcases move.socket with same | closed
    · rw [same]
      exact ih
    · exact .inr closed

/-- A client with the picture of its last accepted snapshot, or none yet. -/
structure Mirror (c : Client) : Prop where
  waiting : c.id = none → c.socket = true → c.accepted = []
  blank : c.accepted = [] → c.phase = .lobby
  last : ∀ p, c.accepted.getLast? = some p → ∃ v, readPicture p = some v ∧ c.phase = v.phase ∧
    c.startTime = v.start ∧ c.armedMask = v.armedMask ∧ c.peers = v.peers ∧ c.race = p.race ∧
    c.snapshotSeq = p.seq

theorem Mirror.kept {c d : Client} (mirror : Mirror c) (kept : Kept c d)
    (socket : d.socket = c.socket ∨ d.socket = false) : Mirror d where
  waiting none opened := by
    rw [kept.accepted]
    rcases socket with same | closed
    · exact mirror.waiting (kept.id ▸ none) (same ▸ opened)
    · rw [closed] at opened
      exact nomatch opened
  blank empty := by
    rw [kept.phase]
    exact mirror.blank (kept.accepted ▸ empty)
  last p isLast := by
    rw [kept.phase, kept.startTime, kept.armedMask, kept.peers, kept.race, kept.snapshotSeq]
    exact mirror.last p (kept.accepted ▸ isLast)

theorem Mirror.join {c : Client} (mirror : Mirror c) (t : UInt64) {p : Packet} (i : Fin 4)
    (admits : Admits c p) : Mirror (c.join t p i) := by
  have empty := mirror.waiting admits.waiting admits.opened
  refine ⟨fun _ _ => empty, fun _ => mirror.blank empty, fun q isLast => ?_⟩
  change c.accepted.getLast? = some q at isLast
  rw [empty] at isLast
  exact nomatch isLast

theorem Mirror.accept {c : Client} (t : UInt64) {p : Packet} {v : Picture} (accepts : Accepts c p v) :
    Mirror (c.accept t p v) := by
  have took := c.accept_took t p v
  have shows := c.accept_shows t p v
  refine ⟨fun none => absurd (took.id ▸ none) accepts.joined, fun empty => ?_, fun q isLast => ?_⟩
  · rw [took.accepted] at empty
    simp at empty
  · rw [took.accepted, List.getLast?_concat] at isLast
    cases isLast
    exact ⟨v, accepts.read, shows.phase, shows.startTime, shows.armedMask, shows.peers, took.race,
      took.snapshotSeq⟩

theorem detach_socket (c : Client) : c.detach.socket = false ∧ c.detach.id = none := by
  refine ⟨?_, rfl⟩
  unfold detach
  dsimp only
  split
  · rfl
  next closed => simpa using closed

theorem Mirror.detach {c : Client} (mirror : Mirror c) : Mirror c.detach := by
  have keeps {α : Type} (g : Client → α) := detach_keeps g
  refine ⟨fun _ opened => ?_, fun empty => ?_, fun p isLast => ?_⟩
  · rw [c.detach_socket.1] at opened
    exact nomatch opened
  · rw [keeps Client.phase fun _ _ _ _ _ _ => rfl]
    rw [keeps Client.accepted fun _ _ _ _ _ _ => rfl] at empty
    exact mirror.blank empty
  · rw [keeps Client.phase fun _ _ _ _ _ _ => rfl, keeps Client.startTime fun _ _ _ _ _ _ => rfl,
      keeps Client.armedMask fun _ _ _ _ _ _ => rfl, keeps Client.peers fun _ _ _ _ _ _ => rfl,
      keeps Client.race fun _ _ _ _ _ _ => rfl, keeps Client.snapshotSeq fun _ _ _ _ _ _ => rfl]
    rw [keeps Client.accepted fun _ _ _ _ _ _ => rfl] at isLast
    exact mirror.last p isLast

/-- A new socket starts without a picture. -/
theorem attach_blank (c : Client) (random : Option UInt64) (now : UInt64) :
    (c.attach random now).accepted = [] ∧ (c.attach random now).id = none ∧
    ((c.attach random now).phase = .lobby ∨ (c.attach random now).phase = c.phase) := by
  have phase : c.detach.phase = c.phase := detach_keeps Client.phase (fun _ _ _ _ _ _ => rfl) c
  unfold attach
  dsimp only
  split
  · split
    · exact ⟨rfl, rfl, .inr phase⟩
    · exact ⟨rfl, rfl, .inl rfl⟩
  · exact ⟨rfl, rfl, .inr phase⟩

theorem Mirror.attach {c : Client} (lobby : c.phase = .lobby) (random : Option UInt64) (now : UInt64) :
    Mirror (c.attach random now) := by
  obtain ⟨empty, _, phase⟩ := c.attach_blank random now
  refine ⟨fun _ _ => empty, fun _ => ?_, fun p isLast => ?_⟩
  · exact phase.elim (fun reset => reset) (·.trans lobby)
  · rw [empty] at isLast
    exact nomatch isLast

/-- A client that has never had a socket. -/
structure Unborn (c : Client) : Prop where
  socket : c.socket = false
  id : c.id = none
  token : c.token = 0
  accepted : c.accepted = []
  phase : c.phase = .lobby

theorem Unborn.step {c : Client} (unborn : Unborn c) {e : Event} (waits : Room.attaches e = false) :
    Unborn (c.step e) := by
  cases c.step_turn e with
  | path path _ _ =>
    have kept := Path.kept path
    refine ⟨?_, kept.id.trans unborn.id, kept.token.trans unborn.token, kept.accepted.trans unborn.accepted,
      kept.phase.trans unborn.phase⟩
    exact (Path.socket path).elim (·.trans unborn.socket) fun closed => closed
  | join t data p isHear decoded admits same =>
    exact nomatch unborn.socket.symm.trans admits.opened
  | accept t data p v isHear decoded accepts same => exact absurd unborn.id accepts.joined
  | attach random now same =>
    rw [same] at waits
    exact nomatch waits
  | detach same =>
    rw [same]
    exact ⟨c.detach_socket.1, rfl, (detach_keeps Client.token (fun _ _ _ _ _ _ => rfl) c).trans unborn.token,
      (detach_keeps Client.accepted (fun _ _ _ _ _ _ => rfl) c).trans unborn.accepted,
      (detach_keeps Client.phase (fun _ _ _ _ _ _ => rfl) c).trans unborn.phase⟩

theorem Unborn.mirror {c : Client} (unborn : Unborn c) : Mirror c := by
  refine ⟨fun _ _ => unborn.accepted, fun _ => unborn.phase, fun p isLast => ?_⟩
  rw [unborn.accepted] at isLast
  exact nomatch isLast

theorem Mirror.step {c : Client} (mirror : Mirror c) (e : Event)
    (once : Room.attaches e = true → Unborn c) : Mirror (c.step e) := by
  cases c.step_turn e with
  | path path _ _ => exact mirror.kept (Path.kept path) (Path.socket path)
  | join t data p isHear decoded admits same =>
    rw [same]
    exact mirror.join t _ admits
  | accept t data p v isHear decoded accepts same =>
    rw [same]
    exact .accept t accepts
  | attach random now same =>
    rw [same]
    exact .attach (once (by rw [same]; rfl)).phase random now
  | detach same =>
    rw [same]
    exact mirror.detach

end Client

namespace Room
variable {ι : Type} [DecidableEq ι] {place : ι ↪ Endpoint} {room : Room ι} {allow : Room ι → Event ι → Prop}

theorem reach_unborn (reach : (system place).Reach allow room) {i : ι} (waits : room.attached i = false) :
    (room.client i).Unborn := by
  revert waits
  refine reach.invariant (P := fun room => room.attached i = false → (room.client i).Unborn)
    (fun room init _ => ?_) fun room e _ may _ unborn waits => ?_
  · obtain ⟨config, fresh⟩ := init.2.1 i
    rw [fresh]
    exact ⟨rfl, rfl, rfl, rfl, rfl⟩
  · cases e with
    | server e => exact unborn waits
    | client j e =>
      change (room.step (.client j e)).attached i = false at waits
      change ((room.step (.client j e)).client i).Unborn
      by_cases isJ : i = j
      · subst isJ
        rw [step_client_self]
        cases attach : attaches e with
        | true => simp [step, attach] at waits
        | false => exact (unborn (by simpa [step, attach] using waits)).step attach
      · rw [step_client_ne e isJ]
        refine unborn ?_
        simp only [step] at waits
        split at waits
        · simpa [Function.update_of_ne isJ] using waits
        · exact waits

theorem reach_mirror (reach : (system place).Reach allow room) (i : ι) : (room.client i).Mirror := by
  refine reach_pair (P := fun _ c => c.Mirror) reach (fun _ c _ init => ?_) (fun _ _ _ _ _ mirror => mirror)
    fun room e previous may _ mirror => ?_
  · obtain ⟨config, rfl⟩ := init
    exact Client.Unborn.mirror ⟨rfl, rfl, rfl, rfl, rfl⟩
  · exact mirror.step e fun attach => reach_unborn previous (enabled_attach may attach)

/-- Whatever a client has accepted was sent to it, under its token. -/
def Heard (address : Endpoint) (s : Server) (c : Client) : Prop :=
  ∀ p ∈ c.accepted, p.is .snapshot = true ∧ p.token = c.token ∧
    ∃ data, (⟨address, data⟩ : Datagram) ∈ s.sent ∧ decode data = some p

theorem reach_heard (reach : (system place).Reach allow room) (i : ι) :
    Heard (place i) room.server (room.client i) := by
  refine reach_pair (P := Heard (place i)) reach (fun _ c _ init => ?_) (fun room e _ _ _ heard p member => ?_)
    fun room e previous may _ heard p member => ?_
  · obtain ⟨config, rfl⟩ := init
    exact fun p member => nomatch member
  · obtain ⟨kind, token, data, sent, decoded⟩ := heard p member
    exact ⟨kind, token, data, room.server.sent_step e sent, decoded⟩
  · have mirror := reach_mirror previous i
    generalize room.client i = c at *
    cases c.step_turn e with
    | path path _ _ =>
      have kept := Client.Path.kept path
      rw [kept.accepted] at member
      rw [kept.token]
      exact heard p member
    | join t data q isHear decoded admits same =>
      rw [same] at member
      change p ∈ c.accepted at member
      rw [mirror.waiting admits.waiting admits.opened] at member
      exact nomatch member
    | accept t data q v isHear decoded accepts same =>
      have took := c.accept_took t q v
      rw [same, took.accepted] at member
      rw [same, took.token]
      rcases List.mem_append.mp member with old | new
      · exact heard p old
      · rw [List.mem_singleton.mp new]
        subst isHear
        exact ⟨Client.readPicture_kind accepts.read, accepts.token, data, may, decoded⟩
    | attach random now same =>
      rw [same] at member
      change p ∈ (c.attach random now).accepted at member
      rw [(c.attach_blank random now).1] at member
      exact nomatch member
    | detach same =>
      rw [same] at member ⊢
      change p ∈ c.detach.accepted at member
      change _ ∧ p.token = c.detach.token ∧ _
      rw [Client.detach_keeps Client.accepted (fun _ _ _ _ _ _ => rfl)] at member
      rw [Client.detach_keeps Client.token (fun _ _ _ _ _ _ => rfl)]
      exact heard p member

end Room

end FzeroVs
