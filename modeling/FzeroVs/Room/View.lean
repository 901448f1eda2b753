import FzeroVs.Server.Chronicle
import FzeroVs.Room.Picture
import FzeroVs.Room.Mirror

namespace FzeroVs

/-- The second snapshot shows the room no earlier than the first. -/
structure Before (p q : Packet) : Prop where
  seq : p.seq.toNat < q.seq.toNat
  race : p.race.toNat ≤ q.race.toNat
  later : ∀ v w, readPicture p = some v → readPicture q = some w → v.time ≤ w.time ∧
    (p.race = q.race → v.phase.rank ≤ w.phase.rank ∧ ∀ j, (v.peers j).status = .finished ∨
      (v.peers j).status = .disconnected → (w.peers j).status ≠ .racing)

namespace Server

/-- The snapshot shows the room no later than it is now. -/
structure Past (p : Packet) (s : Server) (clock : UInt64) : Prop where
  seq : p.seq.toNat ≤ s.snapshotSeq.toNat
  race : p.race.toNat ≤ s.race.toNat
  low : p.race.toNat ≤ p.seq.toNat
  shows : ∀ v, readPicture p = some v → v.time ≤ clock ∧
    (p.race = s.race → v.phase.rank ≤ s.phase.rank ∧ (s.closed = false → ∀ j,
      (v.peers j).status = .finished ∨ (v.peers j).status = .disconnected → s.Retired j))

namespace Past
variable {p : Packet} {s : Server} {clock clock' : UInt64}

theorem stay (past : Past p s clock) (paced : Paced s) (low : s.snapshotSeq.toNat < 2 ^ 31) {e : Event}
    (same : p.race = (s.step e).race) : p.race = s.race ∧ Stay s (s.step e) := by
  have back := past.race
  have onward := paced.race_le low e
  have race : (s.step e).race = s.race := UInt32.toNat.inj (by rw [← same] at onward ⊢; omega)
  refine ⟨same.trans race, ?_⟩
  rcases s.step_stay_or_begun e with stay | ⟨later, _⟩
  · exact stay
  · exact absurd race later.ne

theorem step (past : Past p s clock) (paced : Paced s) (low : s.snapshotSeq.toNat < 2 ^ 31) (e : Event)
    (onward : clock ≤ clock') : Past p (s.step e) clock' where
  seq := past.seq.trans (seq_le low e)
  race := past.race.trans (paced.race_le low e)
  low := past.low
  shows v read := by
    obtain ⟨time, within⟩ := past.shows v read
    refine ⟨UInt64.le_trans time onward, fun same => ?_⟩
    obtain ⟨before, stay⟩ := past.stay paced low same
    obtain ⟨phase, retired⟩ := within before
    refine ⟨phase.trans stay.phase_le, fun live j out => ?_⟩
    exact (retired (Path.live (Stay.path stay) live) j out).stay stay

/-- Whatever is sent now comes after all that was sent before. -/
theorem before (past : Past p s clock) (paced : Paced s) (low : s.snapshotSeq.toNat < 2 ^ 31) {e : Event}
    (loud : (s.step e).snapshotSeq = s.snapshotSeq + 1) (ranged : (s.step e).Ranged) {now : UInt64}
    (onward : clock ≤ now) (i : Fin 4) : Before p ((s.step e).picture now i) where
  seq := by
    have back := past.seq
    have next : (s.snapshotSeq + 1).toNat = s.snapshotSeq.toNat + 1 := toNat_add_one (by omega)
    change p.seq.toNat < (s.step e).snapshotSeq.toNat
    rw [loud, next]
    omega
  race := past.race.trans (paced.race_le low e)
  later v w read shown := by
    rw [readPicture_picture ranged] at shown
    cases shown
    obtain ⟨time, within⟩ := past.shows v read
    refine ⟨UInt64.le_trans time onward, fun same => ?_⟩
    obtain ⟨before, stay⟩ := past.stay paced low same
    obtain ⟨phase, retired⟩ := within before
    have live : s.closed = false := by
      cases closed : s.closed with
      | false => rfl
      | true => exact absurd (loud.symm.trans (closed_silent closed e)) (seq_add_one_ne _)
    refine ⟨phase.trans stay.phase_le, fun j out => ?_⟩
    exact ((retired live j out).stay stay).status

theorem picture (paced : Paced s) (ranged : s.Ranged) (now : UInt64) {i : Fin 4}
    (seated : (s.players i).occupied = true) (rules : s.closed = false → Seating s ∧ Staging s) :
    Past (s.picture now i) s now where
  seq := Nat.le_refl _
  race := Nat.le_refl _
  low := paced.seen (count_pos_iff.mpr ⟨i, seated⟩)
  shows v read := by
    rw [readPicture_picture ranged] at read
    cases read
    refine ⟨UInt64.le_refl _, fun _ => ⟨Nat.le_refl _, fun live j out => ?_⟩⟩
    exact retired_of_status (rules live).1 (rules live).2 out

end Past

/-- The snapshots of every token are in order, and none is ahead of the room. -/
def Album (s : Server) (clock : UInt64) : Prop :=
  ∀ token, (s.shown token).Pairwise Before ∧ ∀ p ∈ s.shown token, Past p s clock

theorem emission_ticked {s : Server} {e : Event} (clock : UInt64)
    (loud : (s.step e).snapshotSeq = s.snapshotSeq + 1) : Room.ticked clock e = e.sampled := by
  cases e with
  | packet d => rfl
  | timer now sampled => rfl
  | probe now => exact absurd (loud.symm.trans (s.probe_utters now).1) (seq_add_one_ne _)
  | close => exact absurd (loud.symm.trans s.close_utters.1) (seq_add_one_ne _)

theorem Album.step {s : Server} {clock : UInt64} (album : Album s clock) (reach : system.Reachable s)
    (ledger : Ledger s) (paced : Paced s) (low : s.snapshotSeq.toNat < 2 ^ 31) {e : Event}
    (undrawn : Undrawn s e) (onward : clock ≤ Room.ticked clock e) :
    Album (s.step e) (Room.ticked clock e) := by
  intro token
  obtain ⟨sorted, past⟩ := album token
  have reached : system.Reachable (s.step e) := reach.next e trivial trivial
  rcases (s.step_emission e).shown token with ⟨silent, same⟩ | ⟨loud, more⟩
  · rw [same]
    exact ⟨sorted, fun p member => (past p member).step paced low e onward⟩
  · have ranged := reachable_ranged reached
    rw [emission_ticked clock loud] at onward ⊢
    rw [more, List.pairwise_append]
    have sole := (ledger.step undrawn).sole token
    refine ⟨⟨sorted, ?_, fun p member q new => ?_⟩, fun p member => ?_⟩
    · rcases sole.holders with none | ⟨i, one⟩
      · simp [none]
      · simp [one]
    · obtain ⟨i, _, rfl⟩ := List.mem_map.mp new
      exact (past p member).before paced low loud ranged onward i
    · rcases List.mem_append.mp member with old | new
      · exact (past p old).step paced low e onward
      · obtain ⟨i, holds, rfl⟩ := List.mem_map.mp new
        refine .picture (paced.step low e) ranged e.sampled (mem_holders.mp holds).1 fun live => ?_
        exact ⟨reachable_seating reached live, reachable_staging reached live⟩

end Server

/-- Of two rising lists the one with fewer members runs through the other. -/
theorem sublist_of_rising {α : Type} (f : α → Nat) {l m : List α} (long : l.Pairwise fun a b => f a < f b)
    (short : m.Pairwise fun a b => f a < f b) (subset : ∀ a ∈ m, a ∈ l) : m.Sublist l := by
  induction l generalizing m with
  | nil =>
    rw [List.eq_nil_iff_forall_not_mem.mpr fun a member => nomatch subset a member]
  | cons a l ih =>
    obtain ⟨first, others⟩ := List.pairwise_cons.mp long
    have tail {m : List α} (above : ∀ b ∈ m, f a < f b) (subset : ∀ b ∈ m, b ∈ a :: l) : ∀ b ∈ m, b ∈ l := by
      intro b member
      rcases List.mem_cons.mp (subset b member) with same | later
      · have strict := above b member
        rw [same] at strict
        exact absurd strict (Nat.lt_irrefl _)
      · exact later
    cases m with
    | nil => exact List.nil_sublist _
    | cons b m =>
      obtain ⟨least, rising⟩ := List.pairwise_cons.mp short
      rcases List.mem_cons.mp (subset b (List.mem_cons_self ..)) with same | later
      · subst same
        exact .cons_cons _ (ih others rising (tail least fun c member => subset c (List.mem_cons_of_mem _ member)))
      · refine .cons _ (ih others short (tail (fun c member => ?_) subset))
        rcases List.mem_cons.mp member with same | after
        · rw [same]
          exact first b later
        · exact (first b later).trans (least c after)

theorem le_getLast {α : Type} (f : α → Nat) {l : List α} {last : α} (rising : l.Pairwise fun a b => f a < f b)
    (isLast : l.getLast? = some last) : ∀ a ∈ l, f a ≤ f last := by
  obtain ⟨init, rfl⟩ := List.getLast?_eq_some_iff.mp isLast
  obtain ⟨_, _, cross⟩ := List.pairwise_append.mp rising
  intro a member
  rcases List.mem_append.mp member with early | final
  · exact (cross a early last (List.mem_singleton_self _)).le
  · rw [List.mem_singleton.mp final]

/-- The newest at most sixteen. -/
def recent (l : List Snapshot) : List Snapshot := l.drop (l.length - 16)

theorem recent_concat (l : List Snapshot) (x : Snapshot) : recent (recent l ++ [x]) = recent (l ++ [x]) := by
  simp only [recent, List.length_append, List.length_drop, List.length_singleton]
  rcases Nat.lt_or_ge l.length 16 with short | long
  · have none : l.length - 16 = 0 := by omega
    rw [none, List.drop_zero, Nat.sub_zero]
  · rw [List.drop_append_of_le_length (by rw [List.length_drop]; omega), List.drop_drop,
      List.drop_append_of_le_length (by omega)]
    congr 2
    omega

namespace Client

/-- What the snapshots accepted in the current generation show. -/
def recorded (c : Client) : List Snapshot :=
  (c.accepted.filter fun p => p.race == c.race).filterMap fun p =>
    (readPicture p).map fun v => ⟨v.time, v.peers⟩

/-- The interpolation buffer of a client that has joined and is connected. -/
structure Buffered (c : Client) : Prop where
  gone : c.game = .disconnected → c.socket = false
  vacant : c.id = none → c.snapshotBuffer = []
  filled : c.id ≠ none → c.game ≠ .disconnected → c.snapshotBuffer = recent c.recorded

theorem Buffered.kept {c d : Client} (buffered : Buffered c) (kept : Kept c d) (socket : d.socket = c.socket)
    (buffer : d.snapshotBuffer = c.snapshotBuffer)
    (game : d.game = c.game ∨ (c.game ≠ .disconnected ∧ d.game ≠ .disconnected)) : Buffered d where
  gone lost := by
    rcases game with same | ⟨_, running⟩
    · rw [socket]
      exact buffered.gone (same ▸ lost)
    · exact absurd lost running
  vacant none := buffer.trans (buffered.vacant (kept.id ▸ none))
  filled joined running := by
    have before : c.game ≠ .disconnected := game.elim (fun same => same ▸ running) fun both => both.1
    rw [buffer, recorded, kept.accepted, kept.race]
    exact buffered.filled (kept.id ▸ joined) before

theorem queue_buffer (c : Client) (command : List UInt8) :
    (c.queue command).snapshotBuffer = c.snapshotBuffer := by
  unfold queue
  split <;> rfl

theorem Buffered.move {c d : Client} (move : Move c d) (buffered : Buffered c) : Buffered d := by
  have queued (command : List UInt8) : Buffered (c.queue command) :=
    buffered.kept (c.queue_kept command) (c.queue_socket command) (c.queue_buffer command)
      (.inl (c.queue_frame command).1)
  have again {d e : Client} (buffered : Buffered d) (kept : Kept d e) (socket : e.socket = d.socket)
      (buffer : e.snapshotBuffer = d.snapshotBuffer) (game : e.game = d.game) : Buffered e :=
    buffered.kept kept socket buffer (.inl game)
  cases move with
  | idle idle =>
    exact buffered.kept (Move.kept (.idle idle)) idle.socket idle.snapshotBuffer (.inl idle.game)
  | @retransmit p rest t waiting =>
    have sent : Buffered (c.send p.packet) := by
      unfold send
      split
      · exact again buffered { Kept.refl c with } rfl rfl rfl
      · exact buffered
    exact again sent { Kept.refl (c.send p.packet) with } rfl rfl rfl
  | queue command => exact queued command
  | select waiting unsent joined lobby => exact again (queued _) { Kept.refl _ with } rfl rfl rfl
  | load ram location playing unsent loading => exact again (queued _) { Kept.refl _ with } rfl rfl rfl
  | finish racing playing unsent => exact again (queued _) { Kept.refl _ with } rfl rfl rfl
  | arm counting unarmed => exact again (queued _) { Kept.refl _ with } rfl rfl rfl
  | play before after baseline seated =>
    exact buffered.kept { Kept.refl c with } rfl rfl (.inr ⟨before, after⟩)
  | fail => exact ⟨fun _ => rfl, fun _ => rfl, fun _ running => absurd rfl running⟩

theorem Buffered.settle {c : Client} (buffered : Buffered c) (t : UInt64) {p : Packet} {v : Picture}
    (accepts : Accepts c p v) (fresh : p.race ≠ c.race → ∀ q ∈ c.accepted, q.race ≠ p.race) :
    Buffered (c.settle t p v) := by
  have took := c.settle_took t p v
  have running : c.game ≠ .disconnected := by
    intro lost
    exact nomatch (buffered.gone lost).symm.trans accepts.opened
  have game := (c.settle_game t p v).2
  refine ⟨fun lost => ?_, fun none => absurd (took.id ▸ none) accepts.joined, fun _ _ => ?_⟩
  · rcases game with same | init
    · exact absurd (same ▸ lost) running
    · exact nomatch init.symm.trans lost
  · rw [recorded, took.accepted, took.race, List.filter_append]
    have last : [p].filter (fun q => q.race == p.race) = [p] := by simp
    rw [last, List.filterMap_append]
    simp only [List.filterMap_cons, accepts.read, Option.map_some, List.filterMap_nil]
    by_cases same : p.race = c.race
    · have before := buffered.filled accepts.joined running
      rw [recorded] at before
      rw [same, ← recent_concat, ← before]
      simp only [Client.settle, newRace, same, ne_eq, not_true_eq_false, if_false, display, bufferSnapshot]
      rfl
    · have none : c.accepted.filter (fun q => q.race == p.race) = [] := by
        refine List.filter_eq_nil_iff.mpr fun q member => ?_
        simpa using fresh same q member
      rw [none]
      simp only [Client.settle, newRace, same, ne_eq, not_false_eq_true, if_true, display, bufferSnapshot,
        resetGame]
      rfl

theorem Buffered.attach (c : Client) (random : Option UInt64) (now : UInt64) :
    Buffered (c.attach random now) := by
  have down : c.detach.socket = false := c.detach_socket.1
  unfold Client.attach
  dsimp only
  split
  · split
    · exact ⟨fun _ => rfl, fun _ => rfl, fun joined => absurd rfl joined⟩
    · exact ⟨fun lost => (nomatch lost), fun _ => rfl, fun joined => absurd rfl joined⟩
  · exact ⟨fun _ => rfl, fun _ => rfl, fun joined => absurd rfl joined⟩

end Client

namespace Room
variable {ι : Type} [DecidableEq ι] {place : ι ↪ Endpoint} {room : Room ι}

/-- The room has taken fewer than half of all snapshot numbers. -/
def Below (room : Room ι) (e : Event ι) : Prop := (room.step e).server.snapshotSeq.toNat < 2 ^ 31

instance Below.decidable (room : Room ι) (e : Event ι) : Decidable (Below room e) :=
  inferInstanceAs (Decidable (_ < _))

theorem reach_low (reach : (system place).Reach Below room) : room.server.snapshotSeq.toNat < 2 ^ 31 := by
  refine reach.invariant (P := fun room => room.server.snapshotSeq.toNat < 2 ^ 31)
    (fun room init => ?_) fun room e _ _ below _ => below
  obtain ⟨c, session, now, created⟩ := init.1
  obtain ⟨_, _, _, _, _, same⟩ := Server.create_some created
  rw [same]
  exact (by decide : (0 : UInt32).toNat < 2 ^ 31)

theorem reach_paced (reach : (system place).Reach Below room) : room.server.Paced := by
  refine reach.invariant (P := fun room => room.server.Paced)
    (fun room init => .create init.1) fun room e previous _ _ paced => ?_
  cases e with
  | server e => exact paced.step (reach_low previous) e
  | client i e => exact paced

theorem reach_album (reach : (system place).Reach Below room) : room.server.Album room.clock := by
  refine reach.invariant (P := fun room => room.server.Album room.clock)
    (fun room init token => ?_) fun room e previous may _ album => ?_
  · obtain ⟨c, session, now, created⟩ := init.1
    obtain ⟨_, _, _, _, _, same⟩ := Server.create_some created
    have empty : room.server.shown token = [] := by rw [same]; rfl
    rw [empty]
    exact ⟨.nil, fun p member => nomatch member⟩
  · cases e with
    | server e =>
      exact album.step (reach_server previous) (reach_ledger previous) (reach_paced previous)
        (reach_low previous) (enabled_undrawn may) (enabled_clock may)
    | client i e => exact album

theorem mem_shown {s : Server} {token : UInt64} {d : Datagram} {p : Packet} (present : d ∈ s.sent)
    (decoded : decode d.data = some p) (kind : p.is .snapshot = true) (own : p.token = token) :
    p ∈ s.shown token := by
  refine List.mem_filterMap.mpr ⟨d, present, ?_⟩
  simp [decoded, Option.filter, kind, own]

theorem accepted_shown {allow : Room ι → Event ι → Prop} (reach : (system place).Reach allow room) (i : ι) :
    ∀ p ∈ (room.client i).accepted, p ∈ room.server.shown (room.client i).token := by
  intro p member
  obtain ⟨kind, token, data, sent, decoded⟩ := reach_heard reach i p member
  exact mem_shown sent decoded kind token

/-- The accepted snapshots are numbered upwards. -/
theorem reach_rising (reach : (system place).Reach Below room) (i : ι) :
    (room.client i).accepted.Pairwise fun p q => p.seq.toNat < q.seq.toNat := by
  refine reach_pair (P := fun _ c => c.accepted.Pairwise fun p q => p.seq.toNat < q.seq.toNat) reach
    (fun _ c _ init => ?_) (fun _ _ _ _ _ rising => rising) fun room e previous may _ rising => ?_
  · obtain ⟨config, rfl⟩ := init
    exact .nil
  · have mirror := reach_mirror previous i
    have low := reach_low previous
    have shown := accepted_shown previous i
    generalize room.client i = c at *
    cases c.step_turn e with
    | path path _ _ =>
      rw [(Client.Path.kept path).accepted]
      exact rising
    | join t data q isHear decoded admits same =>
      rw [same]
      exact rising
    | accept t data q v isHear decoded accepts same =>
      rw [same, (c.accept_took t q v).accepted, List.pairwise_append]
      refine ⟨rising, List.pairwise_singleton _ _, fun p member r new => ?_⟩
      rw [List.mem_singleton.mp new]
      subst isHear
      have lowQ := ((reach_album previous _).2 q
        (mem_shown may decoded (Client.readPicture_kind accepts.read) accepts.token)).seq
      obtain ⟨last, isLast⟩ : ∃ last, c.accepted.getLast? = some last :=
        ⟨_, List.getLast?_eq_some_getLast (List.ne_nil_of_mem member)⟩
      have lowLast := ((reach_album previous _).2 last (shown last (List.mem_of_getLast? isLast))).seq
      obtain ⟨_, _, _, _, _, _, _, seq⟩ := mirror.last last isLast
      have fresh := accepts.fresh
      simp only [Client.fresh, Bool.and_eq_true] at fresh
      have newest := fresh.1
      rw [seq, newer_iff_lt (by omega) (by omega)] at newest
      exact Nat.lt_of_le_of_lt (le_getLast (fun p => p.seq.toNat) rising isLast p member) newest
    | attach random now same =>
      rw [same]
      change (c.attach random now).accepted.Pairwise _
      rw [(c.attach_blank random now).1]
      exact .nil
    | detach same =>
      rw [same]
      change c.detach.accepted.Pairwise _
      rw [Client.detach_keeps Client.accepted (fun _ _ _ _ _ _ => rfl)]
      exact rising

/-- The client accepts some of what the room sent to its token, in the order
in which the room sent it. -/
theorem reach_sublist (reach : (system place).Reach Below room) (i : ι) :
    (room.client i).accepted.Sublist (room.server.shown (room.client i).token) :=
  sublist_of_rising (fun p => p.seq.toNat) ((reach_album reach _).1.imp fun before => before.seq)
    (reach_rising reach i) (accepted_shown reach i)

theorem reach_before (reach : (system place).Reach Below room) (i : ι) :
    (room.client i).accepted.Pairwise Before := (reach_album reach _).1.sublist (reach_sublist reach i)

/-- The next snapshot that a client accepts comes after all it has. -/
theorem accept_before (reach : (system place).Reach Below room) {i : ι} {e : Client.Event}
    (may : enabled place room (.client i e)) {t : UInt64} {p : Packet} {v : Picture}
    (same : (room.client i).step e = (room.client i).accept t p v) :
    ∀ q ∈ (room.client i).accepted, Before q p := by
  have low := reach_low reach
  have below : Below room (.client i e) := low
  have reached : (system place).Reach Below (room.step (.client i e)) := .next (Event.client i e) reach may below
  have sorted := reach_before reached i
  rw [step_client_self, same, ((room.client i).accept_took t p v).accepted, List.pairwise_append] at sorted
  exact fun q member => sorted.2.2 q member p (List.mem_singleton_self _)

theorem reach_buffered (reach : (system place).Reach Below room) (i : ι) : (room.client i).Buffered := by
  refine reach_pair (P := fun _ c => c.Buffered) reach (fun _ c _ init => ?_) (fun _ _ _ _ _ buffered => buffered)
    fun room e previous may _ buffered => ?_
  · obtain ⟨config, rfl⟩ := init
    exact ⟨fun lost => (nomatch lost), fun _ => rfl, fun joined => absurd rfl joined⟩
  · have mirror := reach_mirror previous i
    have sorted := reach_before previous i
    have before {t : UInt64} {p : Packet} {v : Picture} := accept_before previous (t := t) (p := p) (v := v) may
    generalize room.client i = c at *
    cases c.step_turn e with
    | path path _ _ => exact Client.Path.keeps path (fun _ _ move buffered => buffered.move move) buffered
    | join t data p isHear decoded admits same =>
      rw [same]
      have empty := mirror.waiting admits.waiting admits.opened
      refine ⟨buffered.gone, fun none => (nomatch none), fun _ _ => ?_⟩
      change c.snapshotBuffer = recent ((c.accepted.filter _).filterMap _)
      rw [buffered.vacant admits.waiting, empty]
      rfl
    | accept t data p v isHear decoded accepts same =>
      have onward := before same
      rw [same]
      have settled := buffered.settle t accepts fun other q member clash => ?_
      · exact Client.Path.keeps (c.settle t p v).arm_path (fun _ _ move buffered => buffered.move move) settled
      · -- The last accepted snapshot would lie between two of one generation.
        obtain ⟨last, isLast⟩ : ∃ last, c.accepted.getLast? = some last :=
          ⟨_, List.getLast?_eq_some_getLast (List.ne_nil_of_mem member)⟩
        obtain ⟨_, _, _, _, _, _, race, _⟩ := mirror.last last isLast
        have ahead := (onward last (List.mem_of_getLast? isLast)).race
        have back : q.race.toNat ≤ last.race.toNat := by
          obtain ⟨init, split⟩ := List.getLast?_eq_some_iff.mp isLast
          rw [split] at member sorted
          rcases List.mem_append.mp member with early | final
          · exact ((List.pairwise_append.mp sorted).2.2 q early last (List.mem_singleton_self _)).race
          · rw [List.mem_singleton.mp final]
        rw [clash] at back
        exact other (UInt32.toNat.inj (by rw [race]; omega))
    | attach random now same =>
      rw [same]
      exact .attach c random now
    | detach same =>
      rw [same]
      exact ⟨fun lost => (nomatch lost), fun _ => rfl, fun joined => absurd rfl joined⟩

/-- Every WELCOME names a generation that has had its first snapshot. -/
theorem reach_greeted (reach : (system place).Reach Below room) : ∀ d ∈ room.server.sent, ∀ p,
    decode d.data = some p → p.is .welcome = true → p.race.toNat ≤ room.server.snapshotSeq.toNat := by
  refine reach.invariant (P := fun room => ∀ d ∈ room.server.sent, ∀ p, decode d.data = some p →
    p.is .welcome = true → p.race.toNat ≤ room.server.snapshotSeq.toNat)
    (fun room init d member => ?_) fun room e previous _ _ greeted => ?_
  · obtain ⟨c, session, now, created⟩ := init.1
    obtain ⟨_, _, _, _, _, same⟩ := Server.create_some created
    rw [same] at member
    exact nomatch member
  · cases e with
    | client i e => exact greeted
    | server e =>
      intro d member p decoded welcome
      have low := reach_low previous
      obtain ⟨new, sent, news⟩ := (room.server.step_emission e).news
      change d ∈ (room.server.step e).sent at member
      rw [sent] at member
      rcases List.mem_append.mp member with old | added
      · exact (greeted d old p decoded welcome).trans (Server.seq_le low e)
      · rcases news d added with other | ⟨j, seated, _, isWelcome | ⟨_, isPicture⟩⟩
        · exact nomatch (other p decoded).1.symm.trans welcome
        · rw [isWelcome] at decoded
          cases decoded
          exact ((reach_paced previous).step low e).seen (Server.count_pos_iff.mpr ⟨j, seated⟩)
        · rw [isPicture] at decoded
          cases decoded
          exact nomatch welcome

/-- A client that has joined is in a generation that has been shown. -/
theorem reach_race (reach : (system place).Reach Below room) {i : ι} (joined : (room.client i).id ≠ none) :
    (room.client i).race.toNat ≤ room.server.snapshotSeq.toNat := by
  revert joined
  refine reach_pair (P := fun s c => c.id ≠ none → c.race.toNat ≤ s.snapshotSeq.toNat) reach
    (fun _ c _ init joined => ?_) (fun room e previous _ _ shown joined => ?_)
    fun room e previous may _ shown joined => ?_
  · obtain ⟨config, rfl⟩ := init
    exact absurd rfl joined
  · exact (shown joined).trans (Server.seq_le (reach_low previous) e)
  · generalize room.client i = c at *
    cases c.step_turn e with
    | path path _ _ =>
      have kept := Client.Path.kept path
      rw [kept.race]
      exact shown (kept.id ▸ joined)
    | join t data p isHear decoded admits same =>
      rw [same]
      subst isHear
      exact reach_greeted previous _ may p decoded admits.welcome
    | accept t data p v isHear decoded accepts same =>
      rw [same, (c.accept_took t p v).race]
      subst isHear
      have past := (reach_album previous c.token).2 p
        (mem_shown may decoded (Client.readPicture_kind accepts.read) accepts.token)
      exact past.low.trans past.seq
    | attach random now same =>
      rw [same] at joined
      exact absurd (c.attach_blank random now).2.1 joined
    | detach same =>
      rw [same] at joined
      exact absurd rfl joined

/-- The client keeps its place, and its generation and phase only go on. -/
structure Onward (c d : Client) : Prop where
  id : d.id = c.id
  session : d.session = c.session
  token : d.token = c.token
  view : c.race.toNat < d.race.toNat ∨ (d.race = c.race ∧ c.phase.rank ≤ d.phase.rank)

theorem Onward.refl (c : Client) : Onward c c := ⟨rfl, rfl, rfl, .inr ⟨rfl, Nat.le_refl _⟩⟩

/-- A client that has joined goes on, unless it detaches. -/
theorem step_onward (reach : (system place).Reach Below room) {i : ι} (joined : (room.client i).id ≠ none)
    {e : Client.Event} (may : enabled place room (.client i e)) (stays : e ≠ .detach) :
    Onward (room.client i) ((room.client i).step e) := by
  have mirror := reach_mirror reach i
  have raceLow := (reach_race reach joined).trans_lt (reach_low reach)
  have before {t : UInt64} {p : Packet} {v : Picture} := accept_before reach (t := t) (p := p) (v := v) may
  have attached := reach_unborn reach (i := i)
  generalize room.client i = c at *
  cases c.step_turn e with
  | path path _ _ =>
    have kept := Client.Path.kept path
    exact ⟨kept.id, kept.session, kept.token, .inr ⟨kept.race, by rw [kept.phase]⟩⟩
  | join t data p isHear decoded admits same => exact absurd admits.waiting joined
  | accept t data p v isHear decoded accepts same =>
    have sorted := before same
    have took := c.accept_took t p v
    rw [same]
    refine ⟨took.id, took.session, took.token, ?_⟩
    rw [took.race, (c.accept_shows t p v).phase]
    have fresh := accepts.fresh
    simp only [Client.fresh, Bool.and_eq_true, Bool.or_eq_true, beq_iff_eq] at fresh
    rcases fresh.2 with same | later
    · refine .inr ⟨same, ?_⟩
      cases isLast : c.accepted.getLast? with
      | none =>
        rw [mirror.blank (List.getLast?_eq_none_iff.mp isLast)]
        exact Nat.zero_le _
      | some last =>
        obtain ⟨w, read, phase, _, _, _, race, _⟩ := mirror.last last isLast
        have onward := (sorted last (List.mem_of_getLast? isLast)).later w v read accepts.read
        rw [phase]
        exact (onward.2 (race.symm.trans same.symm)).1
    · subst isHear
      have past := (reach_album reach c.token).2 p
        (mem_shown may decoded (Client.readPicture_kind accepts.read) accepts.token)
      rw [newer_iff_lt ((past.low.trans past.seq).trans_lt (reach_low reach)) raceLow] at later
      exact .inl later
  | attach random now same =>
    exact absurd (attached (enabled_attach may (by rw [same]; rfl))).id joined
  | detach same => exact absurd same stays

theorem recorded_sorted {c : Client} (sorted : c.accepted.Pairwise Before) :
    c.recorded.Pairwise fun p q => p.time ≤ q.time := by
  refine List.Pairwise.filterMap _ (fun p q before x atX y atY => ?_) (sorted.filter _)
  obtain ⟨v, read, rfl⟩ := Option.map_eq_some_iff.mp atX
  obtain ⟨w, shown, rfl⟩ := Option.map_eq_some_iff.mp atY
  exact (before.later v w read shown).1

/-- What a client has accepted is what the room has sent to its token, less
some of it, in order and with rising numbers; no snapshot is behind another.
The client shows the last of them and, while it is connected, buffers the
newest of its generation; no step but leaving moves it back or changes its
place. -/
theorem monotone_view (reach : (system place).Reach Below room) (i : ι) :
    (room.client i).accepted.Sublist (room.server.shown (room.client i).token) ∧
    (room.client i).accepted.Pairwise Before ∧
    (∀ p, (room.client i).accepted.getLast? = some p → ∃ v, readPicture p = some v ∧
      (room.client i).race = p.race ∧ (room.client i).phase = v.phase ∧ (room.client i).peers = v.peers) ∧
    ((room.client i).id ≠ none → (room.client i).game ≠ .disconnected →
      (room.client i).snapshotBuffer = recent (room.client i).recorded ∧
      (room.client i).snapshotBuffer.Pairwise fun x y => x.time ≤ y.time) ∧
    ((room.client i).id ≠ none → ∀ e, enabled place room e → e ≠ .client i .detach →
      Onward (room.client i) ((room.step e).client i)) := by
  have sorted := reach_before reach i
  refine ⟨reach_sublist reach i, sorted, fun p isLast => ?_, fun joined running => ?_,
    fun joined e may stays => ?_⟩
  · obtain ⟨v, read, phase, _, _, peers, race, _⟩ := (reach_mirror reach i).last p isLast
    exact ⟨v, read, race, phase, peers⟩
  · have filled := (reach_buffered reach i).filled joined running
    rw [filled]
    exact ⟨rfl, (recorded_sorted sorted).sublist (List.drop_sublist _ _)⟩
  · cases e with
    | server e => exact .refl _
    | client j e =>
      by_cases isJ : i = j
      · subst isJ
        rw [step_client_self]
        exact step_onward reach joined may fun leaves => stays (by rw [leaves])
      · rw [step_client_ne e isJ]
        exact .refl _

/-- The sample client after its first snapshots. -/
def sampleViewer : Room (Fin 1) := (sampleEvents.take 13).foldl step sampleLobby

theorem sampleViewer_reach : (system samplePlace).Reach Below sampleViewer :=
  System.Reach.run (.start sampleLobby_init) (by decide +kernel)

theorem sampleViewer_view : (sampleViewer.client 0).accepted.length = 2 ∧
    (sampleViewer.client 0).snapshotBuffer = recent (sampleViewer.client 0).recorded := by
  have view := monotone_view sampleViewer_reach 0
  exact ⟨by decide +kernel, (view.2.2.2.1 (by decide +kernel) (by decide +kernel)).1⟩

end Room

end FzeroVs
