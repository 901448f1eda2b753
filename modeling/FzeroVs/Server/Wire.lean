import FzeroVs.Server.Roster

namespace FzeroVs

namespace Server

/-- Nothing has been sent. -/
def Mute (s t : Server) : Prop := t.sent = s.sent ∧ t.snapshotSeq = s.snapshotSeq

theorem Mute.refl (s : Server) : Mute s s := ⟨rfl, rfl⟩

theorem Mute.trans {s t u : Server} (first : Mute s t) (second : Mute t u) : Mute s u :=
  ⟨second.1.trans first.1, second.2.trans first.2⟩

theorem drop_mute (s : Server) (i : Fin 4) : Mute s (s.drop i) := by
  rcases s.drop_cases i with ⟨same, _⟩ | ⟨same, _⟩ | ⟨same, _⟩ <;>
    · rw [same]
      exact ⟨rfl, rfl⟩

theorem dropEach_mute (now : UInt64) (l : List (Fin 4)) (s : Server) : Mute s (dropEach now l s) :=
  dropEach_invariant (.refl s) fun t i _ mute => mute.trans (t.drop_mute i)

theorem passBarriers_mute (s : Server) (now : UInt64) : Mute s (s.passBarriers now) := by
  have loading (s : Server) : Mute s s.enterLoading := by
    unfold enterLoading
    split <;> exact ⟨rfl, rfl⟩
  have counting (s : Server) : Mute s (s.enterCountdown now) := by
    unfold enterCountdown
    split <;> exact ⟨rfl, rfl⟩
  have racing (s : Server) : Mute s (s.countdown now) := by
    unfold countdown
    repeat' split
    all_goals exact ⟨rfl, rfl⟩
  have results (s : Server) : Mute s s.enterResults := by
    unfold enterResults
    split <;> exact ⟨rfl, rfl⟩
  exact (((loading s).trans (counting _)).trans (racing _)).trans (results _)

theorem advance_mute (s : Server) (now : UInt64) : Mute s (s.advance now) := by
  have dropped := dropEach_mute now slots s
  simp only [advance]
  split
  · exact dropped
  · exact dropped.trans (passBarriers_mute _ now)

/-- A packet that neither admits a client nor shows it the room. -/
structure Plain (packet : Packet) : Prop where
  framed : packet.Framed
  notWelcome : packet.is .welcome = false
  notPicture : packet.is .snapshot = false

/-- Plain packets are all that has been sent. -/
def Utters (s t : Server) : Prop :=
  t.snapshotSeq = s.snapshotSeq ∧ ∃ replies : List (Endpoint × Packet),
    (∀ reply ∈ replies, Plain reply.2) ∧
    t.sent = s.sent ++ replies.map fun reply => wire reply.1 reply.2

theorem Mute.utters {s t : Server} (mute : Mute s t) : Utters s t :=
  ⟨mute.2, [], by simp, by simp [mute.1]⟩

theorem Utters.trans {s t u : Server} (first : Utters s t) (second : Utters t u) : Utters s u := by
  obtain ⟨seqT, repliesT, plainT, sentT⟩ := first
  obtain ⟨seqU, repliesU, plainU, sentU⟩ := second
  refine ⟨seqU.trans seqT, repliesT ++ repliesU, fun reply present => ?_, ?_⟩
  · rcases List.mem_append.mp present with early | late
    · exact plainT reply early
    · exact plainU reply late
  · rw [sentU, sentT, List.map_append, List.append_assoc]

theorem transmit_utters (s : Server) (address : Endpoint) {packet : Packet} (plain : Plain packet) :
    Utters s (s.transmit address packet) :=
  ⟨rfl, [(address, packet)], by simp [plain], rfl⟩

theorem joinError_utters (s : Server) (address : Endpoint) (nonce : UInt64) (reason : Reject) :
    Utters s (s.joinError address nonce reason) :=
  transmit_utters s.reject address ⟨⟨⟨.joinReject, rfl⟩, rfl, by simp [maxPacket, headerSize]⟩, rfl, rfl⟩

theorem sendPlayer_utters (s : Server) (i : Fin 4) {packet : Packet} (plain : Plain packet) :
    Utters s (s.sendPlayer i packet) :=
  transmit_utters s _ ⟨⟨plain.framed.kind, plain.framed.length, plain.framed.fits⟩, plain.notWelcome,
    plain.notPicture⟩

theorem foldl_utters {f : Server → Fin 4 → Server} (each : ∀ s i, Utters s (f s i)) (l : List (Fin 4))
    (s : Server) : Utters s (l.foldl f s) :=
  List.foldlRecOn l f (Mute.refl s).utters fun t uttered i _ => uttered.trans (each t i)

theorem probe_utters (s : Server) (now : Micros) : Utters s (s.probe now) := by
  unfold probe
  split
  · have pinged := foldl_utters (f := fun s i =>
      (s.modify i fun p => { p with packets := 0, bytes := 0, ping := now.val }).sendPlayer i
        { type := Kind.ping.code, length := 8, payload := put64 now.val })
      (fun s i => Utters.trans (t := s.modify i fun p => { p with packets := 0, bytes := 0, ping := now.val })
        (Mute.utters ⟨rfl, rfl⟩) (sendPlayer_utters _ i ⟨⟨⟨.ping, rfl⟩, rfl, by simp [maxPacket, headerSize]⟩, rfl, rfl⟩))
      s.occupiedSlots s
    exact pinged.trans (Mute.utters ⟨rfl, rfl⟩)
  · exact (Mute.refl s).utters

theorem close_utters (s : Server) : Utters s s.close := by
  unfold close
  split
  · have told := foldl_utters (f := fun s i =>
      s.sendPlayer i { type := Kind.roomClosed.code, length := 1, payload := [1] })
      (fun s i => sendPlayer_utters s i ⟨⟨⟨.roomClosed, rfl⟩, rfl, by decide⟩, rfl, rfl⟩) s.occupiedSlots s
    exact told.trans (Mute.utters ⟨rfl, rfl⟩)
  · exact (Mute.refl s).utters

theorem takeCommand_utters (s : Server) (r : Readings) (i : Fin 4) (packet : Packet) :
    Utters s (s.takeCommand r i packet) := by
  have effect (s : Server) : Mute s (s.commandEffect r i packet) := by
    unfold commandEffect
    cases Command.ofCode (packet.byte 0) with
    | none => exact .refl s
    | some command => cases command <;> exact ⟨rfl, rfl⟩
  have tail (s : Server) : Mute s (s.commandTail i packet) := by
    unfold commandTail
    split
    · exact ⟨rfl, rfl⟩
    · exact s.drop_mute i
    · exact .refl s
  have acknowledged (s : Server) : Mute s (s.acknowledge r i packet) := ⟨rfl, rfl⟩
  unfold takeCommand
  split
  · exact (((effect s).trans (acknowledged _)).trans (tail _)).utters
  · have refused : Mute s (s.acknowledge r i packet).reject := ⟨rfl, rfl⟩
    exact refused.utters.trans (sendPlayer_utters _ i ⟨⟨⟨.error, rfl⟩, rfl, by simp [maxPacket, headerSize]⟩, rfl, rfl⟩)

/-- The clock at which an event takes its snapshot. -/
def Event.sampled : Event → UInt64
  | .packet d => d.readings.sampled.val
  | .timer _ sampled => sampled.val
  | .probe now => now.val
  | .close => 0

/-- What one event that ends in `t` has sent: plain packets, or WELCOME and
then perhaps a picture of `t` to everybody in the room. -/
inductive Emission (s t : Server) (now : UInt64) : Prop
  | plain : Utters s t → Emission s t now
  | welcome (i : Fin 4) : (t.players i).occupied = true → t.snapshotSeq = s.snapshotSeq →
      t.sent = s.sent ++ [wire (t.players i).address (t.addressed i (t.welcomePacket i))] →
      Emission s t now
  | picture {u : Server} : Utters s u → t.snapshotSeq = s.snapshotSeq + 1 →
      t.sent = u.sent ++ t.pictures now → Emission s t now
  | admission (i : Fin 4) : (t.players i).occupied = true → t.snapshotSeq = s.snapshotSeq + 1 →
      t.sent = s.sent ++ [wire (t.players i).address (t.addressed i (t.welcomePacket i))] ++
        t.pictures now → Emission s t now

/-- A newcomer is sent WELCOME and then, like everybody else, a picture. -/
theorem enroll_sent (s : Server) (r : Readings) (token : UInt64) (address : Endpoint) (nonce : UInt64)
    (i : Fin 4) {t : Server} (enrolled : t = ((s.seat r token address nonce i).welcome i).snapshot r.sampled.val) :
    t.players = (s.seat r token address nonce i).players ∧ t.snapshotSeq = s.snapshotSeq + 1 ∧
    t.sent = s.sent ++ [wire (t.players i).address (t.addressed i (t.welcomePacket i))] ++
      t.pictures r.sampled.val := by
  generalize hu : s.seat r token address nonce i = u at *
  have sent : u.sent = s.sent ∧ u.snapshotSeq = s.snapshotSeq := by
    subst hu
    exact ⟨rfl, rfl⟩
  subst enrolled
  refine ⟨?_, ?_, ?_⟩
  · rw [snapshot_players]
    rfl
  · rw [snapshot_seq]
    exact congrArg (· + 1) sent.2
  · rw [snapshot_sent, snapshot_welcome, snapshot_players]
    change (u.sent ++ _) ++ _ = _
    rw [sent.1]
    rfl

theorem receiveHello_emission (s : Server) (r : Readings) (random : UInt64) (address : Endpoint)
    (packet : Packet) :
    Emission s (s.receiveHello r random address packet) r.sampled.val := by
  unfold receiveHello
  split
  · exact .plain (Mute.utters ⟨rfl, rfl⟩)
  simp only
  split
  · exact .plain (joinError_utters _ _ _ _)
  split
  · exact .plain (joinError_utters _ _ _ _)
  split
  next i found =>
    split
    · have seated := find_slots_some found
      simp only [Bool.and_eq_true] at seated
      exact .welcome i seated.1 rfl rfl
    · exact .plain (Mute.refl s).utters
  split
  · exact .plain (joinError_utters _ _ _ _)
  split
  · exact .plain (joinError_utters _ _ _ _)
  split
  next i _ =>
    unfold enroll
    split
    · exact .plain (Mute.utters ⟨rfl, rfl⟩)
    · obtain ⟨players, seq, sent⟩ := s.enroll_sent r random address (u64 packet.payload) i rfl
      refine .admission i ?_ seq sent
      rw [players, seat_players_self]
      rfl
  · exact .plain (Mute.refl s).utters

theorem receiveFrom_emission {s : Server} (r : Readings) (i : Fin 4) {packet : Packet} (size : Nat)
    (framed : packet.Framed) : Emission s (s.receiveFrom r i packet size) r.sampled.val := by
  unfold receiveFrom
  split
  · exact .plain (Mute.utters ⟨rfl, rfl⟩)
  split
  next ping =>
    have eight : packet.payload.length = 8 := by
      rw [← framed.length, ping.2]
      rfl
    have seen : Mute s (s.modify i fun p => { p with seen := r.seen.val }) := ⟨rfl, rfl⟩
    refine .plain (seen.utters.trans (sendPlayer_utters _ i ⟨⟨⟨.pong, rfl⟩, ?_, ?_⟩, rfl, rfl⟩))
    · simp [eight]
    · simp [eight, maxPacket, headerSize]
  split
  · exact .plain (Mute.utters ⟨rfl, rfl⟩)
  split
  · refine .plain (Mute.utters ?_)
    unfold receiveState
    repeat' split
    all_goals exact ⟨rfl, rfl⟩
  split
  · exact .plain (Mute.utters ⟨rfl, rfl⟩)
  split
  · exact .plain (Mute.utters ⟨rfl, rfl⟩)
  split
  · exact .plain (Mute.utters ⟨rfl, rfl⟩)
  · have taken := (s.takeCommand_utters r i packet).trans (advance_mute _ r.advanced.val).utters
    refine .picture taken ?_ (snapshot_sent _ _)
    rw [receiveCommand, snapshot_seq]
    exact congrArg (· + 1) taken.1

/-- Every event sends what `Emission` says. -/
theorem step_emission (s : Server) (e : Event) : Emission s (s.step e) e.sampled := by
  have counted : Utters s s.countRx := Mute.utters ⟨rfl, rfl⟩
  cases e with
  | packet d =>
    simp only [step, receivePacket, Event.sampled]
    split
    · split
      · exact .plain (joinError_utters _ _ _ _)
      · exact .plain (Mute.utters ⟨rfl, rfl⟩)
    next packet decoded =>
      split
      · exact .plain (Mute.refl s).utters
      split
      · cases s.countRx.receiveHello_emission d.readings d.random d.address packet with
        | plain utters => exact .plain (counted.trans utters)
        | welcome i seated seq sent => exact .welcome i seated seq sent
        | picture utters seq sent => exact .picture (counted.trans utters) seq sent
        | admission i seated seq sent => exact .admission i seated seq sent
      split
      · exact .plain (Mute.utters ⟨rfl, rfl⟩)
      next i _ =>
        cases receiveFrom_emission (s := s.countRx) d.readings i d.data.length (decode_framed decoded) with
        | plain utters => exact .plain (counted.trans utters)
        | welcome i seated seq sent => exact .welcome i seated seq sent
        | picture utters seq sent => exact .picture (counted.trans utters) seq sent
        | admission i seated seq sent => exact .admission i seated seq sent
  | timer now sampled =>
    have advanced := (s.advance_mute now.val).utters
    simp only [step, timer, Event.sampled]
    generalize now.val + 16667 = tick
    split
    · split
      · exact .plain (advanced.trans (Mute.utters ⟨rfl, rfl⟩))
      · have seq := snapshot_seq (s.advance now.val) sampled.val
        have sent := snapshot_sent (s.advance now.val) sampled.val
        generalize (s.advance now.val).snapshot sampled.val = u at *
        exact .picture advanced (seq.trans (congrArg (· + 1) advanced.1)) sent
    · exact .plain (Mute.refl s).utters
  | probe now => exact .plain (s.probe_utters now)
  | close => exact .plain s.close_utters

/-- The snapshots that carry the token, in the order in which they were sent. -/
def shown (s : Server) (token : UInt64) : List Packet :=
  s.sent.filterMap fun d => (decode d.data).filter fun p => p.is .snapshot && p.token == token

/-- The slots that have the token. -/
def holders (s : Server) (token : UInt64) : List (Fin 4) :=
  s.occupiedSlots.filter fun i => (s.players i).token == token

theorem wire_decode (address : Endpoint) {packet : Packet} (framed : packet.Framed) :
    decode (wire address packet).data = some packet := decode_encode framed

theorem picture_framed (s : Server) (now : UInt64) (i : Fin 4) : (s.picture now i).Framed :=
  ⟨⟨.snapshot, rfl⟩, rfl, by simp [picture, addressed, snapshotPacket, slots, record, maxPacket, headerSize]⟩

theorem welcome_framed (s : Server) (i j : Fin 4) : (s.addressed i (s.welcomePacket j)).Framed :=
  ⟨⟨.welcome, rfl⟩, rfl, by simp [addressed, welcomePacket, maxPacket, headerSize]⟩

theorem Utters.shown {s t : Server} (utters : Utters s t) (token : UInt64) :
    t.shown token = s.shown token := by
  obtain ⟨_, replies, plain, sent⟩ := utters
  have silent : (replies.map fun reply => wire reply.1 reply.2).filterMap (fun d =>
      (decode d.data).filter fun p => p.is .snapshot && p.token == token) = [] := by
    refine List.filterMap_eq_nil_iff.mpr fun d present => ?_
    obtain ⟨reply, replied, rfl⟩ := List.mem_map.mp present
    rw [wire_decode _ (plain reply replied).framed]
    simp [Option.filter, (plain reply replied).notPicture]
  rw [Server.shown, sent, List.filterMap_append, silent, List.append_nil]
  rfl

theorem pictures_shown (s : Server) (now token : UInt64) :
    (s.pictures now).filterMap (fun d =>
      (decode d.data).filter fun p => p.is .snapshot && p.token == token) =
      (s.holders token).map (s.picture now) := by
  have each (l : List (Fin 4)) : (l.map fun i => wire (s.players i).address (s.picture now i)).filterMap
      (fun d => (decode d.data).filter fun p => p.is .snapshot && p.token == token) =
      (l.filter fun i => (s.players i).token == token).map (s.picture now) := by
    induction l with
    | nil => rfl
    | cons i rest ih =>
      rw [List.map_cons, List.filterMap_cons, wire_decode _ (s.picture_framed now i), ih]
      have header : ((s.picture now i).is .snapshot && (s.picture now i).token == token) =
          ((s.players i).token == token) := rfl
      simp only [Option.filter, header, List.filter_cons]
      cases (s.players i).token == token
      · rfl
      · rfl
  exact each s.occupiedSlots

/-- A datagram that neither admits nor shows anything, or that shows the
holder of a slot the room as the event leaves it. -/
def News (s t : Server) (now : UInt64) (d : Datagram) : Prop :=
  (∀ p, decode d.data = some p → p.is .welcome = false ∧ p.is .snapshot = false) ∨
  ∃ i, (t.players i).occupied = true ∧ d.address = (t.players i).address ∧
    (decode d.data = some (t.addressed i (t.welcomePacket i)) ∨
      (t.snapshotSeq = s.snapshotSeq + 1 ∧ decode d.data = some (t.picture now i)))

theorem Emission.news {s t : Server} {now : UInt64} (emission : Emission s t now) :
    ∃ new, t.sent = s.sent ++ new ∧ ∀ d ∈ new, News s t now d := by
  have plain {replies : List (Endpoint × Packet)} (plain : ∀ reply ∈ replies, Plain reply.2) :
      ∀ d ∈ replies.map fun reply => wire reply.1 reply.2, News s t now d := by
    intro d present
    obtain ⟨reply, replied, rfl⟩ := List.mem_map.mp present
    refine .inl fun p decoded => ?_
    rw [wire_decode _ (plain reply replied).framed] at decoded
    cases decoded
    exact ⟨(plain reply replied).notWelcome, (plain reply replied).notPicture⟩
  have greeting {i : Fin 4} (seated : (t.players i).occupied = true) :
      News s t now (wire (t.players i).address (t.addressed i (t.welcomePacket i))) :=
    .inr ⟨i, seated, rfl, .inl (wire_decode _ (t.welcome_framed i i))⟩
  have pictured (seq : t.snapshotSeq = s.snapshotSeq + 1) : ∀ d ∈ t.pictures now, News s t now d := by
    intro d present
    obtain ⟨i, seated, rfl⟩ := List.mem_map.mp present
    exact .inr ⟨i, (List.mem_filter.mp seated).2, rfl, .inr ⟨seq, wire_decode _ (t.picture_framed now i)⟩⟩
  cases emission with
  | plain utters =>
    obtain ⟨_, replies, each, sent⟩ := utters
    exact ⟨_, sent, plain each⟩
  | welcome i seated seq sent =>
    refine ⟨_, sent, fun d present => ?_⟩
    rw [List.mem_singleton.mp present]
    exact greeting seated
  | picture utters seq sent =>
    obtain ⟨_, replies, each, before⟩ := utters
    rw [before, List.append_assoc] at sent
    refine ⟨_, sent, fun d present => ?_⟩
    exact (List.mem_append.mp present).elim (plain each d) (pictured seq d)
  | admission i seated seq sent =>
    rw [List.append_assoc] at sent
    refine ⟨_, sent, fun d present => ?_⟩
    rcases List.mem_append.mp present with first | later
    · rw [List.mem_singleton.mp first]
      exact greeting seated
    · exact pictured seq d later

/-- What one event adds to the snapshots of a token. -/
theorem Emission.shown {s t : Server} {now : UInt64} (emission : Emission s t now) (token : UInt64) :
    (t.snapshotSeq = s.snapshotSeq ∧ t.shown token = s.shown token) ∨
    (t.snapshotSeq = s.snapshotSeq + 1 ∧
      t.shown token = s.shown token ++ (t.holders token).map (t.picture now)) := by
  have greeting (i : Fin 4) : [wire (t.players i).address (t.addressed i (t.welcomePacket i))].filterMap
      (fun d => (decode d.data).filter fun p => p.is .snapshot && p.token == token) = [] := by
    refine List.filterMap_eq_nil_iff.mpr fun d present => ?_
    rw [List.mem_singleton.mp present, wire_decode _ (t.welcome_framed i i)]
    rfl
  cases emission with
  | plain utters => exact .inl ⟨utters.1, utters.shown token⟩
  | welcome i seated seq sent =>
    refine .inl ⟨seq, ?_⟩
    rw [Server.shown, sent, List.filterMap_append, greeting, List.append_nil]
    rfl
  | picture utters seq sent =>
    refine .inr ⟨seq, ?_⟩
    rw [Server.shown, sent, List.filterMap_append, pictures_shown, ← utters.shown token]
    rfl
  | admission i seated seq sent =>
    refine .inr ⟨seq, ?_⟩
    rw [Server.shown, sent, List.filterMap_append, List.filterMap_append, greeting, pictures_shown,
      List.append_nil]
    rfl

theorem seq_add_one_ne (seq : UInt32) : seq + 1 ≠ seq := by simp

/-- The generation changes only together with a snapshot, or in an empty room. -/
theorem step_race {s : Server} (e : Event) (silent : (s.step e).snapshotSeq = s.snapshotSeq) :
    (s.step e).race = s.race ∨ (s.step e).count = 0 := by
  cases e with
  | packet d =>
    rcases s.receivePacket_cases d.readings d.random d.address d.data with
      calm | ⟨i, packet, _, takes, same⟩
    · exact .inl (CalmPath.stay calm).race
    · have mute := (s.countRx.takeCommand_utters d.readings i packet).1
      have onward := (advance_mute (s.countRx.takeCommand d.readings i packet) d.readings.advanced.val).2
      rw [step, same, receiveCommand, snapshot_seq, onward, mute] at silent
      exact absurd silent (seq_add_one_ne _)
  | timer now sampled =>
    rcases s.timer_quiet now sampled with same | quiet
    · exact .inl (by rw [step, same])
    · rcases s.advance_elapse now with ⟨stay, _⟩ | ⟨_, _, _, empty⟩
      · exact .inl (by rw [step, quiet.race, stay.race])
      · exact .inr (by rw [step, count_congr quiet.occupied, empty])
  | probe now => exact .inl (s.probe_quiet now).race
  | close => exact .inl s.close_stay.race

end Server

end FzeroVs
