import FzeroVs.Session.Publication
import FzeroVs.Session.Resources
import Mathlib.Data.List.Nodup

namespace FzeroVs.Session

/-- A room as the user interface may take it. -/
structure Room.Sound (r : Room) : Prop where
  session : r.session ≠ 0
  phase : r.phase ≤ 4
  occupied : r.occupied ≤ 4
  players : 2 ≤ r.players ∧ r.players ≤ 4
  track : r.track ≤ 4
  league : r.league ≤ 2
  name : r.name.toList.length ≤ 64 ∧ ∀ c ∈ r.name.toList, 32 ≤ c.toNat ∧ c.toNat < 127
  address : ∃ sender port, r.address = sender ++ ":" ++ toString port ∧ port ≠ 0 ∧ port ≠ 12001 ∧ port < 2 ^ 16

/-- The fifteen names of the tracks are enough. -/
theorem Room.Sound.course {r : Room} (sound : r.Sound) : r.league.toNat * 5 + r.track.toNat < 15 := by
  have track := UInt8.le_iff_toNat_le.mp sound.track
  have league := UInt8.le_iff_toNat_le.mp sound.league
  have four : (4 : UInt8).toNat = 4 := rfl
  have two : (2 : UInt8).toNat = 2 := rfl
  omega

structure Listed (rooms : List Room) : Prop where
  most : rooms.length ≤ 64
  distinct : (rooms.map Room.session).Nodup
  sound : ∀ r ∈ rooms, r.Sound

namespace Discovery

theorem printable_range (b : UInt8) : 32 ≤ (printable b).toNat ∧ (printable b).toNat < 127 := by
  unfold printable
  split
  · rename_i range
    have least := UInt8.le_iff_toNat_le.mp range.1
    have most := UInt8.lt_iff_toNat_lt.mp range.2
    have first : (32 : UInt8).toNat = 32 := rfl
    have last : (127 : UInt8).toNat = 127 := rfl
    have value : ∀ n < 127, (Char.ofNat n).toNat = n := by decide
    rw [value b.toNat (by omega)]
    omega
  · decide

/-- What a reply has to be, and that it is one to our query. -/
theorem parseReply_sound {nonce : UInt64} {now : Nat} {sender : String} {b : List UInt8} {r : Room}
    (parsed : parseReply nonce now sender b = some r) : r.Sound ∧ r.seen = now ∧ u64 (b.drop 8) = nonce := by
  unfold parseReply at parsed
  dsimp only at parsed
  split at parsed
  · exact nomatch parsed
  rename_i accepted
  simp only [not_or, ne_eq, not_not, UInt8.not_lt] at accepted
  obtain ⟨length, _, _, _, asked, session, port, reserved, phase, occupied, fewest, most, track, league, _⟩ := accepted
  obtain rfl := Option.some.inj parsed
  refine ⟨⟨session, phase, occupied, ⟨fewest, most⟩, track, league, ⟨?_, ?_⟩, ?_⟩, rfl, asked⟩
  · rw [String.toList_ofList, List.length_map]
    have field : (b.drop 32).length = 64 := by rw [List.length_drop, length]
    exact Nat.le_trans (List.takeWhile_sublist _).length_le (Nat.le_of_eq field)
  · intro c member
    rw [String.toList_ofList] at member
    obtain ⟨shown, _, rfl⟩ := List.mem_map.mp member
    exact printable_range shown
  · refine ⟨sender, (u16 (b.drop 24)).toNat, rfl, ?_, ?_, (u16 (b.drop 24)).toNat_lt⟩
    · exact fun zero => port (UInt16.toNat_inj.mp zero)
    · exact fun taken => reserved (UInt16.toNat_inj.mp taken)

theorem enter_mem_or {rooms : List Room} {r x : Room} (member : x ∈ enter rooms r) : x ∈ rooms ∨ x = r := by
  unfold enter at member
  split at member
  · exact List.mem_or_eq_of_mem_set member
  · split at member
    · rcases List.mem_append.mp member with old | new
      · exact .inl old
      · exact .inr (List.mem_singleton.mp new)
    · exact .inl member

theorem enter_listed {rooms : List Room} {r : Room} (listed : Listed rooms) (sound : r.Sound) :
    Listed (enter rooms r) := by
  have all : ∀ x ∈ enter rooms r, x.Sound := by
    intro x member
    rcases enter_mem_or member with old | rfl
    · exact listed.sound x old
    · exact sound
  refine ⟨?_, ?_, all⟩
  · unfold enter
    split
    · rw [List.length_set]
      exact listed.most
    · split
      · rw [List.length_append]
        assumption
      · exact listed.most
  · unfold enter
    split
    · rename_i old found
      obtain ⟨within, same, _⟩ := List.findIdx?_eq_some_iff_getElem.mp found
      have kept : (rooms.set old r).map Room.session = rooms.map Room.session := by
        rw [List.map_set, ← eq_of_beq same, ← List.getElem_map Room.session, List.set_getElem_self]
        rwa [List.length_map]
      rw [kept]
      exact listed.distinct
    · rename_i unlisted
      split
      · rw [List.map_append]
        refine listed.distinct.append (List.nodup_singleton _) ?_
        intro session old new
        obtain ⟨x, member, rfl⟩ := List.mem_map.mp old
        have different := List.findIdx?_eq_none_iff.mp unlisted x member
        rw [List.mem_singleton.mp new, beq_self_eq_true] at different
        exact nomatch different
      · exact listed.distinct

theorem entered_mem_or {rooms replies : List Room} {x : Room} (member : x ∈ replies.foldl enter rooms) :
    x ∈ rooms ∨ x ∈ replies := by
  induction replies generalizing rooms with
  | nil => exact .inl member
  | cons r replies ih =>
    rcases ih member with before | later
    · rcases enter_mem_or before with old | rfl
      · exact .inl old
      · exact .inr (List.mem_cons_self ..)
    · exact .inr (List.mem_cons_of_mem _ later)

theorem entered_listed {rooms replies : List Room} (listed : Listed rooms) (sound : ∀ r ∈ replies, r.Sound) :
    Listed (replies.foldl enter rooms) := by
  induction replies generalizing rooms with
  | nil => exact listed
  | cons r replies ih =>
    rw [List.forall_mem_cons] at sound
    exact ih (enter_listed listed sound.1) sound.2

theorem fresh_listed {rooms : List Room} (listed : Listed rooms) (now : Nat) : Listed (fresh now rooms) where
  most := Nat.le_trans (List.length_filter_le ..) listed.most
  distinct := listed.distinct.sublist (List.filter_sublist.map _)
  sound := fun r member => listed.sound r (List.mem_of_mem_filter member)

theorem fresh_seen {rooms : List Room} {now : Nat} {r : Room} (member : r ∈ fresh now rooms) :
    r ∈ rooms ∧ now - r.seen ≤ 6000 := by
  obtain ⟨listed, recent⟩ := List.mem_filter.mp member
  exact ⟨listed, of_decide_eq_true recent⟩

/-- A datagram that was read, and the room in it. -/
def Heard (answers : ScanAnswers) (nonce : UInt64) (r : Room) : Prop :=
  ∃ sender bytes, (sender, bytes) ∈ answers.datagrams ∧ parseReply nonce answers.now sender bytes = some r

theorem hear_rooms (d : Discovery) (rooms : List Room) (answers : ScanAnswers) :
    ∃ replies : List Room, (∀ r ∈ replies, Heard answers d.nonce r) ∧ (d.hear rooms answers).2 = replies.foldl enter rooms := by
  unfold hear
  split
  · refine ⟨_, fun r member => ?_, rfl⟩
    obtain ⟨⟨sender, bytes⟩, arrived, parsed⟩ := List.mem_filterMap.mp member
    exact ⟨sender, bytes, List.mem_of_mem_take arrived, parsed⟩
  · exact ⟨[], nofun, rfl⟩

/-- A scan leaves the rooms alone, or enters the replies to its own nonce. -/
theorem scan_rooms (d : Discovery) (rooms : List Room) (warning : String) (answers : ScanAnswers) :
    (d.scan rooms warning answers).2.1 = rooms ∨
      ∃ replies : List Room, (∀ r ∈ replies, Heard answers (d.scan rooms warning answers).1.nonce r) ∧
        (d.scan rooms warning answers).2.1 = fresh answers.now (replies.foldl enter rooms) := by
  unfold scan
  dsimp only
  generalize (if d.browseStarted = 0 then { d with browseStarted := answers.now } else d) = e
  split
  · exact .inl rfl
  split
  · exact .inl rfl
  · right
    obtain ⟨replies, heard, entered⟩ := ((e.openQuery answers).ask warning answers).1.hear_rooms rooms answers
    refine ⟨replies, fun r member => ?_, by rw [entered]⟩
    rw [hear_nonce]
    exact heard r member

end Discovery

/-! Nobody touches the rooms but `look` and `retryDiscovery`. -/

namespace Worker
variable (w : Worker) (answers : Answers)

theorem drain_rooms (events : List Event) : (w.drain events).state.rooms = w.state.rooms := by
  refine List.foldlRecOn (motive := fun v : Worker => v.state.rooms = w.state.rooms) events push rfl ?_
  intro v same e _
  exact same

theorem stopServer_rooms : (w.stopServer answers).state.rooms = w.state.rooms := by
  unfold stopServer
  dsimp only
  split
  · exact w.drain_rooms answers.closing
  · rfl

theorem give_rooms (state : Stage) (message : String) : (w.give state message answers).state.rooms = w.state.rooms :=
  stopServer_rooms { w with state := { w.state with message := message } } answers

theorem createRoom_rooms (pending : List Command) : (w.createRoom pending answers).state.rooms = w.state.rooms := by
  unfold createRoom
  split
  · rfl
  split
  · rfl
  split
  · exact give_rooms { w with server := true } answers .error "Cannot open host log file"
  · rfl

theorem host_rooms (options : HostOptions) (pending : List Command) :
    (w.host options pending answers).state.rooms = w.state.rooms := by
  unfold host
  dsimp only
  split
  · rfl
  · exact createRoom_rooms { w.setState .starting with options := named options, place := .commands pending } answers
      pending

theorem readResolution_rooms : w.readResolution.state.rooms = w.state.rooms := by
  unfold readResolution
  split
  · rfl
  split
  · dsimp only
    split <;> rfl
  · rfl

theorem becomeReady_rooms : (w.becomeReady answers).state.rooms = w.state.rooms := by
  unfold becomeReady
  split
  · exact give_rooms { w with ownsReadyFile := answers.readyOpened || w.ownsReadyFile } answers .error
      "Cannot write host readiness file"
  · rfl

theorem answerPoll_rooms : (w.answerPoll answers).state.rooms = w.state.rooms := by
  unfold answerPoll
  split
  · exact w.give_rooms answers ..
  split
  · exact w.give_rooms answers ..
  split
  · exact w.becomeReady_rooms answers
  split
  · exact w.give_rooms answers ..
  · rfl

theorem pollServer_rooms : (w.pollServer answers).state.rooms = w.state.rooms := by
  have polled : (((w.drain answers.drained).setServer answers.status).answerPoll answers).state.rooms = w.state.rooms :=
    (answerPoll_rooms _ answers).trans (w.drain_rooms answers.drained)
  have relistened (v : Worker) : (v.relisten answers).state.rooms = v.state.rooms := by
    unfold relisten
    split <;> rfl
  have advertised (v : Worker) : (v.advertise answers).state.rooms = v.state.rooms := by
    unfold advertise
    split <;> rfl
  unfold pollServer
  split
  · rfl
  dsimp only
  split
  · rw [advertised, relistened, polled]
  · exact polled

theorem reportFailure_rooms : (w.reportFailure answers).state.rooms = w.state.rooms := by
  unfold reportFailure
  dsimp only
  split <;> rfl

theorem report_rooms (browsing : Bool) : (w.report browsing answers).state.rooms = w.state.rooms := by
  unfold report tell
  dsimp only
  split <;> rfl

theorem confirm_rooms (published : SessionView) : (w.confirm published).state.rooms = w.state.rooms := by
  unfold confirm
  split <;> rfl

end Worker

/-- An iteration has looked for rooms, and the next has not begun. -/
def Place.settled : Place → Bool
  | .report | .publication | .wait | .loop => true
  | _ => false

/-- What a step of the worker does to its rooms. -/
inductive Looks (s : State) (w : Worker) (answers : Answers) : Worker → Prop
  | keeps {w' : Worker} (rooms : w'.state.rooms = w.state.rooms) (begins : w'.place ≠ .start)
    (settled : w'.place.settled = true → w.place = .start ∨ w.place ≠ .loop ∧ w.place.settled = true) :
    Looks s w answers w'
  | forgets {w' : Worker} (rooms : w'.state.rooms = []) (begins : w'.place ≠ .start) : Looks s w answers w'
  | scans (place : w.place = .scan) : Looks s w answers (w.scan s.browsing answers)

theorem Worker.host_place (w : Worker) (options : HostOptions) (pending : List Command) (answers : Answers) :
    (w.host options pending answers).place.settled = false ∧ (w.host options pending answers).place ≠ .start := by
  unfold host
  dsimp only
  split
  · exact ⟨rfl, nofun⟩
  · rcases createRoom_cases { w.setState .starting with options := named options, place := .commands pending } pending
      answers with keeps | ⟨_, _, _, offers⟩
    · rw [keeps.place]
      exact ⟨rfl, nofun⟩
    · rw [offers]
      exact ⟨rfl, nofun⟩

theorem Looks.unsettled {s : State} {w w' : Worker} {answers : Answers} (rooms : w'.state.rooms = w.state.rooms)
    (place : w'.place.settled = false ∧ w'.place ≠ .start) : Looks s w answers w' :=
  .keeps rooms place.2 fun settled => nomatch place.1.symm.trans settled

theorem process_looks (s : State) (w : Worker) (c : Command) (pending : List Command) (answers : Answers) :
    ∃ w', (s.process w c pending answers).worker = some w' ∧ Looks s w answers w' := by
  have taken : (w.take c answers).state.rooms = w.state.rooms := w.stopServer_rooms answers
  unfold State.process
  dsimp only
  split
  · exact ⟨_, rfl, .unsettled taken ⟨rfl, nofun⟩⟩
  · have rooms := ((w.take c answers).host_rooms answers c.host pending).trans taken
    exact ⟨_, rfl, .unsettled rooms (Worker.host_place ..)⟩
  · exact ⟨_, rfl, .unsettled taken ⟨rfl, nofun⟩⟩

theorem readResolution_looks (s : State) (w : Worker) (answers : Answers) : Looks s w answers w.readResolution := by
  refine .unsettled w.readResolution_rooms ?_
  unfold Worker.readResolution
  split
  · exact ⟨rfl, nofun⟩
  split
  · dsimp only
    split <;> exact ⟨rfl, nofun⟩
  · exact ⟨rfl, nofun⟩

theorem run_looks {s : State} {w : Worker} (there : s.worker = some w) (answers : Answers) :
    ∃ w', (s.run w answers).worker = some w' ∧ Looks s w answers w' := by
  unfold State.run
  cases place : w.place with
  | start => exact ⟨_, rfl, .keeps rfl nofun fun _ => .inl place⟩
  | loop =>
    dsimp only
    split
    · exact ⟨_, rfl, .unsettled (w.stopServer_rooms answers) ⟨rfl, nofun⟩⟩
    · exact ⟨_, rfl, .unsettled rfl ⟨rfl, nofun⟩⟩
  | intake => exact ⟨_, rfl, .unsettled rfl ⟨rfl, nofun⟩⟩
  | retry pending =>
    dsimp only
    split
    · exact ⟨_, rfl, .forgets rfl nofun⟩
    · exact ⟨_, rfl, .unsettled rfl ⟨rfl, nofun⟩⟩
  | commands pending =>
    cases pending with
    | nil => exact ⟨_, rfl, .unsettled rfl ⟨rfl, nofun⟩⟩
    | cons c pending => exact process_looks s w c pending answers
  | offer connection pending => exact ⟨_, rfl, .unsettled rfl ⟨rfl, nofun⟩⟩
  | resolution => exact ⟨_, rfl, readResolution_looks s w answers⟩
  | offerResolved connection => exact ⟨_, rfl, .unsettled rfl ⟨rfl, nofun⟩⟩
  | serve =>
    have rooms := ((w.pollServer answers).reportFailure_rooms answers).trans (w.pollServer_rooms answers)
    exact ⟨_, rfl, .unsettled rooms ⟨rfl, nofun⟩⟩
  | scan => exact ⟨_, rfl, .scans place⟩
  | report =>
    refine ⟨_, rfl, .keeps (w.report_rooms answers s.browsing) ?_ fun _ => .inr ?_⟩
    · simp only [Worker.report]
      split <;> exact nofun
    · rw [place]
      exact ⟨nofun, rfl⟩
  | publication =>
    refine ⟨_, rfl, .keeps (w.confirm_rooms s.published) nofun fun _ => .inr ?_⟩
    rw [place]
    exact ⟨nofun, rfl⟩
  | wait =>
    refine ⟨_, rfl, .keeps rfl nofun fun _ => .inr ?_⟩
    rw [place]
    exact ⟨nofun, rfl⟩
  | finish => exact ⟨_, rfl, .unsettled rfl ⟨rfl, nofun⟩⟩
  | ended => exact ⟨w, there, .unsettled rfl (by rw [place]; exact ⟨rfl, nofun⟩)⟩

/-- What is published of the rooms is what the worker has. -/
theorem run_published (s : State) (w : Worker) (answers : Answers) :
    (s.run w answers).published.rooms = s.published.rooms ∨ (s.run w answers).published.rooms = w.state.rooms := by
  unfold State.run
  cases w.place with
  | publication =>
    dsimp only [State.publication]
    split
    · exact .inr (w.confirm_rooms s.published)
    · exact .inl rfl
  | finish => exact .inr rfl
  | commands pending =>
    cases pending with
    | nil => exact .inl rfl
    | cons c pending =>
      left
      dsimp only [State.process]
      split
      · rfl
      · rfl
      · obtain ⟨resolvers, count, same⟩ := s.resolve_frame c.address answers
        rw [same]
  | retry pending => exact .inl rfl
  | loop =>
    dsimp only
    split <;> exact .inl rfl
  | start | intake | offer | resolution | offerResolved | serve | scan | report | wait | ended => exact .inl rfl

/-- A session, the last reading of its clock, and the one with which the worker
began its iteration. -/
structure Clocked where
  session : State := {}
  now : Nat := 0
  begun : Nat := 0

namespace Clocked

def begins (c : Clocked) : State.Action → Bool
  | .worker _ => c.session.worker.any fun w => w.place = .loop
  | _ => false

def reading (c : Clocked) : State.Action → Nat
  | .worker answers => answers.now
  | _ => c.now

/-- The clock does not go back. A stretch of the worker that scans reads it at the
scan, and again when it forgets rooms. -/
def system : System Clocked State.Action where
  init c := c = {}
  enabled c e := State.system.enabled c.session e ∧
    match e with
    | .worker answers => c.now ≤ answers.scan.now ∧ answers.scan.now ≤ answers.now
    | _ => True
  step c e :=
    { session := c.session.step e
      now := c.reading e
      begun := if c.begins e then c.reading e else c.begun }

instance system.decidable (c : Clocked) : (e : State.Action) → Decidable (system.enabled c e)
  | .worker answers =>
    inferInstanceAs (Decidable (State.system.enabled c.session (.worker answers) ∧
      c.now ≤ answers.scan.now ∧ answers.scan.now ≤ answers.now))
  | .start failed => inferInstanceAs (Decidable (State.system.enabled c.session (.start failed) ∧ True))
  | .call call failed => inferInstanceAs (Decidable (State.system.enabled c.session (.call call failed) ∧ True))
  | .finish => inferInstanceAs (Decidable (State.system.enabled c.session .finish ∧ True))
  | .shutdown => inferInstanceAs (Decidable (State.system.enabled c.session .shutdown ∧ True))
  | .joined => inferInstanceAs (Decidable (State.system.enabled c.session .joined ∧ True))
  | .connected => inferInstanceAs (Decidable (State.system.enabled c.session .connected ∧ True))
  | .takeConnection => inferInstanceAs (Decidable (State.system.enabled c.session .takeConnection ∧ True))
  | .resolved id answer => inferInstanceAs (Decidable (State.system.enabled c.session (.resolved id answer) ∧ True))

end Clocked

/-- The invariant of the rooms of a worker. -/
structure Worker.Watched (w : Worker) (begun now : Nat) : Prop where
  listed : Listed w.state.rooms
  seen : ∀ r ∈ w.state.rooms, r.seen ≤ now
  empty : w.place = .start → w.state.rooms = []
  recent : w.place.settled = true →
    ∃ checked, begun ≤ checked ∧ checked ≤ now ∧ ∀ r ∈ w.state.rooms, r.seen ≤ checked ∧ checked - r.seen ≤ 6000

theorem listed_nil : Listed [] := ⟨by decide, List.nodup_nil, nofun⟩

theorem Worker.Watched.of_empty {w : Worker} {begun now : Nat} (empty : w.state.rooms = []) (clock : begun ≤ now) :
    w.Watched begun now where
  listed := by
    rw [empty]
    exact listed_nil
  seen := by
    rw [empty]
    exact nofun
  empty := fun _ => empty
  recent := by
    rw [empty]
    exact fun _ => ⟨now, clock, Nat.le_refl now, nofun⟩

/-- What `look` leaves was listed before, or has just been heard. -/
theorem Worker.look_mem {w : Worker} {browsing : Bool} {answers : Answers} {r : Room}
    (member : r ∈ (w.look browsing answers).state.rooms) :
    answers.now - r.seen ≤ 6000 ∧ browsing = true ∧
      (r ∈ w.state.rooms ∨ Discovery.Heard answers.scan (w.look browsing answers).discovery.nonce r) := by
  unfold look at member ⊢
  cases browsing with
  | false => exact nomatch member
  | true =>
    obtain ⟨found, recent⟩ := Discovery.fresh_seen member
    refine ⟨recent, rfl, ?_⟩
    rcases w.discovery.scan_rooms w.state.rooms w.state.discoveryWarning answers.scan with same | ⟨replies, heard, rooms⟩
    · rw [same] at found
      exact .inl found
    · rw [rooms] at found
      rcases Discovery.entered_mem_or (Discovery.fresh_seen found).1 with old | new
      · exact .inl old
      · exact .inr (heard r new)

theorem Worker.look_listed {w : Worker} (listed : Listed w.state.rooms) (browsing : Bool) (answers : Answers) :
    Listed (w.look browsing answers).state.rooms := by
  unfold look
  cases browsing with
  | false => exact listed_nil
  | true =>
    refine Discovery.fresh_listed ?_ answers.now
    rcases w.discovery.scan_rooms w.state.rooms w.state.discoveryWarning answers.scan with same | ⟨replies, heard, rooms⟩
    · rw [same]
      exact listed
    · rw [rooms]
      refine Discovery.fresh_listed (Discovery.entered_listed listed fun r member => ?_) answers.scan.now
      obtain ⟨sender, bytes, _, parsed⟩ := heard r member
      exact (Discovery.parseReply_sound parsed).1

theorem Worker.Watched.looks {s : State} {w w' : Worker} {answers : Answers} {begun now begun' : Nat}
    (watched : w.Watched begun now) (looks : Looks s w answers w') (clock : begun ≤ now)
    (ordered : now ≤ answers.scan.now ∧ answers.scan.now ≤ answers.now)
    (turns : begun' = if w.place = .loop then answers.now else begun) : w'.Watched begun' answers.now := by
  have passes : now ≤ answers.now := Nat.le_trans ordered.1 ordered.2
  have later : begun' ≤ answers.now := by
    rw [turns]
    split
    · exact Nat.le_refl _
    · exact Nat.le_trans clock passes
  cases looks with
  | forgets rooms => exact .of_empty rooms later
  | keeps rooms begins settled =>
    constructor
    · rw [rooms]
      exact watched.listed
    · rw [rooms]
      exact fun r member => Nat.le_trans (watched.seen r member) passes
    · exact fun start => absurd start begins
    · intro now_settled
      rw [rooms]
      rcases settled now_settled with start | ⟨busy, before⟩
      · rw [watched.empty start]
        exact ⟨answers.now, later, Nat.le_refl _, nofun⟩
      · obtain ⟨checked, after, past, recent⟩ := watched.recent before
        rw [turns, if_neg busy]
        exact ⟨checked, after, Nat.le_trans past passes, recent⟩
  | scans place =>
    have seen : ∀ r ∈ (w.look s.browsing answers).state.rooms, r.seen ≤ answers.now ∧ answers.now - r.seen ≤ 6000 := by
      intro r member
      obtain ⟨recent, _, old | ⟨sender, bytes, _, parsed⟩⟩ := Worker.look_mem member
      · exact ⟨Nat.le_trans (watched.seen r old) passes, recent⟩
      · have now := (Discovery.parseReply_sound parsed).2.1
        exact ⟨by rw [now]; exact ordered.2, recent⟩
    constructor
    · exact Worker.look_listed watched.listed s.browsing answers
    · exact fun r member => (seen r member).1
    · exact nofun
    · exact fun _ => ⟨answers.now, later, Nat.le_refl _, seen⟩

/-- Nobody touches what the worker has found. -/
structure State.Rests (s t : State) : Prop where
  published : t.published.rooms = s.published.rooms
  worker : ∀ w', t.worker = some w' →
    w'.state.rooms = [] ∨ ∃ w, s.worker = some w ∧ w'.state = w.state ∧ w'.place = w.place

namespace State

theorem Rests.of_same {s t : State} (published : t.published.rooms = s.published.rooms) (worker : t.worker = s.worker) :
    s.Rests t where
  published := published
  worker := fun w' there => .inr ⟨w', worker.symm.trans there, rfl, rfl⟩

theorem Rests.calls {s t : State} (rests : s.Rests t) (call : Call) : s.Rests { t with calling := call } :=
  ⟨rests.published, rests.worker⟩

theorem start_rests (s : State) (failed : Option String) : s.Rests (s.start failed) := by
  unfold start
  split
  · exact .of_same rfl rfl
  cases failed with
  | none =>
    refine ⟨rfl, fun w' there => .inl ?_⟩
    obtain rfl := Option.some.inj there
    rfl
  | some what => exact .of_same rfl rfl

theorem enqueue_rests (s : State) (c : Command) : s.Rests (s.enqueue c).2 := by
  refine .of_same ?_ (s.enqueue_worker c)
  unfold enqueue
  split
  · rfl
  split <;> rfl

theorem resolved_rests (s : State) (id : Nat) (answer : Except String String) : s.Rests (s.resolved id answer) := by
  unfold resolved
  split
  · exact .of_same rfl rfl
  · refine ⟨rfl, fun w' there => ?_⟩
    obtain ⟨w, before, rfl⟩ := Option.map_eq_some_iff.mp there
    exact .inr ⟨w, before, rfl, rfl⟩

theorem finish_rests (s : State) : s.Rests s.finish := by
  unfold finish
  split
  · exact (s.enqueue_rests _).calls .none
  · exact .of_same rfl rfl
  · exact .of_same rfl rfl
  · exact .of_same rfl rfl

theorem step_rests (s : State) {e : Action} (other : ∀ answers, e ≠ .worker answers) : s.Rests (s.step e) := by
  cases e with
  | worker answers => exact absurd rfl (other answers)
  | start failed => exact s.start_rests failed
  | call call failed => exact (s.start_rests failed).calls call
  | shutdown => exact .of_same rfl rfl
  | joined =>
    have absent : (s.step .joined).worker = none := rfl
    exact ⟨rfl, fun w' there => nomatch absent.symm.trans there⟩
  | finish => exact s.finish_rests
  | connected =>
    simp only [step, connected]
    split <;> exact .of_same rfl rfl
  | takeConnection =>
    simp only [step, takeConnection]
    split
    · exact .of_same rfl rfl
    split <;> exact .of_same rfl rfl
  | resolved id answer => exact s.resolved_rests id answer

end State

/-- The invariant of a session and its clock. -/
structure Clocked.Watched (c : Clocked) : Prop where
  clock : c.begun ≤ c.now
  published : Listed c.session.published.rooms
  worker : ∀ w, c.session.worker = some w → w.Watched c.begun c.now

namespace Clocked

theorem begins_eq {c : Clocked} {w : Worker} (there : c.session.worker = some w) (answers : Answers) :
    c.begins (.worker answers) = decide (w.place = .loop) := by
  rw [begins, there]
  rfl

theorem Watched.rests {c : Clocked} (watched : Watched c) {e : State.Action} (other : ∀ answers, e ≠ .worker answers) :
    Watched (system.step c e) := by
  have rests := c.session.step_rests other
  have still : system.step c e = { c with session := c.session.step e } := by
    cases e with
    | worker answers => exact absurd rfl (other answers)
    | _ => rfl
  rw [still]
  constructor
  · exact watched.clock
  · show Listed (c.session.step e).published.rooms
    rw [rests.published]
    exact watched.published
  · intro w' there
    rcases rests.worker w' there with empty | ⟨w, before, state, place⟩
    · exact .of_empty empty watched.clock
    · have kept := watched.worker w before
      constructor
      · rw [state]
        exact kept.listed
      · rw [state]
        exact kept.seen
      · rw [state, place]
        exact kept.empty
      · rw [state, place]
        exact kept.recent

theorem Watched.runs {c : Clocked} (watched : Watched c) {answers : Answers}
    (enabled : system.enabled c (.worker answers)) : Watched (system.step c (.worker answers)) := by
  obtain ⟨alive, ordered⟩ := enabled
  obtain ⟨w, there⟩ := Option.isSome_iff_exists.mp alive
  have before := watched.worker w there
  have ran : c.session.step (.worker answers) = c.session.run w answers := by
    simp only [State.step, there]
  obtain ⟨w', next, looks⟩ := run_looks there answers
  have turns : (system.step c (.worker answers)).begun = if w.place = .loop then answers.now else c.begun := by
    show (if c.begins (.worker answers) then answers.now else c.begun) = _
    rw [begins_eq there]
    by_cases loop : w.place = .loop
    · rw [if_pos loop, if_pos (decide_eq_true loop)]
    · rw [if_neg loop, if_neg fun taken => loop (of_decide_eq_true taken)]
  have after : w'.Watched (system.step c (.worker answers)).begun answers.now :=
    before.looks looks watched.clock ordered turns
  constructor
  · show (system.step c (.worker answers)).begun ≤ answers.now
    rw [turns]
    split
    · exact Nat.le_refl _
    · exact Nat.le_trans watched.clock (Nat.le_trans ordered.1 ordered.2)
  · show Listed (c.session.step (.worker answers)).published.rooms
    rw [ran]
    rcases run_published c.session w answers with same | own
    · rw [same]
      exact watched.published
    · rw [own]
      exact before.listed
  · intro v there'
    have same : (c.session.step (.worker answers)).worker = some w' := ran ▸ next
    obtain rfl := Option.some.inj (same.symm.trans there')
    exact after

theorem Watched.step {c : Clocked} (watched : Watched c) {e : State.Action} (enabled : system.enabled c e) :
    Watched (system.step c e) := by
  cases e with
  | worker answers => exact watched.runs enabled
  | _ => exact watched.rests fun answers same => nomatch same

theorem reachable_watched {c : Clocked} (reach : system.Reachable c) : Watched c := by
  refine reach.invariant ?_ fun _ e _ enabled _ watched => watched.step enabled
  rintro c rfl
  exact ⟨Nat.le_refl 0, listed_nil, fun w there => nomatch there⟩

end Clocked

/-- What one step of the session may add to the rooms. -/
theorem step_heard {s : State} {w w' : Worker} (there : s.worker = some w) {e : State.Action}
    (next : (s.step e).worker = some w') {r : Room} (member : r ∈ w'.state.rooms) :
    r ∈ w.state.rooms ∨ ∃ answers, e = .worker answers ∧ w.place = .scan ∧ s.browsing = true ∧
      Discovery.Heard answers.scan w'.discovery.nonce r := by
  by_cases worker : ∃ answers, e = .worker answers
  · obtain ⟨answers, rfl⟩ := worker
    have ran : s.step (.worker answers) = s.run w answers := by
      simp only [State.step, there]
    obtain ⟨v, now, looks⟩ := run_looks there answers
    obtain rfl := Option.some.inj ((ran ▸ now).symm.trans next)
    cases looks with
    | keeps rooms => exact .inl (rooms ▸ member)
    | forgets rooms => exact absurd (rooms ▸ member) List.not_mem_nil
    | scans place =>
      obtain ⟨_, browsing, old | heard⟩ := Worker.look_mem member
      · exact .inl old
      · exact .inr ⟨answers, rfl, place, browsing, heard⟩
  · rcases (s.step_rests fun answers same => worker ⟨answers, same⟩).worker w' next with empty | ⟨v, before, same, _⟩
    · exact absurd (empty ▸ member) List.not_mem_nil
    · obtain rfl := Option.some.inj (there.symm.trans before)
      exact .inl (same ▸ member)

/-- The rooms of a worker, and those that the user interface sees, at every
moment of every run. Between the scan of one iteration and the begin of the
next, none was seen more than six seconds before, but for the time that the
iteration has taken. What a step adds or changes comes from a reply to the
nonce of the browser. -/
theorem room_list {c : Clocked} (reach : Clocked.system.Reachable c) {w : Worker} (there : c.session.worker = some w) :
    Listed w.state.rooms ∧ Listed c.session.published.rooms ∧
      (∀ r ∈ w.state.rooms, r.league.toNat * 5 + r.track.toNat < 15) ∧
      (w.place.settled = true → ∀ r ∈ w.state.rooms, r.seen ≤ c.now ∧ c.now - r.seen ≤ 6000 + (c.now - c.begun)) ∧
      ∀ e w', Clocked.system.enabled c e → (Clocked.system.step c e).session.worker = some w' →
        ∀ r ∈ w'.state.rooms, r ∈ w.state.rooms ∨
          ∃ answers sender bytes, e = .worker answers ∧ w.place = .scan ∧ c.session.browsing = true ∧
            (sender, bytes) ∈ answers.scan.datagrams ∧ u64 (bytes.drop 8) = w'.discovery.nonce ∧
            Discovery.parseReply w'.discovery.nonce answers.scan.now sender bytes = some r := by
  have watched := Clocked.reachable_watched reach
  have rooms := watched.worker w there
  refine ⟨rooms.listed, watched.published, fun r member => (rooms.listed.sound r member).course, ?_, ?_⟩
  · intro settled r member
    obtain ⟨checked, after, past, recent⟩ := rooms.recent settled
    obtain ⟨seen, age⟩ := recent r member
    exact ⟨Nat.le_trans seen past, by omega⟩
  · intro e w' _ next r member
    rcases step_heard there next member with old | ⟨answers, rfl, place, browsing, sender, bytes, arrived, parsed⟩
    · exact .inl old
    · have asked := (Discovery.parseReply_sound parsed).2.2
      exact .inr ⟨answers, sender, bytes, rfl, place, browsing, arrived, asked, parsed⟩

/-- The worker that looks for rooms, just before its first scan. -/
def sampleClock : Clocked := (sampleBrowsing.take 9).foldl Clocked.system.step {}

def sampleClockFound : Clocked := Clocked.system.step sampleClock (.worker sampleFound)

/-- One room is found, and it is seen now. -/
theorem sampleClock_room :
    ∃ w w', sampleClock.session.worker = some w ∧ w.state.rooms = [] ∧
      sampleClockFound.session.worker = some w' ∧ w'.state.rooms.length = 1 ∧ Listed w'.state.rooms ∧
      ∀ r ∈ w'.state.rooms, r.seen ≤ 5000 ∧ 5000 - r.seen ≤ 6000 ∧
        ∃ sender bytes, (sender, bytes) ∈ sampleFound.scan.datagrams ∧ u64 (bytes.drop 8) = w'.discovery.nonce := by
  have admits : Clocked.system.Admits (fun _ _ => True) {} (sampleBrowsing.take 9) := by decide +kernel
  have enabled : Clocked.system.enabled sampleClock (.worker sampleFound) := by decide +kernel
  have reach : Clocked.system.Reachable sampleClock := (System.Reach.start rfl).run admits
  have found : Clocked.system.Reachable sampleClockFound := reach.next _ enabled trivial
  have busy : sampleClock.session.worker.any fun w => decide (w.state.rooms = []) := by decide +kernel
  have listed : sampleClockFound.session.worker.any fun w =>
      decide (w.place.settled = true ∧ w.state.rooms.length = 1) := by
    decide +kernel
  obtain ⟨w, there, empty⟩ := (Option.any_eq_true _ _).mp busy
  obtain ⟨w', next, settles⟩ := (Option.any_eq_true _ _).mp listed
  obtain ⟨settled, one⟩ := of_decide_eq_true settles
  obtain ⟨_, _, _, _, heard⟩ := room_list reach there
  obtain ⟨rooms, _, _, recent, _⟩ := room_list found next
  have times : sampleClockFound.now = 5000 ∧ sampleClockFound.begun = 5000 := by decide +kernel
  refine ⟨w, w', there, of_decide_eq_true empty, next, one, rooms, fun r member => ?_⟩
  obtain ⟨seen, age⟩ := recent settled r member
  rw [times.1] at seen
  rw [times.1, times.2] at age
  refine ⟨seen, age, ?_⟩
  rcases heard (.worker sampleFound) w' enabled next r member with old | ⟨answers, sender, bytes, same, _, _, arrived, asked, _⟩
  · rw [of_decide_eq_true empty] at old
    exact nomatch old
  · obtain rfl := State.Action.worker.inj same
    exact ⟨sender, bytes, arrived, asked⟩

end FzeroVs.Session
