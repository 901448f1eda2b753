import Mathlib.Data.List.TakeWhile
import FzeroVs.Server.Fixed
import FzeroVs.Server.Reservation
import FzeroVs.Session.State

namespace FzeroVs

/-- `fz_server_get_status`, as far as the worker and the discovery read it. -/
def Server.getStatus (s : Server) : Session.ServerStatus where
  session := s.session
  port := s.port
  phase := s.phase.rank
  players := s.expected.toNat
  occupied := s.count
  track := s.track.toNat
  league := s.league.toNat
  ownerJoined := s.ownerNonce ≠ 0 ∧ (s.players 0).occupied = true
  closed := s.closed

namespace Session

/-- What `advertise` reads of `HostOptions`. A `std::string` holds any bytes. -/
structure Advertised where
  bind : List UInt8
  key : List UInt8
  name : List UInt8

namespace Discovery

/-- "FZVD" -/
def tag : List UInt8 := [70, 90, 86, 68]

/-- What a browser sends to every network. -/
def queryBytes (nonce : UInt64) : List UInt8 := tag ++ [1, 1, version, 0] ++ put64 nonce

/-- A byte of the name, on its way out. -/
def shown (b : UInt8) : UInt8 := if 32 ≤ b ∧ b < 127 then b else 63

/-- The field of the name, with zeros behind it. -/
def nameField (name : List UInt8) : List UInt8 :=
  let kept := name.take 63
  kept.map shown ++ List.replicate (64 - kept.length) 0

def reply (status : ServerStatus) (host : Advertised) (asked : List UInt8) : List UInt8 :=
  tag ++ [1, 2, version, 0] ++ (asked.drop 8).take 8 ++ put64 status.session ++ put16 (UInt16.ofNat status.port) ++
    [UInt8.ofNat status.phase, UInt8.ofNat status.occupied, UInt8.ofNat status.players, UInt8.ofNat status.track,
      UInt8.ofNat status.league, if host.key = [] then 0 else 1] ++ nameField host.name

/-- A room bound to loopback must not invite guests on another machine. -/
def elsewhere (host : Advertised) (peer : UInt32) : Bool :=
  [49, 50, 55, 46].isPrefixOf host.bind && peer >>> 24 != 127

/-- The answer to one datagram at the listener, if there is one. -/
def answer (status : ServerStatus) (host : Advertised) (peer : UInt32) (asked : List UInt8) : Option (List UInt8) :=
  if asked.length ≠ 16 ∨ asked.take 4 ≠ tag ∨ asked.getD 4 0 ≠ 1 ∨ asked.getD 5 0 ≠ 1 ∨ status.ownerJoined = false ∨
      status.closed = true then none
  else if elsewhere host peer then none
  else some (reply status host asked)

/-- `advertise`: at most 32 datagrams at a time, each with its sender. -/
def advertise (d : Discovery) (status : ServerStatus) (host : Advertised) (datagrams : List (UInt32 × List UInt8)) :
    List (UInt32 × List UInt8) :=
  if d.listener then
    (datagrams.take 32).filterMap fun datagram => (answer status host datagram.1 datagram.2).map (datagram.1, ·)
  else []

/-- A datagram that a host takes for the query with this nonce. -/
structure Asks (nonce : UInt64) (asked : List UInt8) : Prop where
  length : asked.length = 16
  tag : asked.take 4 = tag
  version : asked.getD 4 0 = 1
  type : asked.getD 5 0 = 1
  nonce : u64 (asked.drop 8) = nonce

theorem queryBytes_asks (nonce : UInt64) : Asks nonce (queryBytes nonce) where
  length := rfl
  tag := rfl
  version := rfl
  type := rfl
  nonce := u64_put64_self nonce

theorem shown_ne_zero (b : UInt8) : shown b ≠ 0 := by
  unfold shown
  split
  · rintro rfl
    rename_i range
    exact absurd range.1 (by decide)
  · decide

/-- Both ends replace the same bytes. -/
theorem printable_shown (b : UInt8) : printable (shown b) = printable b := by
  unfold shown
  split
  · rfl
  · rename_i outside
    rw [printable, printable, if_neg outside, if_pos (by decide)]
    rfl

theorem nameField_length (name : List UInt8) : (nameField name).length = 64 := by
  have short : (name.take 63).length ≤ 63 := List.length_take_le 63 name
  simp only [nameField, List.length_append, List.length_map, List.length_replicate]
  omega

/-- There is at least one zero behind a name, and none in it. -/
theorem nameField_read (name : List UInt8) :
    ((nameField name).takeWhile (· ≠ 0)).map printable = (name.take 63).map printable := by
  have short : (name.take 63).length ≤ 63 := List.length_take_le 63 name
  have zeros : List.replicate (64 - (name.take 63).length) (0 : UInt8) =
      0 :: List.replicate (63 - (name.take 63).length) 0 := by
    rw [← List.replicate_succ]
    congr 1
    omega
  have solid : ∀ b ∈ (name.take 63).map shown, decide (b ≠ 0) = true := by
    intro b shownHere
    obtain ⟨c, _, rfl⟩ := List.mem_map.mp shownHere
    exact decide_eq_true (shown_ne_zero c)
  rw [nameField, zeros, List.takeWhile_append_of_pos solid, List.takeWhile_cons_of_neg (by simp), List.append_nil,
    List.map_map]
  exact List.map_congr_left fun b _ => printable_shown b

end Discovery

/-- The ranges that a browser insists on. -/
structure ServerStatus.Announced (status : ServerStatus) : Prop where
  session : status.session ≠ 0
  port : 0 < status.port ∧ status.port < 2 ^ 16 ∧ status.port ≠ 12001
  phase : status.phase ≤ 4
  occupied : status.occupied ≤ 4
  players : 2 ≤ status.players ∧ status.players ≤ 4
  track : status.track ≤ 4
  league : status.league ≤ 2

/-- The room that a browser reads out of a reply. -/
def ServerStatus.room (status : ServerStatus) (host : Advertised) (now : Nat) (sender : String) : Room where
  session := status.session
  seen := now
  name := .ofList ((host.name.take 63).map Discovery.printable)
  address := sender ++ ":" ++ toString status.port
  players := UInt8.ofNat status.players
  occupied := UInt8.ofNat status.occupied
  phase := UInt8.ofNat status.phase
  track := UInt8.ofNat status.track
  league := UInt8.ofNat status.league
  version := version
  password := host.key ≠ []

namespace Discovery

/-- Where a reply has what. -/
structure Carries (b : List UInt8) (nonce : UInt64) (status : ServerStatus) (host : Advertised) : Prop where
  length : b.length = 96
  tag : b.take 4 = tag
  discovery : b.getD 4 0 = 1
  type : b.getD 5 0 = 2
  version : b.getD 6 0 = version
  nonce : u64 (b.drop 8) = nonce
  session : u64 (b.drop 16) = status.session
  port : u16 (b.drop 24) = UInt16.ofNat status.port
  phase : b.getD 26 0 = UInt8.ofNat status.phase
  occupied : b.getD 27 0 = UInt8.ofNat status.occupied
  players : b.getD 28 0 = UInt8.ofNat status.players
  track : b.getD 29 0 = UInt8.ofNat status.track
  league : b.getD 30 0 = UInt8.ofNat status.league
  key : b.getD 31 0 = if host.key = [] then 0 else 1
  name : b.drop 32 = nameField host.name

theorem reply_carries {nonce : UInt64} {asked : List UInt8} (asks : Asks nonce asked) (status : ServerStatus)
    (host : Advertised) : Carries (reply status host asked) nonce status host := by
  have echoed : (asked.drop 8).take 8 = put64 nonce := by
    rw [← asks.nonce, put64_u64]
    rw [List.length_drop, asks.length]
  rw [reply, echoed]
  constructor
  case length => simp [nameField_length, Discovery.tag]
  case nonce => exact u64_put64 nonce _
  case session => exact u64_put64 status.session _
  case port => exact u16_put16 _ _
  all_goals rfl

/-- A browser refuses nothing that is in range. -/
theorem Carries.parse {b : List UInt8} {nonce : UInt64} {status : ServerStatus} {host : Advertised}
    (carries : Carries b nonce status host) (announced : status.Announced) (now : Nat) (sender : String) :
    parseReply nonce now sender b = some (status.room host now sender) := by
  have small (n : Nat) (bound : n ≤ 4) : (UInt8.ofNat n).toNat = n := by
    rw [UInt8.toNat_ofNat']
    omega
  have port : (UInt16.ofNat status.port).toNat = status.port := by
    rw [UInt16.toNat_ofNat']
    exact Nat.mod_eq_of_lt announced.port.2.1
  have league := small status.league (announced.league.trans (by decide))
  have key : (if host.key = [] then (0 : UInt8) else 1).toNat ≤ 1 := by split <;> decide
  have passes : ¬ (b.length ≠ 96 ∨ b.take 4 ≠ [70, 90, 86, 68] ∨ b.getD 4 0 ≠ 1 ∨ b.getD 5 0 ≠ 2 ∨
      u64 (b.drop 8) ≠ nonce ∨ u64 (b.drop 16) = 0 ∨ u16 (b.drop 24) = 0 ∨ u16 (b.drop 24) = 12001 ∨
      4 < b.getD 26 0 ∨ 4 < b.getD 27 0 ∨ b.getD 28 0 < 2 ∨ 4 < b.getD 28 0 ∨ 4 < b.getD 29 0 ∨ 2 < b.getD 30 0 ∨
      1 < b.getD 31 0) := by
    obtain ⟨present, _, free⟩ := announced.port
    obtain ⟨few, many⟩ := announced.players
    have := announced.phase
    have := announced.occupied
    have := announced.track
    have := announced.league
    rw [carries.length, carries.tag, carries.discovery, carries.type, carries.nonce, carries.session, carries.port,
      carries.phase, carries.occupied, carries.players, carries.track, carries.league, carries.key]
    simp only [← UInt16.toNat_inj, UInt8.lt_iff_toNat_lt, small _ announced.occupied, small _ announced.phase,
      small _ many, small _ announced.track, league, port, announced.session, Discovery.tag, UInt16.reduceToNat,
      UInt8.reduceToNat, ne_eq, not_true_eq_false, false_or]
    omega
  refine (if_neg passes).trans (congrArg some ?_)
  have password : decide (b.getD 31 0 ≠ 0) = decide (host.key ≠ []) := by
    rw [decide_eq_decide, carries.key]
    split <;> simp [*]
  simp only [ServerStatus.room, carries.session, carries.port, carries.phase, carries.occupied, carries.players,
    carries.track, carries.league, carries.name, carries.version, nameField_read, port, password]

/-- A room that is listed already, or for which there is a place. -/
theorem enter_mem {rooms : List Room} {r : Room}
    (place : (∃ x ∈ rooms, x.session = r.session) ∨ rooms.length < 64) : r ∈ enter rooms r := by
  unfold enter
  split
  · rename_i old found
    obtain ⟨within, _⟩ := List.findIdx?_eq_some_iff_getElem.mp found
    exact List.mem_set within r
  · rename_i unlisted
    have free : rooms.length < 64 := by
      rcases place with ⟨x, member, same⟩ | free
      · have different := List.findIdx?_eq_none_iff.mp unlisted x member
        rw [same, beq_self_eq_true] at different
        exact nomatch different
      · exact free
    rw [if_pos free]
    exact List.mem_append_right _ (List.mem_singleton.mpr rfl)

/-- A reply of another session leaves the room where it is. -/
theorem enter_keeps {rooms : List Room} {r x : Room} (member : x ∈ rooms) (other : r.session ≠ x.session) :
    x ∈ enter rooms r := by
  unfold enter
  split
  · rename_i old found
    obtain ⟨within, same, _⟩ := List.findIdx?_eq_some_iff_getElem.mp found
    obtain ⟨k, inside, rfl⟩ := List.getElem_of_mem member
    have apart : old ≠ k := by
      rintro rfl
      exact other (eq_of_beq same).symm
    have kept : (rooms.set old r)[k]? = some rooms[k] := by
      rw [List.getElem?_set_ne apart, List.getElem?_eq_getElem inside]
    exact List.mem_of_getElem? kept
  · split
    · exact List.mem_append_left _ member
    · exact member

theorem entered_keeps {rooms replies : List Room} {x : Room} (member : x ∈ rooms)
    (other : ∀ r ∈ replies, r.session ≠ x.session) : x ∈ replies.foldl enter rooms := by
  induction replies generalizing rooms with
  | nil => exact member
  | cons r rest ih =>
    obtain ⟨first, later⟩ := List.forall_mem_cons.mp other
    exact ih (enter_keeps member first) later

/-- The rooms that the datagrams describe to who asked with the nonce. -/
def replies (nonce : UInt64) (now : Nat) (datagrams : List (String × List UInt8)) : List Room :=
  datagrams.filterMap fun datagram => parseReply nonce now datagram.1 datagram.2

/-- A scan with its socket open enters all that it has heard. -/
theorem scan_hears {d : Discovery} {rooms : List Room} {warning : String} {answers : ScanAnswers}
    (browsing : (d.scan rooms warning answers).1.query = true) :
    (d.scan rooms warning answers).2.1 = fresh answers.now
      ((replies (d.scan rooms warning answers).1.nonce answers.now (answers.datagrams.take 64)).foldl enter rooms) := by
  unfold scan at browsing ⊢
  dsimp only at browsing ⊢
  generalize (if d.browseStarted = 0 then { d with browseStarted := answers.now } else d) = e at *
  split at browsing
  · rename_i early
    exact absurd (early.1.symm.trans browsing) Bool.false_ne_true
  split at browsing
  · rename_i early closed
    exact absurd (closed.symm.trans browsing) Bool.false_ne_true
  · rename_i early opened
    rw [if_neg early, if_neg opened]
    dsimp only at browsing ⊢
    generalize ((e.openQuery answers).ask warning answers).1 = asked at *
    rw [hear_nonce]
    cases listening : asked.query with
    | false =>
      have silent : asked.hear rooms answers = (asked, rooms) := by
        rw [hear, listening, if_neg Bool.false_ne_true]
      rw [silent, listening] at browsing
      exact absurd browsing Bool.false_ne_true
    | true =>
      unfold hear
      rw [if_pos listening]
      rfl

/-- A room is listed by a scan that hears it last of its session, if there is a
place for it by then. -/
theorem scan_lists {d : Discovery} {rooms : List Room} {warning : String} {answers : ScanAnswers}
    {before after : List (String × List UInt8)} {sender : String} {reply : List UInt8} {room : Room} {nonce : UInt64}
    (browsing : (d.scan rooms warning answers).1.query = true)
    (asked : (d.scan rooms warning answers).1.nonce = nonce)
    (heard : answers.datagrams.take 64 = before ++ (sender, reply) :: after)
    (read : parseReply nonce answers.now sender reply = some room) (recent : room.seen = answers.now)
    (place : (∃ x ∈ (replies nonce answers.now before).foldl enter rooms, x.session = room.session) ∨
      ((replies nonce answers.now before).foldl enter rooms).length < 64)
    (last : ∀ x ∈ replies nonce answers.now after, x.session ≠ room.session) :
    room ∈ (d.scan rooms warning answers).2.1 := by
  have cut : replies nonce answers.now (answers.datagrams.take 64) =
      replies nonce answers.now before ++ room :: replies nonce answers.now after := by
    rw [heard, replies, List.filterMap_append, List.filterMap_cons]
    simp only [read]
    rfl
  rw [scan_hears browsing, asked, cut, List.foldl_append, List.foldl_cons]
  refine List.mem_filter.mpr ⟨entered_keeps (enter_mem place) last, decide_eq_true ?_⟩
  rw [recent]
  omega

theorem advertise_mem {d : Discovery} (listening : d.listener = true) {status : ServerStatus} {host : Advertised}
    {datagrams : List (UInt32 × List UInt8)} {peer : UInt32} {asked sent : List UInt8}
    (heard : (peer, asked) ∈ datagrams.take 32) (answered : answer status host peer asked = some sent) :
    (peer, sent) ∈ d.advertise status host datagrams := by
  rw [advertise, if_pos listening]
  exact List.mem_filterMap.mpr ⟨(peer, asked), heard, by rw [answered]; rfl⟩

end Discovery

end Session

/-- Whatever state an open room is in, browsers take its status. -/
theorem Server.getStatus_announced {s : Server} (reach : Server.system.Reachable s) (live : s.closed = false) :
    s.getStatus.Announced := by
  have seating := Server.reachable_seating reach live
  obtain ⟨c, session, now, first, created, fixed⟩ := Server.reachable_fixed reach
  have most := UInt8.le_iff_toNat_le.mp seating.most
  constructor
  case session =>
    obtain ⟨_, _, _, _, drawn, rfl⟩ := Server.create_some created
    exact fixed.session.trans_ne drawn
  case port => exact Server.reachable_port reach
  case phase =>
    change s.phase.rank ≤ 4
    cases s.phase <;> decide
  case occupied => exact seating.capacity.trans most
  case players => exact ⟨UInt8.le_iff_toNat_le.mp seating.fewest, most⟩
  case track => exact Nat.le_of_lt_succ (UInt8.lt_iff_toNat_lt.mp seating.track)
  case league => exact Nat.le_of_lt_succ (UInt8.lt_iff_toNat_lt.mp seating.league)

namespace Session

/-- What a browser learns from a host is what the host knows. Whoever asks with
its nonce gets one datagram back, and reads the room out of it under the
address that it came from. -/
theorem discovery_round_trip {s : Server} (reach : Server.system.Reachable s) (joined : s.getStatus.ownerJoined = true)
    (live : s.getStatus.closed = false) (host : Advertised) (short : host.name.length ≤ 63) {nonce : UInt64}
    {asked : List UInt8} (asks : Discovery.Asks nonce asked) {peer : UInt32}
    (admitted : Discovery.elsewhere host peer = false) :
    ∃ reply, Discovery.answer s.getStatus host peer asked = some reply ∧ reply.length = 96 ∧
      (∀ (d : Discovery) datagrams, d.listener = true → (peer, asked) ∈ datagrams.take 32 →
        (peer, reply) ∈ d.advertise s.getStatus host datagrams) ∧
      ∀ now sender, ∃ room, Discovery.parseReply nonce now sender reply = some room ∧
        room.session = s.session ∧ room.phase = s.phase.code ∧ room.occupied.toNat = s.count ∧
        room.players = s.expected ∧ room.track = s.track ∧ room.league = s.league ∧ room.version = version ∧
        (room.password = true ↔ host.key ≠ []) ∧
        (s.key = host.key.takeWhile (· ≠ 0) → 0 ∉ host.key → (room.password = true ↔ s.key ≠ [])) ∧
        room.address = sender ++ ":" ++ toString s.port ∧
        room.name = .ofList (host.name.map Discovery.printable) ∧
        (∀ rooms : List Room, (∃ x ∈ rooms, x.session = room.session) ∨ rooms.length < 64 →
          room ∈ Discovery.fresh now (Discovery.enter rooms room)) ∧
        ∀ (d : Discovery) rooms warning answers before after listed, (d.scan rooms warning answers).1.query = true →
          (d.scan rooms warning answers).1.nonce = nonce → answers.now = now →
          answers.datagrams.take 64 = before ++ (sender, reply) :: after →
          listed = (Discovery.replies nonce now before).foldl Discovery.enter rooms →
          (∃ x ∈ listed, x.session = room.session) ∨ listed.length < 64 →
          (∀ x ∈ Discovery.replies nonce now after, x.session ≠ room.session) →
          room ∈ (d.scan rooms warning answers).2.1 := by
  have announced := Server.getStatus_announced reach live
  have answered : Discovery.answer s.getStatus host peer asked = some (Discovery.reply s.getStatus host asked) := by
    rw [Discovery.answer, if_neg, admitted, if_neg Bool.false_ne_true]
    rw [asks.length, asks.tag, asks.version, asks.type, joined, live]
    decide
  have carries := Discovery.reply_carries asks s.getStatus host
  have occupied : s.count ≤ 4 := announced.occupied
  have whole : host.name.take 63 = host.name := List.take_of_length_le short
  refine ⟨_, answered, carries.length,
    fun d datagrams listening heard => Discovery.advertise_mem listening heard answered,
    fun now sender => ⟨_, carries.parse announced now sender, ?_⟩⟩
  have seen : ∀ rooms : List Room,
      (∃ x ∈ rooms, x.session = (s.getStatus.room host now sender).session) ∨ rooms.length < 64 →
        s.getStatus.room host now sender ∈ Discovery.fresh now
          (Discovery.enter rooms (s.getStatus.room host now sender)) := by
    intro rooms place
    refine List.mem_filter.mpr ⟨Discovery.enter_mem place, decide_eq_true ?_⟩
    change now - now ≤ 6000
    omega
  refine ⟨rfl, rfl, ?_, UInt8.ofNat_toNat, UInt8.ofNat_toNat, UInt8.ofNat_toNat, rfl, decide_eq_true_iff, ?_, rfl, ?_,
    seen, ?_⟩
  · change (UInt8.ofNat s.count).toNat = s.count
    rw [UInt8.toNat_ofNat']
    omega
  · intro key text
    have solid : ∀ b ∈ host.key, decide (b ≠ 0) = true := by
      intro b inKey
      refine decide_eq_true ?_
      rintro rfl
      exact text inKey
    rw [key, List.takeWhile_eq_self_iff.mpr solid]
    exact decide_eq_true_iff
  · rw [ServerStatus.room, whole]
  · rintro d rooms warning answers before after listed browsing nonce rfl heard rfl place last
    exact Discovery.scan_lists browsing nonce heard (carries.parse announced _ sender) rfl place last

/-- A room on the loopback address, with a zero and a byte above 127 in its
name, and a browser on the same machine. -/
def sampleAdvertised : Advertised := ⟨[49, 50, 55, 46, 48, 46, 48, 46, 49], [], [65, 0, 200, 66]⟩

/-- The browser has asked half a second ago. -/
def sampleBrowser : Discovery where
  query := true
  nonce := 5
  lastQuery := 500
  browseStarted := 500

theorem sampleAdvertised_found :
    ∃ sent, Discovery.answer (Server.sampleHosted.step Server.sampleJoin).getStatus sampleAdvertised 0x7f000001
        (Discovery.queryBytes 5) = some sent ∧
      ∃ room, Discovery.parseReply 5 1000 "127.0.0.1" sent = some room ∧
        room.name = .ofList ['A', '?', '?', 'B'] ∧
        room ∈ (sampleBrowser.scan [] "" { now := 1000, datagrams := [("127.0.0.1", sent)] }).2.1 := by
  have reach : Server.system.Reachable (Server.sampleHosted.step Server.sampleJoin) :=
    .next Server.sampleJoin (.start Server.sampleHosted_init) trivial trivial
  obtain ⟨sent, answered, _, _, read⟩ := discovery_round_trip reach (by decide +kernel) (by decide +kernel)
    sampleAdvertised (by decide) (Discovery.queryBytes_asks 5)
    (show Discovery.elsewhere sampleAdvertised 0x7f000001 = false by decide)
  obtain ⟨room, parsed, _, _, _, _, _, _, _, _, _, _, name, _, listed⟩ := read 1000 "127.0.0.1"
  have scanned (answers : ScanAnswers) (now : answers.now = 1000) (well : answers.receive = none) :
      (sampleBrowser.scan [] "" answers).1.query = true ∧ (sampleBrowser.scan [] "" answers).1.nonce = 5 := by
    simp [Discovery.scan, Discovery.openQuery, Discovery.ask, Discovery.hear, sampleBrowser, now, well]
  obtain ⟨browsing, nonce⟩ := scanned { now := 1000, datagrams := [("127.0.0.1", sent)] } rfl rfl
  exact ⟨sent, answered, room, parsed, name,
    listed sampleBrowser [] "" _ [] [] [] browsing nonce rfl rfl rfl (.inr (by decide)) nofun⟩

end Session

end FzeroVs
