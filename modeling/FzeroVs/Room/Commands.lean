import FzeroVs.Client.Account
import FzeroVs.Server.Receipts
import FzeroVs.Room.Mirror

namespace FzeroVs

namespace Client

theorem queue_waiting {c : Client} (waits : c.id = none) (command : List UInt8) : c.queue command = c := by
  rw [queue, if_pos (.inl waits)]

/-- Without a place the client numbers nothing and sends no command. -/
theorem Silent.move {c d : Client} (silent : Silent c) (move : Move c d) : Silent d := by
  have queued (command : List UInt8) : c.queue command = c := queue_waiting silent.waits command
  cases move with
  | idle idle =>
    have packets := idle.pending
    rw [silent.pending, List.map_nil, List.map_eq_nil_iff] at packets
    refine ⟨idle.id.trans silent.waits, packets, idle.issued.trans silent.issued, fun data member => ?_⟩
    rcases idle.sent data member with old | other
    · exact silent.sent data old
    · exact other
  | retransmit t waiting => exact nomatch silent.pending.symm.trans waiting
  | queue command =>
    rw [queued]
    exact silent
  | select waiting unsent joined lobby => exact absurd silent.waits joined
  | load ram location playing unsent loading =>
    rw [queued]
    exact ⟨silent.waits, silent.pending, silent.issued, silent.sent⟩
  | finish racing playing unsent =>
    rw [queued]
    exact ⟨silent.waits, silent.pending, silent.issued, silent.sent⟩
  | arm counting unarmed =>
    rw [queued]
    exact ⟨silent.waits, silent.pending, silent.issued, silent.sent⟩
  | play before after baseline seated => exact ⟨silent.waits, silent.pending, silent.issued, silent.sent⟩
  | fail => exact ⟨silent.waits, silent.pending, silent.issued, silent.sent⟩

theorem Silent.path {c d : Client} (silent : Silent c) (path : Path c d) : Silent d :=
  Path.keeps path (fun _ _ move silent => Silent.move silent move) silent

/-- Leaving numbers a LEAVE, or nothing. -/
theorem detach_issued (c : Client) :
    (c.detach.issued = c.issued ∧ c.detach.commandSeq = c.commandSeq) ∨
      (c.id ≠ none ∧ c.detach.commandSeq = c.commandSeq + 1 ∧
        c.detach.issued = c.issued ++ [⟨c.race, c.commandSeq + 1, [Command.leave.code]⟩]) := by
  unfold detach
  dsimp only
  split
  next opened =>
    split
    next leaves =>
      refine .inr ⟨leaves.1, ?_, ?_⟩ <;> simp [send, issue, opened]
    next => exact .inl ⟨rfl, rfl⟩
  next => exact .inl ⟨rfl, rfl⟩

theorem Silent.detach {c : Client} (silent : Silent c) : Silent c.detach := by
  have sent : c.detach.sent = c.sent := by
    unfold Client.detach
    dsimp only
    split
    · rw [if_neg (fun leaves => leaves.1 silent.waits)]
    · rfl
  refine ⟨rfl, rfl, ?_, ?_⟩
  · rcases c.detach_issued with ⟨same, _⟩ | ⟨joined, _⟩
    · exact same.trans silent.issued
    · exact absurd silent.waits joined
  · rw [sent]
    exact silent.sent

theorem Silent.attach (c : Client) (random : Option UInt64) (now : UInt64) : Silent (c.attach random now) := by
  unfold Client.attach
  dsimp only
  split
  · split
    · exact ⟨rfl, rfl, rfl, fun _ member => nomatch member⟩
    · exact ⟨rfl, rfl, rfl, fun _ member => nomatch member⟩
  · exact ⟨rfl, rfl, rfl, fun _ member => nomatch member⟩

theorem Account.pending_le {c : Client} (account : Account c) : c.pending.length ≤ c.commandSeq.toNat := by
  have waiting := account.waiting.length_le
  rw [List.length_map, List.length_map] at waiting
  exact waiting.trans account.base

/-- Below the half-way mark an acknowledgement covers what is not above it. -/
theorem covered_low {ack : UInt32} {q : Pending} (lowAck : ack.toNat < 2 ^ 31) (low : q.packet.seq.toNat < 2 ^ 31) :
    covered ack q = true ↔ q.packet.seq.toNat ≤ ack.toNat := by
  rw [covered_iff, UInt32.toNat_sub]
  omega

/-- What leaves the queue is not above the acknowledgement. -/
theorem Account.dropWhile {c : Client} (account : Account c) {ack : UInt32} (low : c.issued.length < 2 ^ 31)
    (lowAck : ack.toNat < 2 ^ 31) : c.pending.dropWhile (covered ack) = c.pending ∨
      c.commandSeq.toNat ≤ ack.toNat + (c.pending.dropWhile (covered ack)).length := by
  rw [List.dropWhile_eq_drop_findIdx_not]
  cases index : c.pending.findIdx (fun q => !covered ack q) with
  | zero => exact .inl rfl
  | succ j =>
    right
    have before : j < c.pending.findIdx fun q => !covered ack q := index ▸ Nat.lt_succ_self j
    have within : j < c.pending.length := Nat.lt_of_lt_of_le before List.findIdx_le_length
    have left := List.not_of_lt_findIdx before
    obtain ⟨inside, x, member, same, seq⟩ := account.nth (List.getElem?_eq_getElem within)
    have number : c.pending[j].packet.seq = x.seq := congrArg Packet.seq same
    have few := account.few
    have covers := (covered_low (q := c.pending[j]) lowAck (by rw [number]; omega)).mp (by simpa using left)
    rw [number] at covers
    rw [List.length_drop]
    omega

end Client

/-- A command taken, as its client has numbered it. -/
def Consumed.issued (x : Consumed) : Issued := ⟨x.race, x.seq, x.payload⟩

/-- A list grows by what comes next in the longer one. -/
theorem prefix_concat {α : Type} {l m : List α} {a : α} (runs : l <+: m) (next : m[l.length]? = some a) :
    l ++ [a] <+: m := by
  obtain ⟨rest, rfl⟩ := runs
  rw [List.getElem?_append_right (Nat.le_refl _), Nat.sub_self] at next
  cases rest with
  | nil => exact nomatch next
  | cons b rest =>
    obtain rfl : b = a := Option.some.inj next
    exact ⟨rest, by simp⟩

namespace Server

/-- A WELCOME or a SNAPSHOT that has been sent. -/
def Answered (s : Server) (p : Packet) : Prop :=
  (p.is .welcome = true ∨ p.is .snapshot = true) ∧ ∃ d ∈ s.sent, decode d.data = some p

/-- A new answer shows what its slot has had taken, and the generation. -/
theorem answered_step {s : Server} {e : Event} {p : Packet} (answered : (s.step e).Answered p) :
    s.Answered p ∨ ∃ k ∈ (s.step e).holders p.token, p.ack = ((s.step e).players k).commandSeq ∧
      p.race = (s.step e).race := by
  obtain ⟨kind, d, member, decoded⟩ := answered
  rcases answer_step member decoded kind with old | new
  · exact .inl ⟨kind, d, old, decoded⟩
  · exact .inr new

theorem Receipts.answered {s : Server} (receipts : Receipts s) {p : Packet} (answered : s.Answered p) :
    p.race.toNat ≤ s.race.toNat := by
  obtain ⟨kind, d, member, decoded⟩ := answered
  exact receipts.answers d member p decoded kind

end Server

namespace Room

/-- How the number of the last command taken from a slot fits the numbers of its client. -/
structure Slot (s : Server) (c : Client) (seq : UInt32) : Prop where
  few : seq.toNat ≤ c.issued.length
  acks : ∀ p, s.Answered p → p.token = c.token → p.race = s.race →
    p.ack.toNat ≤ seq.toNat ∧ (c.race ≠ s.race → p.ack = seq)
  count : c.race = s.race →
    seq.toNat + (c.issuedIn c.race).length = c.commandSeq.toNat + (s.consumedIn c.token c.race).length
  first : c.race = s.race → c.id ≠ none →
    c.commandSeq.toNat ≤ seq.toNat + c.pending.length ∧ seq.toNat + c.pending.length ≤ c.commandSeq.toNat + 1

/-- A client at endpoint `a` that has had a place, and the server. -/
structure InStep (s : Server) (c : Client) (a : Endpoint) : Prop where
  account : Client.Account c
  drawn : (c.token, a) ∈ s.drawn
  left : c.id = none → c.socket = false
  behind : c.race.toNat ≤ s.race.toNat
  taken : ∀ r, (s.consumedIn c.token r).map Consumed.issued <+: c.issuedIn r
  known : ∀ p, s.Answered p → p.token = c.token → p.ack.toNat ≤ c.issued.length
  slot : ∀ k ∈ s.holders c.token, Slot s c (s.players k).commandSeq

namespace InStep
variable {s : Server} {c : Client} {a : Endpoint}

/-- Nothing is numbered, or taken, in a generation that the client does not know yet. -/
theorem issued_nil (inStep : InStep s c a) {r : UInt32} (later : c.race.toNat < r.toNat) : c.issuedIn r = [] := by
  refine List.filter_eq_nil_iff.mpr fun x member same => ?_
  have past := inStep.account.past x member
  rw [beq_iff_eq.mp same] at past
  omega

theorem consumed_nil (inStep : InStep s c a) {r : UInt32} (later : c.race.toNat < r.toNat) :
    s.consumedIn c.token r = [] := by
  have none := inStep.issued_nil later
  have taken := inStep.taken r
  rw [none] at taken
  exact List.map_eq_nil_iff.mp (List.prefix_nil.mp taken)

/-- A client that is in the generation after a step was in it before. -/
theorem same_race (inStep : InStep s c a) (low : s.race.toNat < 2 ^ 31) {e : Server.Event}
    (current : c.race = (s.step e).race) : c.race = s.race := by
  have onward := Server.race_mono low e
  have behind := inStep.behind
  have value := congrArg UInt32.toNat current
  exact UInt32.toNat.inj (by omega)

/-- The slot of the client takes nothing: the server goes on. -/
theorem idle (inStep : InStep s c a) (receipts : Server.Receipts s) (low : s.race.toNat < 2 ^ 31) {e : Server.Event}
    (ledger : Server.Ledger (s.step e))
    (consumed : ∀ r, (s.step e).consumedIn c.token r = s.consumedIn c.token r)
    (slot : ∀ k ∈ (s.step e).holders c.token, k ∈ s.holders c.token ∧
      ((s.step e).players k).commandSeq = (s.players k).commandSeq) : InStep (s.step e) c a := by
  have onward := Server.race_mono low e
  have same (current : c.race = (s.step e).race) : c.race = s.race := inStep.same_race low current
  refine
    { account := inStep.account
      drawn := s.drawn_step e inStep.drawn
      left := inStep.left
      behind := inStep.behind.trans onward
      taken := fun r => by rw [consumed]; exact inStep.taken r
      known := fun p answered own => ?_
      slot := fun k holds => ?_ }
  · rcases Server.answered_step answered with old | ⟨k, holds, ack, _⟩
    · exact inStep.known p old own
    · obtain ⟨before, kept⟩ := slot k (own ▸ holds)
      rw [ack, kept]
      exact (inStep.slot k before).few
  · obtain ⟨before, kept⟩ := slot k holds
    obtain ⟨few, acks, count, first⟩ := inStep.slot k before
    rw [kept]
    refine ⟨few, fun p answered own now => ?_, fun current => ?_, fun current joined => first (same current) joined⟩
    · rcases Server.answered_step answered with old | ⟨j, holdsJ, ack, _⟩
      · have past := receipts.answered old
        rw [now] at past
        have still : (s.step e).race = s.race := UInt32.toNat.inj (Nat.le_antisymm past onward)
        rw [still]
        exact acks p old own (now.trans still)
      · obtain rfl : j = k := ledger.sole c.token j k (own ▸ holdsJ) holds
        rw [ack, kept]
        exact ⟨Nat.le_refl _, fun _ => rfl⟩
    · rw [consumed]
      exact count (same current)

/-- The slot of the client takes its next command. -/
theorem took (inStep : InStep s c a) (receipts : Server.Receipts s)
    (low : s.race.toNat < 2 ^ 31) (few : c.issued.length < 2 ^ 31) {d : Server.Incoming} {k : Fin 4} {packet : Packet}
    (decoded : decode d.data = some packet) (sent : d.data ∈ c.sent) (takes : Server.Takes s d.address k packet)
    (holds : k ∈ s.holders c.token)
    (consumed : (s.step (.packet d)).consumed = s.consumed ++ [⟨c.token, packet.race, packet.seq, packet.body⟩])
    (slot : ∀ j ∈ (s.step (.packet d)).holders c.token, j = k ∧ ((s.step (.packet d)).players j).commandSeq = packet.seq) :
    InStep (s.step (.packet d)) c a := by
  obtain ⟨_, known, due⟩ := inStep.account.sent d.data sent packet decoded takes.command
  have onward := Server.race_mono low (.packet d)
  have behind := inStep.behind
  obtain ⟨bound, acks, count, first⟩ := inStep.slot k holds
  -- Only a client of this generation has sent such a command.
  have past : packet.race.toNat ≤ c.race.toNat := inStep.account.past _ known
  rw [takes.race] at past
  have current : c.race = s.race := UInt32.toNat.inj (Nat.le_antisymm behind past)
  have seq : packet.seq.toNat = (s.players k).commandSeq.toNat + 1 := by
    rw [takes.seq, toNat_add_one (by omega)]
  have count := count current
  have here : packet.race = c.race := takes.race.trans current.symm
  have next : (c.issuedIn c.race)[(s.consumedIn c.token c.race).length]? =
      some ⟨packet.race, packet.seq, packet.body⟩ := by
    obtain ⟨n, atN⟩ := List.mem_iff_getElem?.mp (Client.mem_issuedIn.mpr ⟨known, here⟩)
    have number := inStep.account.numbered n _ atN
    have within : n < (c.issuedIn c.race).length := (List.getElem?_eq_some_iff.mp atN).1
    obtain rfl : n = (s.consumedIn c.token c.race).length := by
      change packet.seq.toNat + _ = _ at number
      omega
    exact atN
  have mine (r : UInt32) : (s.step (.packet d)).consumedIn c.token r =
      s.consumedIn c.token r ++ if packet.race = r then [⟨c.token, packet.race, packet.seq, packet.body⟩] else [] := by
    rw [Server.consumedIn, consumed, List.filter_append]
    by_cases here : packet.race = r <;> simp [Server.consumedIn, here]
  refine
    { account := inStep.account
      drawn := s.drawn_step _ inStep.drawn
      left := inStep.left
      behind := behind.trans onward
      taken := fun r => ?_
      known := fun p answered own => ?_
      slot := fun j holdsJ => ?_ }
  · rw [mine]
    split
    next isRace =>
      subst isRace
      rw [List.map_append]
      refine prefix_concat (inStep.taken packet.race) ?_
      rw [← here] at next
      rw [List.length_map, next]
      rfl
    next =>
      rw [List.append_nil]
      exact inStep.taken r
  · rcases Server.answered_step answered with old | ⟨j, holdsJ, ack, _⟩
    · exact inStep.known p old own
    · rw [ack, (slot j (own ▸ holdsJ)).2]
      exact inStep.account.below _ known
  · obtain ⟨rfl, taken⟩ := slot j holdsJ
    rw [taken]
    refine ⟨inStep.account.below _ known, fun p answered own now => ?_, fun now => ?_, fun now joined => ?_⟩
    · rcases Server.answered_step answered with old | ⟨i, holdsI, ack, _⟩
      · have still : (s.step (.packet d)).race = s.race := by
          have late := receipts.answered old
          rw [now] at late
          exact UInt32.toNat.inj (Nat.le_antisymm late onward)
        have less := (acks p old own (now.trans still)).1
        exact ⟨by omega, fun other => absurd (current.trans still.symm) other⟩
      · rw [ack, (slot i (own ▸ holdsI)).2]
        exact ⟨Nat.le_refl _, fun _ => rfl⟩
    · rw [mine, if_pos here, List.length_append, List.length_singleton]
      omega
    · obtain ⟨waits, _⟩ := first current joined
      have due : packet.seq.toNat ≤ c.commandSeq.toNat - c.pending.length + 1 := due joined here
      have inside := inStep.account.pending_le
      omega

theorem server (inStep : InStep s c a) (receipts : Server.Receipts s) (ledger : Server.Ledger s)
    (low : s.race.toNat < 2 ^ 31) (few : c.issued.length < 2 ^ 31) {e : Server.Event} (undrawn : Server.Undrawn s e)
    (honest : ∀ d, e = .packet d → d.address = a → d.data ∈ c.sent) : InStep (s.step e) c a := by
  have other : e.random ≠ c.token := receipts.undrawn undrawn inStep.drawn
  cases Server.step_booking ledger other with
  | idle _ consumed slot => exact inStep.idle receipts low (ledger.step undrawn) consumed slot
  | took d k packet isPacket decoded takes holds consumed slot =>
    subst isPacket
    have place : d.address = a := takes.from_place ledger holds inStep.drawn
    exact inStep.took receipts low few decoded (honest d rfl place) takes holds consumed slot

/-- The client numbers further commands, all of its generation. -/
theorem grows (inStep : InStep s c a) {d : Client} {more : List Issued} (account : Client.Account d)
    (few : d.issued.length < 2 ^ 31) (issued : d.issued = c.issued ++ more) (within : ∀ x ∈ more, x.race = c.race)
    (seq : d.commandSeq = c.commandSeq + UInt32.ofNat more.length) (race : d.race = c.race) (token : d.token = c.token)
    (left : d.id = none → d.socket = false)
    (pending : d.id ≠ none → c.id ≠ none ∧ d.pending.length = c.pending.length + more.length) : InStep s d a := by
  rw [issued, List.length_append] at few
  have number : d.commandSeq.toNat = c.commandSeq.toNat + more.length := by
    have bound := inStep.account.few
    rw [seq, UInt32.toNat_add, UInt32.toNat_ofNat_of_lt' (by rw [UInt32.size]; omega), Nat.mod_eq_of_lt (by omega)]
  have all : d.issuedIn c.race = c.issuedIn c.race ++ more := by
    have kept : more.filter (fun x => x.race == c.race) = more :=
      List.filter_eq_self.mpr fun x member => beq_iff_eq.mpr (within x member)
    rw [Client.issuedIn, issued, List.filter_append, kept]
    rfl
  refine
    { account := account
      drawn := token ▸ inStep.drawn
      left := left
      behind := race ▸ inStep.behind
      taken := fun r => ?_
      known := fun p answered own => ?_
      slot := fun k holds => ?_ }
  · rw [token, Client.issuedIn, issued, List.filter_append]
    exact (inStep.taken r).trans (List.prefix_append _ _)
  · rw [issued, List.length_append]
    exact Nat.le_add_right_of_le (inStep.known p answered (own.trans token))
  · obtain ⟨bound, acks, count, first⟩ := inStep.slot k (token ▸ holds)
    refine ⟨?_, ?_, fun current => ?_, fun current joined => ?_⟩
    · rw [issued, List.length_append]
      exact Nat.le_add_right_of_le bound
    · rw [token, race]
      exact acks
    · have count := count (race ▸ current)
      rw [race, token, all, List.length_append, number]
      omega
    · obtain ⟨before, waits⟩ := pending joined
      obtain ⟨least, most⟩ := first (race ▸ current) before
      rw [number, waits]
      omega

theorem path (inStep : InStep s c a) {d : Client} (path : Client.Path c d) (few : d.issued.length < 2 ^ 31) :
    InStep s d a := by
  have kept := Client.Path.kept path
  obtain ⟨more, grows⟩ := Client.Path.grows path
  refine inStep.grows (inStep.account.path path few) few grows.issued grows.current grows.seq kept.race kept.token
    (fun none => ?_) fun joined => ⟨kept.id ▸ joined, grows.pending⟩
  rcases Client.Path.socket path with same | closed
  · exact same.trans (inStep.left (kept.id ▸ none))
  · exact closed

theorem detach (inStep : InStep s c a) (few : c.detach.issued.length < 2 ^ 31) : InStep s c.detach a := by
  have race := Client.detach_keeps Client.race (fun _ _ _ _ _ _ => rfl) c
  have token := Client.detach_keeps Client.token (fun _ _ _ _ _ _ => rfl) c
  have closed := c.detach_socket
  rcases c.detach_issued with ⟨same, seq⟩ | ⟨_, seq, more⟩
  · have none : c.detach.issued = c.issued ++ [] := by rw [same, List.append_nil]
    refine inStep.grows (inStep.account.detach (same ▸ few)) few none (List.forall_mem_nil _)
      (by rw [seq]; exact (UInt32.add_zero _).symm) race token (fun _ => closed.1) fun joined => absurd closed.2 joined
  · have low : c.issued.length < 2 ^ 31 := by
      rw [more, List.length_append] at few
      omega
    exact inStep.grows (inStep.account.detach low) few more
      (fun x member => by rw [List.mem_singleton.mp member]) seq race token (fun _ => closed.1)
      fun joined => absurd closed.2 joined

theorem settle (inStep : InStep s c a) (receipts : Server.Receipts s) (low : s.race.toNat < 2 ^ 31)
    (few : c.issued.length < 2 ^ 31) (t : UInt64) {p : Packet} {v : Picture} (accepts : Client.Accepts c p v)
    (answered : s.Answered p) : InStep s (c.settle t p v) a := by
  have past := receipts.answered answered
  have bound := inStep.known p answered accepts.token
  have onward : p.race ≠ c.race → c.race.toNat < p.race.toNat := by
    intro other
    have fresh := accepts.fresh
    simp only [Client.fresh, Bool.and_eq_true, Bool.or_eq_true, beq_iff_eq] at fresh
    have behind := inStep.behind
    exact (newer_iff_lt (by omega) (by omega)).mp (fresh.2.resolve_left other)
  have account := inStep.account.settle t v onward bound
  have took := c.settle_took t p v
  have issued : (c.settle t p v).issued = c.issued := (c.settle_history t p v).1
  have within (r : UInt32) : (c.settle t p v).issuedIn r = c.issuedIn r := by
    rw [Client.issuedIn, issued]
    rfl
  refine
    { account := account
      drawn := took.token ▸ inStep.drawn
      left := fun none => absurd (took.id ▸ none) accepts.joined
      behind := took.race ▸ past
      taken := fun r => ?_
      known := ?_
      slot := fun k holds => ?_ }
  · rw [took.token, within]
    exact inStep.taken r
  · rw [took.token, issued]
    exact inStep.known
  obtain ⟨few', acks, count, first⟩ := inStep.slot k (took.token ▸ holds)
  by_cases current : p.race = c.race
  · obtain ⟨pending, seq⟩ := Client.settle_same t v current
    refine ⟨issued ▸ few', ?_, fun now => ?_, fun now joined => ?_⟩
    · rw [took.token, took.race, current]
      exact acks
    · rw [took.token, within, seq]
      rw [took.race, current] at now ⊢
      exact count now
    · rw [took.race] at now
      obtain ⟨least, most⟩ := first (current.symm.trans now) accepts.joined
      have seen := (acks p answered accepts.token now).1
      have shorter := (List.dropWhile_suffix (Client.covered p.ack) (l := c.pending)).length_le
      rw [pending, seq]
      rcases inStep.account.dropWhile few (Nat.lt_of_le_of_lt bound few) with same | gone
      · rw [same]
        exact ⟨least, most⟩
      · omega
  · have later := onward current
    obtain ⟨pending, seq⟩ := Client.settle_other t v current
    have unknown (now : p.race = s.race) : c.race ≠ s.race := fun same => current (now.trans same.symm)
    refine ⟨issued ▸ few', fun q answered own now => ?_, fun now => ?_, fun now joined => ?_⟩
    · obtain ⟨less, same⟩ := acks q answered (own.trans took.token) now
      refine ⟨less, fun _ => same fun same => ?_⟩
      rw [same] at later
      omega
    · rw [took.race] at now
      rw [took.race, took.token, within, inStep.issued_nil later, seq, inStep.consumed_nil later,
        (acks p answered accepts.token now).2 (unknown now)]
      rfl
    · rw [took.race] at now
      rw [pending, seq, (acks p answered accepts.token now).2 (unknown now), List.length_nil]
      omega

theorem accept (inStep : InStep s c a) (receipts : Server.Receipts s) (low : s.race.toNat < 2 ^ 31)
    (few : c.issued.length < 2 ^ 31) (t : UInt64) {p : Packet} {v : Picture} (accepts : Client.Accepts c p v)
    (answered : s.Answered p) (after : (c.accept t p v).issued.length < 2 ^ 31) : InStep s (c.accept t p v) a :=
  (inStep.settle receipts low few t accepts answered).path (c.settle t p v).arm_path after

end InStep

/-- A client at endpoint `a` that has had no place, and the server. -/
structure Outside (s : Server) (c : Client) (a : Endpoint) : Prop where
  silent : Client.Silent c
  token : c.token = 0
  untouched : ∀ token, (token, a) ∈ s.drawn → Server.Untouched s token

namespace Outside
variable {s : Server} {c : Client} {a : Endpoint}

theorem server (outside : Outside s c a) (receipts : Server.Receipts s) (ledger : Server.Ledger s) {e : Server.Event}
    (undrawn : Server.Undrawn s e) (honest : ∀ d, e = .packet d → d.address = a → d.data ∈ c.sent) :
    Outside (s.step e) c a := by
  have old {token : UInt64} (drawn : (token, a) ∈ s.drawn) : Server.Untouched (s.step e) token := by
    have other : e.random ≠ token := receipts.undrawn undrawn drawn
    refine (outside.untouched token drawn).step ledger other fun d k packet isPacket decoded takes holds => ?_
    have place : d.address = a := takes.from_place ledger holds drawn
    exact nomatch (outside.silent.sent d.data (honest d isPacket place) packet decoded).symm.trans takes.command
  refine ⟨outside.silent, outside.token, fun token drawn => ?_⟩
  cases s.step_turn e with
  | keeps keeps => exact old (keeps.drawn ▸ drawn)
  | took d j packet isPacket decoded takes took => exact old (took.drawn ▸ drawn)
  | seats d j packet isPacket decoded seats =>
    rw [seats.drawn] at drawn
    rcases List.mem_append.mp drawn with before | new
    · exact old before
    · subst isPacket
      cases List.mem_singleton.mp new
      exact seats.untouched receipts ledger undrawn

theorem path (outside : Outside s c a) {d : Client} (path : Client.Path c d) : Outside s d a :=
  ⟨outside.silent.path path, (Client.Path.kept path).token.trans outside.token, outside.untouched⟩

theorem detach (outside : Outside s c a) : Outside s c.detach a :=
  ⟨outside.silent.detach, (Client.detach_keeps Client.token (fun _ _ _ _ _ _ => rfl) c).trans outside.token,
    outside.untouched⟩

theorem attach (outside : Outside s c a) (random : Option UInt64) (now : UInt64) :
    Outside s (c.attach random now) a := by
  have token : c.detach.token = 0 :=
    (Client.detach_keeps Client.token (fun _ _ _ _ _ _ => rfl) c).trans outside.token
  refine ⟨.attach c random now, ?_, outside.untouched⟩
  unfold Client.attach
  dsimp only
  split
  · split
    · exact token
    · rfl
  · exact token

/-- The first WELCOME that the client hears gives it a place. -/
theorem join (outside : Outside s c a) (receipts : Server.Receipts s) (t : UInt64) {p : Packet} (i : Fin 4)
    (answered : s.Answered p) (drawn : (p.token, a) ∈ s.drawn) : InStep s (c.join t p i) a := by
  have untouched := outside.untouched p.token drawn
  have zero {q : Packet} (answered : s.Answered q) (own : q.token = p.token) : q.ack = 0 := by
    obtain ⟨kind, d, member, decoded⟩ := answered
    exact untouched.answers d member q decoded kind own
  have nothing (r : UInt32) : s.consumedIn p.token r = [] := by
    refine List.filter_eq_nil_iff.mpr fun x member => ?_
    simp [untouched.consumed x member]
  have none (r : UInt32) : (c.join t p i).issuedIn r = [] := by
    rw [Client.issuedIn, show (c.join t p i).issued = [] from outside.silent.issued]
    rfl
  refine
    { account := .join outside.silent t i (zero answered rfl)
      drawn := drawn
      left := fun unknown => by cases unknown
      behind := receipts.answered answered
      taken := fun r => ?_
      known := fun q other own => ?_
      slot := fun k holds => ?_ }
  · change (s.consumedIn p.token r).map _ <+: _
    rw [nothing]
    exact List.nil_prefix
  · rw [zero other own]
    exact Nat.zero_le _
  · rw [untouched.slot k holds]
    refine ⟨Nat.zero_le _, fun q other own _ => ?_, fun _ => ?_, fun _ _ => ?_⟩
    · rw [zero other own]
      exact ⟨Nat.le_refl _, fun _ => rfl⟩
    · rw [none]
      change _ = p.ack.toNat + (s.consumedIn p.token p.race).length
      rw [zero answered rfl, nothing]
      rfl
    · change p.ack.toNat ≤ _ + c.pending.length ∧ _ + c.pending.length ≤ p.ack.toNat + 1
      rw [zero answered rfl, outside.silent.pending]
      exact ⟨Nat.le_refl _, Nat.zero_le _⟩

end Outside

variable {ι : Type} [DecidableEq ι] {place : ι ↪ Endpoint} {room : Room ι} {i : ι}

/-- The room has begun fewer than half of all generations. -/
def Young (room : Room ι) (e : Event ι) : Prop := (room.step e).server.race.toNat < 2 ^ 31

instance Young.decidable (room : Room ι) (e : Event ι) : Decidable (Young room e) :=
  inferInstanceAs (Decidable (_ < _))

theorem reach_young (reach : (system place).Reach Young room) : room.server.race.toNat < 2 ^ 31 := by
  refine reach.invariant (P := fun room => room.server.race.toNat < 2 ^ 31) (fun room init => ?_)
    fun room e _ _ young _ => young
  obtain ⟨c, session, now, created⟩ := init.1
  obtain ⟨_, _, _, _, _, same⟩ := Server.create_some created
  rw [same]
  exact (by decide : (1 : UInt32).toNat < 2 ^ 31)

theorem young_receipts (reach : (system place).Reach Young room) : Server.Receipts room.server := by
  refine reach.invariant (P := fun room => Server.Receipts room.server) (fun room init => .create init.1)
    fun room e previous _ _ receipts => ?_
  cases e with
  | server e => exact receipts.step (reach_ledger previous) (reach_young previous) e
  | client j e => exact receipts

/-- The client has numbered, and the room has begun, fewer than half of all numbers. -/
def Counted (i : ι) (room : Room ι) (e : Event ι) : Prop :=
  (room.step e).server.race.toNat < 2 ^ 31 ∧ ((room.step e).client i).issued.length < 2 ^ 31

instance Counted.decidable (i : ι) (room : Room ι) (e : Event ι) : Decidable (Counted i room e) :=
  inferInstanceAs (Decidable (_ ∧ _))

theorem counted_young (reach : (system place).Reach (Counted i) room) : (system place).Reach Young room :=
  reach.mono fun _ _ counted => counted.1

theorem reach_counted (reach : (system place).Reach (Counted i) room) :
    room.server.race.toNat < 2 ^ 31 ∧ (room.client i).issued.length < 2 ^ 31 := by
  refine ⟨reach_young (counted_young reach), ?_⟩
  refine reach.invariant (P := fun room => (room.client i).issued.length < 2 ^ 31) (fun room init => ?_)
    fun room e _ _ counted _ => counted.2
  obtain ⟨config, fresh⟩ := init.2.1 i
  rw [fresh]
  exact (by decide : 0 < 2 ^ 31)

theorem reach_receipts (reach : (system place).Reach (Counted i) room) : Server.Receipts room.server :=
  young_receipts (counted_young reach)

/-- A client is in step with the server from the moment it has a place. -/
theorem reach_inStep (reach : (system place).Reach (Counted i) room) :
    Outside room.server (room.client i) (place i) ∨ InStep room.server (room.client i) (place i) := by
  refine reach_pair (P := fun s c => Outside s c (place i) ∨ InStep s c (place i)) reach (fun s c init start => ?_)
    (fun room e previous may counted joint => ?_) fun room e previous may counted joint => ?_
  · obtain ⟨config, rfl⟩ := start
    obtain ⟨_, session, now, created⟩ := init
    obtain ⟨_, _, _, _, _, rfl⟩ := Server.create_some created
    exact .inl ⟨⟨rfl, rfl, rfl, fun _ member => nomatch member⟩, rfl, fun _ drawn => nomatch drawn⟩
  · have receipts := reach_receipts previous
    have ledger := reach_ledger previous
    obtain ⟨low, few⟩ := reach_counted previous
    have honest : ∀ d, e = .packet d → d.address = place i → d.data ∈ (room.client i).sent := by
      rintro d rfl own
      exact enabled_sent may own
    rcases joint with outside | inStep
    · exact .inl (outside.server receipts ledger (enabled_undrawn may) honest)
    · exact .inr (inStep.server receipts ledger low few (enabled_undrawn may) honest)
  · have receipts := reach_receipts previous
    have ledger := reach_ledger previous
    obtain ⟨low, few⟩ := reach_counted previous
    have after := counted.2
    rw [step_client_self] at after
    have unborn (attach : attaches e = true) := reach_unborn previous (enabled_attach may attach)
    generalize room.client i = c at *
    cases c.step_turn e with
    | path path _ _ => exact joint.imp (·.path path) (·.path path after)
    | join t data p isHear decoded admits same =>
      subst isHear
      have answered : room.server.Answered p := ⟨.inl admits.welcome, _, may, decoded⟩
      have drawn := (ledger.answers _ may p decoded (.inl admits.welcome)).2
      rcases joint with outside | inStep
      · rw [same]
        exact .inr (outside.join receipts t _ answered drawn)
      · exact nomatch (inStep.left admits.waiting).symm.trans admits.opened
    | accept t data p v isHear decoded accepts same =>
      subst isHear
      have kind := Client.readPicture_kind accepts.read
      rcases joint with outside | inStep
      · exact absurd outside.silent.waits accepts.joined
      · rw [same] at after ⊢
        exact .inr (inStep.accept receipts low few t accepts ⟨.inr kind, _, may, decoded⟩ after)
    | attach random now same =>
      subst same
      rcases joint with outside | inStep
      · exact .inl (outside.attach random now)
      · exact absurd (unborn rfl).token (receipts.drawn _ inStep.drawn)
    | detach same =>
      subst same
      exact joint.imp (·.detach) (·.detach after)

/-- What the server has taken from a client in a generation is the beginning of
what the client has numbered in it, in this order, and no number is given out
twice. In the generation of the room the first waiting command is the last one
taken or the next one, so it is never refused as a gap. -/
theorem commands_in_order (reach : (system place).Reach (Counted i) room) :
    (∀ r, (room.server.consumedIn (room.client i).token r).map Consumed.issued <+: (room.client i).issuedIn r) ∧
    (room.client i).issued.Pairwise Client.Earlier ∧
    ((room.client i).race = room.server.race → ∀ k ∈ room.server.holders (room.client i).token,
      ∀ q, (room.client i).pending.head? = some q →
        (q.packet.seq = (room.server.players k).commandSeq ∨
          q.packet.seq = (room.server.players k).commandSeq + 1) ∧
        (newer q.packet.seq (room.server.players k).commandSeq = true →
          q.packet.seq = (room.server.players k).commandSeq + 1)) := by
  rcases reach_inStep reach with outside | inStep
  · refine ⟨fun r => ?_, ?_, fun _ k _ q first => ?_⟩
    · have none : room.server.consumedIn (room.client i).token r = [] := by
        refine List.filter_eq_nil_iff.mpr fun x member same => ?_
        obtain ⟨a, drawn⟩ := (reach_receipts reach).consumed x member
        have zero := (reach_receipts reach).drawn _ drawn
        simp only [Bool.and_eq_true, beq_iff_eq, outside.token] at same
        exact zero same.1
      rw [none]
      exact List.nil_prefix
    · rw [outside.silent.issued]
      exact .nil
    · rw [outside.silent.pending] at first
      exact nomatch first
  · refine ⟨inStep.taken, inStep.account.sorted, fun current k holds q first => ?_⟩
    have joined : (room.client i).id ≠ none := by
      intro none
      rw [(Client.reachable_lined (reach_client reach i)).vacant none] at first
      exact nomatch first
    obtain ⟨few, _, _, bounds⟩ := inStep.slot k holds
    obtain ⟨least, most⟩ := bounds current joined
    rw [List.head?_eq_getElem?] at first
    obtain ⟨inside, x, member, same, number⟩ := inStep.account.nth first
    have seq : q.packet.seq = x.seq := congrArg Packet.seq same
    have low := (reach_counted reach).2
    have near : q.packet.seq = (room.server.players k).commandSeq ∨
        q.packet.seq = (room.server.players k).commandSeq + 1 := by
      rcases Nat.lt_or_ge (room.server.players k).commandSeq.toNat x.seq.toNat with ahead | taken
      · refine .inr (seq.trans (UInt32.toNat.inj ?_))
        rw [toNat_add_one (by omega)]
        omega
      · refine .inl (seq.trans (UInt32.toNat.inj ?_))
        omega
    refine ⟨near, fun news => near.resolve_left fun same => ?_⟩
    rw [same, newer_self] at news
    exact nomatch news

/-- The sample client when its first command has been taken and not been acknowledged. -/
def sampleSender : Room (Fin 1) := (sampleEvents.take 12).foldl step sampleLobby

theorem sampleSender_reach : (system samplePlace).Reach (Counted 0) sampleSender :=
  System.Reach.run (.start sampleLobby_init) (by decide +kernel)

theorem sampleSender_in_order :
    (sampleSender.server.consumedIn 77 1).map Consumed.issued = [⟨1, 1, [1, 0]⟩] ∧
    (sampleSender.server.consumedIn 77 1).map Consumed.issued <+: (sampleSender.client 0).issuedIn 1 ∧
    ∃ q, (sampleSender.client 0).pending.head? = some q ∧
      (newer q.packet.seq (sampleSender.server.players 0).commandSeq = true →
        q.packet.seq = (sampleSender.server.players 0).commandSeq + 1) := by
  obtain ⟨taken, _, first⟩ := commands_in_order sampleSender_reach
  have token : (sampleSender.client 0).token = 77 := by decide +kernel
  obtain ⟨q, waits⟩ : ∃ q, (sampleSender.client 0).pending.head? = some q :=
    Option.isSome_iff_exists.mp (by decide +kernel)
  exact ⟨by decide +kernel, token ▸ taken 1, q, waits, (first (by decide +kernel) 0 (by decide +kernel) q waits).2⟩

end Room

end FzeroVs
