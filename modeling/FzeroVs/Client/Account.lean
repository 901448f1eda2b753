import FzeroVs.Client.Accept

namespace FzeroVs

def Issued.packet (x : Issued) : Packet := Client.commandPacket x.seq x.payload

namespace Client

/-- The commands numbered in generation `r`. -/
def issuedIn (c : Client) (r : UInt32) : List Issued := c.issued.filter fun x => x.race == r

theorem mem_issuedIn {c : Client} {r : UInt32} {x : Issued} :
    x ∈ c.issuedIn r ↔ x ∈ c.issued ∧ x.race = r := by
  simp [issuedIn]

/-- The first command was given out before the second. -/
def Earlier (x y : Issued) : Prop :=
  x.race.toNat < y.race.toNat ∨ (x.race = y.race ∧ x.seq.toNat < y.seq.toNat)

/-- The commands of the current generation are numbered without a gap up to
the last number given out, and no number has been used up. -/
structure Numbered (c : Client) : Prop where
  numbered : ∀ (j : Nat) (x : Issued), (c.issuedIn c.race)[j]? = some x →
    x.seq.toNat + ((c.issuedIn c.race).length - (j + 1)) = c.commandSeq.toNat
  base : (c.issuedIn c.race).length ≤ c.commandSeq.toNat
  past : ∀ x ∈ c.issued, x.race.toNat ≤ c.race.toNat
  sorted : c.issued.Pairwise Earlier
  few : c.commandSeq.toNat ≤ c.issued.length
  below : ∀ x ∈ c.issued, x.seq.toNat ≤ c.issued.length
  fits : ∀ x ∈ c.issued, x.payload.length ≤ maxPacket - headerSize

/-- The newest commands wait, and only those that do not wait any more and the
first of those that do have been sent. -/
structure Account (c : Client) : Prop extends Numbered c where
  waiting : c.pending.map Pending.packet <:+ (c.issuedIn c.race).map Issued.packet
  sent : ∀ data ∈ c.sent, ∀ p, decode data = some p → p.is .command = true →
    p.token = c.token ∧ (⟨p.race, p.seq, p.body⟩ : Issued) ∈ c.issued ∧
    (c.id ≠ none → p.race = c.race → p.seq.toNat ≤ c.commandSeq.toNat - c.pending.length + 1)

/-- No commands but the old ones have been sent. -/
def SaysLess (c d : Client) : Prop :=
  ∀ data ∈ d.sent, data ∈ c.sent ∨ ∀ p, decode data = some p → p.is .command = false

theorem SaysLess.of_eq {c d : Client} (same : d.sent = c.sent) : SaysLess c d :=
  fun _ member => .inl (same ▸ member)

theorem Numbered.congr {c d : Client} (numbers : Numbered c) (race : d.race = c.race)
    (seq : d.commandSeq = c.commandSeq) (issued : d.issued = c.issued) : Numbered d := by
  have within : d.issuedIn d.race = c.issuedIn c.race := by rw [issuedIn, issued, race]; rfl
  refine ⟨?_, ?_, ?_, ?_, ?_, ?_, ?_⟩
  · rw [within, seq]
    exact numbers.numbered
  · rw [within, seq]
    exact numbers.base
  · rw [issued, race]
    exact numbers.past
  · rw [issued]
    exact numbers.sorted
  · rw [issued, seq]
    exact numbers.few
  · rw [issued]
    exact numbers.below
  · rw [issued]
    exact numbers.fits

theorem Numbered.le_seq {c : Client} (numbers : Numbered c) {x : Issued} (member : x ∈ c.issued)
    (current : x.race = c.race) : x.seq.toNat ≤ c.commandSeq.toNat := by
  obtain ⟨j, atJ⟩ := List.mem_iff_getElem?.mp (mem_issuedIn.mpr ⟨member, current⟩)
  have := numbers.numbered j x atJ
  omega

theorem Numbered.issue {c : Client} (numbers : Numbered c) (low : c.issued.length < 2 ^ 31)
    {command : List UInt8} (fits : command.length ≤ maxPacket - headerSize) : Numbered (c.issue command) := by
  have next : (c.commandSeq + 1).toNat = c.commandSeq.toNat + 1 :=
    toNat_add_one (by have := numbers.few; omega)
  have within : (c.issue command).issuedIn (c.issue command).race =
      c.issuedIn c.race ++ [⟨c.race, c.commandSeq + 1, command⟩] := by
    simp [issuedIn, Client.issue, List.filter_append]
  have few := numbers.few
  refine ⟨fun j x atJ => ?_, ?_, fun x member => ?_, ?_, ?_, fun x member => ?_, fun x member => ?_⟩
  · change _ = (c.commandSeq + 1).toNat
    rw [within] at atJ ⊢
    rw [next, List.length_append, List.length_singleton]
    rcases Nat.lt_or_ge j (c.issuedIn c.race).length with old | new
    · rw [List.getElem?_append_left old] at atJ
      have before := numbers.numbered j x atJ
      omega
    · rw [List.getElem?_append_right new, List.getElem?_singleton] at atJ
      split at atJ
      next last =>
        cases atJ
        rw [next]
        omega
      next => exact nomatch atJ
  · change _ ≤ (c.commandSeq + 1).toNat
    rw [within, next, List.length_append, List.length_singleton]
    exact Nat.add_le_add_right numbers.base 1
  · rcases List.mem_append.mp member with old | new
    · exact numbers.past x old
    · rw [List.mem_singleton.mp new]
      exact Nat.le_refl _
  · refine List.pairwise_append.mpr ⟨numbers.sorted, List.pairwise_singleton _ _, fun x old y new => ?_⟩
    rw [List.mem_singleton.mp new]
    rcases Nat.lt_or_ge x.race.toNat c.race.toNat with less | more
    · exact .inl less
    · have current : x.race = c.race := UInt32.toNat.inj (Nat.le_antisymm (numbers.past x old) more)
      have bound := numbers.le_seq old current
      exact .inr ⟨current, by rw [next]; omega⟩
  · change (c.commandSeq + 1).toNat ≤ (c.issued ++ _).length
    rw [next, List.length_append, List.length_singleton]
    omega
  · change x.seq.toNat ≤ (c.issued ++ _).length
    rw [List.length_append, List.length_singleton]
    rcases List.mem_append.mp member with old | new
    · exact (numbers.below x old).trans (Nat.le_succ _)
    · rw [List.mem_singleton.mp new, next]
      omega
  · rcases List.mem_append.mp member with old | new
    · exact numbers.fits x old
    · rw [List.mem_singleton.mp new]
      exact fits

namespace Account
variable {c d : Client}

theorem congr (account : Account c) (race : d.race = c.race) (seq : d.commandSeq = c.commandSeq)
    (pending : d.pending.map Pending.packet = c.pending.map Pending.packet) (issued : d.issued = c.issued)
    (token : d.token = c.token) (id : d.id = c.id) (less : SaysLess c d) : Account d := by
  have length : d.pending.length = c.pending.length := by simpa using congrArg List.length pending
  refine ⟨account.toNumbered.congr race seq issued, ?_, fun data member p decoded command => ?_⟩
  · rw [pending, issuedIn, issued, race]
    exact account.waiting
  · rw [issued, race, seq, length, token, id]
    rcases less data member with old | other
    · exact account.sent data old p decoded command
    · exact nomatch (other p decoded).symm.trans command

/-- A client that has left keeps its history. -/
theorem gone (account : Account c) (race : d.race = c.race) (seq : d.commandSeq = c.commandSeq)
    (pending : d.pending = []) (issued : d.issued = c.issued) (token : d.token = c.token) (id : d.id = none)
    (less : SaysLess c d) : Account d := by
  refine ⟨account.toNumbered.congr race seq issued, ?_, fun data member p decoded command => ?_⟩
  · rw [pending]
    exact List.nil_suffix
  · rw [issued, token]
    rcases less data member with old | other
    · obtain ⟨own, known, _⟩ := account.sent data old p decoded command
      exact ⟨own, known, fun joined => absurd id joined⟩
    · exact nomatch (other p decoded).symm.trans command

/-- The waiting commands follow the last one that does not wait. -/
theorem nth (account : Account c) {j : Nat} {q : Pending} (atJ : c.pending[j]? = some q) :
    c.pending.length ≤ c.commandSeq.toNat ∧ ∃ x ∈ c.issuedIn c.race, q.packet = x.packet ∧
      x.seq.toNat = c.commandSeq.toNat - c.pending.length + (j + 1) := by
  obtain ⟨before, split⟩ := account.waiting
  have length := congrArg List.length split
  rw [List.length_append, List.length_map, List.length_map] at length
  have bound : j < c.pending.length := (List.getElem?_eq_some_iff.mp atJ).1
  have base := account.base
  have inside := congrArg (fun l => l[before.length + j]?) split
  simp only [List.getElem?_append_right (Nat.le_add_right _ _), Nat.add_sub_cancel_left, List.getElem?_map,
    atJ, Option.map_some] at inside
  obtain ⟨x, atX, same⟩ := Option.map_eq_some_iff.mp inside.symm
  have seq := account.numbered (before.length + j) x atX
  exact ⟨by omega, x, List.mem_of_getElem? atX, same.symm, by omega⟩

/-- Putting a command on the queue. -/
theorem enqueue (account : Account c) (low : c.issued.length < 2 ^ 31) {command : List UInt8}
    (fits : command.length ≤ maxPacket - headerSize) :
    Account { c.issue command with
      pending := c.pending ++ [{ packet := commandPacket (c.commandSeq + 1) command }] } := by
  have next : (c.commandSeq + 1).toNat = c.commandSeq.toNat + 1 :=
    toNat_add_one (by have := account.few; omega)
  refine ⟨(account.toNumbered.issue low fits).congr rfl rfl rfl, ?_, fun data member p decoded command => ?_⟩
  · change (c.pending ++ _).map _ <:+ ((c.issued ++ _).filter _).map _
    rw [List.map_append, List.filter_append, List.map_append]
    obtain ⟨before, split⟩ := account.waiting
    refine ⟨before, ?_⟩
    rw [← List.append_assoc, split]
    simp [issuedIn, Issued.packet, Client.issue]
  · obtain ⟨own, known, bound⟩ := account.sent data member p decoded command
    refine ⟨own, List.mem_append_left _ known, fun joined current => ?_⟩
    have before := bound joined current
    change p.seq.toNat ≤ (c.commandSeq + 1).toNat - (c.pending ++ _).length + 1
    rw [next, List.length_append, List.length_singleton]
    omega

theorem queue (account : Account c) (low : c.issued.length < 2 ^ 31) (command : List UInt8) :
    Account (c.queue command) := by
  rcases c.queue_cases command with same | ⟨_, _, fits, same⟩
  · rw [same]
    exact account
  · rw [same]
    exact account.enqueue low fits

/-- Sending a command of the current generation that may be sent. -/
theorem send (account : Account c) {x : Issued} (member : x ∈ c.issuedIn c.race)
    (due : x.seq.toNat ≤ c.commandSeq.toNat - c.pending.length + 1) : Account (c.send x.packet) := by
  obtain ⟨known, current⟩ := mem_issuedIn.mp member
  have fits := account.fits x known
  have framed : (c.stamped x.packet).Framed := by
    refine ⟨⟨.command, rfl⟩, ?_, fits⟩
    have limits : maxPacket = 256 ∧ headerSize = 36 := ⟨rfl, rfl⟩
    change (UInt16.ofNat x.payload.length).toNat = x.payload.length
    rw [UInt16.toNat_ofNat_of_lt']
    rw [UInt16.size]
    omega
  unfold Client.send
  split
  · refine ⟨account.toNumbered.congr rfl rfl rfl, account.waiting, fun data present p decoded command => ?_⟩
    rcases List.mem_append.mp present with old | new
    · exact account.sent data old p decoded command
    · rw [List.mem_singleton.mp new, decode_encode framed] at decoded
      cases decoded
      refine ⟨rfl, ?_, fun _ _ => due⟩
      rw [framed.body_eq]
      change (⟨c.race, x.seq, x.payload⟩ : Issued) ∈ c.issued
      rw [← current]
      exact known
  · exact account

theorem move (account : Account c) (low : c.issued.length < 2 ^ 31) (move : Move c d) : Account d := by
  have queued (command : List UInt8) := account.queue low command
  cases move with
  | idle idle =>
    exact account.congr idle.race idle.commandSeq idle.pending idle.issued idle.token idle.id idle.sent
  | @retransmit first rest t waits =>
    obtain ⟨_, x, member, same, seq⟩ := account.nth (by rw [waits]; rfl : c.pending[0]? = some first)
    rw [same]
    obtain ⟨pending, _, _⟩ := c.send_pending x.packet
    refine (account.send member seq.le).congr rfl rfl ?_ rfl rfl rfl (.of_eq rfl)
    rw [pending, waits, List.map_cons, List.map_cons, same]
  | queue command => exact queued command
  | select waiting unsent joined lobby => exact (queued _).congr rfl rfl rfl rfl rfl rfl (.of_eq rfl)
  | load ram location playing unsent loading => exact (queued _).congr rfl rfl rfl rfl rfl rfl (.of_eq rfl)
  | finish racing playing unsent => exact (queued _).congr rfl rfl rfl rfl rfl rfl (.of_eq rfl)
  | arm counting unarmed => exact (queued _).congr rfl rfl rfl rfl rfl rfl (.of_eq rfl)
  | play before after baseline seated => exact account.congr rfl rfl rfl rfl rfl rfl (.of_eq rfl)
  | fail => exact account.congr rfl rfl rfl rfl rfl rfl (.of_eq rfl)

end Account

/-- Commands have only been added, all in the current generation. -/
structure Grows (c d : Client) (more : List Issued) : Prop where
  issued : d.issued = c.issued ++ more
  current : ∀ x ∈ more, x.race = c.race
  seq : d.commandSeq = c.commandSeq + UInt32.ofNat more.length
  pending : d.pending.length = c.pending.length + more.length

theorem Grows.of_eq {c d : Client} (issued : d.issued = c.issued) (seq : d.commandSeq = c.commandSeq)
    (pending : d.pending.length = c.pending.length) : Grows c d [] :=
  ⟨by rw [issued, List.append_nil], fun _ member => (nomatch member), by rw [seq]; exact (UInt32.add_zero _).symm,
    pending⟩

theorem Grows.trans {c d e : Client} {l m : List Issued} (first : Grows c d l) (race : d.race = c.race)
    (second : Grows d e m) : Grows c e (l ++ m) where
  issued := by rw [second.issued, first.issued, List.append_assoc]
  current x member := by
    rcases List.mem_append.mp member with early | late
    · exact first.current x early
    · exact (second.current x late).trans race
  seq := by rw [second.seq, first.seq, UInt32.add_assoc, List.length_append, UInt32.ofNat_add]
  pending := by rw [second.pending, first.pending, List.length_append, Nat.add_assoc]

theorem queue_grows (c : Client) (command : List UInt8) : ∃ more, Grows c (c.queue command) more := by
  rcases c.queue_cases command with same | ⟨_, _, _, same⟩
  · rw [same]
    exact ⟨[], .of_eq rfl rfl rfl⟩
  · rw [same]
    exact ⟨[⟨c.race, c.commandSeq + 1, command⟩], rfl, fun x new => by rw [List.mem_singleton.mp new], rfl,
      List.length_append⟩

theorem Move.grows {c d : Client} (move : Move c d) : ∃ more, Grows c d more := by
  have queued (command : List UInt8) {d : Client} (issued : d.issued = (c.queue command).issued)
      (seq : d.commandSeq = (c.queue command).commandSeq)
      (pending : d.pending = (c.queue command).pending) : ∃ more, Grows c d more := by
    obtain ⟨more, grows⟩ := c.queue_grows command
    exact ⟨more, issued ▸ grows.issued, grows.current, seq ▸ grows.seq, pending ▸ grows.pending⟩
  cases move with
  | idle idle =>
    exact ⟨[], .of_eq idle.issued idle.commandSeq (by simpa using congrArg List.length idle.pending)⟩
  | @retransmit first rest t waits =>
    obtain ⟨_, _, seq⟩ := c.send_pending first.packet
    refine ⟨[], .of_eq ?_ seq (by rw [waits]; rfl)⟩
    change (c.send first.packet).issued = c.issued
    unfold send
    split <;> rfl
  | queue command => exact c.queue_grows command
  | select waiting unsent joined lobby => exact queued _ rfl rfl rfl
  | load ram location playing unsent loading => exact queued _ rfl rfl rfl
  | finish racing playing unsent => exact queued _ rfl rfl rfl
  | arm counting unarmed => exact queued _ rfl rfl rfl
  | play before after baseline seated => exact ⟨[], .of_eq rfl rfl rfl⟩
  | fail => exact ⟨[], .of_eq rfl rfl rfl⟩

theorem Path.grows {c d : Client} (path : Path c d) : ∃ more, Grows c d more := by
  induction path with
  | refl => exact ⟨[], .of_eq rfl rfl rfl⟩
  | tail path move ih =>
    obtain ⟨early, first⟩ := ih
    obtain ⟨late, second⟩ := move.grows
    exact ⟨_, first.trans (Path.kept path).race second⟩

theorem Account.path {c d : Client} (account : Account c) (path : Path c d)
    (low : d.issued.length < 2 ^ 31) : Account d := by
  induction path with
  | refl => exact account
  | tail path move ih =>
    obtain ⟨more, grows⟩ := move.grows
    rw [grows.issued, List.length_append] at low
    exact (ih (by omega)).move (by omega) move

/-- A client that has no place has numbered nothing and sent no command. -/
structure Silent (c : Client) : Prop where
  waits : c.id = none
  pending : c.pending = []
  issued : c.issued = []
  sent : ∀ data ∈ c.sent, ∀ p, decode data = some p → p.is .command = false

theorem Silent.account {c : Client} (silent : Silent c) (zero : c.commandSeq = 0) : Account c := by
  have none : c.issuedIn c.race = [] := by rw [issuedIn, silent.issued]; rfl
  refine ⟨⟨?_, ?_, ?_, ?_, ?_, ?_, ?_⟩, ?_, fun data member p decoded command => ?_⟩
  · rw [none]
    exact fun j x atJ => nomatch atJ
  · rw [none]
    exact Nat.zero_le _
  · rw [silent.issued]
    exact fun x member => nomatch member
  · rw [silent.issued]
    exact .nil
  · rw [zero]
    exact Nat.zero_le _
  · rw [silent.issued]
    exact fun x member => nomatch member
  · rw [silent.issued]
    exact fun x member => nomatch member
  · rw [silent.pending]
    exact List.nil_suffix
  · exact nomatch (silent.sent data member p decoded).symm.trans command

theorem Account.join {c : Client} (silent : Silent c) (t : UInt64) {p : Packet} (i : Fin 4)
    (unused : p.ack = 0) : Account (c.join t p i) := by
  have account : Account { c.join t p i with id := none } :=
    Silent.account ⟨rfl, silent.pending, silent.issued, silent.sent⟩ unused
  refine ⟨account.toNumbered.congr rfl rfl rfl, account.waiting, fun data member q decoded command => ?_⟩
  exact nomatch (silent.sent data member q decoded).symm.trans command

/-- A snapshot by itself numbers and sends nothing. -/
theorem settle_history (c : Client) (t : UInt64) (p : Packet) (v : Picture) :
    (c.settle t p v).issued = c.issued ∧ (c.settle t p v).sent = c.sent := by
  simp only [Client.settle, newRace, display, bufferSnapshot, resetGame]
  split <;> exact ⟨rfl, rfl⟩

theorem Account.settle {c : Client} (account : Account c) (t : UInt64) {p : Packet} (v : Picture)
    (onward : p.race ≠ c.race → c.race.toNat < p.race.toNat) (known : p.ack.toNat ≤ c.issued.length) :
    Account (c.settle t p v) := by
  have took := c.settle_took t p v
  have same := c.settle_history t p v
  by_cases current : p.race = c.race
  · obtain ⟨pending, seq⟩ := settle_same t v current
    have race : (c.settle t p v).race = c.race := took.race.trans current
    refine ⟨account.toNumbered.congr race seq same.1, ?_, fun data member q decoded command => ?_⟩
    · rw [pending, issuedIn, same.1, race]
      exact ((List.dropWhile_suffix _).map _).trans account.waiting
    · rw [same.2] at member
      obtain ⟨own, issued, bound⟩ := account.sent data member q decoded command
      rw [same.1, took.token, took.id, race, seq, pending]
      refine ⟨own, issued, fun joined now => (bound joined now).trans ?_⟩
      have shorter := (List.dropWhile_suffix (covered p.ack) (l := c.pending)).length_le
      omega
  · obtain ⟨pending, seq⟩ := settle_other t v current
    have later := onward current
    have before (x : Issued) (member : x ∈ c.issued) : x.race ≠ p.race := by
      intro clash
      have := account.past x member
      rw [clash] at this
      omega
    have none : c.issuedIn p.race = [] := by
      refine List.filter_eq_nil_iff.mpr fun x member => ?_
      simpa using before x member
    have within : (c.settle t p v).issuedIn (c.settle t p v).race = [] := by
      rw [issuedIn, same.1, took.race]
      exact none
    refine ⟨⟨?_, ?_, fun x member => ?_, ?_, ?_, ?_, ?_⟩, ?_, fun data member q decoded command => ?_⟩
    · rw [within]
      exact fun j x atJ => nomatch atJ
    · rw [within]
      exact Nat.zero_le _
    · rw [same.1] at member
      rw [took.race]
      exact (account.past x member).trans later.le
    · rw [same.1]
      exact account.sorted
    · rw [same.1, seq]
      exact known
    · rw [same.1]
      exact account.below
    · rw [same.1]
      exact account.fits
    · rw [pending]
      exact List.nil_suffix
    · rw [same.2] at member
      obtain ⟨own, issued, _⟩ := account.sent data member q decoded command
      rw [same.1, took.token, took.race]
      exact ⟨own, issued, fun _ now => absurd now (before _ issued)⟩

theorem Account.detach {c : Client} (account : Account c) (low : c.issued.length < 2 ^ 31) :
    Account c.detach := by
  unfold Client.detach
  dsimp only
  split
  next opened =>
    split
    next leaves =>
      have queued : Account _ := account.enqueue low (show maxPacket - headerSize ≥ [Command.leave.code].length by decide)
      rw [leaves.2, List.nil_append] at queued
      have positive : (c.commandSeq + 1).toNat = c.commandSeq.toNat + 1 :=
        toNat_add_one (by have := account.few; omega)
      have last : (⟨c.race, c.commandSeq + 1, [Command.leave.code]⟩ : Issued) ∈
          (c.issue [Command.leave.code]).issuedIn c.race :=
        mem_issuedIn.mpr ⟨List.mem_append_right _ (List.mem_singleton_self _), rfl⟩
      have said := queued.send last (by change (c.commandSeq + 1).toNat ≤ (c.commandSeq + 1).toNat - 1 + 1; omega)
      refine said.gone ?_ ?_ rfl ?_ ?_ rfl (.of_eq ?_) <;>
        simp [Client.send, Client.issue, opened, stamped, Issued.packet]
    · exact account.gone rfl rfl rfl rfl rfl rfl (.of_eq rfl)
  · exact account.gone rfl rfl rfl rfl rfl rfl (.of_eq rfl)

end Client

end FzeroVs
