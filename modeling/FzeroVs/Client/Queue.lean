import FzeroVs.Client.Moves

namespace FzeroVs.Client

/-- The waiting commands are at most eight, numbered without a gap up to the
last number given out. -/
structure Lined (c : Client) : Prop where
  short : c.pending.length ≤ 8
  vacant : c.id = none → c.pending = []
  numbered : ∀ (j : Nat) (p : Pending), c.pending[j]? = some p →
    p.packet.seq + UInt32.ofNat (c.pending.length - (j + 1)) = c.commandSeq

theorem Lined.of_packets {c d : Client} (lined : Lined c)
    (packets : d.pending.map Pending.packet = c.pending.map Pending.packet) (id : d.id = c.id)
    (seq : d.commandSeq = c.commandSeq) : Lined d := by
  have length : d.pending.length = c.pending.length := by
    simpa using congrArg List.length packets
  refine ⟨by rw [length]; exact lined.short, fun vacant => ?_, fun j p atJ => ?_⟩
  · rw [lined.vacant (id ▸ vacant)] at length
    exact List.eq_nil_of_length_eq_zero length
  · have same := congrArg (fun l => l[j]?) packets
    simp only [List.getElem?_map, atJ, Option.map_some] at same
    obtain ⟨q, atQ, packet⟩ := Option.map_eq_some_iff.mp same.symm
    rw [length, seq, ← packet]
    exact lined.numbered j q atQ

theorem Lined.of_empty {c : Client} (empty : c.pending = []) : Lined c := by
  refine ⟨by simp [empty], fun _ => empty, fun j p atJ => ?_⟩
  simp [empty] at atJ

theorem Lined.drop {c d : Client} (lined : Lined c) (n : Nat) (pending : d.pending = c.pending.drop n)
    (id : d.id = c.id) (seq : d.commandSeq = c.commandSeq) : Lined d := by
  refine ⟨?_, fun vacant => ?_, fun j p atJ => ?_⟩
  · rw [pending, List.length_drop]
    have := lined.short
    omega
  · rw [pending, lined.vacant (id ▸ vacant), List.drop_nil]
  · rw [pending, List.getElem?_drop] at atJ
    have before := lined.numbered (n + j) p atJ
    rw [pending, List.length_drop, seq, ← before, Nat.sub_sub, Nat.add_assoc]

theorem queue_cases (c : Client) (command : List UInt8) : c.queue command = c ∨
    (c.id ≠ none ∧ c.pending.length < 8 ∧ command.length ≤ maxPacket - headerSize ∧
      c.queue command =
        { c.issue command with
          pending := c.pending ++ [{ packet := commandPacket (c.commandSeq + 1) command }] }) := by
  unfold queue
  split
  · exact .inl rfl
  next room =>
    simp only [not_or, not_le, not_lt] at room
    exact .inr ⟨room.1, room.2.1, room.2.2, rfl⟩

theorem send_keeps {α : Type} (g : Client → α)
    (keeps : ∀ (c : Client) (sent : List (List UInt8)), g { c with sent := sent } = g c)
    (c : Client) (packet : Packet) : g (c.send packet) = g c := by
  unfold send
  split
  · exact keeps c _
  · rfl

/-- The queue, the clock of the connection and the history are all that
`serve` touches. -/
theorem serve_keeps {α : Type} (g : Client → α)
    (keeps : ∀ (c : Client) (seq : UInt32) (retries hello ping : UInt64) (pending : List Pending)
      (requests sent : List (List UInt8)) (issued : List Issued),
      g { c with
        commandSeq := seq, retries := retries, lastHello := hello, lastPing := ping, pending := pending,
        requests := requests, sent := sent, issued := issued } = g c)
    (c : Client) (t : UInt64) : g (c.serve t) = g c := by
  have marked (d : Client) (retries hello ping : UInt64) (pending : List Pending) (requests : List (List UInt8)) :
      g { d with
        retries := retries, lastHello := hello, lastPing := ping, pending := pending, requests := requests } = g d :=
    keeps d d.commandSeq retries hello ping pending requests d.sent d.issued
  have said (d : Client) (packet : Packet) : g (d.send packet) = g d := by
    refine send_keeps g (fun e sent => ?_) d packet
    exact keeps e e.commandSeq e.retries e.lastHello e.lastPing e.pending e.requests sent e.issued
  have greeted (packet : Packet) : g { c.send packet with lastHello := t } = g c :=
    (marked (c.send packet) _ t _ _ _).trans (said c packet)
  have pinged (d : Client) (packet : Packet) : g { d.send packet with lastPing := t } = g d :=
    (marked (d.send packet) _ _ t _ _).trans (said d packet)
  have resent (d : Client) (packet : Packet) (pending : List Pending) :
      g { d.send packet with pending := pending } = g d :=
    (marked (d.send packet) _ _ _ pending _).trans (said d packet)
  have taken : g c.takeRequests = g c := by
    refine takeRequests_invariant (P := fun d => g d = g c) (marked c _ _ _ _ []) fun d command same => ?_
    rcases d.queue_cases command with still | ⟨_, _, _, queued⟩
    · rw [still]
      exact same
    · rw [queued]
      exact (keeps d _ d.retries d.lastHello d.lastPing _ d.requests d.sent _).trans same
  have retransmitted (d : Client) : g (d.retransmit t) = g d := by
    unfold retransmit
    split
    · rfl
    split
    · refine (resent _ _ _).trans ?_
      split
      · exact marked d _ _ _ _ _
      · rfl
    · rfl
  unfold serve
  split
  · unfold hello
    split
    · exact greeted _
    · rfl
  · refine Eq.trans ?_ ((retransmitted _).trans taken)
    unfold ping
    split
    · exact pinged _ _
    · rfl

theorem Lined.queue {c : Client} (lined : Lined c) (command : List UInt8) : Lined (c.queue command) := by
  rcases c.queue_cases command with same | ⟨joined, room, _, same⟩
  · rw [same]
    exact lined
  · rw [same]
    refine ⟨?_, fun vacant => absurd vacant joined, fun j p atJ => ?_⟩
    · simp only [List.length_append, List.length_singleton]
      omega
    · change (c.pending ++ _)[j]? = some p at atJ
      change p.packet.seq + UInt32.ofNat ((c.pending ++ _).length - (j + 1)) = c.commandSeq + 1
      rw [List.length_append, List.length_singleton]
      rcases Nat.lt_or_ge j c.pending.length with old | new
      · rw [List.getElem?_append_left old] at atJ
        have shift : c.pending.length + 1 - (j + 1) = c.pending.length - (j + 1) + 1 := by omega
        rw [shift, UInt32.ofNat_add, ← UInt32.add_assoc, lined.numbered j p atJ]
        rfl
      · rw [List.getElem?_append_right new, List.getElem?_singleton] at atJ
        split at atJ
        next last =>
          cases atJ
          have here : c.pending.length + 1 - (j + 1) = 0 := by omega
          rw [here]
          exact UInt32.add_zero _
        next => exact nomatch atJ

theorem send_pending (c : Client) (packet : Packet) : (c.send packet).pending = c.pending ∧
    (c.send packet).id = c.id ∧ (c.send packet).commandSeq = c.commandSeq := by
  unfold send
  split <;> exact ⟨rfl, rfl, rfl⟩

theorem Lined.move {c d : Client} (lined : Lined c) (move : Move c d) : Lined d := by
  cases move with
  | idle idle => exact lined.of_packets idle.pending idle.id idle.commandSeq
  | @retransmit p rest t waiting =>
    obtain ⟨_, id, seq⟩ := c.send_pending p.packet
    refine lined.of_packets ?_ id seq
    rw [waiting]
    rfl
  | queue command => exact lined.queue command
  | select waiting unsent joined lobby => exact (lined.queue _).of_packets rfl rfl rfl
  | load ram location playing unsent loading => exact (lined.queue _).of_packets rfl rfl rfl
  | finish racing playing unsent => exact (lined.queue _).of_packets rfl rfl rfl
  | arm counting unarmed => exact (lined.queue _).of_packets rfl rfl rfl
  | play before after baseline seated => exact lined.of_packets rfl rfl rfl
  | fail => exact lined.of_packets rfl rfl rfl

theorem settle_same {c : Client} (t : UInt64) {p : Packet} (v : Picture) (same : p.race = c.race) :
    (c.settle t p v).pending = c.pending.dropWhile (covered p.ack) ∧
    (c.settle t p v).commandSeq = c.commandSeq := by
  simp [settle, newRace, same, display, bufferSnapshot]

theorem settle_other {c : Client} (t : UInt64) {p : Packet} (v : Picture) (other : p.race ≠ c.race) :
    (c.settle t p v).pending = [] ∧ (c.settle t p v).commandSeq = p.ack := by
  simp [settle, newRace, other, display, bufferSnapshot, resetGame]

theorem settle_id (c : Client) (t : UInt64) (p : Packet) (v : Picture) : (c.settle t p v).id = c.id := by
  simp only [settle, newRace, display, bufferSnapshot, resetGame]
  split <;> rfl

theorem Lined.accept {c : Client} (lined : Lined c) (t : UInt64) (p : Packet) (v : Picture) :
    Lined (c.accept t p v) := by
  have settled : Lined (c.settle t p v) := by
    by_cases same : p.race = c.race
    · obtain ⟨pending, seq⟩ := settle_same t v same
      rw [List.dropWhile_eq_drop_findIdx_not] at pending
      exact lined.drop _ pending (c.settle_id t p v) seq
    · exact .of_empty (settle_other t v same).1
  exact Path.keeps (c.settle t p v).arm_path (fun _ _ move lined => lined.move move) settled

theorem detach_pending (c : Client) : c.detach.pending = [] := rfl

theorem attach_pending (c : Client) (random : Option UInt64) (now : UInt64) :
    (c.attach random now).pending = [] := by
  unfold attach
  dsimp only
  split
  · split <;> rfl
  · rfl

theorem Lined.step {c : Client} (lined : Lined c) (e : Event) : Lined (c.step e) := by
  cases c.step_turn e with
  | path path _ _ => exact Path.keeps path (fun _ _ move lined => lined.move move) lined
  | join t data p isHear decoded admits same =>
    rw [same]
    exact .of_empty (lined.vacant admits.waiting)
  | accept t data p v isHear decoded accepts same =>
    rw [same]
    exact lined.accept t p v
  | attach random now same =>
    rw [same]
    exact .of_empty (c.attach_pending random now)
  | detach same =>
    rw [same]
    exact .of_empty c.detach_pending

theorem covered_iff {ack : UInt32} {q : Pending} :
    covered ack q = true ↔ (ack - q.packet.seq).toNat < 2 ^ 31 := by
  simp only [covered, newer, Bool.or_eq_true, beq_iff_eq, Bool.and_eq_true, bne_iff_ne,
    decide_eq_true_eq, UInt32.lt_iff_toNat_lt]
  constructor
  · rintro (same | ⟨_, near⟩)
    · rw [same, UInt32.sub_self]
      decide
    · exact near
  · intro near
    by_cases same : ack = q.packet.seq
    · exact .inl same
    · exact .inr ⟨same, near⟩

/-- The number of a waiting command counts from the first one. -/
theorem Lined.distance {c : Client} (lined : Lined c) {front q : Pending} {j : Nat}
    (first : c.pending[0]? = some front) (atJ : c.pending[j]? = some q) :
    (q.packet.seq - front.packet.seq).toNat = j := by
  have short := lined.short
  have bound : j < c.pending.length := (List.getElem?_eq_some_iff.mp atJ).1
  have atFront := lined.numbered 0 front first
  have atQ := lined.numbered j q atJ
  have split : c.pending.length - (0 + 1) = j + (c.pending.length - (j + 1)) := by omega
  rw [split, UInt32.ofNat_add, ← UInt32.add_assoc, ← atQ] at atFront
  have same : front.packet.seq + UInt32.ofNat j = q.packet.seq := (UInt32.add_left_inj _).mp atFront
  rw [← same, UInt32.add_comm, UInt32.add_sub_cancel, UInt32.toNat_ofNat_of_lt']
  rw [UInt32.size]
  omega

/-- The acknowledgement is not behind the first waiting command and `q` is not
ahead of it. -/
def acknowledged (c : Client) (ack : UInt32) (q : Pending) : Bool :=
  match c.pending with
  | [] => false
  | front :: _ => covered ack front && decide (q.packet.seq - front.packet.seq ≤ ack - front.packet.seq)

theorem dropWhile_eq_filter {α : Type} {p : α → Bool} {l : List α}
    (sorted : l.Pairwise fun a b => p b = true → p a = true) :
    l.dropWhile p = l.filter fun a => !p a := by
  induction l with
  | nil => rfl
  | cons a rest ih =>
    obtain ⟨first, others⟩ := List.pairwise_cons.mp sorted
    by_cases holds : p a = true
    · rw [List.dropWhile_cons_of_pos holds, ih others, List.filter_cons_of_neg (by simp [holds])]
    · have none : ∀ b ∈ rest, (!p b) = true := by
        intro b present
        simpa using fun later => holds (first b present later)
      rw [List.dropWhile_cons_of_neg holds, List.filter_cons_of_pos (by simpa using holds),
        List.filter_eq_self.mpr none]

/-- Exactly the acknowledged commands leave the queue, although the loop looks
at its front only. -/
theorem Lined.dropWhile_covered {c : Client} (lined : Lined c) (ack : UInt32) :
    c.pending.dropWhile (covered ack) = c.pending.filter fun q => !c.acknowledged ack q := by
  cases waiting : c.pending with
  | nil => rfl
  | cons front rest =>
    have first : c.pending[0]? = some front := by rw [waiting]; rfl
    by_cases reached : covered ack front = true
    · have near := covered_iff.mp reached
      have upTo {q : Pending} {j : Nat} (atJ : c.pending[j]? = some q) :
          covered ack q = true ↔ j ≤ (ack - front.packet.seq).toNat := by
        have distance := lined.distance first atJ
        have bound : j < c.pending.length := (List.getElem?_eq_some_iff.mp atJ).1
        have short := lined.short
        have split : ack - q.packet.seq =
            ack - front.packet.seq - (q.packet.seq - front.packet.seq) := by grind
        rw [covered_iff, split, UInt32.toNat_sub, distance]
        omega
      rw [← waiting, dropWhile_eq_filter]
      · refine List.filter_congr fun q present => congrArg _ ?_
        obtain ⟨j, atJ⟩ := List.mem_iff_getElem?.mp present
        rw [Bool.eq_iff_iff, upTo atJ]
        simp [acknowledged, waiting, reached, UInt32.le_iff_toNat_le, lined.distance first atJ]
      · refine List.pairwise_iff_getElem.mpr fun i j atI atJ earlier later => ?_
        rw [upTo (List.getElem?_eq_getElem _)] at later ⊢
        omega
    · rw [List.dropWhile_cons_of_neg reached]
      refine (List.filter_eq_self.mpr fun q _ => ?_).symm
      simp [acknowledged, waiting, reached]

/-- Below the half-way mark the acknowledged commands are those whose number
is not above the acknowledgement. -/
theorem Lined.dropWhile_low {c : Client} (lined : Lined c) {ack : UInt32} (lowAck : ack.toNat < 2 ^ 31)
    (low : ∀ q ∈ c.pending, q.packet.seq.toNat < 2 ^ 31) :
    c.pending.dropWhile (covered ack) =
      c.pending.filter fun q => decide (ack.toNat < q.packet.seq.toNat) := by
  have upTo {q : Pending} (present : q ∈ c.pending) :
      covered ack q = true ↔ q.packet.seq.toNat ≤ ack.toNat := by
    have lowQ := low q present
    rw [covered_iff, UInt32.toNat_sub]
    omega
  have ascending {i j : Nat} {p q : Pending} (atI : c.pending[i]? = some p) (atJ : c.pending[j]? = some q)
      (earlier : i < j) : p.packet.seq.toNat < q.packet.seq.toNat := by
    have bound : j < c.pending.length := (List.getElem?_eq_some_iff.mp atJ).1
    have short := lined.short
    obtain ⟨front, first⟩ : ∃ front, c.pending[0]? = some front :=
      ⟨_, List.getElem?_eq_getElem (by omega)⟩
    have toP := lined.distance first atI
    have toQ := lined.distance first atJ
    have lowFront := low front (List.mem_of_getElem? first)
    have lowP := low p (List.mem_of_getElem? atI)
    have lowQ := low q (List.mem_of_getElem? atJ)
    rw [UInt32.toNat_sub] at toP toQ
    omega
  rw [dropWhile_eq_filter]
  · refine List.filter_congr fun q present => ?_
    rw [Bool.eq_iff_iff, Bool.not_eq_true', ← Bool.not_eq_true, upTo present, decide_eq_true_eq, not_le]
  · refine List.pairwise_iff_getElem.mpr fun i j atI atJ earlier later => ?_
    have less := ascending (List.getElem?_eq_getElem atI) (List.getElem?_eq_getElem atJ) earlier
    rw [upTo (List.getElem_mem _)] at later ⊢
    omega

/-- The client against an arbitrary network, user and game. -/
def system : System Client Event where
  init c := ∃ config, c = { config := config }
  enabled _ _ := True
  step := Client.step

theorem reachable_lined {c : Client} (reach : system.Reachable c) : Lined c := by
  refine reach.invariant ?_ fun _ e _ _ _ lined => lined.step e
  rintro c ⟨config, rfl⟩
  exact .of_empty rfl

end FzeroVs.Client
