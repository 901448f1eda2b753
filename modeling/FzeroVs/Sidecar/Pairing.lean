import FzeroVs.Sidecar.DebugClient

namespace FzeroVs.Sidecar.DebugClient

open Bridge

/-- The last line that a call has transmitted of its own command has this id. -/
def Last (s : DebugClient) (k id : Nat) : Prop := (s.transmitted k).getLast?.map Sent.id = some id

/-- What a call has transmitted when it is at a place. -/
def At (s : DebugClient) (k : Nat) : Place → Prop
  | .waiting => s.transmitted k = []
  | .connecting attempt => (s.transmitted k).length ≤ attempt ∧ attempt < (s.call k).attempts
  | .draining attempt id handshake | .reading attempt id handshake =>
    attempt < (s.call k).attempts ∧
      if handshake then (s.transmitted k).length ≤ attempt else (s.transmitted k).length ≤ attempt + 1 ∧ s.Last k id
  | .disconnecting attempt next =>
    (s.transmitted k).length ≤ attempt + 1 ∧ attempt < (s.call k).attempts ∧
      (next.isNone → attempt + 1 < (s.call k).attempts)
  | .returned id r =>
    (s.transmitted k).length ≤ (s.call k).attempts ∧ s.Last k id ∧ r.id = some id ∧ r.about = some id
  | .raised _ => (s.transmitted k).length ≤ (s.call k).attempts

theorem At.transmitted_le {s : DebugClient} {k : Nat} {p : Place} (here : s.At k p) :
    (s.transmitted k).length ≤ (s.call k).attempts := by
  cases p with
  | waiting =>
    have none : s.transmitted k = [] := here
    rw [none]
    exact Nat.zero_le _
  | connecting attempt => exact Nat.le_trans here.1 (Nat.le_of_lt here.2)
  | draining attempt id handshake | reading attempt id handshake =>
    obtain ⟨allowed, bound⟩ := here
    cases handshake with
    | false => exact Nat.le_trans bound.1 allowed
    | true => exact Nat.le_trans bound (Nat.le_of_lt allowed)
  | disconnecting attempt next => exact Nat.le_trans here.1 here.2.1
  | returned id r => exact here.1
  | raised error => exact here

/-- Only what the call has transmitted, and how often it may, counts. -/
theorem At.congr {s t : DebugClient} {k : Nat} (transmitted : t.transmitted k = s.transmitted k)
    (call : t.call k = s.call k) (p : Place) : t.At k p ↔ s.At k p := by
  cases p <;> simp only [At, Last, transmitted, call]

theorem at_waiting {s : DebugClient} {k : Nat} {p : Place} (waiting : isWaiting p = true) :
    s.At k p ↔ s.transmitted k = [] := by
  cases p
  case waiting => rfl
  all_goals exact nomatch waiting

/-- A line on its way names the request that it answers, if it names one. -/
def Honest : Line → Prop
  | .reply r => r.id = none ∨ r.id = r.about
  | _ => True

/-- The line that the request of a call has, or the handshake before it. -/
def lineOf (s : DebugClient) (t : Sent) : Bytes :=
  if t.handshake then requestLine t.id "emulator.status" []
  else requestLine t.id (s.call t.call).command (s.call t.call).parameters

/-- The invariant of the client. -/
structure Paired (s : DebugClient) : Prop where
  fresh : ∀ t ∈ s.sent, t.id < s.nextId
  distinct : (s.sent.map Sent.id).Nodup
  known : ∀ k, s.calls.length ≤ k → isWaiting (s.place k) = true
  holder : ∀ k, s.locked = some k → k < s.calls.length
  lines : ∀ t ∈ s.sent, t.line = s.lineOf t
  honest : ∀ c, s.connection = some c → ∀ line ∈ c.arrived, Honest line
  placed : ∀ k, s.At k (s.place k)

/-- Nothing is written, and nobody gets the lock. -/
structure Silent (s t : DebugClient) : Prop where
  sent : t.sent = s.sent
  calls : t.calls = s.calls
  nextId : t.nextId = s.nextId
  locked : t.locked = s.locked ∨ t.locked = none
  arrived : ∀ c, t.connection = some c → ∀ line ∈ c.arrived, ∃ d, s.connection = some d ∧ line ∈ d.arrived

namespace Silent

theorem of_eq {s t : DebugClient} (sent : t.sent = s.sent) (calls : t.calls = s.calls) (nextId : t.nextId = s.nextId)
    (locked : t.locked = s.locked ∨ t.locked = none) (connection : t.connection = s.connection ∨ t.connection = none) :
    Silent s t := by
  refine ⟨sent, calls, nextId, locked, fun c there line member => ?_⟩
  rcases connection with same | none
  · exact ⟨c, same.symm.trans there, member⟩
  · exact nomatch none.symm.trans there

theorem call {s t : DebugClient} (silent : Silent s t) (k : Nat) : t.call k = s.call k := by
  rw [DebugClient.call, DebugClient.call, silent.calls]

theorem transmitted {s t : DebugClient} (silent : Silent s t) (k : Nat) : t.transmitted k = s.transmitted k := by
  rw [DebugClient.transmitted, DebugClient.transmitted, silent.sent]

theorem at_iff {s t : DebugClient} (silent : Silent s t) (k : Nat) (p : Place) : t.At k p ↔ s.At k p :=
  At.congr (silent.transmitted k) (silent.call k) p

end Silent

namespace Paired

theorem silent {s t : DebugClient} (paired : Paired s) (silent : Silent s t)
    (known : ∀ k, s.calls.length ≤ k → isWaiting (t.place k) = true) (placed : ∀ k, s.At k (t.place k)) : Paired t where
  fresh := by
    rw [silent.sent, silent.nextId]
    exact paired.fresh
  distinct := by
    rw [silent.sent]
    exact paired.distinct
  known := by
    rw [silent.calls]
    exact known
  holder := by
    intro k held
    rw [silent.calls]
    rcases silent.locked with same | free
    · exact paired.holder k (same.symm.trans held)
    · exact nomatch free.symm.trans held
  lines := by
    intro sent member
    rw [silent.sent] at member
    rw [paired.lines sent member, lineOf, lineOf, silent.call]
  honest := by
    intro c there line member
    obtain ⟨d, before, old⟩ := silent.arrived c there line member
    exact paired.honest d before line old
  placed := fun k => (silent.at_iff k _).mpr (placed k)

theorem stays {s t : DebugClient} (paired : Paired s) (silent : Silent s t) (place : t.place = s.place) : Paired t := by
  apply paired.silent silent
  · rw [place]
    exact paired.known
  · rw [place]
    exact paired.placed

/-- A call goes from one place to another and writes nothing. -/
theorem moves {s t : DebugClient} (paired : Paired s) (silent : Silent s t) {k : Nat} {p : Place}
    (within : k < s.calls.length) (place : t.place = Function.update s.place k p) (here : s.At k p) : Paired t := by
  apply paired.silent silent
  · intro j beyond
    rw [place, Function.update_of_ne (by omega)]
    exact paired.known j beyond
  · intro j
    rw [place]
    by_cases same : j = k
    · subst same
      rw [Function.update_self]
      exact here
    · rw [Function.update_of_ne same]
      exact paired.placed j

theorem go {s : DebugClient} (paired : Paired s) {k : Nat} {p : Place} (within : k < s.calls.length) (here : s.At k p) :
    Paired (s.go k p) :=
  paired.moves (.of_eq rfl rfl rfl (.inl rfl) (.inl rfl)) within rfl here

theorem leave {s : DebugClient} (paired : Paired s) {k : Nat} {p : Place} (within : k < s.calls.length)
    (here : s.At k p) : Paired (s.leave k p) :=
  paired.moves (.of_eq rfl rfl rfl (.inr rfl) (.inl rfl)) within rfl here

theorem raise {s : DebugClient} (paired : Paired s) {k : Nat} (within : k < s.calls.length) (error : Error) :
    Paired (s.leave k (.raised error)) :=
  paired.leave within (paired.placed k).transmitted_le

end Paired

/-- The line that `write` adds. -/
def written (s : DebugClient) (k : Nat) (handshake : Bool) : Sent :=
  { id := s.nextId, call := k, handshake,
    line := s.lineOf { id := s.nextId, call := k, handshake, line := [] } }

theorem write_sent (s : DebugClient) (k attempt : Nat) (handshake : Bool) :
    (s.write k attempt handshake).sent = s.sent ++ [s.written k handshake] := rfl

theorem transmitted_write_other (s : DebugClient) {k j : Nat} (attempt : Nat) (handshake : Bool) (other : j ≠ k) :
    (s.write k attempt handshake).transmitted j = s.transmitted j := by
  have not : ¬ (k = j) := fun same => other same.symm
  simp [transmitted, write_sent, written, not]

theorem transmitted_write_handshake (s : DebugClient) (k attempt : Nat) :
    (s.write k attempt true).transmitted k = s.transmitted k := by
  simp [transmitted, write_sent, written]

theorem transmitted_write_own (s : DebugClient) (k attempt : Nat) :
    (s.write k attempt false).transmitted k = s.transmitted k ++ [s.written k false] := by
  simp [transmitted, write_sent, written]

theorem At.write_other {s : DebugClient} {k j : Nat} {p : Place} (here : s.At j p) (attempt : Nat) (handshake : Bool)
    (other : j ≠ k) : (s.write k attempt handshake).At j p :=
  (At.congr (s.transmitted_write_other attempt handshake other) rfl p).mpr here

namespace Paired

/-- A line is written, in an attempt that has written none of the command. -/
theorem write {s : DebugClient} (paired : Paired s) {k attempt : Nat} (within : k < s.calls.length)
    (here : s.At k (.connecting attempt)) (handshake : Bool) : Paired (s.write k attempt handshake) where
  fresh := by
    intro t member
    rcases List.mem_append.mp member with old | new
    · exact Nat.lt_succ_of_lt (paired.fresh t old)
    · obtain rfl := List.mem_singleton.mp new
      exact Nat.lt_succ_self _
  distinct := by
    rw [write_sent, List.map_append]
    refine paired.distinct.append (List.nodup_singleton _) ?_
    intro id old new
    obtain ⟨t, member, rfl⟩ := List.mem_map.mp old
    have below := paired.fresh t member
    have same : t.id = s.nextId := List.mem_singleton.mp new
    omega
  known := by
    intro j beyond
    have other : j ≠ k := fun same => absurd within (Nat.not_lt.mpr (same ▸ beyond))
    show isWaiting (Function.update s.place k _ j) = true
    rw [Function.update_of_ne other]
    exact paired.known j beyond
  holder := paired.holder
  lines := by
    intro t member
    rcases List.mem_append.mp member with old | new
    · exact paired.lines t old
    · obtain rfl := List.mem_singleton.mp new
      rfl
  honest := paired.honest
  placed := by
    intro j
    show (s.write k attempt handshake).At j (Function.update s.place k _ j)
    by_cases same : j = k
    · subst same
      rw [Function.update_self]
      obtain ⟨bound, allowed⟩ := here
      refine ⟨allowed, ?_⟩
      cases handshake with
      | true =>
        show ((s.write j attempt true).transmitted j).length ≤ attempt
        rw [transmitted_write_handshake]
        exact bound
      | false =>
        show ((s.write j attempt false).transmitted j).length ≤ attempt + 1 ∧ (s.write j attempt false).Last j s.nextId
        rw [Last, transmitted_write_own, List.length_append, List.getLast?_concat]
        exact ⟨Nat.succ_le_succ bound, rfl⟩
    · rw [Function.update_of_ne same]
      exact (paired.placed j).write_other attempt handshake same

theorem ensureConnected {s : DebugClient} (paired : Paired s) {k attempt : Nat} (within : k < s.calls.length)
    (here : s.At k (.connecting attempt)) : Paired (s.ensureConnected k attempt) := by
  rw [DebugClient.ensureConnected]
  split
  · split
    · exact paired.write within here false
    · exact paired.go within here
  · exact paired.go within here

theorem proceed {s : DebugClient} (paired : Paired s) {k attempt : Nat} {next : Option Error}
    (within : k < s.calls.length) (here : s.At k (.disconnecting attempt next)) :
    Paired (s.proceed k attempt next) := by
  obtain ⟨bound, allowed, again⟩ := here
  cases next with
  | none => exact paired.ensureConnected within ⟨bound, again rfl⟩
  | some e => exact paired.raise within e

theorem disconnect {s : DebugClient} (paired : Paired s) {k attempt : Nat} {next : Option Error}
    (within : k < s.calls.length) (here : s.At k (.disconnecting attempt next)) :
    Paired (s.disconnect k attempt next) := by
  have silent : Silent s { s with connection := none, compatible := false } :=
    .of_eq rfl rfl rfl (.inl rfl) (.inr rfl)
  have closed := paired.stays silent rfl
  rw [DebugClient.disconnect]
  split
  · exact closed.go within ((silent.at_iff k _).mpr here)
  · exact closed.proceed within ((silent.at_iff k _).mpr here)

theorem fail {s : DebugClient} (paired : Paired s) {k attempt : Nat} (within : k < s.calls.length)
    (bound : (s.transmitted k).length ≤ attempt + 1) (allowed : attempt < (s.call k).attempts) :
    Paired (s.fail k attempt) := by
  apply paired.disconnect within
  refine ⟨bound, allowed, fun next => ?_⟩
  by_contra last
  rw [if_neg last] at next
  exact nomatch next

end Paired

theorem At.reading_le {s : DebugClient} {k attempt id : Nat} {handshake : Bool}
    (here : s.At k (.reading attempt id handshake)) : (s.transmitted k).length ≤ attempt + 1 := by
  obtain ⟨_, bound⟩ := here
  cases handshake with
  | false => exact bound.1
  | true => exact Nat.le_succ_of_le bound

namespace Paired

/-- Only the answer to the line that this attempt wrote is returned. -/
theorem receive {s : DebugClient} (paired : Paired s) {k attempt id : Nat} {handshake : Bool}
    (within : k < s.calls.length) (here : s.At k (.reading attempt id handshake)) {line : Line} (honest : Honest line) :
    Paired (s.receive k attempt id handshake line) := by
  have failed := paired.fail within here.reading_le here.1
  cases line with
  | malformed => exact failed
  | notObject => exact failed
  | undecodable => exact paired.raise within .unexpected
  | reply r =>
    simp only [DebugClient.receive]
    split
    · exact failed
    rename_i named
    have named : r.id = some id := not_not.mp named
    have about : r.about = some id := by
      rcases honest with none | same
      · exact nomatch named.symm.trans none
      · exact same.symm.trans named
    split
    · split
      · exact paired.raise within _
      · exact failed
    cases handshake with
    | false =>
      obtain ⟨allowed, bound, last⟩ := here
      exact paired.leave within ⟨Nat.le_trans bound allowed, last, named, about⟩
    | true =>
      obtain ⟨allowed, bound⟩ := here
      simp only [if_true]
      split
      · exact paired.disconnect within ⟨Nat.le_succ_of_le bound, allowed, nofun⟩
      · have agreed : Silent s { s with compatible := true } := .of_eq rfl rfl rfl (.inl rfl) (.inl rfl)
        exact (paired.stays agreed rfl).write within ((agreed.at_iff k (.connecting attempt)).mpr ⟨bound, allowed⟩) false

theorem readLine {s : DebugClient} (paired : Paired s) {k attempt id : Nat} {handshake : Bool}
    (within : k < s.calls.length) (here : s.At k (.reading attempt id handshake)) :
    Paired (s.readLine k attempt id handshake) := by
  rw [DebugClient.readLine]
  split
  · rename_i c connected
    split
    · rename_i line rest arrived
      have silent : Silent s { s with connection := some { c with arrived := rest } } := by
        refine ⟨rfl, rfl, rfl, .inl rfl, fun d there later member => ⟨c, connected, ?_⟩⟩
        obtain rfl := Option.some.inj there
        rw [arrived]
        exact List.mem_cons_of_mem _ member
      have honest := paired.honest c connected line (arrived ▸ List.mem_cons_self)
      exact (paired.stays silent rfl).receive within ((silent.at_iff k _).mpr here) honest
    · exact paired.fail within here.reading_le here.1
  · exact paired.fail within here.reading_le here.1

theorem resume {s : DebugClient} (paired : Paired s) {k : Nat} (within : k < s.calls.length) (o : Outcome) :
    Paired (s.resume k o) := by
  have here := paired.placed k
  cases o with
  | cancelled => exact paired.raise within .cancelled
  | unexpected => exact paired.raise within .unexpected
  | broken =>
    rw [DebugClient.resume]
    split
    all_goals rename_i place; rw [place] at here
    · exact paired.fail within (Nat.le_succ_of_le here.1) here.2
    · exact paired.fail within (At.reading_le here) here.1
    · exact paired.fail within here.reading_le here.1
    · exact paired.proceed within here
    all_goals exact paired
  | done =>
    rw [DebugClient.resume]
    split
    all_goals rename_i place; rw [place] at here
    · have opened : Silent s { s with connection := some {}, compatible := false } := by
        refine ⟨rfl, rfl, rfl, .inl rfl, fun c there line member => ?_⟩
        obtain rfl := Option.some.inj there
        exact nomatch member
      exact (paired.stays opened rfl).write within ((opened.at_iff k _).mpr here) true
    · exact paired.go within here
    · exact paired.readLine within here
    · exact paired.proceed within here
    all_goals exact paired

theorem unsent {s : DebugClient} (paired : Paired s) {k : Nat} (waiting : isWaiting (s.place k) = true) :
    s.transmitted k = [] :=
  (at_waiting waiting).mp (paired.placed k)

/-- A task makes a call: nothing was written for it. -/
theorem called {s : DebugClient} (paired : Paired s) (c : Call) : Paired { s with calls := s.calls ++ [c] } := by
  have kept : ∀ k, k < s.calls.length → DebugClient.call { s with calls := s.calls ++ [c] } k = s.call k := by
    intro k within
    rw [DebugClient.call, DebugClient.call, List.getD_eq_getElem?_getD, List.getElem?_append_left within,
      List.getD_eq_getElem?_getD]
  refine { paired with known := ?_, holder := ?_, lines := ?_, placed := ?_ }
  · intro k beyond
    apply paired.known k
    rw [List.length_append] at beyond
    omega
  · intro k held
    rw [List.length_append]
    exact Nat.lt_add_right _ (paired.holder k held)
  · intro t member
    rw [paired.lines t member, lineOf, lineOf]
    cases own : t.handshake with
    | true => rfl
    | false =>
      by_cases within : t.call < s.calls.length
      · rw [kept t.call within]
      · have mine : t ∈ s.transmitted t.call := List.mem_filter.mpr ⟨member, by simp [own]⟩
        rw [paired.unsent (paired.known t.call (Nat.not_lt.mp within))] at mine
        exact nomatch mine
  · intro k
    have here := paired.placed k
    by_cases within : k < s.calls.length
    · exact (At.congr (s := s) (t := { s with calls := s.calls ++ [c] }) rfl (kept k within) _).mpr here
    · have waiting := paired.known k (Nat.not_lt.mp within)
      exact (at_waiting waiting).mpr (paired.unsent waiting)

theorem acquire {s : DebugClient} (paired : Paired s) {k : Nat} (within : k < s.calls.length)
    (waiting : isWaiting (s.place k) = true) : Paired ({ s with locked := some k }.ensureConnected k 0) := by
  have locked : Paired { s with locked := some k } := by
    refine { paired with holder := ?_ }
    intro j held
    obtain rfl := Option.some.inj held
    exact within
  have none : s.transmitted k = [] := paired.unsent waiting
  have some : 0 < (s.call k).attempts := by
    rw [Call.attempts]
    split <;> omega
  exact locked.ensureConnected within ⟨Nat.le_of_eq (congrArg List.length none), some⟩

theorem onConnection {s : DebugClient} (paired : Paired s) {f : Connection → Connection}
    (honest : ∀ c, s.connection = some c → ∀ line ∈ (f c).arrived, Honest line) : Paired (s.onConnection f) := by
  refine { paired with honest := ?_ }
  intro d there line member
  obtain ⟨c, before, rfl⟩ := Option.map_eq_some_iff.mp there
  exact honest c before line member

/-- Every event of the client and of its bridge keeps the invariant. -/
theorem step {s : DebugClient} (paired : Paired s) {e : Event} (enabled : system.enabled s e) : Paired (s.step e) := by
  cases e with
  | call c => exact paired.called c
  | withdraw k => exact paired.go enabled.1 (paired.placed k).transmitted_le
  | acquire k => exact paired.acquire enabled.1 enabled.2.1
  | resume k o => exact paired.resume (paired.holder k enabled.1) o
  | close => exact paired.stays (.of_eq rfl rfl rfl (.inl rfl) (.inr rfl)) rfl
  | arrive line =>
    apply paired.onConnection
    intro c there other member
    rcases List.mem_append.mp member with old | new
    · exact paired.honest c there other old
    · obtain rfl := List.mem_singleton.mp new
      cases other with
      | reply r => exact enabled.2.1
      | notObject | malformed | undecodable => trivial
  | ended => exact paired.onConnection paired.honest
  | closing => exact paired.onConnection paired.honest

theorem initial : Paired {} where
  fresh := List.forall_mem_nil _
  distinct := List.nodup_nil
  known := fun _ _ => rfl
  holder := nofun
  lines := List.forall_mem_nil _
  honest := nofun
  placed := fun _ => rfl

theorem of_reachable {s : DebugClient} (reach : system.Reachable s) : Paired s := by
  apply reach.invariant
  · rintro _ rfl
    exact initial
  · intro s e _ enabled _ paired
    exact paired.step enabled

end Paired

/-- A call that may not be retried transmits its line once at most, and any call
twice. No id is on the wire twice. What is returned is the answer to the line that
the call transmitted last. -/
theorem requests_paired {s : DebugClient} (reach : system.Reachable s) :
    (∀ k c, s.calls[k]? = some c → (s.transmitted k).length ≤ if c.retries then 2 else 1) ∧
      (∀ t ∈ s.sent, t.line = s.lineOf t) ∧ (s.sent.map Sent.id).Nodup ∧
      ∀ k id r, s.place k = .returned id r → r.id = some id ∧ r.about = some id ∧ s.Last k id := by
  have paired := Paired.of_reachable reach
  refine ⟨fun k c made => ?_, paired.lines, paired.distinct, fun k id r returned => ?_⟩
  · have same : s.call k = c := by rw [call, List.getD_eq_getElem?_getD, made, Option.getD_some]
    have bound := (paired.placed k).transmitted_le
    rwa [same, Call.attempts] at bound
  · have here := paired.placed k
    rw [returned] at here
    obtain ⟨_, last, named, about⟩ := here
    exact ⟨named, about, last⟩

def sampleReply (id : Nat) : Line :=
  .reply { id := some id, fields := [("protocol_version", ascii "1")], about := some id }

/-- A call is cancelled when it has asked. The next one asks too, finds the late
answer, connects again, and asks once more. -/
def sampleEvents : List Event :=
  [.call { command := "rom.read" }, .call { command := "rom.read" },
    .acquire 0, .resume 0 .done, .resume 0 .done, .arrive (sampleReply 1), .resume 0 .done, .resume 0 .done,
    .resume 0 .cancelled,
    .acquire 1, .resume 1 .done, .arrive (sampleReply 2), .resume 1 .done, .resume 1 .done,
    .resume 1 .done, .resume 1 .done, .arrive (sampleReply 4), .resume 1 .done, .resume 1 .done,
    .arrive (sampleReply 5), .resume 1 .done]

def sampleClient : DebugClient := sampleEvents.foldl DebugClient.step {}

theorem sampleClient_reachable : system.Reachable sampleClient :=
  (System.Reach.start rfl).run (by decide +kernel : system.Admits _ {} sampleEvents)

theorem sampleClient_paired :
    (sampleClient.sent.map Sent.id) = [1, 2, 3, 4, 5] ∧ (sampleClient.transmitted 1).map Sent.id = [3, 5] ∧
      ∃ r, sampleClient.place 1 = .returned 5 r ∧ r.about = some 5 ∧ sampleClient.Last 1 5 := by
  refine ⟨by decide +kernel, by decide +kernel, _, rfl, ?_⟩
  obtain ⟨_, _, _, returned⟩ := requests_paired sampleClient_reachable
  exact (returned 1 5 _ rfl).2

end FzeroVs.Sidecar.DebugClient
