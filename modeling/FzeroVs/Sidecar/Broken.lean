import FzeroVs.Sidecar.Pairing

namespace FzeroVs.Sidecar.DebugClient

open Bridge

def isRaised : Place → Bool
  | .raised _ => true
  | _ => false

/-- The call waits for the answer to its own command. -/
def ownAnswer : Place → Bool
  | .reading _ _ handshake => !handshake
  | _ => false

def isCommand : Error → Bool
  | .command .. => true
  | _ => false

/-- `AresCommandError` for the command that was requested. -/
def Refusal (p : Place) (error : Error) : Prop := isCommand error = true ∧ ownAnswer p = true

/-- A call exits, and not by a return or by a refusal of its command. -/
def Breaks (s : DebugClient) (e : Event) (k : Nat) : Prop :=
  isRaised (s.place k) = false ∧ ∃ error, (s.step e).place k = .raised error ∧ ¬ Refusal (s.place k) error

/-- No exception of `_exchange_locked` goes past the `except` clauses. -/
def Orderly (id : Nat) (handshake : Bool) : Line → Prop
  | .reply r => handshake = true → r.id = some id → r.ok = false → r.error = none
  | .undecodable => False
  | .notObject | .malformed => True

/-- An `await` is not left with the connection as it is. -/
def Tidy (s : DebugClient) : Event → Prop
  | .resume _ .cancelled | .resume _ .unexpected => s.connection = none
  | .resume k .done =>
    match s.place k with
    | .reading _ id handshake => ∀ c ∈ s.connection, ∀ line ∈ c.arrived.head?, Orderly id handshake line
    | _ => True
  | _ => True

/-- No call gives up waiting while another has a connection. -/
def Patient (s : DebugClient) : Event → Prop
  | .withdraw _ => s.connection = none
  | _ => True

/-- The handshake of the connection is done. -/
def Agreed (s : DebugClient) : Prop := s.connection.isSome = true → s.compatible = true

/-- What holds at a place of the call that has the lock, and what holds there if
all has been tidy. -/
def Held (tidy : Prop) (s : DebugClient) : Place → Prop
  | .connecting _ => tidy → ∀ c ∈ s.connection, c.closing = true
  | .draining _ _ handshake | .reading _ _ handshake => tidy → handshake = false → Agreed s
  | .disconnecting .. => s.connection = none
  | .waiting | .returned .. | .raised _ => False

structure Tended (tidy : Prop) (s : DebugClient) : Prop where
  free : s.locked = none → tidy → Agreed s
  held : ∀ k, s.locked = some k → Held tidy s (s.place k)

/-- How far the call with the lock may have come until the next `await`. -/
structure Turn (tidy : Prop) (k : Nat) (place : Nat → Place) (t : DebugClient) : Prop where
  others : ∀ j, j ≠ k → t.place j = place j
  raised : ∀ error, t.place k = .raised error → Refusal (place k) error ∨ t.connection = none
  tended : Tended tidy t

variable {tidy : Prop} {s : DebugClient} {k attempt id : Nat} {handshake : Bool}

theorem agreed_none (closed : s.connection = none) : Agreed s := fun connected => by
  rw [closed] at connected
  exact nomatch connected

namespace Turn

theorem go {p : Place} (locked : s.locked = some k) (held : Held tidy s p) : Turn tidy k s.place (s.go k p) where
  others := fun _ other => Function.update_of_ne other ..
  raised := by
    intro error raised
    have here : p = .raised error := (Function.update_self ..).symm.trans raised
    rw [here] at held
    exact held.elim
  tended :=
    { free := fun free => nomatch locked.symm.trans free
      held := by
        intro j same
        obtain rfl := Option.some.inj (locked.symm.trans same)
        show Held tidy s (Function.update s.place k p k)
        rw [Function.update_self]
        exact held }

theorem leave {p : Place} (agreed : tidy → Agreed s)
    (raised : ∀ error, p = .raised error → Refusal (s.place k) error ∨ s.connection = none) :
    Turn tidy k s.place (s.leave k p) where
  others := fun _ other => Function.update_of_ne other ..
  raised := fun error here => raised error ((Function.update_self ..).symm.trans here)
  tended := { free := fun _ => agreed, held := fun _ locked => nomatch locked }

theorem write (locked : s.locked = some k) (agreed : tidy → handshake = false → Agreed s) :
    Turn tidy k s.place (s.write k attempt handshake) := by
  have turn := go (p := .draining attempt s.nextId handshake) locked agreed
  exact { turn with tended := { turn.tended with } }

theorem ensureConnected (locked : s.locked = some k) (agreed : tidy → Agreed s) :
    Turn tidy k s.place (s.ensureConnected k attempt) := by
  rw [DebugClient.ensureConnected]
  split
  · rename_i c connected
    split
    · exact write locked fun all _ => agreed all
    · rename_i unready
      apply go locked
      intro all d there
      obtain rfl := Option.some.inj (connected.symm.trans there)
      have compatible := agreed all (Option.isSome_of_mem connected)
      rw [compatible, Bool.and_true] at unready
      simpa using unready
  · rename_i closed
    apply go locked
    intro _ c there
    cases closed.symm.trans there

theorem proceed (locked : s.locked = some k) (closed : s.connection = none) (next : Option Error) :
    Turn tidy k s.place (s.proceed k attempt next) := by
  cases next with
  | none => exact ensureConnected locked fun _ => agreed_none closed
  | some e => exact leave (fun _ => agreed_none closed) fun _ _ => .inr closed

theorem disconnect (locked : s.locked = some k) (next : Option Error) :
    Turn tidy k s.place (s.disconnect k attempt next) := by
  rw [DebugClient.disconnect]
  split
  · exact go (s := { s with connection := none, compatible := false }) locked rfl
  · exact proceed (s := { s with connection := none, compatible := false }) locked rfl next

theorem fail (locked : s.locked = some k) : Turn tidy k s.place (s.fail k attempt) := disconnect locked _

/-- Every line but those that are not orderly ends the exchange well. -/
theorem receive (locked : s.locked = some k) (here : s.place k = .reading attempt id handshake)
    (held : Held tidy s (s.place k)) {line : Line} (orderly : Orderly id handshake line) :
    Turn tidy k s.place (s.receive k attempt id handshake line) := by
  have agreed : tidy → handshake = false → Agreed s := by
    rw [here] at held
    exact held
  cases line with
  | malformed => exact fail locked
  | notObject => exact fail locked
  | undecodable => exact orderly.elim
  | reply r =>
    simp only [DebugClient.receive]
    split
    · exact fail locked
    rename_i named
    have named : r.id = some id := not_not.mp named
    cases ok : r.ok with
    | false =>
      simp only [Bool.not_false, if_true]
      cases structured : r.error with
      | none => exact fail locked
      | some error =>
        cases handshake with
        | true => cases (orderly rfl named ok).symm.trans structured
        | false =>
          refine leave (fun all => agreed all rfl) fun e raised => .inl ?_
          obtain rfl := Place.raised.inj raised
          rw [here]
          exact ⟨rfl, rfl⟩
    | true =>
      simp only [Bool.not_true, Bool.false_eq_true, if_false]
      cases handshake with
      | false => exact leave (fun all => agreed all rfl) fun e raised => by cases raised
      | true =>
        simp only [if_true]
        split
        · exact disconnect locked _
        · exact write (s := { s with compatible := true }) locked fun _ _ _ => rfl

theorem readLine (locked : s.locked = some k) (here : s.place k = .reading attempt id handshake)
    (held : Held tidy s (s.place k))
    (orderly : ∀ c ∈ s.connection, ∀ line ∈ c.arrived.head?, Orderly id handshake line) :
    Turn tidy k s.place (s.readLine k attempt id handshake) := by
  rw [DebugClient.readLine]
  split
  · rename_i c connected
    split
    · rename_i line rest arrived
      have first : line ∈ c.arrived.head? := by
        rw [arrived]
        rfl
      refine receive (s := { s with connection := some { c with arrived := rest } }) locked here ?_
        (orderly c connected line first)
      show Held tidy _ (s.place k)
      rw [here] at held ⊢
      intro all own _
      exact held all own (Option.isSome_of_mem connected)
    · exact fail locked
  · exact fail locked

theorem resume (locked : s.locked = some k) (held : Held tidy s (s.place k)) {o : Outcome}
    (good : Tidy s (.resume k o)) : Turn tidy k s.place (s.resume k o) := by
  cases o with
  | cancelled | unexpected => exact leave (fun _ => agreed_none good) fun _ _ => .inr good
  | broken =>
    rw [DebugClient.resume]
    split
    all_goals rename_i here
    · exact fail locked
    · exact fail locked
    · exact fail locked
    · rw [here] at held
      exact proceed locked held _
    all_goals
      rw [here] at held
      exact held.elim
  | done =>
    rw [DebugClient.resume]
    split
    all_goals rename_i here
    · exact write (s := { s with connection := some {}, compatible := false }) locked fun _ own => by cases own
    · rw [here] at held
      exact go locked held
    · have orderly : match s.place k with
          | .reading _ id handshake => ∀ c ∈ s.connection, ∀ line ∈ c.arrived.head?, Orderly id handshake line
          | _ => True := good
      rw [here] at orderly
      exact readLine locked here held orderly
    · rw [here] at held
      exact proceed locked held _
    all_goals
      rw [here] at held
      exact held.elim

end Turn

/-- The call exits at once, with the connection as it is. -/
structure Left (s : DebugClient) (k : Nat) (t : DebugClient) : Prop where
  connected : t.connection.isSome = true
  free : t.locked = none
  raised : ∃ error, t.place k = .raised error ∧ ¬ Refusal (s.place k) error

theorem Left.tended {t : DebugClient} (left : Left s k t) : Tended False t where
  free := fun _ all => all.elim
  held := fun _ locked => nomatch left.free.symm.trans locked

theorem left_leave {t : DebugClient} {error : Error} (connected : t.connection.isSome = true)
    (other : ¬ Refusal (s.place k) error) : Left s k (t.leave k (.raised error)) where
  connected := connected
  free := rfl
  raised := ⟨error, Function.update_self .., other⟩

theorem left_receive {t : DebugClient} (here : s.place k = .reading attempt id handshake)
    (connected : t.connection.isSome = true) {line : Line} (bad : ¬ Orderly id handshake line) :
    Left s k (t.receive k attempt id handshake line) := by
  cases line with
  | malformed => exact absurd trivial bad
  | notObject => exact absurd trivial bad
  | undecodable => exact left_leave connected fun refusal => absurd refusal.1 Bool.false_ne_true
  | reply r =>
    simp only [Orderly, Classical.not_imp] at bad
    obtain ⟨rfl, named, refused, structured⟩ := bad
    obtain ⟨error, given⟩ := Option.ne_none_iff_exists'.mp structured
    simp only [DebugClient.receive, named, refused, given, ne_eq, not_true, if_false, Bool.not_false, if_true]
    apply left_leave connected
    rw [here]
    exact fun refusal => absurd refusal.2 Bool.false_ne_true

theorem left_resume {o : Outcome} (bad : ¬ Tidy s (.resume k o)) : Left s k (s.resume k o) := by
  cases o with
  | broken => exact absurd trivial bad
  | cancelled | unexpected =>
    exact left_leave (Option.isSome_iff_ne_none.mpr bad) fun refusal => nomatch refusal.1
  | done =>
    have disorder : ¬ match s.place k with
        | .reading _ id handshake => ∀ c ∈ s.connection, ∀ line ∈ c.arrived.head?, Orderly id handshake line
        | _ => True := bad
    rw [DebugClient.resume]
    cases here : s.place k with
    | reading attempt id handshake =>
      rw [here] at disorder
      simp only [not_forall] at disorder
      obtain ⟨c, connected, line, first, bad⟩ := disorder
      obtain ⟨rest, arrived⟩ := List.head?_eq_some_iff.mp first
      have connected : s.connection = some c := connected
      simp only [readLine, connected, arrived]
      exact left_receive here rfl bad
    | waiting | connecting attempt | draining attempt id handshake | disconnecting attempt next | returned id reply
    | raised error =>
      rw [here] at disorder
      exact absurd trivial disorder

namespace Tended

theorem frame {t : DebugClient} (tended : Tended tidy s) (locked : t.locked = s.locked) (place : t.place = s.place)
    (compatible : t.compatible = s.compatible)
    (connection : ∀ d, t.connection = some d → ∃ c, s.connection = some c ∧ (c.closing = true → d.closing = true)) :
    Tended tidy t := by
  have agreed (before : Agreed s) : Agreed t := by
    intro connected
    obtain ⟨d, there⟩ := Option.isSome_iff_exists.mp connected
    obtain ⟨c, old, _⟩ := connection d there
    rw [compatible]
    exact before (Option.isSome_of_mem old)
  constructor
  · intro free all
    exact agreed (tended.free (locked.symm.trans free) all)
  · intro k held
    have before := tended.held k (locked.symm.trans held)
    rw [place]
    cases here : s.place k with
    | waiting | returned id reply | raised error =>
      rw [here] at before
      exact before
    | connecting attempt =>
      rw [here] at before
      intro all d there
      obtain ⟨c, old, closing⟩ := connection d there
      exact closing (before all c old)
    | draining attempt id handshake | reading attempt id handshake =>
      rw [here] at before
      intro all own
      exact agreed (before all own)
    | disconnecting attempt next =>
      rw [here] at before
      have closed : s.connection = none := before
      refine Option.eq_none_iff_forall_ne_some.mpr fun d there => ?_
      obtain ⟨c, old, _⟩ := connection d there
      exact nomatch closed.symm.trans old

theorem onConnection (tended : Tended tidy s) {f : Connection → Connection}
    (closing : ∀ c, c.closing = true → (f c).closing = true) : Tended tidy (s.onConnection f) := by
  refine tended.frame (t := s.onConnection f) rfl rfl rfl fun d there => ?_
  obtain ⟨c, old, rfl⟩ := Option.map_eq_some_iff.mp there
  exact ⟨c, old, closing c⟩

theorem withdraw (tended : Tended tidy s) (waiting : isWaiting (s.place k) = true) {p : Place} :
    Tended tidy (s.go k p) where
  free := tended.free
  held := by
    intro j locked
    have before := tended.held j locked
    have other : j ≠ k := by
      rintro rfl
      cases here : s.place j with
      | waiting =>
        rw [here] at before
        exact before
      | connecting | draining | reading | disconnecting | returned | raised =>
        rw [here] at waiting
        exact nomatch waiting
    show Held tidy s (Function.update s.place k p j)
    rw [Function.update_of_ne other]
    exact before

theorem acquire (tended : Tended tidy s) (free : s.locked = none) :
    Turn tidy k s.place ({ s with locked := some k }.ensureConnected k 0) :=
  @Turn.ensureConnected tidy { s with locked := some k } k 0 rfl fun all => tended.free free all

theorem step (tended : Tended tidy s) {e : Event} (enabled : system.enabled s e) (good : tidy → Tidy s e) :
    Tended tidy (s.step e) := by
  cases e with
  | call c => exact tended.frame rfl rfl rfl fun d there => ⟨d, there, id⟩
  | withdraw k => exact tended.withdraw enabled.2
  | acquire k => exact (tended.acquire enabled.2.2).tended
  | resume k o =>
    by_cases kept : Tidy s (.resume k o)
    · exact (Turn.resume enabled.1 (tended.held k enabled.1) kept).tended
    · have untidy : tidy = False := eq_false fun all => kept (good all)
      rw [untidy]
      exact (left_resume kept).tended
  | close =>
    have free : s.locked = none := enabled
    exact { free := fun _ _ => agreed_none rfl, held := fun _ locked => nomatch free.symm.trans locked }
  | arrive line => exact tended.onConnection fun _ => id
  | ended => exact tended.onConnection fun _ => id
  | closing => exact tended.onConnection fun _ _ => rfl

theorem initial : Tended tidy {} where
  free := fun _ _ => agreed_none rfl
  held := nofun

end Tended

theorem held_active (held : Held tidy s (s.place k)) : isRaised (s.place k) = false := by
  cases here : s.place k with
  | raised error =>
    rw [here] at held
    exact held.elim
  | waiting | connecting | draining | reading | disconnecting | returned => rfl

/-- A call that exits at a step is at another place before it. -/
theorem Breaks.moves {e : Event} (breaks : Breaks s e k) : (s.step e).place k ≠ s.place k := by
  obtain ⟨before, error, raised, _⟩ := breaks
  intro same
  rw [← same, raised] at before
  exact nomatch before

/-- Only the call with the lock can break, and then it has closed the connection. -/
theorem Turn.closes {e : Event} (turn : Turn tidy k s.place (s.step e)) {j : Nat} (breaks : Breaks s e j) :
    (s.step e).connection = none := by
  by_cases same : j = k
  · subst same
    obtain ⟨_, error, raised, other⟩ := breaks
    exact (turn.raised error raised).resolve_left other
  · exact absurd (turn.others j same) breaks.moves

/-- What breaks at a step is closed exactly if the step is tidy and patient. -/
theorem broken_closed_iff (tended : Tended False s) {e : Event} (enabled : system.enabled s e) :
    (∀ k, Breaks s e k → (s.step e).connection = none) ↔ Tidy s e ∧ Patient s e := by
  cases e with
  | call c => exact ⟨fun _ => ⟨trivial, trivial⟩, fun _ k breaks => absurd rfl breaks.moves⟩
  | close | arrive | ended | closing => exact ⟨fun _ => ⟨trivial, trivial⟩, fun _ k breaks => absurd rfl breaks.moves⟩
  | withdraw k =>
    constructor
    · intro closed
      refine ⟨trivial, closed k ⟨?_, .cancelled, Function.update_self .., fun refusal => nomatch refusal.1⟩⟩
      cases here : s.place k with
      | raised error => exact absurd enabled.2 (by rw [here]; exact nofun)
      | waiting | connecting | draining | reading | disconnecting | returned => rfl
    · rintro ⟨_, closed⟩ _ _
      exact closed
  | acquire k =>
    refine ⟨fun _ => ⟨trivial, trivial⟩, fun _ j breaks => ?_⟩
    have turn := Tended.acquire (k := k) tended enabled.2.2
    exact turn.closes breaks
  | resume k o =>
    have held := tended.held k enabled.1
    constructor
    · intro closed
      refine ⟨?_, trivial⟩
      by_contra bad
      have left := left_resume bad
      obtain ⟨error, raised, other⟩ := left.raised
      have nothing := closed k ⟨held_active held, error, raised, other⟩
      have connected : (s.step (.resume k o)).connection.isSome = true := left.connected
      rw [nothing] at connected
      exact nomatch connected
    · rintro ⟨good, _⟩ j breaks
      have turn := Turn.resume enabled.1 held good
      exact turn.closes breaks

/-- The connections that a step overwrites. They are still open unless they are
closing. -/
def abandons (s : DebugClient) : Event → List Connection
  | .resume k .done =>
    match s.place k with
    | .connecting _ => s.connection.toList.filter fun c => !c.closing
    | _ => []
  | _ => []

/-- A client with what it has overwritten. -/
structure Process where
  client : DebugClient := {}
  abandoned : List Connection := []

def Process.opened (p : Process) : List Connection :=
  p.abandoned ++ p.client.connection.toList.filter fun c => !c.closing

def process : System Process Event where
  init p := p = {}
  enabled p e := system.enabled p.client e
  step p e := { client := p.client.step e, abandoned := p.abandoned ++ p.client.abandons e }

instance process.decidable (p : Process) (e : Event) : Decidable (process.enabled p e) :=
  inferInstanceAs (Decidable (system.enabled p.client e))

theorem tended_process {p : Process} {allow : Process → Event → Prop} (reach : process.Reach allow p)
    (good : ∀ p e, allow p e → tidy → Tidy p.client e) : Tended tidy p.client := by
  apply reach.invariant
  · rintro _ rfl
    exact Tended.initial
  · intro p e _ enabled allowed tended
    exact tended.step enabled (good p e allowed)

/-- Where all has been tidy, a connection is overwritten only when it closes. -/
theorem Tended.abandons (tended : Tended True s) {e : Event} (enabled : system.enabled s e) : s.abandons e = [] := by
  cases e with
  | resume k o =>
    cases o with
    | done =>
      have held := tended.held k enabled.1
      rw [DebugClient.abandons]
      cases here : s.place k with
      | connecting attempt =>
        rw [here] at held
        refine List.filter_eq_nil_iff.mpr fun c there => ?_
        rw [held trivial c (Option.mem_toList.mp there)]
        exact nofun
      | waiting | draining | reading | disconnecting | returned | raised => rfl
    | broken | cancelled | unexpected => rfl
  | call | withdraw | acquire | close | arrive | ended | closing => rfl

/-- A step closes what breaks in it exactly if it is tidy and patient, and in a
run of tidy steps one connection is open at most. -/
theorem broken_exchanges (p : Process) :
    (process.Reachable p → ∀ e, process.enabled p e →
      ((∀ k, Breaks p.client e k → (p.client.step e).connection = none) ↔ Tidy p.client e ∧ Patient p.client e)) ∧
      (process.Reach (fun p e => Tidy p.client e) p → p.opened.length ≤ 1) := by
  constructor
  · intro reach e enabled
    exact broken_closed_iff (tended_process reach fun _ _ _ none => none.elim) enabled
  · intro reach
    have kept : p.abandoned = [] := by
      apply reach.invariant
      · rintro _ rfl
        rfl
      · intro p e before enabled _ kept
        have tended : Tended True p.client := tended_process before fun _ _ good _ => good
        have none := tended.abandons enabled
        show p.abandoned ++ p.client.abandons e = []
        rw [kept, none, List.append_nil]
    rw [Process.opened, kept, List.nil_append]
    exact Nat.le_trans (List.length_filter_le ..) (Option.length_toList_le)

/-- A call waits for the answer to its handshake. -/
def sampleHandshake : List Event :=
  [.call { command := "rom.read" }, .call { command := "rom.read" }, .acquire 0, .resume 0 .done]

def sampleProcess (events : List Event) : Process := events.foldl process.step {}

theorem sampleProcess_reachable {allow : Process → Event → Prop} {events : List Event}
    (admits : process.Admits allow {} events) : process.Reach allow (sampleProcess events) :=
  (System.Reach.start rfl).run admits

theorem sampleHandshake_closed :
    (∀ k, Breaks (sampleProcess sampleHandshake).client (.resume 0 .broken) k →
      ((sampleProcess sampleHandshake).client.step (.resume 0 .broken)).connection = none) ∧
      (sampleProcess (sampleHandshake ++ [.resume 0 .broken])).opened.length ≤ 1 := by
  have admits : process.Admits (fun p e => Tidy p.client e) {} (sampleHandshake ++ [.resume 0 .broken]) := by
    refine ⟨?_, trivial, ?_, trivial, ?_, trivial, ?_, trivial, ?_, trivial, trivial⟩
    all_goals decide +kernel
  have reach : process.Reachable (sampleProcess sampleHandshake) :=
    sampleProcess_reachable (by decide +kernel : process.Admits (fun _ _ => True) {} sampleHandshake)
  have last : process.enabled (sampleProcess sampleHandshake) (.resume 0 .broken) := by decide +kernel
  exact ⟨((broken_exchanges _).1 reach _ last).mpr ⟨trivial, trivial⟩,
    (broken_exchanges _).2 (sampleProcess_reachable admits)⟩

/-- Cancelled there, the call leaves its connection open. The next one does not
use it, and connects to a bridge that speaks to one client at a time. -/
theorem sampleHandshake_leaks :
    process.Reachable (sampleProcess sampleHandshake) ∧
      process.enabled (sampleProcess sampleHandshake) (.resume 0 .cancelled) ∧
      Breaks (sampleProcess sampleHandshake).client (.resume 0 .cancelled) 0 ∧
      ((sampleProcess sampleHandshake).client.step (.resume 0 .cancelled)).connection ≠ none ∧
      ∃ later, process.Reachable (sampleProcess (sampleHandshake ++ later)) ∧
        (sampleProcess (sampleHandshake ++ later)).opened.length = 2 := by
  have reach : process.Reachable (sampleProcess sampleHandshake) :=
    sampleProcess_reachable (by decide +kernel : process.Admits (fun _ _ => True) {} sampleHandshake)
  have breaks : Breaks (sampleProcess sampleHandshake).client (.resume 0 .cancelled) 0 :=
    ⟨rfl, .cancelled, rfl, fun refusal => nomatch refusal.1⟩
  refine ⟨reach, by decide +kernel, breaks, nofun, [.resume 0 .cancelled, .acquire 1, .resume 1 .done], ?_, rfl⟩
  exact sampleProcess_reachable (by decide +kernel : process.Admits (fun _ _ => True) {} _)

end FzeroVs.Sidecar.DebugClient
