import FzeroVs.Bridge.Exchange
import FzeroVs.Bridge.Patches
import Mathlib.Data.List.Induction

namespace FzeroVs.Bridge

theorem idxOf_split {input : Bytes} {newline : Nat} (found : input.idxOf? 10 = some newline) :
    10 ∉ input.take newline ∧ input = input.take newline ++ [10] ++ input.drop (newline + 1) := by
  obtain ⟨within, here, first⟩ := List.idxOf?_eq_some_iff.mp found
  refine ⟨fun member => ?_, ?_⟩
  · obtain ⟨k, below, at_⟩ := List.mem_iff_getElem.mp member
    rw [List.length_take] at below
    rw [List.getElem_take] at at_
    exact first k (by omega) at_
  · have rest := List.drop_eq_getElem_cons within
    rw [here] at rest
    rw [List.append_assoc, List.singleton_append, ← rest, List.take_append_drop]

/-- The first line is cut before the others. -/
theorem cutLines_next {input : Bytes} {newline : Nat} (found : input.idxOf? 10 = some newline) :
    cutLines input =
      (input.take newline :: (cutLines (input.drop (newline + 1))).1, (cutLines (input.drop (newline + 1))).2) := by
  obtain ⟨single, whole⟩ := idxOf_split found
  rw [whole, cutLines_append, cutLines_line single, List.nil_append, List.singleton_append, ← whole]

/-- What a line that was handled is answered. A request is answered by `dispatch`
when its turn comes, or once the bridge is stopping without it. -/
inductive Exchange.Answers (parse : Bytes → Option Document) (x : Exchange) : Handled → Option Nat × Bytes → Prop
  | requestTooLarge : x.Answers parse .requestTooLarge (none, Answered.requestTooLarge.response)
  | dispatched {r : Nat} {response : Bytes} : r < x.made → x.Dispatched parse r response →
      x.Answers parse (.enqueue (x.heap r).line) (some r, response)
  | serverStopping {r : Nat} : r < x.made → x.active = false →
      x.Answers parse (.enqueue (x.heap r).line) (some r, Answered.serverStopping.response)

theorem Exchange.Answers.later {parse : Bytes → Option Document} {x y : Exchange} {handled : Handled}
    {turn : Option Nat × Bytes} (answers : x.Answers parse handled turn) (later : x.Later y) :
    y.Answers parse handled turn := by
  cases answers with
  | requestTooLarge => exact .requestTooLarge
  | @dispatched r response below given =>
    rw [← later.lines r below]
    exact .dispatched (Nat.lt_of_lt_of_le below later.made) (given.later later below)
  | @serverStopping r below inactive =>
    rw [← later.lines r below]
    exact .serverStopping (Nat.lt_of_lt_of_le below later.made) (later.stopping inactive)

/-- The request whose answer the server thread waits for. -/
def ServerPlace.request : ServerPlace → Option Nat
  | .waiting r => some r
  | .asleep r _ => some r
  | _ => none

/-- Everything that has come in on this connection will be answered. -/
def ServerPlace.serving : ServerPlace → Bool
  | .accepted | .looping | .receiving | .cutting | .waiting _ | .asleep _ _ | .sending true => true
  | _ => false

/-- No complete line is left. -/
def ServerPlace.idle : ServerPlace → Bool
  | .accepted | .looping | .receiving => true
  | _ => false

namespace Threads

/-- The line that became the request waited for. -/
def held (x : Threads) : List Handled := (x.server.request.map fun r => .enqueue (x.heap r).line).toList

/-- This connection in `clientLoop`, as if every line was handled at once. -/
def connection (x : Threads) : Connection := Connection.clientLoop {} x.buffers

/-- Each line that was handled so far is answered, in turn, and the others of
those that have come in are still to be handled. -/
structure Serving (parse : Bytes → Option Document) (x : Threads) : Prop where
  answered : ∃ handled, List.Forall₂ (x.Answers parse) handled x.turns ∧ handled <+: x.connection.handled ∧
    (x.server.serving = true → x.connection =
      { input := (cutLines x.input).2, handled := handled ++ x.held ++ (cutLines x.input).1.map handleLine })
  unended : x.server.idle = true → 10 ∉ x.input
  ordered : (x.turns.filterMap Prod.fst).Pairwise (· < ·)
  known : ∀ r ∈ x.turns.filterMap Prod.fst, r < x.made
  newest : ∀ r, x.server.request = some r → r + 1 = x.made ∧ ∀ other ∈ x.turns.filterMap Prod.fst, other < r

variable {parse : Bytes → Option Document}

theorem notify_exchange (x : Threads) (r : Nat) : (x.notify r).toExchange = x.toExchange := by
  unfold notify
  split
  · split
    · rfl
    · rfl
  · rfl

/-- Another place in the loops, or another thread. -/
structure Goes (x y : Threads) : Prop where
  later : x.toExchange.Later y.toExchange
  made : y.made = x.made
  input : y.input = x.input
  buffers : y.buffers = x.buffers
  turns : y.turns = x.turns
  serving : y.server.serving = true → x.server.serving = true ∧ y.server.request = x.server.request
  request : ∀ r, y.server.request = some r → x.server.request = some r
  idle : y.server.idle = true → 10 ∉ x.input

theorem Goes.of_place {x y : Threads} (exchange : y.toExchange = x.toExchange) (input : y.input = x.input)
    (buffers : y.buffers = x.buffers) (turns : y.turns = x.turns)
    (serving : y.server.serving = true → x.server.serving = true ∧ y.server.request = x.server.request)
    (request : ∀ r, y.server.request = some r → x.server.request = some r)
    (idle : y.server.idle = true → 10 ∉ x.input) : Goes x y where
  later := exchange ▸ Exchange.Later.refl _
  made := by rw [exchange]
  input := input
  buffers := buffers
  turns := turns
  serving := serving
  request := request
  idle := idle

namespace Serving
variable {x y : Threads}

theorem go (serving : x.Serving parse) (goes : Goes x y) : y.Serving parse := by
  obtain ⟨handled, answers, before, whole⟩ := serving.answered
  have connection : y.connection = x.connection := by rw [Threads.connection, goes.buffers]; rfl
  constructor
  case answered =>
    refine ⟨handled, ?_, connection ▸ before, fun still => ?_⟩
    · rw [goes.turns]
      exact answers.imp fun _ _ given => given.later goes.later
    · obtain ⟨now, same⟩ := goes.serving still
      have held : y.held = x.held := by
        rw [Threads.held, Threads.held, same]
        cases waiting : x.server.request with
        | none => rfl
        | some r =>
          have below : r < x.made := by
            have newest := (serving.newest r waiting).1
            omega
          rw [Option.map_some, Option.map_some, goes.later.lines r below]
      rw [connection, whole now, held, goes.input]
  case unended => exact fun idle => goes.input ▸ goes.idle idle
  case ordered => exact goes.turns ▸ serving.ordered
  case known => exact goes.turns ▸ goes.made ▸ serving.known
  case newest =>
    intro r waiting
    rw [goes.turns, goes.made]
    exact serving.newest r (goes.request r waiting)

/-- A line that was handled is answered. -/
theorem answer (serving : x.Serving parse) {line : Handled} {request : Option Nat} {response input : Bytes}
    {buffers : List Bytes} {more : Bool} (given : x.Answers parse line (request, response))
    (waited : ∀ r, request = some r → x.server.request = some r)
    (next : ∀ handled, (x.server.serving = true → x.connection =
        { input := (cutLines x.input).2, handled := handled ++ x.held ++ (cutLines x.input).1.map handleLine }) →
      handled ++ [line] <+: (Connection.clientLoop {} buffers).handled ∧
        (more = true → Connection.clientLoop {} buffers =
          { input := (cutLines input).2, handled := handled ++ [line] ++ (cutLines input).1.map handleLine })) :
    Serving parse { x with
      server := .sending more, input := input, buffers := buffers, turns := x.turns ++ [(request, response)] } := by
  obtain ⟨handled, answers, _, whole⟩ := serving.answered
  obtain ⟨before, left⟩ := next handled whole
  constructor
  case answered =>
    refine ⟨handled ++ [line], List.rel_append answers (.cons given .nil), before, fun still => ?_⟩
    cases more with
    | false => cases still
    | true => exact (left rfl).trans (by simp only [held, ServerPlace.request, Option.map_none, Option.toList_none,
        List.append_nil])
  case unended => intro idle; cases idle
  case ordered =>
    rw [List.filterMap_append, List.pairwise_append]
    refine ⟨serving.ordered, ?_, fun other member r last => ?_⟩
    · cases request with
      | none => exact List.Pairwise.nil
      | some r => exact List.pairwise_singleton _ r
    · have same : request = some r := by simpa using last
      exact (serving.newest r (waited r same)).2 other member
  case known =>
    intro r member
    rw [List.filterMap_append, List.mem_append] at member
    rcases member with member | last
    · exact serving.known r member
    · have same : request = some r := by simpa using last
      have newest := (serving.newest r (waited r same)).1
      show r < x.made
      omega
  case newest => intro r waiting; cases waiting

theorem received (serving : x.Serving parse) (receiving : x.server = .receiving) {buffer : Bytes} (some : buffer ≠ []) :
    (x.received buffer).Serving parse := by
  have unended : 10 ∉ x.input := serving.unended (by rw [receiving]; rfl)
  have cut := cutLines_unended unended
  have next : Connection.clientLoop {} (x.buffers ++ [buffer]) = x.connection.receive buffer := by
    rw [Connection.clientLoop, List.foldl_append]
    rfl
  have held : x.held = [] := by rw [Threads.held, receiving]; rfl
  unfold Threads.received
  dsimp only
  by_cases large : maximumRequestLine < (x.input ++ buffer).length ∧ 10 ∉ x.input ++ buffer
  · rw [if_pos large]
    refine serving.answer .requestTooLarge (by simp) fun handled whole => ?_
    have connection := whole (by rw [receiving]; rfl)
    rw [next, connection, held, cut, Connection.receive_refused rfl some large.2 large.1]
    simp
  · rw [if_neg large]
    obtain ⟨handled, answers, before, whole⟩ := serving.answered
    have connection := whole (by rw [receiving]; rfl)
    rw [cut, held, List.map_nil, List.append_nil, List.append_nil] at connection
    have after : Connection.clientLoop {} (x.buffers ++ [buffer]) =
        { input := (cutLines (x.input ++ buffer)).2
          handled := handled ++ (cutLines (x.input ++ buffer)).1.map handleLine } := by
      rw [next, connection, Connection.receive, if_neg Bool.false_ne_true, if_neg some]
      exact if_neg large
    constructor
    case answered =>
      refine ⟨handled, answers, ?_, fun _ => ?_⟩
      · rw [Threads.connection, after]
        exact List.prefix_append _ _
      · rw [Threads.connection, after, Threads.held]
        simp only [ServerPlace.request, Option.map_none, Option.toList_none, List.append_nil]
    case unended => intro idle; cases idle
    case ordered => exact serving.ordered
    case known => exact serving.known
    case newest => intro r waiting; cases waiting

theorem nextLine (serving : x.Serving parse) (cutting : x.server = .cutting) : x.nextLine.Serving parse := by
  have held : x.held = [] := by rw [Threads.held, cutting]; rfl
  unfold Threads.nextLine
  cases found : x.input.idxOf? 10 with
  | none =>
    exact serving.go (.of_place rfl rfl rfl rfl (fun _ => ⟨by rw [cutting]; rfl, by rw [cutting]; rfl⟩)
      (fun r waiting => by cases waiting) fun _ => List.idxOf?_eq_none_iff.mp found)
  | some newline =>
    have cut := cutLines_next found
    dsimp only
    cases line : handleLine (x.input.take newline) with
    | requestTooLarge =>
      refine serving.answer .requestTooLarge (by simp) fun handled whole => ?_
      have connection := whole (by rw [cutting]; rfl)
      have same : Connection.clientLoop {} x.buffers = x.connection := rfl
      rw [same, connection, held, cut, List.map_cons, line]
      simp
    | enqueue text =>
      obtain ⟨handled, answers, before, whole⟩ := serving.answered
      have connection := whole (by rw [cutting]; rfl)
      have later := x.toExchange.later_enqueue text
      constructor
      case answered =>
        refine ⟨handled, answers.imp fun _ _ given => given.later later, before, fun _ => ?_⟩
        have same : Threads.connection { x with
            input := x.input.drop (newline + 1), toExchange := x.toExchange.enqueue text, server := .waiting x.made } =
          x.connection := rfl
        rw [same, connection, held, cut, List.map_cons, line, Threads.held]
        simp only [ServerPlace.request, Option.map_some, Option.toList_some, Exchange.enqueue, Function.update_self,
          List.append_assoc, List.singleton_append, List.append_nil]
      case unended => intro idle; cases idle
      case ordered => exact serving.ordered
      case known => exact fun r member => Nat.lt_succ_of_lt (serving.known r member)
      case newest =>
        intro r waiting
        cases waiting
        exact ⟨rfl, serving.known⟩

theorem wait (serving : x.Serving parse) (sound : x.toExchange.Sound parse) {r : Nat}
    (waiting : x.server = .waiting r) :
    (x.wait r).Serving parse := by
  have asked : x.server.request = some r := by rw [waiting]; rfl
  have newest := (serving.newest r asked).1
  have below : r < x.made := by omega
  have held : x.held = [.enqueue (x.heap r).line] := by rw [Threads.held, asked]; rfl
  have next (handled : List Handled) (whole : x.server.serving = true → x.connection =
      { input := (cutLines x.input).2, handled := handled ++ x.held ++ (cutLines x.input).1.map handleLine }) :
      handled ++ [.enqueue (x.heap r).line] <+: (Connection.clientLoop {} x.buffers).handled ∧
        (true = true → Connection.clientLoop {} x.buffers =
          { input := (cutLines x.input).2
            handled := handled ++ [.enqueue (x.heap r).line] ++ (cutLines x.input).1.map handleLine }) := by
    have connection := whole (by rw [waiting]; rfl)
    have same : Connection.clientLoop {} x.buffers = x.connection := rfl
    rw [same, connection, held]
    exact ⟨List.prefix_append _ _, fun _ => rfl⟩
  unfold Threads.wait
  by_cases completed : (x.heap r).completed = true
  · rw [if_pos completed]
    refine serving.answer ?_ (fun other same => same ▸ asked) next
    rcases sound.answered r below completed with given | ⟨refused, text⟩
    · exact .dispatched below given
    · have inactive : x.active = false := by
        by_contra active
        rw [sound.refusing (Bool.eq_true_of_not_eq_false active)] at refused
        cases refused
      exact text ▸ .serverStopping below inactive
  · rw [if_neg completed]
    by_cases active : x.active = true
    · rw [active]
      exact serving.go (.of_place rfl rfl rfl rfl (fun _ => ⟨by rw [waiting]; rfl, by rw [waiting]; rfl⟩)
        (fun other same => by rw [waiting]; exact same) fun idle => by cases idle)
    · rw [Bool.eq_false_of_not_eq_true active]
      exact serving.answer (.serverStopping below (Bool.eq_false_of_not_eq_true active))
        (fun other same => same ▸ asked) next

theorem serverStep (serving : x.Serving parse) (sound : x.toExchange.Sound parse) {o : Outcome}
    (enabled : x.serverEnabled o) : (x.serverStep o).Serving parse := by
  have away {y : Threads} (exchange : y.toExchange = x.toExchange) (input : y.input = x.input)
      (buffers : y.buffers = x.buffers) (turns : y.turns = x.turns) (ended : y.server.serving = false)
      (none : y.server.request = none) (idle : y.server.idle = false) : y.Serving parse :=
    serving.go (.of_place exchange input buffers turns (fun still => absurd still (by simp [ended]))
      (fun r waiting => absurd waiting (by simp [none])) (fun still => absurd still (by simp [idle])))
  have within {y : Threads} (exchange : y.toExchange = x.toExchange) (input : y.input = x.input)
      (buffers : y.buffers = x.buffers) (turns : y.turns = x.turns) (now : x.server.serving = true)
      (request : y.server.request = x.server.request) (idle : y.server.idle = true → x.server.idle = true) :
      y.Serving parse :=
    serving.go (.of_place exchange input buffers turns (fun _ => ⟨now, request⟩)
      (fun r waiting => request ▸ waiting) (fun still => serving.unended (idle still)))
  unfold Threads.serverStep
  cases place : x.server with
  | checking =>
    dsimp only
    split
    · exact away rfl rfl rfl rfl rfl rfl rfl
    · exact away rfl rfl rfl rfl rfl rfl rfl
  | opening =>
    dsimp only
    split
    · exact away rfl rfl rfl rfl rfl rfl rfl
    · exact away rfl rfl rfl rfl rfl rfl rfl
  | accepting =>
    cases o with
    | connected =>
      constructor
      case answered => exact ⟨[], .nil, List.prefix_refl _, fun _ => rfl⟩
      case unended => exact fun _ => List.not_mem_nil
      case ordered => exact List.Pairwise.nil
      case known => exact List.forall_mem_nil _
      case newest => intro r waiting; cases waiting
    | interrupted => exact away rfl rfl rfl rfl rfl rfl rfl
    | done | data _ | failed => exact away rfl rfl rfl rfl rfl rfl rfl
  | accepted => exact within rfl rfl rfl rfl (by rw [place]; rfl) (by rw [place]; rfl) fun _ => by rw [place]; rfl
  | looping =>
    dsimp only
    split
    · exact within rfl rfl rfl rfl (by rw [place]; rfl) (by rw [place]; rfl) fun _ => by rw [place]; rfl
    · exact away rfl rfl rfl rfl rfl rfl rfl
  | receiving =>
    cases o with
    | data buffer => exact serving.received place enabled.2.1
    | interrupted => exact within rfl rfl rfl rfl (by rw [place]; rfl) (by rw [place]; rfl) fun _ => by rw [place]; rfl
    | done | connected | failed => exact away rfl rfl rfl rfl rfl rfl rfl
  | cutting => exact serving.nextLine place
  | waiting r => exact serving.wait sound place
  | asleep r notified =>
    exact within rfl rfl rfl rfl (by rw [place]; rfl) (by rw [place]; rfl) fun idle => by cases idle
  | sending more =>
    cases more with
    | false => exact away rfl rfl rfl rfl rfl rfl rfl
    | true =>
      cases o with
      | done => exact within rfl rfl rfl rfl (by rw [place]; rfl) (by rw [place]; rfl) fun idle => by cases idle
      | connected | data _ | interrupted | failed => exact away rfl rfl rfl rfl rfl rfl rfl
  | closing => exact away rfl rfl rfl rfl rfl rfl rfl
  | leaving => exact away rfl rfl rfl rfl rfl rfl rfl
  | ended => exact serving

end Serving

/-- What the other threads do to the server thread: at most they notify it. -/
structure Heard (x y : Threads) : Prop where
  input : y.input = x.input
  buffers : y.buffers = x.buffers
  turns : y.turns = x.turns
  server : y.server = x.server ∨ ∃ r notified, x.server = .asleep r notified ∧ y.server = .asleep r true

theorem heard_notify {x y : Threads} (r : Nat) (heard : Heard x y) (same : y.server = x.server) :
    Heard x (y.notify r) := by
  unfold notify
  split
  · next other notified place =>
    split
    · next asked =>
      subst asked
      exact ⟨heard.input, heard.buffers, heard.turns, .inr ⟨other, notified, same ▸ place, rfl⟩⟩
    · exact heard
  · exact heard

theorem heard_workerStep (x : Threads) (parse : Bytes → Option Document) : Heard x (x.workerStep parse) := by
  unfold workerStep
  have heard : Heard x { x with toExchange := x.toExchange.workerStep parse } := ⟨rfl, rfl, rfl, .inl rfl⟩
  cases x.worker with
  | notifying r => exact heard_notify r heard rfl
  | idle | popping | dispatching _ | completing _ _ => exact heard

theorem heard_mainStep (x : Threads) : Heard x x.mainStep := by
  unfold mainStep
  have heard : Heard x { x with toExchange := x.toExchange.mainStep } := ⟨rfl, rfl, rfl, .inl rfl⟩
  cases x.main with
  | completing requests =>
    cases requests with
    | nil => exact heard
    | cons r rest => exact heard_notify r heard rfl
  | disconnecting | unlistening => exact ⟨rfl, rfl, rfl, .inl rfl⟩
  | running | failing | joining | stopped => exact heard

theorem workerStep_exchange (x : Threads) (parse : Bytes → Option Document) :
    (x.workerStep parse).toExchange = x.toExchange.workerStep parse := by
  unfold workerStep
  cases x.worker with
  | notifying r => exact notify_exchange _ r
  | idle | popping | dispatching _ | completing _ _ => rfl

theorem mainStep_exchange (x : Threads) : x.mainStep.toExchange = x.toExchange.mainStep := by
  unfold mainStep
  cases x.main with
  | completing requests =>
    cases requests with
    | nil => rfl
    | cons r rest => exact notify_exchange _ r
  | running | disconnecting | unlistening | failing | joining | stopped => rfl

/-- What another thread does, as a step of the exchange. -/
theorem heard_step (x : Threads) (parse : Bytes → Option Document) {e : Event} (enabled : x.enabled e) :
    (∃ o, e = .server o) ∨ Heard x (x.step parse e) ∧
      ∃ other, x.toExchange.enabled other ∧ (∀ line, other ≠ .enqueue line) ∧
        (x.step parse e).toExchange = x.toExchange.step parse other := by
  cases e with
  | server o => exact .inl ⟨o, rfl⟩
  | boundary => exact .inr ⟨⟨rfl, rfl, rfl, .inl rfl⟩, .boundary, enabled, by simp, rfl⟩
  | worker => exact .inr ⟨x.heard_workerStep parse, .worker, enabled, by simp, x.workerStep_exchange parse⟩
  | emulator event => exact .inr ⟨⟨rfl, rfl, rfl, .inl rfl⟩, .emulator event, enabled, by simp, rfl⟩
  | main => exact .inr ⟨x.heard_mainStep, .main, enabled.1, by simp, x.mainStep_exchange⟩

/-- The server thread only adds requests. -/
theorem serverStep_exchange (x : Threads) (parse : Bytes → Option Document) (o : Outcome) :
    (x.serverStep o).toExchange = x.toExchange ∨
      ∃ line, (x.serverStep o).toExchange = x.toExchange.step parse (.enqueue line) := by
  unfold serverStep
  cases x.server with
  | receiving =>
    cases o with
    | data buffer =>
      refine .inl ?_
      unfold received
      dsimp only
      split
      · rfl
      · rfl
    | done | connected | interrupted | failed => exact .inl rfl
  | cutting =>
    dsimp only
    unfold nextLine
    cases x.input.idxOf? 10 with
    | none => exact .inl rfl
    | some newline =>
      dsimp only
      cases handleLine (x.input.take newline) with
      | requestTooLarge => exact .inl rfl
      | enqueue line => exact .inr ⟨line, rfl⟩
  | waiting r =>
    refine .inl ?_
    dsimp only
    unfold wait
    split
    · rfl
    · split
      · rfl
      · rfl
  | accepting => cases o <;> exact .inl rfl
  | sending more => cases more <;> cases o <;> exact .inl rfl
  | checking | opening | accepted | looping | asleep _ _ | closing | leaving | ended => exact .inl rfl

theorem step_sound {x : Threads} (sound : x.toExchange.Sound parse) {e : Event} (enabled : x.enabled e) :
    (x.step parse e).toExchange.Sound parse := by
  rcases x.heard_step parse enabled with ⟨o, rfl⟩ | ⟨_, other, may, _, same⟩
  · rcases x.serverStep_exchange parse o with same | ⟨line, same⟩
    · exact same ▸ sound
    · exact same ▸ sound.step (.enqueue line) trivial
  · exact same ▸ sound.step other may

theorem made_step (x : Exchange) {e : Exchange.Event} (other : ∀ line, e ≠ .enqueue line) :
    (x.step parse e).made = x.made := by
  cases e with
  | enqueue line => exact absurd rfl (other line)
  | worker =>
    rw [Exchange.step, Exchange.workerStep]
    cases x.worker with
    | popping => cases x.queue <;> rfl
    | idle | dispatching _ | completing _ _ | notifying _ => rfl
  | main =>
    rw [Exchange.step, Exchange.mainStep]
    cases x.main with
    | completing requests => cases requests <;> rfl
    | running | disconnecting | unlistening | failing | joining | stopped => rfl
  | boundary | emulator _ => rfl

theorem serving_step {x : Threads} (sound : x.toExchange.Sound parse) (serving : x.Serving parse) {e : Event}
    (enabled : x.enabled e) : (x.step parse e).Serving parse := by
  rcases x.heard_step parse enabled with ⟨o, rfl⟩ | ⟨heard, other, _, outside, same⟩
  · exact serving.serverStep sound enabled
  · have place : (x.step parse e).server.serving = x.server.serving ∧
        (x.step parse e).server.request = x.server.request ∧ (x.step parse e).server.idle = x.server.idle := by
      rcases heard.server with same | ⟨r, notified, before, after⟩
      · rw [same]
        exact ⟨rfl, rfl, rfl⟩
      · rw [before, after]
        exact ⟨rfl, rfl, rfl⟩
    exact serving.go {
      later := same ▸ x.toExchange.later_step parse other
      made := (congrArg Exchange.made same).trans (made_step x.toExchange outside)
      input := heard.input
      buffers := heard.buffers
      turns := heard.turns
      serving := fun still => ⟨place.1 ▸ still, place.2.1⟩
      request := fun r waiting => place.2.1 ▸ waiting
      idle := fun idle => serving.unended (place.2.2 ▸ idle) }

theorem serving_of_reachable {x : Threads} (reach : (system parse).Reachable x) :
    x.toExchange.Sound parse ∧ x.Serving parse := by
  refine reach.invariant (P := fun t : Threads => t.toExchange.Sound parse ∧ t.Serving parse) (fun _ start => ?_)
    fun x e _ enabled _ both => ⟨step_sound both.1 enabled, serving_step both.1 both.2 enabled⟩
  obtain ⟨machine, rfl⟩ := start
  refine ⟨Exchange.sound_initial machine, ?_⟩
  constructor
  case answered => exact ⟨[], .nil, List.nil_prefix, fun still => by cases still⟩
  case unended => exact fun _ => List.not_mem_nil
  case ordered => exact List.Pairwise.nil
  case known => exact List.forall_mem_nil _
  case newest => intro r waiting; cases waiting

theorem step_later (x : Threads) (parse : Bytes → Option Document) {e : Event} (enabled : x.enabled e) :
    x.toExchange.Later (x.step parse e).toExchange := by
  rcases x.heard_step parse enabled with ⟨o, rfl⟩ | ⟨_, other, _, _, same⟩
  · rcases x.serverStep_exchange parse o with same | ⟨line, same⟩
    · exact same ▸ Exchange.Later.refl _
    · exact same ▸ x.toExchange.later_step parse (.enqueue line)
  · exact same ▸ x.toExchange.later_step parse other

theorem started {x : Threads} (reach : (system parse).Reachable x) : State.system.init x.initial := by
  refine reach.invariant (P := fun t : Threads => State.system.init t.initial) (fun _ start => ?_)
    fun x e _ enabled _ init => ?_
  · obtain ⟨machine, rfl⟩ := start
    exact ⟨machine, rfl⟩
  · have same : (x.step parse e).initial = x.initial := (x.step_later parse enabled).initial
    exact same ▸ init

end Threads

theorem reachable_replay {initial : State} (init : State.system.init initial) (ran : List Act) :
    State.system.Reachable (replay initial ran) := by
  induction ran using List.reverseRecOn with
  | nil => exact .start init
  | append_singleton ran act ih =>
    rw [replay_append]
    exact .next act.event ih trivial trivial

namespace Threads
variable {parse : Bytes → Option Document}

/-- However the threads take turns, the bridge is what one thread would have
made of it: the requests were dispatched one by one, none twice, and in the order
in which they were queued. On every connection the lines that came in are
answered in turn, each by the answer of its own dispatch, and only once the bridge
is stopping perhaps without one. What `failPending` took is never dispatched. -/
theorem answers_in_turn {x : Threads} (reach : (system parse).Reachable x) :
    x.bridge = replay x.initial x.ran ∧ State.system.Reachable x.bridge ∧ x.served.Pairwise (· < ·) ∧
      (∀ r ∈ x.refused, r ∉ x.served) ∧
      ∃ handled, List.Forall₂ (x.Answers parse) handled x.turns ∧ handled <+: x.connection.handled ∧
        (x.turns.filterMap Prod.fst).Pairwise (· < ·) ∧
        (x.server = .receiving → handled = x.connection.handled) := by
  obtain ⟨sound, serving⟩ := serving_of_reachable reach
  have ordered := sound.ordered
  rw [Exchange.schedule, List.append_assoc, List.pairwise_append] at ordered
  obtain ⟨handled, answers, before, whole⟩ := serving.answered
  refine ⟨sound.replayed, ?_, ordered.1, fun r refused served => ?_, handled, answers, before, serving.ordered, ?_⟩
  · rw [sound.replayed]
    exact reachable_replay (started reach) x.ran
  · exact sound.apart r refused (List.mem_append_left _ (List.mem_append_left _ served))
  · intro receiving
    have connection := whole (by rw [receiving]; rfl)
    have unended : 10 ∉ x.input := serving.unended (by rw [receiving]; rfl)
    rw [connection, held, receiving, cutLines_unended unended]
    simp [ServerPlace.request]

/-! One client asks for the status twice. The worker answers once, and then the
bridge is stopped. -/

def sampleLine : Bytes := ascii "\x7b\"id\":7,\"command\":\"emulator.status\"\x7d"

def sampleParse (_ : Bytes) : Option Document :=
  some (sampleDocument [("id", ascii "7"), ("command", ascii "emulator.status")])

def sampleStart : Threads := { bridge := { machine := sampleMachine }, initial := { machine := sampleMachine } }

/-- The first request is answered, and the server thread sleeps on the second. -/
def sampleTalk : List Event :=
  [.server .done, .server .done, .server .connected, .server .done, .server .done,
    .server (.data (sampleLine ++ [10] ++ sampleLine ++ [10])), .server .done, .server .done,
    .boundary, .worker, .worker, .worker, .worker, .worker,
    .server .done, .server .done, .server .done, .server .done, .server .done]

/-- The main thread takes the second request before the worker has come to it. -/
def sampleRefusal : List Event := [.main, .main, .main, .main, .main, .server .done, .server .done]

def sampleRefused : Threads := (sampleTalk ++ sampleRefusal).foldl (step sampleParse) sampleStart

theorem sampleStart_init : (system sampleParse).init sampleStart := ⟨sampleMachine, rfl⟩

theorem sampleRefused_reachable : (system sampleParse).Reachable sampleRefused := by
  have start : (system sampleParse).Reachable sampleStart := .start sampleStart_init
  have admits : (system sampleParse).Admits (fun _ _ => True) sampleStart (sampleTalk ++ sampleRefusal) := by
    decide +kernel
  exact start.run admits

theorem sampleRefused_answered : sampleRefused.turns.map Prod.fst = [some 0, some 1] ∧ sampleRefused.refused = [1] ∧
    0 ∈ sampleRefused.served ∧ 1 ∉ sampleRefused.served ∧
    ∃ handled, List.Forall₂ (sampleRefused.Answers sampleParse) handled sampleRefused.turns ∧
      handled <+: sampleRefused.connection.handled := by
  obtain ⟨_, _, _, apart, handled, answers, before, _⟩ := answers_in_turn sampleRefused_reachable
  have refused : sampleRefused.refused = [1] := by decide +kernel
  have second : 1 ∈ sampleRefused.refused := refused ▸ List.mem_singleton_self 1
  exact ⟨by decide +kernel, refused, by decide +kernel, apart 1 second, handled, answers, before⟩

end Threads

end FzeroVs.Bridge
