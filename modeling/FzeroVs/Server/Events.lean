import FzeroVs.Library.Ring
import FzeroVs.Server.State

namespace FzeroVs

/-- `fz_server_event`. The message is the text up to its terminating zero. -/
structure ServerEvent where
  timeUs : UInt64 := 0
  session : UInt64 := 0
  race : UInt32 := 0
  level : Int := 0
  player : Int := 0
  message : List UInt8 := []
  deriving DecidableEq, Repr

/-- The size of the message array, its terminating zero included. -/
def messageSize : Nat := 512

/-- The part of `struct fz_server` that `log_event` and `fz_server_next_event`
work on. -/
structure EventLog where
  logLevel : Int
  tracePlayer : Int
  droppedEvents : UInt64 := 0
  events : Ring ServerEvent 256 := { cells := fun _ => {} }

/-- The arguments of one `log_event` call, with the time, session and race that
it reads. -/
structure LogCall where
  now : Micros
  session : UInt64
  race : UInt32
  level : Int
  player : Int
  text : List UInt8

/-- What `vsnprintf` leaves room for. -/
def LogCall.event (c : LogCall) : ServerEvent where
  timeUs := c.now.val
  session := c.session
  race := c.race
  level := c.level
  player := c.player
  message := c.text.take (messageSize - 1)

/-- The filter by level and, for movement traces, by player. -/
def LogCall.passes (c : LogCall) (logLevel tracePlayer : Int) : Bool :=
  !(decide (logLevel < c.level) || c.level == 3 && decide (0 ≤ tracePlayer) && tracePlayer != c.player)

namespace EventLog

def logEvent (s : EventLog) (c : LogCall) : EventLog :=
  if c.passes s.logLevel s.tracePlayer then
    let s := if s.events.count = 256 then
        { s with events := s.events.shift, droppedEvents := s.droppedEvents + 1 }
      else s
    { s with events := s.events.put c.event }
  else s

/-- `fz_server_next_event`; `none` is its return value 0. -/
def nextEvent (s : EventLog) : Option ServerEvent × EventLog :=
  if s.events.count = 0 then (none, s) else (some s.events.front, { s with events := s.events.shift })

end EventLog

/-- What the event ring is for: a queue of the accepted events that nobody has
drained, at most 256 of them. -/
structure Backlog where
  queue : List ServerEvent := []
  accepted : List ServerEvent := []
  drained : List ServerEvent := []
  discarded : Nat := 0

namespace Backlog

def accept (b : Backlog) (e : ServerEvent) : Backlog :=
  { b with
    queue := Ring.bounded 256 b.queue e
    accepted := b.accepted ++ [e]
    discarded := if b.queue.length = 256 then b.discarded + 1 else b.discarded }

def take (b : Backlog) : Option ServerEvent × Backlog :=
  match b.queue with
  | [] => (none, b)
  | e :: rest => (some e, { b with queue := rest, drained := b.drained ++ [e] })

end Backlog

inductive EventCall
  | log (c : LogCall)
  | next

/-- What a call returns and leaves behind. -/
def EventLog.call (s : EventLog) : EventCall → Option ServerEvent × EventLog
  | .log c => (none, s.logEvent c)
  | .next => s.nextEvent

def Backlog.call (logLevel tracePlayer : Int) (b : Backlog) : EventCall → Option ServerEvent × Backlog
  | .log c => (none, if c.passes logLevel tracePlayer then b.accept c.event else b)
  | .next => b.take

/-- The answers of a sequence of calls, and the state after it. -/
def runCalls {σ : Type} (call : σ → EventCall → Option ServerEvent × σ) (s : σ) :
    List EventCall → List (Option ServerEvent) × σ
  | [] => ([], s)
  | c :: rest =>
    let (answer, s) := call s c
    let (answers, s) := runCalls call s rest
    (answer :: answers, s)

/-- The ring holds the queue, and its counter counts the discarded events, as
far as 64 bits can. -/
structure Refines (logLevel tracePlayer : Int) (s : EventLog) (b : Backlog) : Prop where
  logLevel : s.logLevel = logLevel
  tracePlayer : s.tracePlayer = tracePlayer
  sound : s.events.Sound
  contents : s.events.contents = b.queue
  dropped : s.droppedEvents = UInt64.ofNat b.discarded

theorem EventLog.logEvent_events {s : EventLog} {c : LogCall} (passes : c.passes s.logLevel s.tracePlayer = true) :
    s.logEvent c =
      { s with
        events := s.events.push c.event
        droppedEvents := if s.events.count = 256 then s.droppedEvents + 1 else s.droppedEvents } := by
  rw [logEvent, if_pos passes, Ring.push]
  split <;> rfl

theorem EventLog.nextEvent_events (s : EventLog) :
    s.nextEvent = (s.events.pop.1, { s with events := s.events.pop.2 }) := by
  unfold nextEvent Ring.pop
  split <;> rfl

theorem Backlog.take_eq (b : Backlog) :
    b.take.1 = b.queue.head? ∧ b.take.2.queue = b.queue.tail ∧ b.take.2.discarded = b.discarded := by
  unfold take
  split
  next empty => rw [empty]; exact ⟨rfl, rfl, rfl⟩
  next e rest some => rw [some]; exact ⟨rfl, rfl, rfl⟩

/-- Each call keeps ring and queue together and answers the same. -/
theorem Refines.call {logLevel tracePlayer : Int} {s : EventLog} {b : Backlog}
    (refines : Refines logLevel tracePlayer s b) (c : EventCall) :
    (s.call c).1 = (b.call logLevel tracePlayer c).1 ∧
      Refines logLevel tracePlayer (s.call c).2 (b.call logLevel tracePlayer c).2 := by
  cases c with
  | log c =>
    refine ⟨rfl, ?_⟩
    have filter : c.passes s.logLevel s.tracePlayer = c.passes logLevel tracePlayer := by
      rw [refines.logLevel, refines.tracePlayer]
    simp only [EventLog.call, Backlog.call]
    by_cases passes : c.passes logLevel tracePlayer = true
    · rw [if_pos passes, EventLog.logEvent_events (filter.trans passes)]
      have full : s.events.count = b.queue.length := by
        rw [← refines.contents, Ring.contents_length]
      refine ⟨refines.logLevel, refines.tracePlayer, refines.sound.push _, ?_, ?_⟩
      · rw [Ring.contents_push refines.sound, refines.contents]
        rfl
      · simp only [Backlog.accept, full]
        split
        · rw [refines.dropped, UInt64.ofNat_add]
          rfl
        · exact refines.dropped
    · rw [if_neg passes, EventLog.logEvent, if_neg (by rw [filter]; exact passes)]
      exact refines
  | next =>
    obtain ⟨answer, queue, discarded⟩ := b.take_eq
    simp only [EventLog.call, Backlog.call, EventLog.nextEvent_events]
    refine ⟨?_, refines.logLevel, refines.tracePlayer, refines.sound.pop, ?_, ?_⟩
    · rw [answer, Ring.pop_front, refines.contents]
    · rw [queue, Ring.pop_contents, refines.contents]
    · rw [discarded]
      exact refines.dropped

theorem Refines.run {logLevel tracePlayer : Int} {s : EventLog} {b : Backlog}
    (refines : Refines logLevel tracePlayer s b) (calls : List EventCall) :
    (runCalls EventLog.call s calls).1 = (runCalls (Backlog.call logLevel tracePlayer) b calls).1 ∧
      Refines logLevel tracePlayer (runCalls EventLog.call s calls).2
        (runCalls (Backlog.call logLevel tracePlayer) b calls).2 := by
  induction calls generalizing s b with
  | nil => exact ⟨rfl, refines⟩
  | cons c rest ih =>
    obtain ⟨answer, next⟩ := refines.call c
    obtain ⟨answers, last⟩ := ih next
    exact ⟨congrArg₂ List.cons answer answers, last⟩

/-- Every accepted event is drained, discarded or still queued, and those that
are queued are the latest. -/
structure Backlog.Accounted (b : Backlog) : Prop where
  capacity : b.queue.length ≤ 256
  balance : b.accepted.length = b.drained.length + b.queue.length + b.discarded
  latest : ∃ gone, b.accepted = gone ++ b.queue

theorem Backlog.Accounted.accept {b : Backlog} (accounted : b.Accounted) (e : ServerEvent) :
    (b.accept e).Accounted := by
  obtain ⟨gone, latest⟩ := accounted.latest
  have balance := accounted.balance
  have capacity := accounted.capacity
  by_cases full : b.queue.length = 256
  · obtain ⟨first, rest, queue⟩ := List.exists_cons_of_length_pos (l := b.queue) (by omega)
    have accepted : b.accept e =
        { b with queue := rest ++ [e], accepted := b.accepted ++ [e], discarded := b.discarded + 1 } := by
      rw [Backlog.accept, Ring.bounded, if_pos full, if_pos full, queue, List.tail_cons]
    have length : rest.length = 255 := by
      rw [queue, List.length_cons] at full
      omega
    rw [accepted]
    refine ⟨?_, ?_, gone ++ [first], ?_⟩
    · rw [List.length_append, length]
      exact Nat.le_refl _
    · simp only [List.length_append, List.length_singleton]
      omega
    · simp only [latest, queue, List.append_assoc, List.cons_append, List.nil_append]
  · have accepted : b.accept e =
        { b with queue := b.queue ++ [e], accepted := b.accepted ++ [e] } := by
      rw [Backlog.accept, Ring.bounded, if_neg full, if_neg full]
    rw [accepted]
    refine ⟨?_, ?_, gone, ?_⟩
    · rw [List.length_append, List.length_singleton]
      omega
    · simp only [List.length_append, List.length_singleton]
      omega
    · simp only [latest, List.append_assoc]

theorem Backlog.Accounted.take {b : Backlog} (accounted : b.Accounted) : b.take.2.Accounted := by
  obtain ⟨gone, latest⟩ := accounted.latest
  have balance := accounted.balance
  have capacity := accounted.capacity
  unfold Backlog.take
  split
  next => exact accounted
  next e rest queue =>
    rw [queue] at latest
    rw [queue, List.length_cons] at balance capacity
    refine ⟨?_, ?_, gone ++ [e], ?_⟩
    · dsimp only
      omega
    · simp only [List.length_append, List.length_singleton]
      omega
    · simp only [latest, List.append_assoc, List.singleton_append]

theorem Backlog.Accounted.run {b : Backlog} (accounted : b.Accounted) (logLevel tracePlayer : Int)
    (calls : List EventCall) : (runCalls (Backlog.call logLevel tracePlayer) b calls).2.Accounted := by
  induction calls generalizing b with
  | nil => exact accounted
  | cons c rest ih =>
    refine ih ?_
    cases c with
    | log c =>
      dsimp only [Backlog.call]
      split
      · exact accounted.accept c.event
      · exact accounted
    | next => exact accounted.take

/-- The freshly allocated server. -/
def EventLog.create (logLevel tracePlayer : Int) : EventLog where
  logLevel := logLevel
  tracePlayer := tracePlayer

theorem create_refines (logLevel tracePlayer : Int) :
    Refines logLevel tracePlayer (EventLog.create logLevel tracePlayer) {} :=
  ⟨rfl, rfl, ⟨Nat.succ_pos 255, Nat.zero_le 256⟩, rfl, rfl⟩

/-- The server and the queue it refines, after the same calls. -/
def eventRun (logLevel tracePlayer : Int) (calls : List EventCall) : List (Option ServerEvent) × EventLog :=
  runCalls EventLog.call (EventLog.create logLevel tracePlayer) calls

def backlogRun (logLevel tracePlayer : Int) (calls : List EventCall) : List (Option ServerEvent) × Backlog :=
  runCalls (Backlog.call logLevel tracePlayer) {} calls

/-- Logging alone, from an empty queue. -/
theorem backlog_full (e : LogCall) (passes : e.passes 1 (-1) = true) (k : Nat) (b : Backlog)
    (small : b.queue.length ≤ 256) :
    let t := (runCalls (Backlog.call 1 (-1)) b (List.replicate k (.log e))).2
    t.accepted.length = b.accepted.length + k ∧ t.drained = b.drained ∧
      t.queue.length = min 256 (b.queue.length + k) := by
  induction k generalizing b with
  | zero =>
    refine ⟨rfl, rfl, ?_⟩
    change b.queue.length = min 256 (b.queue.length + 0)
    omega
  | succ k ih =>
    have called : (b.call 1 (-1) (.log e)).2 = b.accept e.event := if_pos passes
    have grown : (b.accept e.event).queue.length = min 256 (b.queue.length + 1) := by
      simp only [Backlog.accept, Ring.bounded]
      split <;> simp only [List.length_append, List.length_tail, List.length_singleton] <;> omega
    have counted : (b.accept e.event).accepted.length = b.accepted.length + 1 := by
      rw [Backlog.accept, List.length_append, List.length_singleton]
    obtain ⟨accepted, drained, queue⟩ := ih (b.accept e.event) (by omega)
    rw [counted] at accepted
    rw [grown] at queue
    change let t := (runCalls (Backlog.call 1 (-1)) (b.call 1 (-1) (.log e)).2 (List.replicate k (.log e))).2
      t.accepted.length = _ ∧ t.drained = _ ∧ t.queue.length = _
    rw [called]
    exact ⟨by omega, drained, by omega⟩

theorem backlogRun_accounted (logLevel tracePlayer : Int) (calls : List EventCall) :
    (backlogRun logLevel tracePlayer calls).2.Accounted :=
  Backlog.Accounted.run ⟨Nat.zero_le _, rfl, [], rfl⟩ logLevel tracePlayer calls

theorem eventRun_count (logLevel tracePlayer : Int) (calls : List EventCall) :
    (eventRun logLevel tracePlayer calls).2.events.count =
      (backlogRun logLevel tracePlayer calls).2.queue.length := by
  have refines := ((create_refines logLevel tracePlayer).run calls).2
  rw [← Ring.contents_length]
  exact congrArg List.length refines.contents

theorem eventRun_dropped (logLevel tracePlayer : Int) (calls : List EventCall) :
    (eventRun logLevel tracePlayer calls).2.droppedEvents.toNat =
      (backlogRun logLevel tracePlayer calls).2.discarded % 2 ^ 64 := by
  have refines := ((create_refines logLevel tracePlayer).run calls).2
  exact (congrArg UInt64.toNat refines.dropped).trans (UInt64.toNat_ofNat' ..)

/-- The ring answers as the queue does, holds its elements and stays inside
its array; and what was accepted is drained, queued or counted as discarded,
the counter being of 64 bits. -/
theorem event_ring_refines (logLevel tracePlayer : Int) (calls : List EventCall) :
    (eventRun logLevel tracePlayer calls).1 = (backlogRun logLevel tracePlayer calls).1 ∧
    (eventRun logLevel tracePlayer calls).2.events.contents = (backlogRun logLevel tracePlayer calls).2.queue ∧
    (eventRun logLevel tracePlayer calls).2.nextEvent.1 =
      (backlogRun logLevel tracePlayer calls).2.queue.head? ∧
    (eventRun logLevel tracePlayer calls).2.events.count ≤ 256 ∧
    (eventRun logLevel tracePlayer calls).2.events.head < 256 ∧
    (∃ gone, (backlogRun logLevel tracePlayer calls).2.accepted =
      gone ++ (backlogRun logLevel tracePlayer calls).2.queue) ∧
    (backlogRun logLevel tracePlayer calls).2.accepted.length =
      (backlogRun logLevel tracePlayer calls).2.drained.length +
        (eventRun logLevel tracePlayer calls).2.events.count +
        (backlogRun logLevel tracePlayer calls).2.discarded ∧
    (eventRun logLevel tracePlayer calls).2.droppedEvents.toNat =
      (backlogRun logLevel tracePlayer calls).2.discarded % 2 ^ 64 := by
  obtain ⟨answers, refines⟩ := (create_refines logLevel tracePlayer).run calls
  have accounted := backlogRun_accounted logLevel tracePlayer calls
  refine ⟨answers, refines.contents, ?_, refines.sound.count, refines.sound.head, accounted.latest, ?_, ?_⟩
  · rw [EventLog.nextEvent_events, Ring.pop_front]
    exact congrArg List.head? refines.contents
  · rw [eventRun_count]
    exact accounted.balance
  · exact eventRun_dropped logLevel tracePlayer calls

def sampleLog : LogCall := ⟨⟨1000000, Micros.second_below⟩, 7, 1, 1, -1, []⟩

/-- A server that logs and is never drained. -/
theorem sampleLog_full (k : Nat) :
    (backlogRun 1 (-1) (List.replicate k (.log sampleLog))).2.accepted.length = k ∧
    (backlogRun 1 (-1) (List.replicate k (.log sampleLog))).2.drained.length = 0 ∧
    (eventRun 1 (-1) (List.replicate k (.log sampleLog))).2.events.count = min 256 k ∧
    (eventRun 1 (-1) (List.replicate k (.log sampleLog))).2.droppedEvents.toNat = (k - 256) % 2 ^ 64 := by
  have filled := backlog_full sampleLog rfl k {} (Nat.zero_le _)
  have balance := (backlogRun_accounted 1 (-1) (List.replicate k (.log sampleLog))).balance
  have dropped := eventRun_dropped 1 (-1) (List.replicate k (.log sampleLog))
  have count := eventRun_count 1 (-1) (List.replicate k (.log sampleLog))
  change (backlogRun 1 (-1) (List.replicate k (.log sampleLog))).2.accepted.length = 0 + k ∧
    (backlogRun 1 (-1) (List.replicate k (.log sampleLog))).2.drained = [] ∧
    (backlogRun 1 (-1) (List.replicate k (.log sampleLog))).2.queue.length = min 256 (0 + k) at filled
  obtain ⟨accepted, drained, queue⟩ := filled
  rw [accepted, drained, queue, List.length_nil] at balance
  have discarded : (backlogRun 1 (-1) (List.replicate k (.log sampleLog))).2.discarded = k - 256 := by omega
  rw [discarded] at dropped
  exact ⟨by omega, by rw [drained, List.length_nil], by omega, dropped⟩

/-- When 2^64 events have been discarded the counter is back at zero. -/
theorem dropped_events_wrap : ¬ ∀ (logLevel tracePlayer : Int) (calls : List EventCall),
    (backlogRun logLevel tracePlayer calls).2.accepted.length =
      (backlogRun logLevel tracePlayer calls).2.drained.length +
        (eventRun logLevel tracePlayer calls).2.events.count +
        (eventRun logLevel tracePlayer calls).2.droppedEvents.toNat := by
  intro always
  have balance := always 1 (-1) (List.replicate (2 ^ 64 + 256) (.log sampleLog))
  obtain ⟨accepted, drained, count, dropped⟩ := sampleLog_full (2 ^ 64 + 256)
  rw [accepted, drained, count, dropped] at balance
  omega

end FzeroVs
