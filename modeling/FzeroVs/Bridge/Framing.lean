import FzeroVs.Bridge.Dispatch

namespace FzeroVs.Bridge

/-- `MaximumRequestLine` and the sidecar's `_STREAM_LIMIT`. -/
def maximumRequestLine : Nat := 256 * 1024

def streamLimit : Nat := 1024 * 1024

/-- The complete lines of what has arrived, and what follows the last of them. -/
def cutLines : Bytes → List Bytes × Bytes
  | [] => ([], [])
  | b :: input =>
    let cut := cutLines input
    if b = 10 then ([] :: cut.1, cut.2)
    else
      match cut.1 with
      | [] => ([], b :: cut.2)
      | line :: later => ((b :: line) :: later, cut.2)

/-- What becomes of a line: it is queued for `dispatch`, or answered
`REQUEST_TOO_LARGE`. -/
inductive Handled
  | enqueue (line : Bytes)
  | requestTooLarge
  deriving DecidableEq, Repr

def handleLine (line : Bytes) : Handled :=
  let line := if line.getLast? = some 13 then line.dropLast else line
  if maximumRequestLine < line.length then .requestTooLarge else .enqueue line

/-- A connection in `clientLoop`, and what it did with the lines so far. -/
structure Connection where
  input : Bytes := []
  closed : Bool := false
  handled : List Handled := []

/-- One turn of the loop, after `recv`. Nothing received ends it. -/
def Connection.receive (c : Connection) (buffer : Bytes) : Connection :=
  if c.closed then c
  else if buffer = [] then { c with closed := true }
  else
    let input := c.input ++ buffer
    if maximumRequestLine < input.length ∧ 10 ∉ input then
      { input := input, closed := true, handled := c.handled ++ [.requestTooLarge] }
    else
      let cut := cutLines input
      { c with input := cut.2, handled := c.handled ++ cut.1.map handleLine }

def Connection.clientLoop (c : Connection) (buffers : List Bytes) : Connection := buffers.foldl Connection.receive c

/-- A value in a request of the sidecar. -/
inductive Value
  | number (n : Nat)
  | text (t : Bytes)

/-- `json.dumps`, which escapes the same bytes as the bridge. -/
def Value.dumps : Value → Bytes
  | .number n => decimal n
  | .text t => quoted t

def dumpsField (entry : String × Value) : Bytes := quoted (ascii entry.1) ++ ascii ":" ++ entry.2.dumps

/-- The line that `_exchange_locked` writes, up to its newline. -/
def requestLine (requestId : Nat) (command : String) (parameters : List (String × Value)) : Bytes :=
  let request := ("id", .number requestId) :: ("command", .text (ascii command)) :: parameters
  ascii "\x7b" ++ State.separated (request.map dumpsField) ++ ascii "\x7d"

def memoryWriteLine (requestId address : Nat) (data : Bytes) : Bytes :=
  requestLine requestId "memory.write" [("domain", .text (ascii "wram")), ("address", .number address), ("data", .text data)]

def romPatchLine (requestId offset : Nat) (expected replacement identity : Bytes) : Bytes :=
  requestLine requestId "rom.patch" [("offset", .number offset), ("expected", .text expected),
    ("replacement", .text replacement), ("expected_rom_sha256", .text identity)]

/-- `StreamReader.readline` for a line up to its newline: more than the limit
before the newline is an error. -/
def readline (line : Bytes) : Option Bytes := if streamLimit < line.length then none else some (line ++ [10])

theorem cutLines_unended {input : Bytes} (unended : 10 ∉ input) : cutLines input = ([], input) := by
  induction input with
  | nil => rfl
  | cons b input ih =>
    have other := List.ne_of_not_mem_cons unended
    rw [cutLines, ih (List.not_mem_of_not_mem_cons unended), if_neg (Ne.symm other)]

/-- What is left of one part is cut together with the next. -/
theorem cutLines_append (a b : Bytes) :
    cutLines (a ++ b) =
      ((cutLines a).1 ++ (cutLines ((cutLines a).2 ++ b)).1, (cutLines ((cutLines a).2 ++ b)).2) := by
  induction a with
  | nil => rfl
  | cons x a ih =>
    rw [List.cons_append, cutLines, cutLines, ih]
    by_cases ended : x = 10
    · simp only [if_pos ended]
      rfl
    · simp only [if_neg ended]
      cases lines : (cutLines a).1 with
      | nil =>
        rw [List.nil_append, List.cons_append, cutLines, if_neg ended]
        rfl
      | cons line later => rfl

theorem cutLines_line {line : Bytes} (single : 10 ∉ line) : cutLines (line ++ [10]) = ([line], []) := by
  induction line with
  | nil => rfl
  | cons b line ih =>
    have other := List.ne_of_not_mem_cons single
    rw [List.cons_append, cutLines, ih (List.not_mem_of_not_mem_cons single), if_neg (Ne.symm other)]

theorem handleLine_plain {line : Bytes} (plain : line.getLast? ≠ some 13) :
    handleLine line = if maximumRequestLine < line.length then .requestTooLarge else .enqueue line := by
  rw [handleLine, if_neg plain]

namespace Connection

theorem clientLoop_closed {c : Connection} (closed : c.closed = true) (buffers : List Bytes) :
    c.clientLoop buffers = c := by
  induction buffers with
  | nil => rfl
  | cons buffer buffers ih =>
    have same : c.receive buffer = c := by rw [receive, if_pos closed]
    rw [clientLoop, List.foldl_cons, same]
    exact ih

theorem receive_refused {c : Connection} {buffer : Bytes} (reading : c.closed = false) (some : buffer ≠ [])
    (unended : 10 ∉ c.input ++ buffer) (large : maximumRequestLine < (c.input ++ buffer).length) :
    c.receive buffer = { input := c.input ++ buffer, closed := true, handled := c.handled ++ [.requestTooLarge] } := by
  have opened : ¬ c.closed = true := by rw [reading]; exact nofun
  rw [receive, if_neg opened, if_neg some]
  exact if_pos ⟨large, unended⟩

theorem receive_kept {c : Connection} {buffer : Bytes} (reading : c.closed = false) (some : buffer ≠ [])
    (unended : 10 ∉ c.input ++ buffer) (small : (c.input ++ buffer).length ≤ maximumRequestLine) :
    c.receive buffer = { c with input := c.input ++ buffer } := by
  have opened : ¬ c.closed = true := by rw [reading]; exact nofun
  rw [receive, if_neg opened, if_neg some]
  simp only [cutLines_unended unended, List.map_nil, List.append_nil]
  exact if_neg fun both => Nat.not_lt.mpr small both.1

theorem receive_line {c : Connection} {buffer line : Bytes} (reading : c.closed = false) (some : buffer ≠ [])
    (single : 10 ∉ line) (arrives : c.input ++ buffer = line ++ [10]) :
    c.receive buffer = { c with input := [], handled := c.handled ++ [handleLine line] } := by
  have opened : ¬ c.closed = true := by rw [reading]; exact nofun
  rw [receive, if_neg opened, if_neg some]
  simp only [arrives, cutLines_line single, List.map_cons, List.map_nil]
  exact if_neg fun both => both.2 (List.mem_append_right _ (List.mem_singleton_self _))

theorem last_or_within {line arrived rest : Bytes} (arrives : arrived ++ rest = line ++ [10]) :
    rest = [] ∧ arrived = line ++ [10] ∨ ∃ later, line = arrived ++ later := by
  rcases List.eq_nil_or_concat' rest with rfl | ⟨later, last, rfl⟩
  · exact .inl ⟨rfl, by rwa [List.append_nil] at arrives⟩
  · rw [← List.append_assoc] at arrives
    exact .inr ⟨later, (List.append_inj' arrives rfl).1.symm⟩

/-- A line is handled in the same way however it is cut into buffers. -/
theorem clientLoop_line {c : Connection} {line : Bytes} {buffers : List Bytes} (reading : c.closed = false)
    (single : 10 ∉ line) (plain : line.getLast? ≠ some 13) (received : ∀ buffer ∈ buffers, buffer ≠ [])
    (arrives : c.input ++ buffers.flatten = line ++ [10]) (unended : 10 ∉ c.input) :
    (c.clientLoop buffers).handled = c.handled ++ [handleLine line] := by
  induction buffers generalizing c with
  | nil =>
    rw [List.flatten_nil, List.append_nil] at arrives
    exact absurd (arrives ▸ List.mem_append_right _ (List.mem_singleton_self _)) unended
  | cons buffer buffers ih =>
    have some : buffer ≠ [] := received buffer (List.mem_cons_self ..)
    have others (b : Bytes) (member : b ∈ buffers) : b ≠ [] := received b (List.mem_cons_of_mem _ member)
    have next : c.clientLoop (buffer :: buffers) = (c.receive buffer).clientLoop buffers := rfl
    rw [List.flatten_cons, ← List.append_assoc] at arrives
    rcases last_or_within arrives with ⟨nothing, whole⟩ | ⟨later, whole⟩
    · have last : buffers = [] := by
        by_contra more
        obtain ⟨b, rest, rfl⟩ := List.exists_cons_of_ne_nil more
        rw [List.flatten_cons, List.append_eq_nil_iff] at nothing
        exact others b (List.mem_cons_self ..) nothing.1
      rw [next, receive_line reading some single whole, last]
      rfl
    · have ongoing : 10 ∉ c.input ++ buffer := fun ended => single (whole ▸ List.mem_append_left _ ended)
      rcases Nat.lt_or_ge maximumRequestLine (c.input ++ buffer).length with large | small
      · have size : maximumRequestLine < line.length := by
          rw [whole, List.length_append]
          omega
        have refused := receive_refused reading some ongoing large
        rw [next, clientLoop_closed (by rw [refused]), refused, handleLine_plain plain, if_pos size]
      · have kept := receive_kept reading some ongoing small
        rw [next, ih (by rw [kept]; exact reading) others (by rw [kept]; exact arrives) (by rw [kept]; exact ongoing),
          kept]

end Connection

/-- No byte below the blank, so no newline. -/
def Printed (text : Bytes) : Prop := ∀ b ∈ text, 32 ≤ b

instance (text : Bytes) : Decidable (Printed text) := List.decidableBAll (fun b => 32 ≤ b) text

theorem Printed.append {a b : Bytes} (first : Printed a) (second : Printed b) : Printed (a ++ b) := fun c member =>
  (List.mem_append.mp member).elim (first c) (second c)

theorem Printed.newline {text : Bytes} (printed : Printed text) : 10 ∉ text := fun member =>
  absurd (printed 10 member) (by decide)

theorem printed_escapeByte : ∀ value, Printed (escapeByte value) := forall_byte (by decide +kernel)

theorem printed_jsonEscape (input : Bytes) : Printed (jsonEscape input) := by
  intro b member
  obtain ⟨value, _, inside⟩ := List.mem_flatMap.mp member
  exact printed_escapeByte value b inside

theorem printed_quoted (input : Bytes) : Printed (quoted input) :=
  .append (.append (by decide) (printed_jsonEscape input)) (by decide)

theorem printed_decimal (n : Nat) : Printed (decimal n) := fun b member => (plain_decimal n b member).1

theorem printed_separated {elements : List Bytes} (printed : ∀ x ∈ elements, Printed x) :
    Printed (State.separated elements) := by
  induction elements with
  | nil => exact nofun
  | cons x rest ih =>
    cases rest with
    | nil => exact printed x (List.mem_cons_self ..)
    | cons y rest =>
      have later := ih fun z member => printed z (List.mem_cons_of_mem _ member)
      exact .append (.append (printed x (List.mem_cons_self ..)) (by decide)) later

theorem printed_dumpsField (entry : String × Value) : Printed (dumpsField entry) := by
  refine .append (.append (printed_quoted _) (by decide)) ?_
  cases entry.2 with
  | number n => exact printed_decimal n
  | text t => exact printed_quoted t

theorem printed_requestLine (requestId : Nat) (command : String) (parameters : List (String × Value)) :
    Printed (requestLine requestId command parameters) := by
  refine .append (.append (by decide) (printed_separated fun x member => ?_)) (by decide)
  obtain ⟨entry, _, rfl⟩ := List.mem_map.mp member
  exact printed_dumpsField entry

/-- A client that has no answer outstanding writes a line, and the bridge
receives it in these buffers. -/
structure Sends (c : Connection) (buffers : List Bytes) (line : Bytes) : Prop where
  reading : c.closed = false
  waiting : c.input = []
  received : ∀ buffer ∈ buffers, buffer ≠ []
  arrives : buffers.flatten = line ++ [10]

/-- A request is a line of its own, and is queued unless it is too long. -/
theorem requestLine_handled {c : Connection} {buffers : List Bytes} {requestId : Nat} {command : String}
    {parameters : List (String × Value)} (sends : Sends c buffers (requestLine requestId command parameters)) :
    (c.clientLoop buffers).handled = c.handled ++ [.enqueue (requestLine requestId command parameters)] ↔
      (requestLine requestId command parameters).length ≤ maximumRequestLine := by
  have plain : (requestLine requestId command parameters).getLast? ≠ some 13 := by
    have last : (ascii "\x7d").getLast? = some 125 := by decide
    rw [requestLine, List.getLast?_append, last, Option.some_or]
    decide
  have handled := Connection.clientLoop_line sends.reading (printed_requestLine requestId command parameters).newline
    plain sends.received (by rw [sends.waiting]; exact sends.arrives) (by rw [sends.waiting]; exact nofun)
  rw [handled, handleLine_plain plain, List.append_cancel_left_eq, List.cons_eq_cons]
  constructor
  · intro same
    by_contra large
    rw [if_pos (Nat.not_le.mp large)] at same
    exact nomatch same.1
  · intro small
    rw [if_neg (Nat.not_lt.mpr small)]
    exact ⟨rfl, rfl⟩

/-- What the names and the punctuation of a request take. -/
theorem length_names : (ascii "\x7b").length = 1 ∧ (ascii "\x7d").length = 1 ∧ (ascii ",").length = 1 ∧
    (ascii ":").length = 1 ∧ (quoted (ascii "id")).length = 4 ∧ (quoted (ascii "command")).length = 9 ∧
    (quoted (ascii "memory.write")).length = 14 ∧ (quoted (ascii "domain")).length = 8 ∧
    (quoted (ascii "wram")).length = 6 ∧ (quoted (ascii "address")).length = 9 ∧ (quoted (ascii "data")).length = 6 ∧
    (quoted (ascii "rom.patch")).length = 11 ∧ (quoted (ascii "offset")).length = 8 ∧
    (quoted (ascii "expected")).length = 10 ∧ (quoted (ascii "replacement")).length = 13 ∧
    (quoted (ascii "expected_rom_sha256")).length = 21 := by decide

theorem length_hex {text bytes : Bytes} (decoded : decodeHex text = some bytes) :
    (quoted text).length = 2 * bytes.length + 2 := by
  obtain ⟨length, plain⟩ := decodeHex_text decoded
  rw [length_quoted_plain plain, length]

theorem memoryWriteLine_length (requestId address : Nat) {data bytes : Bytes} (decoded : decodeHex data = some bytes) :
    (memoryWriteLine requestId address data).length =
      2 * bytes.length + (decimal requestId).length + (decimal address).length + 69 := by
  have names := length_names
  simp only [memoryWriteLine, requestLine, List.map_cons, List.map_nil, State.separated, dumpsField, Value.dumps,
    List.length_append, length_hex decoded]
  omega

theorem romPatchLine_length (requestId offset : Nat) {expected original replacement bytes identity sha : Bytes}
    (before : decodeHex expected = some original) (after : decodeHex replacement = some bytes)
    (sized : original.length = bytes.length) (digest : normalizeSha256 identity = some sha) :
    (romPatchLine requestId offset expected replacement identity).length =
      4 * bytes.length + (decimal requestId).length + (decimal offset).length + 159 := by
  have names := length_names
  obtain ⟨length, plain⟩ := normalizeSha256_text digest
  have digits : (quoted identity).length = 66 := by rw [length_quoted_plain plain, length]
  simp only [romPatchLine, requestLine, List.map_cons, List.map_nil, State.separated, dumpsField, Value.dumps,
    List.length_append, length_hex before, length_hex after, digits]
  omega

/-- A `memory.write` within the limits of the bridge always gets through. -/
theorem memoryWriteLine_fits {requestId address : Nat} {data bytes : Bytes} (decoded : decodeHex data = some bytes)
    (numbered : requestId ≤ maximumRequestId) (inside : address ≤ wramSize) (sized : bytes.length ≤ maximumTransfer) :
    (memoryWriteLine requestId address data).length ≤ maximumRequestLine := by
  have id : (decimal requestId).length ≤ 16 :=
    length_decimal_le (by decide) (Nat.lt_of_le_of_lt numbered (by decide))
  have place : (decimal address).length ≤ 6 := length_decimal_le (by decide) (Nat.lt_of_le_of_lt inside (by decide))
  rw [memoryWriteLine_length _ _ decoded]
  unfold maximumTransfer at sized
  unfold maximumRequestLine
  omega

end FzeroVs.Bridge
