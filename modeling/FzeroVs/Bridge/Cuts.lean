import FzeroVs.Bridge.Framing

namespace FzeroVs.Bridge

/-- The buffer of `clientLoop`. -/
def bufferSize : Nat := 4096

/-- A stream as `recv` hands it over. -/
structure Cuts (stream : Bytes) (buffers : List Bytes) : Prop where
  sized : ∀ b ∈ buffers, b ≠ [] ∧ b.length ≤ bufferSize
  whole : buffers.flatten = stream

/-- A line without the CR before its LF. -/
def content (line : Bytes) : Bytes := if line.getLast? = some 13 then line.dropLast else line

theorem content_length (line : Bytes) : (content line).length ≤ line.length := by
  unfold content
  split
  · rw [List.length_dropLast]
    exact Nat.sub_le ..
  · exact Nat.le_refl _

theorem handleLine_content (line : Bytes) :
    handleLine line =
      if maximumRequestLine < (content line).length then .requestTooLarge else .enqueue (content line) :=
  rfl

/-- What can come of complete lines and of what follows the last of them. A line
that is too long is refused when a buffer ends in it too late, and is only seen
as a whole when it ends in the buffer in which it grows too long. -/
inductive Outcome : List Bytes → Bytes → List Handled → Prop
  | rest {tail} : tail.length ≤ maximumRequestLine → Outcome [] tail []
  | endless {tail} : maximumRequestLine < tail.length → Outcome [] tail [.requestTooLarge]
  | line {line later tail handled} : line.length < maximumRequestLine + bufferSize → Outcome later tail handled →
      Outcome (line :: later) tail (handleLine line :: handled)
  | refused {line later tail} : maximumRequestLine < line.length → Outcome (line :: later) tail [.requestTooLarge]

/-! Lines are cut where their newlines are. -/

theorem cutLines_join (stream : Bytes) :
    (cutLines stream).1.flatMap (· ++ [10]) ++ (cutLines stream).2 = stream := by
  induction stream with
  | nil => rfl
  | cons b stream ih =>
    rw [cutLines]
    by_cases ended : b = 10
    · rw [if_pos ended, ended]
      exact congrArg (10 :: ·) ih
    · rw [if_neg ended]
      cases lines : (cutLines stream).1 with
      | nil =>
        rw [lines] at ih
        exact congrArg (b :: ·) ih
      | cons line later =>
        rw [lines] at ih
        exact congrArg (b :: ·) ih

theorem cutLines_single (stream : Bytes) :
    (∀ line ∈ (cutLines stream).1, 10 ∉ line) ∧ 10 ∉ (cutLines stream).2 := by
  induction stream with
  | nil => exact ⟨List.forall_mem_nil _, List.not_mem_nil⟩
  | cons b stream ih =>
    obtain ⟨single, unended⟩ := ih
    rw [cutLines]
    by_cases ended : b = 10
    · rw [if_pos ended]
      exact ⟨List.forall_mem_cons.mpr ⟨List.not_mem_nil, single⟩, unended⟩
    · rw [if_neg ended]
      cases lines : (cutLines stream).1 with
      | nil => exact ⟨List.forall_mem_nil _, List.not_mem_cons_of_ne_of_not_mem (Ne.symm ended) unended⟩
      | cons line later =>
        rw [lines, List.forall_mem_cons] at single
        have first := List.not_mem_cons_of_ne_of_not_mem (Ne.symm ended) single.1
        exact ⟨List.forall_mem_cons.mpr ⟨first, single.2⟩, unended⟩

theorem cutLines_lengths (stream : Bytes) :
    (∀ line ∈ (cutLines stream).1, line.length < stream.length) ∧
      (cutLines stream).2.length ≤ stream.length := by
  induction stream with
  | nil => exact ⟨List.forall_mem_nil _, Nat.le_refl _⟩
  | cons b stream ih =>
    obtain ⟨short, rest⟩ := ih
    rw [cutLines, List.length_cons]
    by_cases ended : b = 10
    · rw [if_pos ended]
      exact ⟨List.forall_mem_cons.mpr ⟨Nat.succ_pos _, fun line member => Nat.lt_succ_of_lt (short line member)⟩,
        Nat.le_succ_of_le rest⟩
    · rw [if_neg ended]
      cases lines : (cutLines stream).1 with
      | nil => exact ⟨List.forall_mem_nil _, Nat.succ_le_succ rest⟩
      | cons line later =>
        rw [lines, List.forall_mem_cons] at short
        exact ⟨List.forall_mem_cons.mpr ⟨Nat.succ_lt_succ short.1,
          fun other member => Nat.lt_succ_of_lt (short.2 other member)⟩, Nat.le_succ_of_le rest⟩

theorem cutLines_ended {stream : Bytes} (ended : 10 ∈ stream) : (cutLines stream).1 ≠ [] := by
  intro unfinished
  have joined := cutLines_join stream
  rw [unfinished, List.flatMap_nil, List.nil_append] at joined
  exact (cutLines_single stream).2 (joined.symm ▸ ended)

/-- What follows the last newline is in the last buffer that has one. -/
theorem cutLines_tail (part : Bytes) {rest : Bytes} (ended : 10 ∈ rest) :
    (cutLines (part ++ rest)).2 = (cutLines rest).2 := by
  induction part with
  | nil => rfl
  | cons b part ih =>
    rw [List.cons_append, cutLines]
    by_cases newline : b = 10
    · rw [if_pos newline]
      exact ih
    · rw [if_neg newline]
      cases lines : (cutLines (part ++ rest)).1 with
      | nil => exact absurd lines (cutLines_ended (List.mem_append_right part ended))
      | cons line later => exact ih

/-- What has no newline is all in the first line, or in what follows the last. -/
theorem cutLines_first {part : Bytes} (unended : 10 ∉ part) (rest : Bytes) :
    (cutLines (part ++ rest)).1 = [] ∧ part.length ≤ (cutLines (part ++ rest)).2.length ∨
      ∃ line later, (cutLines (part ++ rest)).1 = line :: later ∧ part.length ≤ line.length := by
  induction part with
  | nil =>
    rw [List.nil_append]
    cases (cutLines rest).1 with
    | nil => exact .inl ⟨rfl, Nat.zero_le _⟩
    | cons line later => exact .inr ⟨line, later, rfl, Nat.zero_le _⟩
  | cons b part ih =>
    have other := List.ne_of_not_mem_cons unended
    rw [List.cons_append, cutLines, if_neg (Ne.symm other)]
    rcases ih (List.not_mem_of_not_mem_cons unended) with ⟨unfinished, within⟩ | ⟨line, later, lines, within⟩
    · rw [unfinished]
      exact .inl ⟨rfl, Nat.succ_le_succ within⟩
    · rw [lines]
      exact .inr ⟨b :: line, later, rfl, Nat.succ_le_succ within⟩

theorem Connection.receive_ended {c : Connection} {buffer : Bytes} (reading : c.closed = false)
    (ended : 10 ∈ buffer) :
    c.receive buffer =
      { c with
        input := (cutLines (c.input ++ buffer)).2
        handled := c.handled ++ (cutLines (c.input ++ buffer)).1.map handleLine } := by
  have opened : ¬ c.closed = true := by rw [reading]; exact nofun
  rw [receive, if_neg opened, if_neg (List.ne_nil_of_mem ended)]
  exact if_neg fun both => both.2 (List.mem_append_right _ ended)

/-! Whatever the buffers are, what comes of a stream is one of the outcomes. -/

theorem Outcome.append {lines later : List Bytes} {tail : Bytes} {handled : List Handled}
    (short : ∀ line ∈ lines, line.length < maximumRequestLine + bufferSize) (rest : Outcome later tail handled) :
    Outcome (lines ++ later) tail (lines.map handleLine ++ handled) := by
  induction lines with
  | nil => exact rest
  | cons line lines ih =>
    rw [List.forall_mem_cons] at short
    exact .line short.1 (ih short.2)

theorem outcome_large {part : Bytes} (unended : 10 ∉ part) (large : maximumRequestLine < part.length) (rest : Bytes) :
    Outcome (cutLines (part ++ rest)).1 (cutLines (part ++ rest)).2 [.requestTooLarge] := by
  rcases cutLines_first unended rest with ⟨unfinished, within⟩ | ⟨line, later, lines, within⟩
  · rw [unfinished]
    exact .endless (Nat.lt_of_lt_of_le large within)
  · rw [lines]
    exact .refused (Nat.lt_of_lt_of_le large within)

theorem outcome_of_cuts {c : Connection} {buffers : List Bytes} (reading : c.closed = false) (unended : 10 ∉ c.input)
    (small : c.input.length ≤ maximumRequestLine) (sized : ∀ b ∈ buffers, b ≠ [] ∧ b.length ≤ bufferSize) :
    ∃ handled, (c.clientLoop buffers).handled = c.handled ++ handled ∧
      Outcome (cutLines (c.input ++ buffers.flatten)).1 (cutLines (c.input ++ buffers.flatten)).2 handled := by
  induction buffers generalizing c with
  | nil =>
    rw [List.flatten_nil, List.append_nil, cutLines_unended unended]
    exact ⟨[], (List.append_nil _).symm, .rest small⟩
  | cons buffer buffers ih =>
    rw [List.forall_mem_cons] at sized
    obtain ⟨⟨some, length⟩, others⟩ := sized
    have next : c.clientLoop (buffer :: buffers) = (c.receive buffer).clientLoop buffers := rfl
    rw [next, List.flatten_cons, ← List.append_assoc]
    by_cases ended : 10 ∈ buffer
    · have received := Connection.receive_ended reading ended
      have tail : (cutLines (c.input ++ buffer)).2.length ≤ maximumRequestLine := by
        rw [cutLines_tail c.input ended]
        have inside := (cutLines_lengths buffer).2
        unfold bufferSize at length
        unfold maximumRequestLine
        omega
      have short : ∀ line ∈ (cutLines (c.input ++ buffer)).1, line.length < maximumRequestLine + bufferSize := by
        intro line member
        have within := (cutLines_lengths (c.input ++ buffer)).1 line member
        rw [List.length_append] at within
        omega
      obtain ⟨handled, same, outcome⟩ := ih (c := c.receive buffer) (by rw [received]; exact reading)
        (by rw [received]; exact (cutLines_single _).2) (by rw [received]; exact tail) others
      rw [cutLines_append]
      rw [received] at same outcome ⊢
      exact ⟨_, same.trans (List.append_assoc ..), outcome.append short⟩
    · have ongoing : 10 ∉ c.input ++ buffer := by
        rw [List.mem_append]
        exact not_or.mpr ⟨unended, ended⟩
      rcases Nat.lt_or_ge maximumRequestLine (c.input ++ buffer).length with large | fits
      · have refused := Connection.receive_refused reading some ongoing large
        rw [Connection.clientLoop_closed (by rw [refused]), refused]
        exact ⟨[.requestTooLarge], rfl, outcome_large ongoing large buffers.flatten⟩
      · have kept := Connection.receive_kept reading some ongoing fits
        obtain ⟨handled, same, outcome⟩ := ih (c := c.receive buffer) (by rw [kept]; exact reading)
          (by rw [kept]; exact ongoing) (by rw [kept]; exact fits) others
        rw [kept] at same outcome ⊢
        exact ⟨handled, same, outcome⟩

/-! Each of the outcomes is what comes of the stream in some buffers. -/

theorem Cuts.append {a b : Bytes} {first later : List Bytes} (left : Cuts a first) (right : Cuts b later) :
    Cuts (a ++ b) (first ++ later) where
  sized := fun buffer member => (List.mem_append.mp member).elim (left.sized buffer) (right.sized buffer)
  whole := by rw [List.flatten_append, left.whole, right.whole]

/-- A stream one byte at a time. -/
def singles (stream : Bytes) : List Bytes := stream.map fun b => [b]

theorem cuts_singles (stream : Bytes) : Cuts stream (singles stream) where
  sized := by
    intro buffer member
    obtain ⟨b, _, rfl⟩ := List.mem_map.mp member
    exact ⟨nofun, (by decide : 1 ≤ bufferSize)⟩
  whole := by
    induction stream with
    | nil => rfl
    | cons b stream ih => exact congrArg (b :: ·) ih

theorem cuts_one {buffer : Bytes} (some : buffer ≠ []) (sized : buffer.length ≤ bufferSize) :
    Cuts buffer [buffer] where
  sized := List.forall_mem_cons.mpr ⟨⟨some, sized⟩, nofun⟩
  whole := List.append_nil buffer

namespace Connection

theorem clientLoop_append (c : Connection) (first later : List Bytes) :
    c.clientLoop (first ++ later) = (c.clientLoop first).clientLoop later :=
  List.foldl_append

theorem clientLoop_kept {c : Connection} {part : Bytes} (reading : c.closed = false) (unended : 10 ∉ c.input ++ part)
    (small : (c.input ++ part).length ≤ maximumRequestLine) :
    c.clientLoop (singles part) = { c with input := c.input ++ part } := by
  induction part generalizing c with
  | nil =>
    rw [List.append_nil]
    rfl
  | cons b part ih =>
    have whole : c.input ++ b :: part = c.input ++ [b] ++ part := (List.append_cons ..)
    rw [whole] at unended small
    have ongoing : 10 ∉ c.input ++ [b] := fun member => unended (List.mem_append_left _ member)
    have fits : (c.input ++ [b]).length ≤ maximumRequestLine := by
      rw [List.length_append] at small
      exact Nat.le_trans (Nat.le_add_right ..) small
    have kept := receive_kept reading (List.cons_ne_nil b []) ongoing fits
    have next : c.clientLoop (singles (b :: part)) = (c.receive [b]).clientLoop (singles part) := rfl
    rw [next, kept, ih (c := { c with input := c.input ++ [b] }) reading unended small, whole]

theorem clientLoop_refused {c : Connection} {part : Bytes} (reading : c.closed = false)
    (unended : 10 ∉ c.input ++ part) (fits : c.input.length ≤ maximumRequestLine)
    (large : maximumRequestLine < (c.input ++ part).length) :
    (c.clientLoop (singles part)).closed = true ∧
      (c.clientLoop (singles part)).handled = c.handled ++ [.requestTooLarge] := by
  induction part generalizing c with
  | nil =>
    rw [List.append_nil] at large
    exact absurd fits (Nat.not_le.mpr large)
  | cons b part ih =>
    have whole : c.input ++ b :: part = c.input ++ [b] ++ part := (List.append_cons ..)
    rw [whole] at unended large
    have ongoing : 10 ∉ c.input ++ [b] := fun member => unended (List.mem_append_left _ member)
    have next : c.clientLoop (singles (b :: part)) = (c.receive [b]).clientLoop (singles part) := rfl
    rw [next]
    rcases Nat.lt_or_ge maximumRequestLine (c.input ++ [b]).length with beyond | small
    · have refused := receive_refused reading (List.cons_ne_nil b []) ongoing beyond
      rw [clientLoop_closed (by rw [refused]), refused]
      exact ⟨rfl, rfl⟩
    · have kept := receive_kept reading (List.cons_ne_nil b []) ongoing small
      rw [kept]
      exact ih (c := { c with input := c.input ++ [b] }) reading unended small large

end Connection

theorem cuts_of_outcome {lines : List Bytes} {tail : Bytes} {handled : List Handled} (o : Outcome lines tail handled)
    (single : ∀ line ∈ lines, 10 ∉ line) (unended : 10 ∉ tail) {c : Connection} (reading : c.closed = false)
    (waiting : c.input = []) :
    ∃ buffers, Cuts (lines.flatMap (· ++ [10]) ++ tail) buffers ∧
      (c.clientLoop buffers).handled = c.handled ++ handled := by
  have empty (part : Bytes) : c.input ++ part = part := by rw [waiting, List.nil_append]
  have fits : c.input.length ≤ maximumRequestLine := by
    rw [waiting]
    exact Nat.zero_le _
  induction o generalizing c with
  | @rest tail small =>
    refine ⟨singles tail, cuts_singles tail, ?_⟩
    rw [Connection.clientLoop_kept reading (by rwa [empty]) (by rwa [empty]), List.append_nil]
  | @endless tail large =>
    have refused := Connection.clientLoop_refused reading (by rwa [empty]) fits (by rwa [empty])
    exact ⟨singles tail, cuts_singles tail, refused.2⟩
  | @line line later tail handled short _ ih =>
    rw [List.forall_mem_cons] at single
    obtain ⟨alone, others⟩ := single
    -- As much as fits arrives byte by byte, and all the rest of the line at once.
    let kept := line.take maximumRequestLine
    let last := line.drop maximumRequestLine ++ [10]
    have whole : kept ++ last = line ++ [10] := by
      rw [← List.append_assoc, List.take_append_drop]
    have ongoing : 10 ∉ kept := fun member => alone (List.mem_of_mem_take member)
    have small : kept.length ≤ maximumRequestLine := List.length_take_le ..
    have some : last ≠ [] := List.append_ne_nil_of_right_ne_nil _ (List.cons_ne_nil 10 [])
    have sized : last.length ≤ bufferSize := by
      rw [List.length_append, List.length_drop, List.length_singleton]
      unfold bufferSize at short ⊢
      omega
    have first := Connection.clientLoop_kept reading (by rwa [empty]) (by rwa [empty])
    have ended := Connection.receive_line (c := { c with input := c.input ++ kept }) reading some alone
      (by rw [empty]; exact whole)
    let next := { c with input := [], handled := c.handled ++ [handleLine line] }
    obtain ⟨buffers, cuts, same⟩ := ih others unended (c := next) reading rfl (fun _ => rfl) (Nat.zero_le _)
    refine ⟨singles kept ++ [last] ++ buffers, ?_, ?_⟩
    · have joined := ((cuts_singles kept).append (cuts_one some sized)).append cuts
      rw [whole] at joined
      rw [List.flatMap_cons, List.append_assoc]
      exact joined
    · rw [Connection.clientLoop_append, Connection.clientLoop_append, first]
      have turn : Connection.clientLoop { c with input := c.input ++ kept } [last] =
        Connection.receive { c with input := c.input ++ kept } last := rfl
      rw [turn, ended, same]
      exact List.append_assoc ..
  | @refused line later tail large =>
    rw [List.forall_mem_cons] at single
    obtain ⟨alone, _⟩ := single
    have rest := cuts_singles ([10] ++ later.flatMap (· ++ [10]) ++ tail)
    have refused := Connection.clientLoop_refused reading (by rwa [empty]) fits (by rwa [empty])
    refine ⟨singles line ++ singles ([10] ++ later.flatMap (· ++ [10]) ++ tail), ?_, ?_⟩
    · have joined := (cuts_singles line).append rest
      rw [List.flatMap_cons, List.append_assoc, List.append_assoc]
      rw [List.append_assoc] at joined
      exact joined
    · rw [Connection.clientLoop_append, Connection.clientLoop_closed refused.1, refused.2]

/-- A new connection that receives these buffers. -/
def receiveAll (buffers : List Bytes) : List Handled := (Connection.clientLoop {} buffers).handled

theorem outcome_iff {stream : Bytes} {handled : List Handled} :
    Outcome (cutLines stream).1 (cutLines stream).2 handled ↔
      ∃ buffers, Cuts stream buffers ∧ receiveAll buffers = handled := by
  constructor
  · intro outcome
    have cut := cuts_of_outcome outcome (cutLines_single stream).1 (cutLines_single stream).2 (c := {}) rfl rfl
    rw [cutLines_join] at cut
    exact cut
  · rintro ⟨buffers, cuts, rfl⟩
    obtain ⟨handled, same, outcome⟩ := outcome_of_cuts (c := {}) rfl nofun (Nat.zero_le _) cuts.sized
    have received : receiveAll buffers = handled := same
    rw [List.nil_append, cuts.whole] at outcome
    rwa [received]

/-- The lines that are queued. -/
def enqueued (handled : List Handled) : List Bytes :=
  handled.filterMap fun
    | .enqueue line => some line
    | .requestTooLarge => none

/-- The lines whose contents fit. -/
def fitting (lines : List Bytes) : List Bytes :=
  (lines.map content).filter fun line => line.length ≤ maximumRequestLine

/-- A line with more than 256 KiB before its LF has them without its CR too. It
is the last, or always refused, and nothing that has to be dispatched follows. -/
def Regular : List Bytes → Bytes → Prop
  | [], _ => True
  | line :: later, tail =>
    if line.length ≤ maximumRequestLine then Regular later tail
    else maximumRequestLine < (content line).length ∧
      (later = [] ∧ tail.length ≤ maximumRequestLine ∨
        maximumRequestLine + bufferSize ≤ line.length ∧
          ∀ other ∈ later, maximumRequestLine < (content other).length)

instance Regular.decide : ∀ lines tail, Decidable (Regular lines tail)
  | [], _ => isTrue trivial
  | line :: later, tail =>
    have := Regular.decide later tail
    inferInstanceAs (Decidable (if line.length ≤ maximumRequestLine then Regular later tail
      else maximumRequestLine < (content line).length ∧
        (later = [] ∧ tail.length ≤ maximumRequestLine ∨
          maximumRequestLine + bufferSize ≤ line.length ∧
            ∀ other ∈ later, maximumRequestLine < (content other).length)))

/-- One thing can come of these lines, and what fits is queued. -/
structure Framed (lines : List Bytes) (tail : Bytes) : Prop where
  same : ∀ first second, Outcome lines tail first → Outcome lines tail second → first = second
  dispatched : ∀ handled, Outcome lines tail handled → enqueued handled = fitting lines

theorem Outcome.exists (lines : List Bytes) (tail : Bytes) : ∃ handled, Outcome lines tail handled := by
  induction lines with
  | nil =>
    rcases Nat.lt_or_ge maximumRequestLine tail.length with large | small
    · exact ⟨_, .endless large⟩
    · exact ⟨_, .rest small⟩
  | cons line later ih =>
    obtain ⟨handled, outcome⟩ := ih
    rcases Nat.lt_or_ge maximumRequestLine line.length with large | small
    · exact ⟨_, .refused large⟩
    · exact ⟨_, .line (Nat.lt_of_le_of_lt small (by decide)) outcome⟩

theorem handleLine_large {line : Bytes} (large : maximumRequestLine < (content line).length) :
    handleLine line = .requestTooLarge := by
  rw [handleLine_content, if_pos large]

theorem handleLine_small {line : Bytes} (small : line.length ≤ maximumRequestLine) :
    handleLine line = .enqueue (content line) := by
  rw [handleLine_content, if_neg (Nat.not_lt.mpr (Nat.le_trans (content_length line) small))]

theorem fitting_cons (line : Bytes) (later : List Bytes) :
    fitting (line :: later) =
      if (content line).length ≤ maximumRequestLine then content line :: fitting later else fitting later := by
  rw [fitting, List.map_cons, List.filter_cons]
  simp only [decide_eq_true_eq]
  rfl

theorem fitting_eq_nil {lines : List Bytes} :
    fitting lines = [] ↔ ∀ line ∈ lines, maximumRequestLine < (content line).length := by
  rw [fitting, List.filter_eq_nil_iff, List.forall_mem_map]
  simp only [decide_eq_true_eq, Nat.not_le]

theorem framed_nil (tail : Bytes) : Framed [] tail where
  same := by
    intro first second one other
    cases one with
    | rest small =>
      cases other with
      | rest => rfl
      | endless large => exact absurd small (Nat.not_le.mpr large)
    | endless large =>
      cases other with
      | rest small => exact absurd small (Nat.not_le.mpr large)
      | endless => rfl
  dispatched := by
    intro handled outcome
    cases outcome with
    | rest => rfl
    | endless => rfl

theorem outcome_small {line tail : Bytes} {later : List Bytes} {handled : List Handled}
    (small : line.length ≤ maximumRequestLine) :
    Outcome (line :: later) tail handled ↔
      ∃ rest, Outcome later tail rest ∧ handled = .enqueue (content line) :: rest := by
  constructor
  · intro outcome
    cases outcome with
    | line short rest => exact ⟨_, rest, by rw [handleLine_small small]⟩
    | refused large => exact absurd small (Nat.not_le.mpr large)
  · rintro ⟨rest, outcome, rfl⟩
    rw [← handleLine_small small]
    exact .line (Nat.lt_of_le_of_lt small (by decide)) outcome

theorem framed_small {line tail : Bytes} {later : List Bytes} (small : line.length ≤ maximumRequestLine) :
    Framed (line :: later) tail ↔ Framed later tail := by
  have fits := Nat.le_trans (content_length line) small
  constructor
  · intro framed
    constructor
    · intro first second one other
      have both := framed.same _ _ ((outcome_small small).mpr ⟨first, one, rfl⟩)
        ((outcome_small small).mpr ⟨second, other, rfl⟩)
      exact (List.cons.inj both).2
    · intro handled outcome
      have all := framed.dispatched _ ((outcome_small small).mpr ⟨handled, outcome, rfl⟩)
      rw [fitting_cons, if_pos fits] at all
      exact (List.cons.inj all).2
  · intro framed
    constructor
    · intro first second one other
      obtain ⟨before, earlier, rfl⟩ := (outcome_small small).mp one
      obtain ⟨after, later, rfl⟩ := (outcome_small small).mp other
      rw [framed.same before after earlier later]
    · intro handled outcome
      obtain ⟨rest, later, rfl⟩ := (outcome_small small).mp outcome
      rw [fitting_cons, if_pos fits, ← framed.dispatched rest later]
      rfl

theorem framed_large {line tail : Bytes} {later : List Bytes} (large : maximumRequestLine < line.length) :
    Framed (line :: later) tail ↔ Regular (line :: later) tail := by
  rw [Regular, if_neg (Nat.not_le.mpr large)]
  constructor
  · intro framed
    have nothing := framed.dispatched _ (.refused large)
    have beyond := fitting_eq_nil.mp nothing.symm
    rw [List.forall_mem_cons] at beyond
    refine ⟨beyond.1, ?_⟩
    rcases Nat.lt_or_ge line.length (maximumRequestLine + bufferSize) with short | long
    · obtain ⟨handled, outcome⟩ := Outcome.exists later tail
      have both := framed.same _ _ (.line short outcome) (.refused large)
      obtain rfl : handled = [] := (List.cons.inj both).2
      cases outcome with
      | rest small => exact .inl ⟨rfl, small⟩
    · exact .inr ⟨long, beyond.2⟩
  · rintro ⟨beyond, rest⟩
    have one : ∀ handled, Outcome (line :: later) tail handled → handled = [.requestTooLarge] := by
      intro handled outcome
      cases outcome with
      | refused => rfl
      | line short outcome =>
        rcases rest with ⟨rfl, small⟩ | ⟨long, _⟩
        · cases outcome with
          | rest => rw [handleLine_large beyond]
          | endless more => exact absurd small (Nat.not_le.mpr more)
        · exact absurd short (Nat.not_lt.mpr long)
    constructor
    · intro first second before after
      rw [one first before, one second after]
    · intro handled outcome
      rw [one handled outcome]
      refine (fitting_eq_nil.mpr (List.forall_mem_cons.mpr ⟨beyond, ?_⟩)).symm
      rcases rest with ⟨rfl, _⟩ | ⟨_, others⟩
      · exact nofun
      · exact others

theorem framed_iff (lines : List Bytes) (tail : Bytes) : Framed lines tail ↔ Regular lines tail := by
  induction lines with
  | nil => exact ⟨fun _ => trivial, fun _ => framed_nil tail⟩
  | cons line later ih =>
    rcases Nat.lt_or_ge maximumRequestLine line.length with large | small
    · exact framed_large large
    · rw [framed_small small, ih, Regular, if_pos small]

/-- What comes of a stream is the same in any two cuts, with every line that
fits queued, exactly if it is regular. -/
theorem framing_of_cuts (stream : Bytes) :
    ((∀ first second, Cuts stream first → Cuts stream second → receiveAll first = receiveAll second) ∧
      ∀ buffers, Cuts stream buffers → enqueued (receiveAll buffers) = fitting (cutLines stream).1) ↔
      Regular (cutLines stream).1 (cutLines stream).2 := by
  rw [← framed_iff]
  constructor
  · rintro ⟨same, dispatched⟩
    constructor
    · intro first second one other
      obtain ⟨before, cuts, rfl⟩ := outcome_iff.mp one
      obtain ⟨after, others, rfl⟩ := outcome_iff.mp other
      exact same before after cuts others
    · intro handled outcome
      obtain ⟨buffers, cuts, rfl⟩ := outcome_iff.mp outcome
      exact dispatched buffers cuts
  · intro framed
    constructor
    · intro first second cuts others
      exact framed.same _ _ (outcome_iff.mpr ⟨first, cuts, rfl⟩) (outcome_iff.mpr ⟨second, others, rfl⟩)
    · intro buffers cuts
      exact framed.dispatched _ (outcome_iff.mpr ⟨buffers, cuts, rfl⟩)

/-- Whether a line of 256 KiB is queued depends on its CR and LF arriving
together. -/
theorem receiveAll_crlf {line : Bytes} (single : 10 ∉ line) (size : line.length = maximumRequestLine) :
    receiveAll (singles line ++ [[13, 10]]) = [.enqueue line] ∧
      receiveAll (singles (line ++ [13]) ++ [[10]]) = [.requestTooLarge] := by
  have alone : 10 ∉ line ++ [13] := by
    rw [List.mem_append]
    exact not_or.mpr ⟨single, by decide⟩
  have ended : content (line ++ [13]) = line := by
    rw [content, if_pos List.getLast?_concat, List.dropLast_concat]
  constructor
  · have kept := Connection.clientLoop_kept (c := {}) rfl single (Nat.le_of_eq size)
    have queued := Connection.receive_line (c := { input := line }) rfl (List.cons_ne_nil 13 [10]) alone
      (List.append_assoc line [13] [10]).symm
    have fits : handleLine (line ++ [13]) = .enqueue line := by
      rw [handleLine_content, ended, if_neg (Nat.not_lt.mpr (Nat.le_of_eq size))]
    have turn : Connection.clientLoop { input := line } [[13, 10]] = Connection.receive { input := line } [13, 10] :=
      rfl
    rw [receiveAll, Connection.clientLoop_append, kept]
    exact (congrArg Connection.handled (turn.trans queued)).trans (congrArg (fun h => [h]) fits)
  · have large : maximumRequestLine < (line ++ [13]).length := by
      rw [List.length_append, size]
      exact Nat.lt_succ_self _
    have refused := @Connection.clientLoop_refused {} (line ++ [13]) rfl alone (Nat.zero_le _) large
    rw [receiveAll, Connection.clientLoop_append, Connection.clientLoop_closed refused.1, refused.2]
    rfl

/-- A request of 256 KiB that ends in CRLF. -/
def sampleStream : Bytes := List.replicate maximumRequestLine 97 ++ [13, 10]

theorem sampleStream_differs :
    ∃ first second, Cuts sampleStream first ∧ Cuts sampleStream second ∧
      receiveAll first = [.enqueue (List.replicate maximumRequestLine 97)] ∧
        receiveAll second = [.requestTooLarge] := by
  have single : 10 ∉ List.replicate maximumRequestLine (97 : UInt8) := fun member =>
    nomatch List.eq_of_mem_replicate member
  have first := (cuts_singles (List.replicate maximumRequestLine 97)).append
    (cuts_one (List.cons_ne_nil 13 [10]) (by decide))
  have second := (cuts_singles (List.replicate maximumRequestLine 97 ++ [13])).append
    (cuts_one (List.cons_ne_nil 10 []) (by decide))
  rw [List.append_assoc] at second
  exact ⟨_, _, first, second, receiveAll_crlf single List.length_replicate⟩

end FzeroVs.Bridge
