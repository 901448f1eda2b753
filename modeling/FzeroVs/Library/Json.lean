import Mathlib.Data.List.TakeWhile

namespace FzeroVs

/-- A byte of a number or of a name such as `true`. -/
def isWord (b : UInt8) : Bool := decide (48 ≤ b ∧ b ≤ 57) || decide (97 ≤ b ∧ b ≤ 122)

/-- A number without sign and fraction, or one of `true`, `false` and `null`. -/
structure Word where
  text : List UInt8
  nonempty : text ≠ []
  letters : ∀ b ∈ text, isWord b = true
  deriving DecidableEq

/-- A JSON value. Strings and keys are the bytes that they stand for. -/
inductive Json
  | word (w : Word)
  | string (text : List UInt8)
  | array (elements : List Json)
  | object (members : List (List UInt8 × Json))

namespace Json

def hexValue (b : UInt8) : Option Nat :=
  if 48 ≤ b ∧ b ≤ 57 then some (b.toNat - 48)
  else if 97 ≤ b ∧ b ≤ 102 then some (b.toNat - 87)
  else if 65 ≤ b ∧ b ≤ 70 then some (b.toNat - 55)
  else none

/-- A code point of four hexadecimal digits. A surrogate stands for nothing by itself. -/
def utf8 (code : Nat) : Option (List UInt8) :=
  if code < 0x80 then some [UInt8.ofNat code]
  else if code < 0x800 then some [UInt8.ofNat (0xc0 + code / 64), UInt8.ofNat (0x80 + code % 64)]
  else if 0xd800 ≤ code ∧ code < 0xe000 then none
  else some [UInt8.ofNat (0xe0 + code / 4096), UInt8.ofNat (0x80 + code / 64 % 64), UInt8.ofNat (0x80 + code % 64)]

/-- What stands behind a backslash. -/
def shortEscape (b : UInt8) : Option UInt8 :=
  if b = 34 ∨ b = 92 ∨ b = 47 then some b
  else if b = 98 then some 8
  else if b = 102 then some 12
  else if b = 110 then some 10
  else if b = 114 then some 13
  else if b = 116 then some 9
  else none

def readCode : List UInt8 → Option (List UInt8 × List UInt8)
  | h₁ :: h₂ :: h₃ :: h₄ :: rest =>
    match hexValue h₁, hexValue h₂, hexValue h₃, hexValue h₄ with
    | some a, some b, some c, some d => (utf8 (((a * 16 + b) * 16 + c) * 16 + d)).map (·, rest)
    | _, _, _, _ => none
  | _ => none

def readEscape : List UInt8 → Option (List UInt8 × List UInt8)
  | [] => none
  | e :: rest => if e = 117 then readCode rest else (shortEscape e).map fun c => ([c], rest)

/-- One character of a string, and what follows it. A quote ends the string. -/
def readCharacter : List UInt8 → Option (List UInt8 × List UInt8)
  | [] => none
  | b :: rest =>
    if b < 32 ∨ b = 34 then none
    else if b = 92 then readEscape rest
    else some ([b], rest)

/-- The characters up to the closing quote. -/
def readBody : Nat → List UInt8 → Option (List UInt8 × List UInt8)
  | 0, _ => none
  | fuel + 1, text =>
    if text.head? = some 34 then some ([], text.tail)
    else
      match readCharacter text with
      | none => none
      | some (c, rest) => (readBody fuel rest).map fun read => (c ++ read.1, read.2)

/-- A string behind its opening quote. -/
def readString (text : List UInt8) : Option (List UInt8 × List UInt8) := readBody text.length text

/-- Elements with commas between them, up to the closing bracket. -/
def readList {α : Type} (read : List UInt8 → Option (α × List UInt8)) (close : UInt8) :
    Nat → List UInt8 → Option (List α × List UInt8)
  | 0, _ => none
  | fuel + 1, text =>
    match read text with
    | some (x, b :: rest) =>
      if b = close then some ([x], rest)
      else if b = 44 then (readList read close fuel rest).map fun later => (x :: later.1, later.2)
      else none
    | _ => none

def readMember {α : Type} (read : List UInt8 → Option (α × List UInt8)) (text : List UInt8) :
    Option ((List UInt8 × α) × List UInt8) :=
  if text.head? = some 34 then
    match readString text.tail with
    | some (key, b :: rest) => if b = 58 then (read rest).map fun value => ((key, value.1), value.2) else none
    | _ => none
  else none

def readWord (text : List UInt8) : Option (Json × List UInt8) :=
  if nonempty : text.takeWhile isWord ≠ [] then
    some (.word ⟨text.takeWhile isWord, nonempty, fun _ member => List.mem_takeWhile_imp member⟩, text.dropWhile isWord)
  else none

/-- A value and what follows it. The first number bounds the depth. -/
def read : Nat → List UInt8 → Option (Json × List UInt8)
  | 0, _ => none
  | depth + 1, text =>
    match text with
    | [] => none
    | b :: rest =>
      if b = 34 then (readString rest).map fun t => (.string t.1, t.2)
      else if b = 91 then
        if rest.head? = some 93 then some (.array [], rest.tail)
        else (readList (read depth) 93 rest.length rest).map fun l => (.array l.1, l.2)
      else if b = 123 then
        if rest.head? = some 125 then some (.object [], rest.tail)
        else (readList (readMember (read depth)) 125 rest.length rest).map fun l => (.object l.1, l.2)
      else readWord (b :: rest)

section

variable (escape : UInt8 → List UInt8)

def quote (text : List UInt8) : List UInt8 := [34] ++ text.flatMap escape ++ [34]

/-- A value on one line, without blanks. -/
def print : Json → List UInt8
  | .word w => w.text
  | .string t => quote escape t
  | .array l => [91] ++ [44].intercalate (l.map print) ++ [93]
  | .object l => [123] ++ [44].intercalate (l.map fun m => quote escape m.1 ++ [58] ++ print m.2) ++ [125]
termination_by j => j
decreasing_by
  all_goals
    rename_i member
    have smaller := List.sizeOf_lt_of_mem member
  · rw [array.sizeOf_spec]
    omega
  · have value : sizeOf m.2 < sizeOf m := by
      obtain ⟨key, value⟩ := m
      rw [Prod.mk.sizeOf_spec]
      change sizeOf value < 1 + sizeOf key + sizeOf value
      omega
    rw [object.sizeOf_spec]
    omega

def printMember (m : List UInt8 × Json) : List UInt8 := quote escape m.1 ++ [58] ++ print escape m.2

theorem print_array (l : List Json) :
    print escape (.array l) = [91] ++ [44].intercalate (l.map (print escape)) ++ [93] := by
  rw [print]

theorem print_object (l : List (List UInt8 × Json)) :
    print escape (.object l) = [123] ++ [44].intercalate (l.map (printMember escape)) ++ [125] := by
  rw [print]
  rfl

/-- What an escaped byte is read as. -/
def Readable : Prop := ∀ b rest, readCharacter (escape b ++ rest) = some ([b], rest)

end

/-! A value is read as it was printed. -/

section

variable {escape : UInt8 → List UInt8}

theorem head_escape (readable : Readable escape) (b : UInt8) (rest : List UInt8) : (escape b ++ rest).head? ≠ some 34 := by
  intro quote
  have reads := readable b rest
  cases text : escape b ++ rest with
  | nil => exact nomatch (text ▸ quote : ([] : List UInt8).head? = some 34)
  | cons c more =>
    rw [text] at quote reads
    obtain rfl : c = 34 := Option.some.inj quote
    exact nomatch reads

theorem length_escape (readable : Readable escape) (b : UInt8) : 1 ≤ (escape b).length := by
  refine List.length_pos_iff.mpr fun none => ?_
  have reads := readable b []
  rw [none] at reads
  exact nomatch reads

theorem readBody_escape (readable : Readable escape) (text rest : List UInt8) {fuel : Nat} (enough : text.length < fuel) :
    readBody fuel (text.flatMap escape ++ 34 :: rest) = some (text, rest) := by
  induction text generalizing fuel with
  | nil =>
    obtain ⟨fuel, rfl⟩ := Nat.exists_eq_add_one_of_ne_zero (Nat.ne_of_gt enough)
    rfl
  | cons b text ih =>
    rw [List.length_cons] at enough
    obtain ⟨fuel, rfl⟩ := Nat.exists_eq_add_one_of_ne_zero (show fuel ≠ 0 by omega)
    rw [List.flatMap_cons, List.append_assoc, readBody, if_neg (head_escape readable b _), readable]
    dsimp only
    rw [ih (by omega)]
    rfl

theorem length_flatMap_escape (readable : Readable escape) (text : List UInt8) : text.length ≤ (text.flatMap escape).length := by
  induction text with
  | nil => exact Nat.le_refl 0
  | cons b text ih =>
    have first := length_escape readable b
    rw [List.flatMap_cons, List.length_append, List.length_cons]
    omega

theorem readString_quote (readable : Readable escape) (text rest : List UInt8) :
    readString (text.flatMap escape ++ 34 :: rest) = some (text, rest) := by
  have long := length_flatMap_escape readable text
  refine readBody_escape readable text rest ?_
  rw [List.length_append, List.length_cons]
  omega

end

theorem intercalate_cons (separator x y : List UInt8) (rest : List (List UInt8)) :
    separator.intercalate (x :: y :: rest) = x ++ separator ++ separator.intercalate (y :: rest) := by
  rw [List.intercalate, List.intercalate, List.intersperse_cons_cons, List.flatten_cons, List.flatten_cons,
    List.append_assoc]

theorem length_le_intercalate {x : List UInt8} {l : List (List UInt8)} (member : x ∈ l) :
    x.length ≤ ([44].intercalate l).length := by
  induction l with
  | nil => exact nomatch member
  | cons y l ih =>
    cases l with
    | nil =>
      obtain rfl := List.mem_singleton.mp member
      simp [List.intercalate]
    | cons z l =>
      rw [intercalate_cons, List.length_append, List.length_append]
      rcases List.mem_cons.mp member with rfl | later
      · omega
      · have := ih later
        omega

theorem count_le_intercalate (l : List (List UInt8)) : l.length ≤ ([44].intercalate l).length + 1 := by
  induction l with
  | nil => exact Nat.zero_le _
  | cons y l ih =>
    cases l with
    | nil => exact Nat.le_add_left ..
    | cons z l =>
      rw [intercalate_cons, List.length_append, List.length_append, List.length_cons, List.length_singleton]
      omega

/-- Every element but the first has a comma before it. -/
theorem intercalate_flatMap (x : List UInt8) (l : List (List UInt8)) :
    [44].intercalate (x :: l) = x ++ l.flatMap ([44] ++ ·) := by
  induction l generalizing x with
  | nil => simp [List.intercalate]
  | cons y l ih =>
    rw [intercalate_cons, ih, List.flatMap_cons]
    simp only [List.append_assoc]

theorem mem_intercalate {b : UInt8} {l : List (List UInt8)} (member : b ∈ [44].intercalate l) :
    b = 44 ∨ ∃ x ∈ l, b ∈ x := by
  cases l with
  | nil => exact nomatch member
  | cons x l =>
    rw [intercalate_flatMap] at member
    rcases List.mem_append.mp member with first | later
    · exact .inr ⟨x, List.mem_cons_self .., first⟩
    · obtain ⟨y, there, inside⟩ := List.mem_flatMap.mp later
      rcases List.mem_append.mp inside with comma | inside
      · exact .inl (List.mem_singleton.mp comma)
      · exact .inr ⟨y, List.mem_cons_of_mem _ there, inside⟩

/-- A list is read as it was printed, if its elements are. -/
theorem readList_intercalate {α : Type} {read : List UInt8 → Option (α × List UInt8)} {close : UInt8}
    (comma : close ≠ 44) {shown : α → List UInt8} {l : List α} (nonempty : l ≠ [])
    (reads : ∀ x ∈ l, ∀ b rest, b = 44 ∨ b = close → read (shown x ++ b :: rest) = some (x, b :: rest))
    (rest : List UInt8) :
    readList read close ([44].intercalate (l.map shown) ++ close :: rest).length
      ([44].intercalate (l.map shown) ++ close :: rest) = some (l, rest) := by
  have count := count_le_intercalate (l.map shown)
  rw [List.length_map] at count
  have enough : l.length ≤ ([44].intercalate (l.map shown) ++ close :: rest).length := by
    rw [List.length_append, List.length_cons]
    omega
  generalize ([44].intercalate (l.map shown) ++ close :: rest).length = fuel at enough
  clear count
  induction l generalizing fuel with
  | nil => exact absurd rfl nonempty
  | cons x l ih =>
    obtain ⟨fuel, rfl⟩ := Nat.exists_eq_add_one_of_ne_zero (show fuel ≠ 0 by rw [List.length_cons] at enough; omega)
    cases l with
    | nil =>
      have single : [44].intercalate ([x].map shown) = shown x := by simp [List.intercalate]
      rw [single, readList, reads x (List.mem_cons_self ..) close rest (.inr rfl)]
      exact if_pos rfl
    | cons y l =>
      have later := ih (List.cons_ne_nil y l) (fun z member => reads z (List.mem_cons_of_mem _ member))
        fuel (Nat.le_of_succ_le_succ enough)
      have first := reads x (List.mem_cons_self ..) 44 ([44].intercalate ((y :: l).map shown) ++ close :: rest) (.inl rfl)
      have text : [44].intercalate ((x :: y :: l).map shown) ++ close :: rest =
          shown x ++ 44 :: ([44].intercalate ((y :: l).map shown) ++ close :: rest) := by
        rw [List.map_cons, List.map_cons, intercalate_cons]
        simp
      rw [text, readList, first]
      dsimp only
      rw [if_neg (Ne.symm comma), if_pos rfl, later]
      rfl

section

variable {escape : UInt8 → List UInt8}

/-- No more letters follow. -/
def Stops (rest : List UInt8) : Prop := ∀ b ∈ rest.head?, isWord b = false

theorem readWord_word (w : Word) {rest : List UInt8} (stops : Stops rest) :
    readWord (w.text ++ rest) = some (.word w, rest) := by
  have behind : rest.takeWhile isWord = [] ∧ rest.dropWhile isWord = rest := by
    cases rest with
    | nil => exact ⟨rfl, rfl⟩
    | cons b rest =>
      have stop : ¬ isWord b = true := by
        rw [stops b rfl]
        exact nofun
      exact ⟨List.takeWhile_cons_of_neg stop, List.dropWhile_cons_of_neg stop⟩
  have taken : (w.text ++ rest).takeWhile isWord = w.text := by
    rw [List.takeWhile_append_of_pos w.letters, behind.1, List.append_nil]
  have left : (w.text ++ rest).dropWhile isWord = rest := by
    rw [List.dropWhile_append_of_pos w.letters, behind.2]
  unfold readWord
  simp only [taken, left]
  exact dif_pos w.nonempty

/-- What a value begins with. -/
theorem print_head (j : Json) :
    ∃ b more, print escape j = b :: more ∧ (isWord b = true ∨ b = 34 ∨ b = 91 ∨ b = 123) := by
  cases j with
  | word w =>
    obtain ⟨b, more, text⟩ := List.exists_cons_of_ne_nil w.nonempty
    rw [print]
    exact ⟨b, more, text, .inl (w.letters b (text ▸ List.mem_cons_self ..))⟩
  | string t => exact ⟨34, _, by rw [print, quote]; rfl, .inr (.inl rfl)⟩
  | array l => exact ⟨91, _, by rw [print]; rfl, .inr (.inr (.inl rfl))⟩
  | object l => exact ⟨123, _, by rw [print]; rfl, .inr (.inr (.inr rfl))⟩

theorem printMember_head (m : List UInt8 × Json) : ∃ b more, printMember escape m = b :: more ∧ b ≠ 125 :=
  ⟨34, _, rfl, by decide⟩

theorem not_close {b : UInt8} (starts : isWord b = true ∨ b = 34 ∨ b = 91 ∨ b = 123) : b ≠ 93 ∧ b ≠ 125 := by
  constructor <;> rintro rfl <;> exact absurd starts (by decide)

/-- A list of values does not begin like its end. -/
theorem intercalate_head {α : Type} {shown : α → List UInt8} {close : UInt8} {x : α} {l : List α}
    (first : ∃ b more, shown x = b :: more ∧ b ≠ close) (rest : List UInt8) :
    ([44].intercalate ((x :: l).map shown) ++ rest).head? ≠ some close := by
  obtain ⟨b, more, text, other⟩ := first
  have begins : ∃ later, [44].intercalate ((x :: l).map shown) = b :: later := by
    cases l with
    | nil => exact ⟨more, by simp [List.intercalate, text]⟩
    | cons y l =>
      rw [List.map_cons, List.map_cons, intercalate_cons, text]
      exact ⟨_, rfl⟩
  obtain ⟨later, text⟩ := begins
  rw [text]
  exact fun same => other (Option.some.inj same)

theorem stops_of {b : UInt8} (mark : b = 44 ∨ b = 93 ∨ b = 125) (rest : List UInt8) : Stops (b :: rest) := by
  intro c here
  obtain rfl : b = c := Option.some.inj here
  rcases mark with rfl | rfl | rfl <;> rfl

theorem readMember_printMember (readable : Readable escape) {read : List UInt8 → Option (Json × List UInt8)}
    {m : List UInt8 × Json} {rest : List UInt8}
    (reads : read (print escape m.2 ++ rest) = some (m.2, rest)) :
    readMember read (printMember escape m ++ rest) = some (m, rest) := by
  have text : printMember escape m ++ rest =
      34 :: (m.1.flatMap escape ++ 34 :: (58 :: (print escape m.2 ++ rest))) := by
    simp [printMember, quote]
  rw [text, readMember, List.head?_cons, if_pos rfl, List.tail_cons, readString_quote readable]
  dsimp only
  rw [if_pos rfl, reads]
  rfl

/-- A value is read as it was printed, whatever follows. -/
theorem read_print (readable : Readable escape) {depth : Nat} {j : Json} (deep : (print escape j).length ≤ depth)
    {rest : List UInt8} (stops : Stops rest) : read depth (print escape j ++ rest) = some (j, rest) := by
  induction depth generalizing j rest with
  | zero =>
    obtain ⟨b, more, text, _⟩ := @print_head escape j
    rw [text] at deep
    exact absurd deep (Nat.not_succ_le_zero _)
  | succ depth ih =>
    cases j with
    | word w =>
      obtain ⟨b, more, text⟩ := List.exists_cons_of_ne_nil w.nonempty
      have letter := w.letters b (text ▸ List.mem_cons_self ..)
      have other : b ≠ 34 ∧ b ≠ 91 ∧ b ≠ 123 := by
        refine ⟨?_, ?_, ?_⟩ <;> rintro rfl <;> exact nomatch letter
      have whole := readWord_word w stops
      rw [print]
      rw [text, List.cons_append] at whole ⊢
      rw [read, if_neg other.1, if_neg other.2.1, if_neg other.2.2, whole]
    | string t =>
      have text : print escape (.string t) ++ rest = 34 :: (t.flatMap escape ++ 34 :: rest) := by
        simp [print, quote]
      rw [text, read, if_pos rfl, readString_quote readable]
      rfl
    | array l =>
      have text : print escape (.array l) ++ rest = 91 :: ([44].intercalate (l.map (print escape)) ++ 93 :: rest) := by
        simp [print_array]
      rw [text, read, if_neg (by decide), if_pos rfl]
      cases l with
      | nil => rfl
      | cons x l =>
        obtain ⟨b, more, begins, starts⟩ := @print_head escape x
        have reads : ∀ y ∈ x :: l, ∀ b rest, b = 44 ∨ b = 93 →
            read depth (print escape y ++ b :: rest) = some (y, b :: rest) := by
          intro y member b rest mark
          have inside := length_le_intercalate (List.mem_map_of_mem (f := print escape) member)
          rw [print_array, List.length_append, List.length_append, List.length_singleton, List.length_singleton] at deep
          exact ih (by omega) (stops_of (mark.imp_right .inl) rest)
        rw [if_neg (intercalate_head ⟨b, more, begins, (not_close starts).1⟩ _),
          readList_intercalate (by decide) (List.cons_ne_nil x l) reads]
        rfl
    | object l =>
      have text : print escape (.object l) ++ rest =
          123 :: ([44].intercalate (l.map (printMember escape)) ++ 125 :: rest) := by
        simp [print_object]
      rw [text, read, if_neg (by decide), if_neg (by decide), if_pos rfl]
      cases l with
      | nil => rfl
      | cons x l =>
        have reads : ∀ m ∈ x :: l, ∀ b rest, b = 44 ∨ b = 125 →
            readMember (read depth) (printMember escape m ++ b :: rest) = some (m, b :: rest) := by
          intro m member b rest mark
          have inside := length_le_intercalate (List.mem_map_of_mem (f := printMember escape) member)
          rw [print_object, List.length_append, List.length_append, List.length_singleton, List.length_singleton] at deep
          rw [printMember, List.length_append] at inside
          exact readMember_printMember readable (ih (by omega) (stops_of (mark.imp_right .inr) rest))
        rw [if_neg (intercalate_head (printMember_head x) _),
          readList_intercalate (by decide) (List.cons_ne_nil x l) reads]
        rfl

theorem mem_enclosed {b opening close : UInt8} {text : List UInt8} (member : b ∈ [opening] ++ text ++ [close]) :
    b = opening ∨ b ∈ text ∨ b = close := by
  rcases List.mem_append.mp member with inside | last
  · rcases List.mem_append.mp inside with first | inside
    · exact .inl (List.mem_singleton.mp first)
    · exact .inr (.inl inside)
  · exact .inr (.inr (List.mem_singleton.mp last))

theorem quote_plain (above : ∀ b, ∀ c ∈ escape b, 32 ≤ c) (text : List UInt8) : ∀ c ∈ quote escape text, 32 ≤ c := by
  intro c member
  rcases mem_enclosed member with rfl | inside | rfl
  · decide
  · obtain ⟨b, _, inside⟩ := List.mem_flatMap.mp inside
    exact above b c inside
  · decide

/-- A value is on one line, if the escapes are. -/
theorem print_plain (above : ∀ b, ∀ c ∈ escape b, 32 ≤ c) (j : Json) : ∀ c ∈ print escape j, 32 ≤ c := by
  induction j using print.induct with
  | case1 w =>
    intro c member
    rw [print] at member
    have letter := w.letters c member
    simp only [isWord, Bool.or_eq_true, decide_eq_true_eq] at letter
    exact letter.elim (fun digit => UInt8.le_trans (by decide) digit.1) fun small => UInt8.le_trans (by decide) small.1
  | case2 t =>
    rw [print]
    exact quote_plain above t
  | case3 l ih =>
    intro c member
    rw [print_array] at member
    rcases mem_enclosed member with rfl | inside | rfl
    · decide
    · rcases mem_intercalate inside with rfl | ⟨text, there, inside⟩
      · decide
      · obtain ⟨x, element, rfl⟩ := List.mem_map.mp there
        exact ih x element c inside
    · decide
  | case4 l ih =>
    intro c member
    rw [print_object] at member
    rcases mem_enclosed member with rfl | inside | rfl
    · decide
    · rcases mem_intercalate inside with rfl | ⟨text, there, inside⟩
      · decide
      · obtain ⟨m, element, rfl⟩ := List.mem_map.mp there
        rcases List.mem_append.mp inside with key | value
        · rcases List.mem_append.mp key with key | colon
          · exact quote_plain above m.1 c key
          · rw [List.mem_singleton.mp colon]
            decide
        · exact ih m element c value
    · decide

/-- A text that is one value, and nothing else. -/
def parse (text : List UInt8) : Option Json :=
  match read text.length text with
  | some (j, []) => some j
  | _ => none

theorem parse_print (readable : Readable escape) (j : Json) : parse (print escape j) = some j := by
  have whole := @read_print escape readable _ j (Nat.le_refl _) [] nofun
  rw [List.append_nil] at whole
  rw [parse, whole]

end

end Json

end FzeroVs
