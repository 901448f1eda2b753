import FzeroVs.Session.State
import Mathlib.Data.List.TakeWhile
import Mathlib.Data.Nat.Digits.Defs

namespace FzeroVs.Session

/-- What the functions of `std::string` and `std::stoul` throw. -/
inductive Thrown
  | outOfRange
  | invalidArgument
  deriving DecidableEq, Repr

def findFirst (p : Char → Bool) (text : List Char) : Option Nat := text.findIdx? p

def findLast (p : Char → Bool) (text : List Char) : Option Nat :=
  (text.reverse.findIdx? p).map fun k => text.length - 1 - k

def substr (text : List Char) (first count : Nat) : Except Thrown (List Char) :=
  if text.length < first then .error .outOfRange else .ok ((text.drop first).take count)

/-- `isspace`, which `stoul` passes over. -/
def isSpace (c : Char) : Bool := c = ' ' || c = '\t' || c = '\n' || c = '\x0b' || c = '\x0c' || c = '\r'

/-- The greatest `unsigned long` where it is smallest. -/
def unsignedLongMax : Nat := 2 ^ 32 - 1

/-- `std::stoul` in base 10. What follows the digits does not matter to it. -/
def stoul (text : List Char) : Except Thrown Nat :=
  let text := text.dropWhile isSpace
  let negative := text.head? == some '-'
  let text := if negative || text.head? == some '+' then text.tail else text
  let digits := text.takeWhile Char.isDigit
  if digits = [] then .error .invalidArgument
  else if unsignedLongMax < portNumber digits then .error .outOfRange
  else if negative then .ok ((unsignedLongMax + 1 - portNumber digits) % (unsignedLongMax + 1))
  else .ok (portNumber digits)

/-- The test of the port. Each `||` is only evaluated if what is before it fails. -/
def invalidPort (port : List Char) : Except Thrown Bool :=
  if 5 < port.length then .ok true
  else if (findFirst (fun c => !c.isDigit) port).isSome then .ok true
  else do
    if (← stoul port) = 0 then
      return true
    if 65535 < (← stoul port) then
      return true
    return (← stoul port) == 12001

/-- `resolve` up to its counter, with all that it could throw. -/
def parseThrowing (text : String) : Except Thrown Lookup :=
  match findFirst (!blank ·) text.toList with
  | none => .ok (.refused "Enter a host address")
  | some first => do
    let last := (findLast (!blank ·) text.toList).getD 0
    let address ← substr text.toList first (last - first + 1)
    let address := if (findFirst (· == ':') address).isNone then address ++ ":12000".toList else address
    match findLast (· == ':') address with
    | none => return .refused "Enter a hostname or IPv4 address followed by :port"
    | some colon =>
      if colon = 0 ∨ colon + 1 = address.length then
        return .refused "Enter a hostname or IPv4 address followed by :port"
      let host ← substr address 0 colon
      let port ← substr address (colon + 1) address.length
      if ← invalidPort port then
        return .refused "Invalid game port (12001 is reserved for discovery)"
      return .lookup (.ofList host) (.ofList port)

/-! Where the functions find something, the text is in two parts around it. -/

theorem findFirst_split {p : Char → Bool} {before rest : List Char} {c : Char} (absent : ∀ b ∈ before, p b = false)
    (found : p c = true) : findFirst p (before ++ c :: rest) = some before.length := by
  induction before with
  | nil => rw [List.nil_append, findFirst, List.findIdx?_cons, if_pos found, List.length_nil]
  | cons b before ih =>
    rw [List.forall_mem_cons] at absent
    have later : List.findIdx? p (before ++ c :: rest) = some before.length := ih absent.2
    rw [List.cons_append, findFirst, List.findIdx?_cons, absent.1, later]
    rfl

theorem findLast_split {p : Char → Bool} {rest after : List Char} {c : Char} (absent : ∀ b ∈ after, p b = false)
    (found : p c = true) : findLast p (rest ++ c :: after) = some rest.length := by
  have reversed : (rest ++ c :: after).reverse = after.reverse ++ c :: rest.reverse := by
    rw [List.reverse_append, List.reverse_cons, List.append_assoc, List.singleton_append]
  have first : List.findIdx? p (after.reverse ++ c :: rest.reverse) = some after.reverse.length :=
    findFirst_split (fun b member => absent b (List.mem_reverse.mp member)) found
  rw [findLast, reversed, first, Option.map_some, List.length_append, List.length_cons, List.length_reverse]
  congr 1
  omega

theorem findFirst_none {p : Char → Bool} {text : List Char} (absent : ∀ b ∈ text, p b = false) :
    findFirst p text = none :=
  List.findIdx?_eq_none_iff.mpr absent

theorem substr_split (before part after : List Char) :
    substr (before ++ part ++ after) before.length part.length = .ok part := by
  rw [substr, if_neg (by simp only [List.length_append]; omega), List.append_assoc, List.drop_left, List.take_left]

/-- What is left of a text without the blanks at its ends. -/
structure Trimmed (text rest : List Char) : Prop where
  ends : ∃ before after, text = before ++ rest ++ after ∧ (∀ c ∈ before, blank c = true) ∧ ∀ c ∈ after, blank c = true
  first : ∀ c ∈ rest.head?, blank c = false
  last : ∀ c ∈ rest.getLast?, blank c = false

theorem dropWhile_head {p : Char → Bool} {text : List Char} : ∀ c ∈ (text.dropWhile p).head?, p c = false := by
  induction text with
  | nil => exact nofun
  | cons b text ih =>
    rw [List.dropWhile_cons]
    split
    · exact ih
    · rename_i other
      intro c first
      cases first
      simpa using other

theorem trimmed_trim (text : List Char) : Trimmed text (trim text) := by
  have front := List.takeWhile_append_dropWhile (p := blank) (l := text)
  have back := List.takeWhile_append_dropWhile (p := blank) (l := (text.dropWhile blank).reverse)
  have joined : trim text ++ ((text.dropWhile blank).reverse.takeWhile blank).reverse = text.dropWhile blank := by
    rw [trim, ← List.reverse_append, back, List.reverse_reverse]
  refine ⟨⟨text.takeWhile blank, ((text.dropWhile blank).reverse.takeWhile blank).reverse, ?_, ?_, ?_⟩, ?_, ?_⟩
  · rw [List.append_assoc, joined, front]
  · exact fun c member => List.mem_takeWhile_imp member
  · exact fun c member => List.mem_takeWhile_imp (List.mem_reverse.mp member)
  · intro c first
    rw [Option.mem_def] at first
    have start : c ∈ (text.dropWhile blank).head? := by
      rw [← joined, Option.mem_def, List.head?_append, first, Option.some_or]
    exact dropWhile_head c start
  · rw [trim, List.getLast?_reverse]
    exact dropWhile_head

theorem Trimmed.eq {text rest : List Char} (trimmed : Trimmed text rest) : trim text = rest := by
  obtain ⟨⟨before, after, rfl, front, back⟩, first, last⟩ := trimmed
  cases rest with
  | nil =>
    have all : ∀ c ∈ before ++ [] ++ after, blank c = true := by
      intro c member
      rw [List.append_nil, List.mem_append] at member
      exact member.elim (front c) (back c)
    rw [trim, List.dropWhile_eq_nil_iff.mpr all]
    rfl
  | cons c rest =>
    have start : blank c = false := first c rfl
    rw [trim, List.append_assoc, List.dropWhile_append_of_pos front, List.cons_append, List.dropWhile_cons, start]
    rw [if_neg Bool.false_ne_true, ← List.cons_append, List.reverse_append,
      List.dropWhile_append_of_pos fun d member => back d (List.mem_reverse.mp member)]
    have stop : (c :: rest).reverse.dropWhile blank = (c :: rest).reverse := by
      rw [← List.head?_reverse] at last
      cases reversed : (c :: rest).reverse with
      | nil => rfl
      | cons d others =>
        rw [reversed] at last
        rw [List.dropWhile_cons, last d rfl, if_neg Bool.false_ne_true]
    rw [stop, List.reverse_reverse]

/-- What precedes the last colon, and what follows it. -/
theorem lastColon {text : List Char} (colon : ':' ∈ text) : ∃ host port, text = host ++ ':' :: port ∧ ':' ∉ port := by
  induction text with
  | nil => exact nomatch colon
  | cons c text ih =>
    by_cases later : ':' ∈ text
    · obtain ⟨host, port, rfl, last⟩ := ih later
      exact ⟨c :: host, port, rfl, last⟩
    · obtain same | more := List.mem_cons.mp colon
      · exact ⟨[], text, by rw [same, List.nil_append], later⟩
      · exact absurd more later

theorem lastPort {host port : List Char} (last : ':' ∉ port) :
    ((host ++ ':' :: port).reverse.takeWhile (· ≠ ':')).reverse = port := by
  have all : ∀ c ∈ port.reverse, decide (c ≠ ':') = true := by
    intro c member
    exact decide_eq_true fun same => last (same ▸ List.mem_reverse.mp member)
  rw [List.reverse_append, List.reverse_cons, List.append_assoc, List.takeWhile_append_of_pos all,
    List.singleton_append, List.takeWhile_cons, if_neg (by decide), List.append_nil, List.reverse_reverse]

/-- The text with its port. -/
def completed (text : List Char) : List Char := if ':' ∈ text then text else text ++ ":12000".toList

theorem completed_colon (text : List Char) : ':' ∈ completed text := by
  unfold completed
  split
  · assumption
  · exact List.mem_append_right _ (by decide)

/-- The test that `parseAddress` makes of a port. -/
def portRefused (port : List Char) : Bool :=
  decide (5 < port.length ∨ (port.any fun c => !c.isDigit) = true ∨ portNumber port = 0 ∨ 65535 < portNumber port ∨
    portNumber port = 12001)

theorem parseAddress_split {address : String} {host port : List Char} (some : trim address.toList ≠ [])
    (split : completed (trim address.toList) = host ++ ':' :: port) (last : ':' ∉ port) :
    parseAddress address =
      if host = [] ∨ port = [] then .refused "Enter a hostname or IPv4 address followed by :port"
      else if portRefused port then .refused "Invalid game port (12001 is reserved for discovery)"
      else .lookup (.ofList host) (.ofList port) := by
  have whole : (if ':' ∈ trim address.toList then trim address.toList else trim address.toList ++ ":12000".toList) =
    host ++ ':' :: port := split
  have before : (host ++ ':' :: port).take ((host ++ ':' :: port).length - port.length - 1) = host := by
    have length : (host ++ ':' :: port).length - port.length - 1 = host.length := by
      rw [List.length_append, List.length_cons]
      omega
    rw [length, List.take_left]
  unfold parseAddress
  simp only [whole, lastPort last, before, if_neg some, portRefused, decide_eq_true_eq]

/-- The value of decimal digits. -/
def decimalValue (digits : List Char) : Nat := Nat.ofDigits 10 (digits.reverse.map fun c => c.toNat - 48)

theorem portNumber_eq (digits : List Char) : portNumber digits = decimalValue digits := by
  induction digits using List.reverseRecOn with
  | nil => rfl
  | append_singleton digits c ih =>
    rw [portNumber, List.foldl_append, decimalValue, List.reverse_append, List.reverse_singleton, List.singleton_append,
      List.map_cons, Nat.ofDigits_cons, ← decimalValue, ← ih, Nat.add_comm]
    rfl

theorem digit_value {c : Char} (digit : c.isDigit = true) : c.toNat - 48 < 10 := by
  simp only [Char.isDigit, Bool.and_eq_true, decide_eq_true_eq] at digit
  have least : 48 ≤ c.toNat := digit.1
  have most : c.toNat ≤ 57 := digit.2
  omega

theorem portNumber_lt {digits : List Char} (all : ∀ c ∈ digits, c.isDigit = true) :
    portNumber digits < 10 ^ digits.length := by
  rw [portNumber_eq, decimalValue]
  have bound := @Nat.ofDigits_lt_base_pow_length 10 (digits.reverse.map fun c => c.toNat - 48) (by decide) ?_
  · rwa [List.length_map, List.length_reverse] at bound
  · intro n member
    obtain ⟨c, inside, rfl⟩ := List.mem_map.mp member
    exact digit_value (all c (List.mem_reverse.mp inside))

theorem digit_ne {c d : Char} (digit : c.isDigit = true) (other : d.isDigit = false) : c ≠ d := by
  rintro rfl
  exact nomatch digit.symm.trans other

theorem digit_isSpace {c : Char} (digit : c.isDigit = true) : isSpace c = false := by
  have blank : c ≠ ' ' := digit_ne digit (by decide)
  have tab : c ≠ '\t' := digit_ne digit (by decide)
  have newline : c ≠ '\n' := digit_ne digit (by decide)
  have vertical : c ≠ '\x0b' := digit_ne digit (by decide)
  have form : c ≠ '\x0c' := digit_ne digit (by decide)
  have carriage : c ≠ '\r' := digit_ne digit (by decide)
  simp only [isSpace, blank, tab, newline, vertical, form, carriage, decide_false, Bool.or_self]

/-- `std::stoul` does not throw for a port of five digits. -/
theorem stoul_digits {port : List Char} (all : ∀ c ∈ port, c.isDigit = true) (given : port ≠ [])
    (short : port.length ≤ 5) : stoul port = .ok (portNumber port) := by
  obtain ⟨c, rest, rfl⟩ := List.exists_cons_of_ne_nil given
  have digit := all c (List.mem_cons_self ..)
  have minus : (some c == some '-') = false := beq_false_of_ne fun same =>
    digit_ne digit (by decide : ('-' : Char).isDigit = false) (Option.some.inj same)
  have plus : (some c == some '+') = false := beq_false_of_ne fun same =>
    digit_ne digit (by decide : ('+' : Char).isDigit = false) (Option.some.inj same)
  have whole : (c :: rest).takeWhile Char.isDigit = c :: rest := List.takeWhile_eq_self_iff.mpr all
  have small : ¬ unsignedLongMax < portNumber (c :: rest) := by
    have bound := portNumber_lt all
    have most : 10 ^ (c :: rest).length ≤ 10 ^ 5 := Nat.pow_le_pow_right (by decide) short
    unfold unsignedLongMax
    omega
  simp only [stoul, List.dropWhile_cons, digit_isSpace digit, Bool.false_eq_true, if_false, List.head?_cons, minus,
    plus, Bool.or_self, whole, List.cons_ne_nil, small]

theorem invalidPort_eq {port : List Char} (given : port ≠ []) : invalidPort port = .ok (portRefused port) := by
  unfold invalidPort portRefused
  by_cases long : 5 < port.length
  · rw [if_pos long, decide_eq_true (.inl long)]
  rw [if_neg long]
  cases other : port.any fun c => !c.isDigit with
  | true =>
    have found : (findFirst (fun c => !c.isDigit) port).isSome = true := by
      rw [findFirst, List.findIdx?_isSome]
      exact other
    rw [if_pos found, decide_eq_true (.inr (.inl rfl))]
  | false =>
    have absent : ¬ (findFirst (fun c => !c.isDigit) port).isSome = true := by
      rw [findFirst, List.findIdx?_isSome, other]
      exact Bool.false_ne_true
    have all : ∀ c ∈ port, c.isDigit = true := by
      intro c member
      have digit := List.any_eq_false.mp other c member
      simpa using digit
    rw [if_neg absent, stoul_digits all given (Nat.not_lt.mp long)]
    by_cases zero : portNumber port = 0
    · simp [zero, bind, Except.bind, pure, Except.pure]
    by_cases large : 65535 < portNumber port
    · simp [zero, large, bind, Except.bind, pure, Except.pure]
    · by_cases reserved : portNumber port = 12001
      · simp [long, reserved, bind, Except.bind, pure, Except.pure]
      · simp [zero, large, long, reserved, bind, Except.bind, pure, Except.pure]

/-- What is between the first and the last that is not blank. -/
theorem substr_trim {text : List Char} (given : trim text ≠ []) :
    ∃ first last, findFirst (!blank ·) text = some first ∧ findLast (!blank ·) text = some last ∧
      substr text first (last - first + 1) = .ok (trim text) := by
  obtain ⟨⟨before, after, whole, front, back⟩, first, last⟩ := trimmed_trim text
  obtain ⟨c, rest, start⟩ := List.exists_cons_of_ne_nil given
  obtain ⟨init, d, stop⟩ := (List.eq_nil_or_concat' (trim text)).resolve_left given
  have plain : blank c = false := first c (by rw [start]; rfl)
  have ended : blank d = false := last d (by rw [stop, List.getLast?_concat]; rfl)
  refine ⟨before.length, (before ++ init).length, ?_, ?_, ?_⟩
  · rw [whole, start, List.append_assoc, List.cons_append]
    apply findFirst_split
    · intro b member
      rw [front b member]
      rfl
    · rw [plain]
      rfl
  · rw [whole, stop, ← List.append_assoc, List.append_assoc (before ++ init), List.singleton_append]
    apply findLast_split
    · intro b member
      rw [back b member]
      rfl
    · rw [ended]
      rfl
  · have length : (before ++ init).length - before.length + 1 = (trim text).length := by
      rw [stop, List.length_append, List.length_append, List.length_singleton]
      omega
    have part := substr_split before (trim text) after
    rw [length]
    rwa [← whole] at part

theorem completed_eq (text : List Char) :
    (if (findFirst (· == ':') text).isNone then text ++ ":12000".toList else text) = completed text := by
  unfold completed
  by_cases colon : ':' ∈ text
  · have found : (findFirst (· == ':') text).isSome = true := by
      rw [findFirst, List.findIdx?_isSome, List.any_eq_true]
      exact ⟨':', colon, rfl⟩
    rw [if_pos colon, ← Option.not_isSome, found]
    rfl
  · have absent : findFirst (· == ':') text = none :=
      findFirst_none fun c member => beq_false_of_ne fun same => colon (same ▸ member)
    rw [if_neg colon, absent]
    rfl

/-- `resolve` throws nothing, and makes of an address what `parseAddress` does. -/
theorem parseThrowing_eq (address : String) : parseThrowing address = .ok (parseAddress address) := by
  by_cases nothing : trim address.toList = []
  · obtain ⟨⟨before, after, text, front, back⟩, _, _⟩ := trimmed_trim address.toList
    rw [nothing, List.append_nil] at text
    have blanks : findFirst (!blank ·) address.toList = none := by
      apply findFirst_none
      intro c member
      rw [text, List.mem_append] at member
      rw [member.elim (front c) (back c)]
      rfl
    have refused : parseAddress address = .refused "Enter a host address" := by
      unfold parseAddress
      simp only [nothing, if_true]
    rw [parseThrowing, blanks, refused]
  · obtain ⟨first, last, start, stop, part⟩ := substr_trim nothing
    obtain ⟨host, port, split, unique⟩ := lastColon (completed_colon (trim address.toList))
    have colon : findLast (· == ':') (host ++ ':' :: port) = some host.length :=
      findLast_split (fun c member => beq_false_of_ne fun same => unique (same ▸ member)) rfl
    have ends : (host.length = 0 ∨ host.length + 1 = (host ++ ':' :: port).length) ↔ host = [] ∨ port = [] := by
      rw [List.length_append, List.length_cons, ← List.length_eq_zero_iff (l := host),
        ← List.length_eq_zero_iff (l := port)]
      omega
    have left : substr (host ++ ':' :: port) 0 host.length = .ok host := substr_split [] host (':' :: port)
    have right : substr (host ++ ':' :: port) (host.length + 1) (host ++ ':' :: port).length = .ok port := by
      have length : (host ++ [':']).length = host.length + 1 := List.length_append
      have all : (host ++ ':' :: port).drop (host.length + 1) = port := by
        rw [List.append_cons, ← length, List.drop_left]
      rw [substr, if_neg (by rw [List.length_append, List.length_cons]; omega), all,
        List.take_of_length_le (by rw [List.length_append, List.length_cons]; omega)]
    rw [parseAddress_split nothing split unique, parseThrowing, start]
    simp only [stop, Option.getD_some, part, completed_eq, split, colon, ends, left, right, bind, Except.bind, pure,
      Except.pure]
    split
    · rfl
    · rename_i both
      rw [invalidPort_eq (not_or.mp both).2]
      simp only
      cases portRefused port <;> rfl

/-- The grammar of an address: a host, the last colon, and a port. -/
structure Accepted (text host port : List Char) : Prop where
  split : ∃ rest, Trimmed text rest ∧ completed rest = host ++ ':' :: port
  last : ':' ∉ port
  named : host ≠ []
  length : 1 ≤ port.length ∧ port.length ≤ 5
  digits : ∀ c ∈ port, c.isDigit = true
  value : 1 ≤ decimalValue port ∧ decimalValue port ≤ 65535 ∧ decimalValue port ≠ 12001

theorem portRefused_eq_false {port : List Char} :
    portRefused port = false ↔
      port.length ≤ 5 ∧ (∀ c ∈ port, c.isDigit = true) ∧ 1 ≤ decimalValue port ∧ decimalValue port ≤ 65535 ∧
        decimalValue port ≠ 12001 := by
  have digits : ¬ (port.any fun c => !c.isDigit) = true ↔ ∀ c ∈ port, c.isDigit = true := by simp
  rw [portRefused, decide_eq_false_iff_not, not_or, not_or, not_or, not_or, digits, portNumber_eq]
  constructor
  · rintro ⟨short, all, positive, most, other⟩
    exact ⟨by omega, all, by omega, by omega, other⟩
  · rintro ⟨short, all, positive, most, other⟩
    exact ⟨by omega, all, by omega, by omega, other⟩

/-- An address is handed on exactly if it is in the grammar. -/
theorem parseAddress_lookup {address host port : String} :
    parseAddress address = .lookup host port ↔ Accepted address.toList host.toList port.toList := by
  constructor
  · intro parsed
    by_cases nothing : trim address.toList = []
    · unfold parseAddress at parsed
      rw [nothing] at parsed
      exact nomatch parsed
    obtain ⟨before, after, split, last⟩ := lastColon (completed_colon (trim address.toList))
    rw [parseAddress_split nothing split last] at parsed
    split_ifs at parsed with empty refused
    obtain ⟨rfl, rfl⟩ := Lookup.lookup.inj parsed
    obtain ⟨short, digits, value⟩ := portRefused_eq_false.mp (Bool.eq_false_iff.mpr refused)
    rw [not_or] at empty
    rw [String.toList_ofList, String.toList_ofList]
    exact ⟨⟨_, trimmed_trim _, split⟩, last, empty.1, ⟨List.length_pos_iff.mpr empty.2, short⟩, digits, value⟩
  · rintro ⟨⟨rest, trimmed, split⟩, last, named, ⟨some, short⟩, digits, value⟩
    rw [← trimmed.eq] at split
    have given : trim address.toList ≠ [] := by
      intro nothing
      rw [nothing] at split
      obtain ⟨c, front, start⟩ := List.exists_cons_of_ne_nil named
      rw [start] at split
      have added : "12000".toList = front ++ ':' :: port.toList := (List.cons.inj split).2
      have colon : ':' ∈ "12000".toList := by
        rw [added]
        exact List.mem_append_right _ (List.mem_cons_self ..)
      exact absurd colon (by decide)
    have empty : ¬ (host.toList = [] ∨ port.toList = []) := not_or.mpr ⟨named, List.length_pos_iff.mp some⟩
    have kept := portRefused_eq_false.mpr ⟨short, digits, value⟩
    rw [parseAddress_split given split last, if_neg empty, kept, if_neg Bool.false_ne_true, String.ofList_toList,
      String.ofList_toList]

/-- An address is refused with a reason. -/
theorem refused_reason {address error : String} (refused : parseAddress address = .refused error) : error ≠ "" := by
  unfold parseAddress at refused
  extract_lets trimmed at refused
  split at refused
  · cases refused
    decide
  split at refused
  · cases refused
    decide
  split at refused
  · cases refused
    decide
  · exact nomatch refused

end FzeroVs.Session
