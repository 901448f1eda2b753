import FzeroVs.Bridge.Text
import Mathlib.Data.Nat.Digits.Defs

namespace FzeroVs.Bridge

/-- A number as it is written: digits, and at least one. -/
structure Decimal (text : Bytes) : Prop where
  nonempty : text ≠ []
  digits : ∀ b ∈ text, 48 ≤ b ∧ b ≤ 57

/-- What it means. -/
def numeral (text : Bytes) : Nat := Nat.ofDigits 10 (text.reverse.map fun b => b.toNat - 48)

theorem numeral_cons (b : UInt8) (text : Bytes) :
    numeral (b :: text) = (b.toNat - 48) * 10 ^ text.length + numeral text := by
  have shift := Nat.ofDigits_reverse_cons (b := 10) (text.map fun b => b.toNat - 48) (b.toNat - 48)
  rw [List.length_map] at shift
  rw [numeral, List.map_reverse, List.map_cons, shift, numeral, List.map_reverse]
  ring

/-- A number that is written out reads back. -/
theorem numeral_decimal (n : Nat) : numeral (decimal n) = n := by
  have chars (cs : List Char) (small : ∀ c ∈ cs, c.toNat < 256) :
      numeral (cs.map fun c => UInt8.ofNat c.toNat) = Nat.ofDigitChars 10 cs 0 := by
    induction cs with
    | nil => rfl
    | cons c cs ih =>
      obtain ⟨first, later⟩ := List.forall_mem_cons.mp small
      have byte : (UInt8.ofNat c.toNat).toNat = c.toNat := UInt8.toNat_ofNat_of_lt' first
      have shift := @Nat.ofDigitChars_eq_ofDigitChars_zero cs (10 * 0 + (c.toNat - '0'.toNat))
      rw [List.map_cons, numeral_cons, List.length_map, byte, ih later, Nat.ofDigitChars_cons, shift]
      change (c.toNat - 48) * 10 ^ cs.length + _ = 10 ^ cs.length * (10 * 0 + (c.toNat - 48)) + _
      ring
  have small : ∀ c ∈ Nat.toDigits 10 n, c.toNat < 256 := by
    intro c written
    have digit := Nat.isDigit_of_mem_toDigits (by decide) (by decide) written
    simp only [Char.isDigit, Bool.and_eq_true, decide_eq_true_eq] at digit
    have high : c.toNat ≤ 57 := UInt32.le_iff_toNat_le.mp digit.2
    omega
  exact (chars _ small).trans Nat.ofDigitChars_ten_toDigits

theorem decimal_decimal (n : Nat) : Decimal (decimal n) where
  nonempty := fun none => Nat.toDigits_ne_nil (List.map_eq_nil_iff.mp none)
  digits := decimal_digits n

/-- The guard refuses exactly what would not fit. -/
theorem guard_iff (value next : Nat) (small : next ≤ 9) :
    (2 ^ 64 - 1 - next) / 10 < value ↔ 2 ^ 64 - 1 < value * 10 + next := by
  omega

theorem digit_iff (digit : UInt8) : ¬ (digit < 48 ∨ 57 < digit) ↔ 48 ≤ digit ∧ digit ≤ 57 := by
  rw [not_or, UInt8.not_lt, UInt8.not_lt]

theorem digit_small {digit : UInt8} (range : 48 ≤ digit ∧ digit ≤ 57) : digit.toNat - 48 ≤ 9 := by
  have high : digit.toNat ≤ 57 := UInt8.le_iff_toNat_le.mp range.2
  omega

/-- The loop from any digit on, with what it has read before. -/
theorem parseDigits_eq_some {value v : Nat} {text : Bytes} (small : value ≤ 2 ^ 64 - 1) :
    parseDigits value text = some v ↔
      (∀ b ∈ text, 48 ≤ b ∧ b ≤ 57) ∧ value * 10 ^ text.length + numeral text = v ∧ v ≤ 2 ^ 64 - 1 := by
  induction text generalizing value with
  | nil =>
    have whole : value * 10 ^ ([] : Bytes).length + numeral [] = value := by
      rw [List.length_nil, pow_zero, mul_one]
      rfl
    rw [parseDigits, Option.some.injEq, whole]
    constructor
    · rintro rfl
      exact ⟨nofun, rfl, small⟩
    · exact fun same => same.2.1
  | cons digit rest ih =>
    rw [parseDigits]
    by_cases range : digit < 48 ∨ 57 < digit
    · rw [if_pos range]
      refine iff_of_false nofun fun whole => ?_
      exact (digit_iff digit).mpr (whole.1 digit (List.mem_cons_self ..)) range
    rw [if_neg range]
    have digits := (digit_iff digit).mp range
    have next := digit_small digits
    have positive : 1 ≤ 10 ^ rest.length := Nat.one_le_pow _ _ (by decide)
    have split : value * 10 ^ (digit :: rest).length + numeral (digit :: rest) =
        (value * 10 + (digit.toNat - 48)) * 10 ^ rest.length + numeral rest := by
      rw [numeral_cons, List.length_cons, pow_succ, Nat.add_mul]
      ring
    rw [split]
    by_cases large : (2 ^ 64 - 1 - (digit.toNat - 48)) / 10 < value
    · rw [if_pos large]
      refine iff_of_false nofun fun whole => ?_
      have beyond := (guard_iff _ _ next).mp large
      have grows := Nat.le_mul_of_pos_right (value * 10 + (digit.toNat - 48)) positive
      omega
    · rw [if_neg large]
      have fits : value * 10 + (digit.toNat - 48) ≤ 2 ^ 64 - 1 :=
        Nat.not_lt.mp fun beyond => large ((guard_iff _ _ next).mpr beyond)
      rw [ih fits, List.forall_mem_cons]
      exact ⟨fun whole => ⟨⟨digits, whole.1⟩, whole.2⟩, fun whole => ⟨whole.1.2, whole.2⟩⟩

theorem unsignedField_eq_some {document : Document} {name : String} {minimum maximum v : Nat} :
    unsignedField document name minimum maximum = some v ↔
      ∃ text, document name = some text ∧ Decimal text ∧ numeral text = v ∧ minimum ≤ v ∧ v ≤ maximum ∧
        v ≤ 2 ^ 64 - 1 := by
  unfold unsignedField
  cases document name with
  | none => exact iff_of_false nofun nofun
  | some text =>
    dsimp only
    by_cases empty : text = []
    · rw [if_pos empty]
      refine iff_of_false nofun ?_
      rintro ⟨_, ⟨⟩, decimal, _⟩
      exact decimal.nonempty empty
    rw [if_neg empty]
    have parsed (w : Nat) := @parseDigits_eq_some 0 w text (Nat.zero_le _)
    simp only [Nat.zero_mul, Nat.zero_add] at parsed
    cases read : parseDigits 0 text with
    | none =>
      refine iff_of_false nofun ?_
      rintro ⟨_, ⟨⟩, decimal, value, _, _, fits⟩
      exact nomatch read.symm.trans ((parsed v).mpr ⟨decimal.digits, value, fits⟩)
    | some w =>
      obtain ⟨digits, rfl, fits⟩ := (parsed w).mp read
      dsimp only
      constructor
      · intro taken
        split at taken
        · exact nomatch taken
        · rename_i inside
          cases taken
          exact ⟨text, rfl, ⟨empty, digits⟩, rfl, by omega, by omega, fits⟩
      · rintro ⟨_, ⟨⟩, _, rfl, lower, upper, _⟩
        exact if_neg (by omega)

theorem unsignedField_decimal {document : Document} {name : String} {minimum maximum n : Nat}
    (there : document name = some (decimal n)) (lower : minimum ≤ n) (upper : n ≤ maximum) (fits : n ≤ 2 ^ 64 - 1) :
    unsignedField document name minimum maximum = some n :=
  unsignedField_eq_some.mpr ⟨_, there, decimal_decimal n, numeral_decimal n, lower, upper, fits⟩

/-! The same loop as it runs, on 64 bits, with the number handed back by reference. -/

/-- One turn of the loop. -/
def addDigit (value : UInt64) (digit : UInt8) : Option UInt64 :=
  if digit < 48 ∨ 57 < digit then none
  else
    let next := (digit - 48).toUInt64
    if (0xffffffffffffffff - next) / 10 < value then none else some (value * 10 + next)

/-- What `unsignedField` returns, and what `output` is then. -/
def unsignedOutput (document : Document) (name : String) (minimum maximum output : UInt64) : Bool × UInt64 :=
  match document name with
  | none => (false, output)
  | some text =>
    if text = [] then (false, output)
    else
      match text.foldlM addDigit 0 with
      | none => (false, output)
      | some value => if value < minimum ∨ maximum < value then (false, output) else (true, value)

/-- What a digit is worth. Nothing is subtracted from less. -/
theorem toNat_next {digit : UInt8} (range : 48 ≤ digit ∧ digit ≤ 57) :
    (digit - 48).toUInt64.toNat = digit.toNat - 48 := by
  rw [UInt8.toNat_toUInt64, UInt8.toNat_sub_of_le _ _ range.1]
  rfl

theorem guard64_iff (value : UInt64) {digit : UInt8} (range : 48 ≤ digit ∧ digit ≤ 57) :
    (0xffffffffffffffff - (digit - 48).toUInt64) / 10 < value ↔
      (2 ^ 64 - 1 - (digit.toNat - 48)) / 10 < value.toNat := by
  have next := toNat_next range
  have small := digit_small range
  have room : (0xffffffffffffffff - (digit - 48).toUInt64).toNat = 2 ^ 64 - 1 - (digit.toNat - 48) := by
    rw [UInt64.toNat_sub_of_le, next]
    · rfl
    · rw [UInt64.le_iff_toNat_le, next]
      exact Nat.le_trans small (by decide)
  rw [UInt64.lt_iff_toNat_lt, UInt64.toNat_div, room]
  rfl

/-- Before a digit that is taken there is room for it: neither the product nor the sum wraps. -/
theorem addDigit_exact {value w : UInt64} {digit : UInt8} (added : addDigit value digit = some w) :
    (value * 10).toNat = value.toNat * 10 ∧ w.toNat = value.toNat * 10 + (digit.toNat - 48) := by
  unfold addDigit at added
  split at added
  · exact nomatch added
  rename_i range
  have digits := (digit_iff digit).mp range
  dsimp only at added
  split at added
  · exact nomatch added
  rename_i guard
  cases added
  have fits : value.toNat * 10 + (digit.toNat - 48) ≤ 2 ^ 64 - 1 := by
    refine Nat.not_lt.mp fun beyond => guard ((guard64_iff value digits).mpr ?_)
    exact (guard_iff _ _ (digit_small digits)).mpr beyond
  have product : (value * 10).toNat = value.toNat * 10 := by
    rw [UInt64.toNat_mul]
    exact Nat.mod_eq_of_lt (show value.toNat * 10 < 2 ^ 64 by omega)
  refine ⟨product, ?_⟩
  rw [UInt64.toNat_add, product, toNat_next digits]
  exact Nat.mod_eq_of_lt (by omega)

/-- On 64 bits the loop reads what it reads without bounds. -/
theorem parseDigits_toNat (value : UInt64) (text : Bytes) :
    parseDigits value.toNat text = (text.foldlM addDigit value).map UInt64.toNat := by
  induction text generalizing value with
  | nil => rfl
  | cons digit rest ih =>
    rw [parseDigits, List.foldlM_cons]
    cases added : addDigit value digit with
    | some w =>
      have exact := (addDigit_exact added).2
      unfold addDigit at added
      split at added
      · exact nomatch added
      rename_i range
      dsimp only at added
      split at added
      · exact nomatch added
      rename_i guard
      rw [if_neg range, if_neg fun beyond => guard ((guard64_iff value ((digit_iff digit).mp range)).mpr beyond), ← exact]
      exact ih w
    | none =>
      unfold addDigit at added
      split at added
      · rename_i range
        exact if_pos range
      rename_i range
      dsimp only at added
      split at added
      · rename_i guard
        rw [if_neg range]
        exact if_pos ((guard64_iff value ((digit_iff digit).mp range)).mp guard)
      · exact nomatch added

/-- The two agree on what is taken, and what is refused leaves `output` as it was. -/
theorem unsignedOutput_eq (document : Document) (name : String) (minimum maximum output : UInt64) :
    unsignedOutput document name minimum maximum output =
      match unsignedField document name minimum.toNat maximum.toNat with
      | some v => (true, UInt64.ofNat v)
      | none => (false, output) := by
  unfold unsignedOutput unsignedField
  cases document name with
  | none => rfl
  | some text =>
    dsimp only
    split
    · rfl
    have parsed := parseDigits_toNat 0 text
    rw [UInt64.toNat_zero] at parsed
    rw [parsed]
    cases text.foldlM addDigit 0 with
    | none => rfl
    | some value =>
      simp only [Option.map_some, UInt64.lt_iff_toNat_lt]
      split
      · rfl
      · exact congrArg (Prod.mk true) UInt64.ofNat_toNat.symm

/-- `unsignedField` takes exactly the numbers in range, as the numbers that they
are, and otherwise leaves `output` alone. While it reads nothing wraps: after any
digits that it takes its value is the number that they write, and the next digit
that it takes leaves room for the product and for the sum. -/
theorem unsignedField_exact (document : Document) (name : String) (minimum maximum output : UInt64) :
    (∀ v, unsignedOutput document name minimum maximum output = (true, v) ↔
        ∃ text, document name = some text ∧ Decimal text ∧ numeral text = v.toNat ∧ minimum ≤ v ∧ v ≤ maximum) ∧
      ((unsignedOutput document name minimum maximum output).1 = true ↔
        ∃ text, document name = some text ∧ Decimal text ∧
          minimum.toNat ≤ numeral text ∧ numeral text ≤ maximum.toNat) ∧
      ((unsignedOutput document name minimum maximum output).1 = false →
        (unsignedOutput document name minimum maximum output).2 = output) ∧
      ∀ (text : Bytes) (value : UInt64), text.foldlM addDigit 0 = some value →
        value.toNat = numeral text ∧ ∀ digit next, addDigit value digit = some next →
          (value * 10).toNat = value.toNat * 10 ∧ next.toNat = value.toNat * 10 + (digit.toNat - 48) := by
  have most (v : UInt64) : v.toNat ≤ 2 ^ 64 - 1 := Nat.le_sub_one_of_lt v.toNat_lt
  rw [unsignedOutput_eq]
  refine ⟨fun v => ?_, ?_, ?_, fun text value read => ⟨?_, fun digit next added => addDigit_exact added⟩⟩
  · cases taken : unsignedField document name minimum.toNat maximum.toNat with
    | none =>
      refine iff_of_false (fun same => nomatch (Prod.ext_iff.mp same).1) ?_
      rintro ⟨text, there, decimal, value, lower, upper⟩
      have found := unsignedField_eq_some.mpr ⟨text, there, decimal, value, UInt64.le_iff_toNat_le.mp lower,
        UInt64.le_iff_toNat_le.mp upper, most v⟩
      exact nomatch taken.symm.trans found
    | some w =>
      obtain ⟨text, there, decimal, value, lower, upper, fits⟩ := unsignedField_eq_some.mp taken
      have back : (UInt64.ofNat w).toNat = w := UInt64.toNat_ofNat_of_lt' (show w < 2 ^ 64 by omega)
      dsimp only
      rw [Prod.mk.injEq]
      constructor
      · rintro ⟨_, rfl⟩
        exact ⟨text, there, decimal, value.trans back.symm, UInt64.le_iff_toNat_le.mpr (lower.trans_eq back.symm),
          UInt64.le_iff_toNat_le.mpr (back.trans_le upper)⟩
      · rintro ⟨other, also, _, same, _⟩
        obtain rfl := Option.some.inj (there.symm.trans also)
        exact ⟨rfl, UInt64.toNat_inj.mp (back.trans (value.symm.trans same))⟩
  · cases taken : unsignedField document name minimum.toNat maximum.toNat with
    | none =>
      refine iff_of_false nofun ?_
      rintro ⟨text, there, decimal, lower, upper⟩
      have found := unsignedField_eq_some.mpr ⟨text, there, decimal, rfl, lower, upper, upper.trans (most maximum)⟩
      exact nomatch taken.symm.trans found
    | some w =>
      obtain ⟨text, there, decimal, rfl, lower, upper, _⟩ := unsignedField_eq_some.mp taken
      exact iff_of_true rfl ⟨text, there, decimal, lower, upper⟩
  · cases unsignedField document name minimum.toNat maximum.toNat with
    | none => exact fun _ => rfl
    | some w => exact nofun
  · have parsed := parseDigits_toNat 0 text
    rw [UInt64.toNat_zero, read] at parsed
    have whole := (parseDigits_eq_some (Nat.zero_le _)).mp parsed
    rw [Nat.zero_mul, Nat.zero_add] at whole
    exact whole.2.1.symm

end FzeroVs.Bridge
