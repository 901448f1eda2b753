import Mathlib.Data.List.Basic
import Mathlib.Algebra.Order.Ring.Nat

namespace FzeroVs.Bridge

abbrev Bytes := List UInt8

/-- A text of the source. All of them are ASCII. -/
def ascii (text : String) : Bytes := text.toList.map fun c => UInt8.ofNat c.toNat

def hexDigit (n : Nat) : UInt8 := (ascii "0123456789ABCDEF").getD n 0

def escapeByte (value : UInt8) : Bytes :=
  if value = 34 then ascii "\\\""
  else if value = 92 then ascii "\\\\"
  else if value = 8 then ascii "\\b"
  else if value = 12 then ascii "\\f"
  else if value = 10 then ascii "\\n"
  else if value = 13 then ascii "\\r"
  else if value = 9 then ascii "\\t"
  else if value < 0x20 then
    ascii "\\u00" ++ [(ascii "0123456789abcdef").getD (value >>> 4).toNat 0,
      (ascii "0123456789abcdef").getD (value &&& 15).toNat 0]
  else [value]

def jsonEscape (input : Bytes) : Bytes := input.flatMap escapeByte

def quoted (input : Bytes) : Bytes := [34] ++ jsonEscape input ++ [34]

def jsonBool (value : Bool) : Bytes := if value then ascii "true" else ascii "false"

/-- `std::to_string` of an unsigned number. -/
def decimal (n : Nat) : Bytes := (Nat.toDigits 10 n).map fun c => UInt8.ofNat c.toNat

/-- The nodes of a parsed request under their names, each as its text. -/
abbrev Document := String → Option Bytes

/-- Decimal digits that do not overflow 64 bits. -/
def parseDigits : Nat → Bytes → Option Nat
  | value, [] => some value
  | value, digit :: rest =>
    if digit < 48 ∨ 57 < digit then none
    else
      let next := digit.toNat - 48
      if (2 ^ 64 - 1 - next) / 10 < value then none else parseDigits (value * 10 + next) rest

def unsignedField (document : Document) (name : String) (minimum maximum : Nat) : Option Nat :=
  match document name with
  | none => none
  | some text =>
    if text = [] then none
    else
      match parseDigits 0 text with
      | none => none
      | some value => if value < minimum ∨ maximum < value then none else some value

def stringField (document : Document) (name : String) : Option Bytes :=
  match document name with
  | none => none
  | some text => if text = ascii "null" then none else some text

def nibble (value : UInt8) : Option UInt8 :=
  if 48 ≤ value ∧ value ≤ 57 then some (value - 48)
  else if 97 ≤ value ∧ value ≤ 102 then some (value - 97 + 10)
  else if 65 ≤ value ∧ value ≤ 70 then some (value - 65 + 10)
  else none

def decodePairs : Bytes → Option Bytes
  | [] => some []
  | [_] => none
  | high :: low :: rest =>
    match nibble high, nibble low, decodePairs rest with
    | some high, some low, some rest => some ((high <<< 4 ||| low) :: rest)
    | _, _, _ => none

/-- Neither nothing nor half a byte. -/
def decodeHex (input : Bytes) : Option Bytes := if input = [] then none else decodePairs input

def encodeHex (data : Bytes) : Bytes := data.flatMap fun b => [hexDigit (b.toNat / 16), hexDigit (b.toNat % 16)]

def encodeHexSpaced : Bytes → Bytes
  | [] => []
  | [b] => encodeHex [b]
  | b :: rest => encodeHex [b] ++ [32] ++ encodeHexSpaced rest

/-- A digest in lower case. -/
def isDigest (text : Bytes) : Bool :=
  text.length == 64 && text.all fun c => decide (48 ≤ c ∧ c ≤ 57) || decide (97 ≤ c ∧ c ≤ 102)

def lowerHex (c : UInt8) : UInt8 := if 65 ≤ c ∧ c ≤ 70 then c - 65 + 97 else c

def normalizeSha256 (value : Bytes) : Option Bytes :=
  if isDigest (value.map lowerHex) then some (value.map lowerHex) else none

/-- A property of bytes that the 256 of them have. -/
theorem forall_byte {P : UInt8 → Prop} (all : ∀ n < 256, P (UInt8.ofNat n)) (b : UInt8) : P b := by
  have this := all b.toNat b.toNat_lt
  rwa [UInt8.ofNat_toNat] at this

theorem length_decimal_le {n k : Nat} (some : 0 < k) (small : n < 10 ^ k) : (decimal n).length ≤ k := by
  rw [decimal, List.length_map]
  exact (Nat.length_toDigits_le_iff (by omega) some).mpr small

theorem length_encodeHex (data : Bytes) : (encodeHex data).length = 2 * data.length := by
  induction data with
  | nil => rfl
  | cons b rest ih =>
    have pair : (encodeHex (b :: rest)).length = (encodeHex rest).length + 2 := rfl
    rw [pair, ih, List.length_cons]
    omega

theorem length_encodeHexSpaced (data : Bytes) : (encodeHexSpaced data).length = 3 * data.length - 1 := by
  induction data with
  | nil => rfl
  | cons b rest ih =>
    cases rest with
    | nil => rfl
    | cons c rest =>
      have first : (encodeHexSpaced (b :: c :: rest)).length = (encodeHexSpaced (c :: rest)).length + 3 := rfl
      rw [first, ih]
      simp only [List.length_cons]
      omega

theorem length_jsonBool_le (value : Bool) : (jsonBool value).length ≤ 5 := by
  cases value <;> decide

theorem length_escapeByte_le (value : UInt8) : (escapeByte value).length ≤ 6 := by
  unfold escapeByte
  repeat' split
  all_goals simp [ascii]

/-- No byte takes more than six to write. -/
theorem length_jsonEscape_le (input : Bytes) : (jsonEscape input).length ≤ 6 * input.length := by
  induction input with
  | nil => exact Nat.le_refl 0
  | cons value rest ih =>
    have first := length_escapeByte_le value
    have split : (jsonEscape (value :: rest)).length = (escapeByte value).length + (jsonEscape rest).length := by
      rw [jsonEscape, List.flatMap_cons, List.length_append]
      rfl
    rw [List.length_cons]
    omega

theorem length_quoted (input : Bytes) : (quoted input).length = (jsonEscape input).length + 2 := by
  simp [quoted]

/-- A byte that stands for itself in a JSON string. -/
def Plain (b : UInt8) : Prop := 32 ≤ b ∧ b ≠ 34 ∧ b ≠ 92

instance (b : UInt8) : Decidable (Plain b) := inferInstanceAs (Decidable (32 ≤ b ∧ b ≠ 34 ∧ b ≠ 92))

/-- Digits and letters do. -/
theorem plain_of_le {b : UInt8} (above : 48 ≤ b) (other : b ≠ 92) : Plain b :=
  ⟨UInt8.le_trans (by decide) above, by rintro rfl; exact absurd above (by decide), other⟩

theorem escapeByte_plain {value : UInt8} (plain : Plain value) : escapeByte value = [value] := by
  obtain ⟨above, quote, slash⟩ := plain
  have low (k : UInt8) (below : k < 32) : value ≠ k := by
    rintro rfl
    exact UInt8.not_le.mpr below above
  unfold escapeByte
  simp only [quote, slash, low _ (show (8 : UInt8) < 32 by decide), low _ (show (12 : UInt8) < 32 by decide),
    low _ (show (10 : UInt8) < 32 by decide), low _ (show (13 : UInt8) < 32 by decide),
    low _ (show (9 : UInt8) < 32 by decide), UInt8.not_lt.mpr above, if_false]

theorem jsonEscape_plain {input : Bytes} (plain : ∀ b ∈ input, Plain b) : jsonEscape input = input := by
  induction input with
  | nil => rfl
  | cons b rest ih =>
    have later := ih fun c member => plain c (List.mem_cons_of_mem _ member)
    rw [jsonEscape, List.flatMap_cons, escapeByte_plain (plain b (List.mem_cons_self ..))]
    exact congrArg (b :: ·) later

theorem length_quoted_plain {input : Bytes} (plain : ∀ b ∈ input, Plain b) :
    (quoted input).length = input.length + 2 := by
  rw [length_quoted, jsonEscape_plain plain]

theorem plain_hexDigit {n : Nat} (small : n < 16) : Plain (hexDigit n) := by
  have all : ∀ n < 16, Plain (hexDigit n) := by decide
  exact all n small

theorem plain_encodeHex (data : Bytes) : ∀ b ∈ encodeHex data, Plain b := by
  intro b member
  obtain ⟨value, _, inside⟩ := List.mem_flatMap.mp member
  have high : value.toNat / 16 < 16 := by
    have := value.toNat_lt
    omega
  rcases List.mem_pair.mp inside with rfl | rfl
  · exact plain_hexDigit high
  · exact plain_hexDigit (Nat.mod_lt _ (by decide))

theorem plain_encodeHexSpaced (data : Bytes) : ∀ b ∈ encodeHexSpaced data, Plain b := by
  induction data with
  | nil => exact nofun
  | cons value rest ih =>
    cases rest with
    | nil => exact plain_encodeHex [value]
    | cons next rest =>
      intro b member
      rcases List.mem_append.mp member with first | later
      · rcases List.mem_append.mp first with digit | blank
        · exact plain_encodeHex [value] b digit
        · rw [List.mem_singleton.mp blank]
          decide
      · exact ih b later

/-- A number is written in digits. -/
theorem decimal_digits (n : Nat) : ∀ b ∈ decimal n, 48 ≤ b ∧ b ≤ 57 := by
  intro b member
  obtain ⟨c, written, rfl⟩ := List.mem_map.mp member
  have digit := Nat.isDigit_of_mem_toDigits (by decide) (by decide) written
  simp only [Char.isDigit, Bool.and_eq_true, decide_eq_true_eq] at digit
  have low : 48 ≤ c.toNat := UInt32.le_iff_toNat_le.mp digit.1
  have high : c.toNat ≤ 57 := UInt32.le_iff_toNat_le.mp digit.2
  have value : (UInt8.ofNat c.toNat).toNat = c.toNat := UInt8.toNat_ofNat_of_lt' (show c.toNat < 256 by omega)
  rw [UInt8.le_iff_toNat_le, UInt8.le_iff_toNat_le, value]
  exact ⟨low, high⟩

theorem plain_decimal (n : Nat) : ∀ b ∈ decimal n, Plain b := by
  intro b member
  obtain ⟨low, high⟩ := decimal_digits n b member
  refine plain_of_le low fun slash => ?_
  rw [slash] at high
  exact absurd high (by decide)

theorem nibble_plain {value digit : UInt8} (read : nibble value = some digit) : Plain value := by
  unfold nibble at read
  split at read
  · rename_i range
    exact plain_of_le range.1 (by rintro rfl; exact absurd range.2 (by decide))
  split at read
  · rename_i range
    exact plain_of_le (UInt8.le_trans (by decide) range.1) (by rintro rfl; exact absurd range.1 (by decide))
  split at read
  · rename_i range
    exact plain_of_le (UInt8.le_trans (by decide) range.1) (by rintro rfl; exact absurd range.2 (by decide))
  · exact nomatch read

/-- Two plain digits for each byte. -/
theorem decodePairs_text {text data : Bytes} (decoded : decodePairs text = some data) :
    text.length = 2 * data.length ∧ ∀ b ∈ text, Plain b := by
  induction text using decodePairs.induct generalizing data with
  | case1 =>
    cases decoded
    exact ⟨rfl, nofun⟩
  | case2 => exact nomatch decoded
  | case3 high low rest h l later atRest atLow atHigh ih =>
    rw [decodePairs, atHigh, atLow, atRest] at decoded
    cases decoded
    obtain ⟨length, plain⟩ := ih atRest
    refine ⟨by simp only [List.length_cons]; omega, fun b member => ?_⟩
    rcases List.mem_cons.mp member with rfl | member
    · exact nibble_plain atHigh
    rcases List.mem_cons.mp member with rfl | member
    · exact nibble_plain atLow
    · exact plain b member
  | case4 high low rest stuck =>
    rw [decodePairs] at decoded
    split at decoded
    · rename_i atHigh atLow atRest
      exact absurd atRest (stuck _ _ _ atHigh atLow)
    · exact nomatch decoded

theorem decodeHex_text {text data : Bytes} (decoded : decodeHex text = some data) :
    text.length = 2 * data.length ∧ ∀ b ∈ text, Plain b := by
  unfold decodeHex at decoded
  split at decoded
  · exact nomatch decoded
  · exact decodePairs_text decoded

/-- What is written in hexadecimal reads back. -/
theorem decodePairs_encodeHex (data : Bytes) : decodePairs (encodeHex data) = some data := by
  have all : ∀ b : UInt8, nibble (hexDigit (b.toNat / 16)) = some (UInt8.ofNat (b.toNat / 16)) ∧
      nibble (hexDigit (b.toNat % 16)) = some (UInt8.ofNat (b.toNat % 16)) ∧
      UInt8.ofNat (b.toNat / 16) <<< 4 ||| UInt8.ofNat (b.toNat % 16) = b := forall_byte (by decide +kernel)
  induction data with
  | nil => rfl
  | cons b rest ih =>
    obtain ⟨high, low, whole⟩ := all b
    have pair : encodeHex (b :: rest) = hexDigit (b.toNat / 16) :: hexDigit (b.toNat % 16) :: encodeHex rest := rfl
    rw [pair, decodePairs, high, low, ih]
    dsimp only
    rw [whole]

theorem decodeHex_encodeHex {data : Bytes} (some : data ≠ []) : decodeHex (encodeHex data) = .some data := by
  have written : encodeHex data ≠ [] := by
    obtain ⟨b, rest, rfl⟩ := List.exists_cons_of_ne_nil some
    exact List.cons_ne_nil _ _
  rw [decodeHex, if_neg written, decodePairs_encodeHex]

theorem decodeHex_encodeHex_of_length {data : Bytes} (some : 0 < data.length) :
    decodeHex (encodeHex data) = .some data :=
  decodeHex_encodeHex (List.length_pos_iff.mp some)

theorem isDigest_text {text : Bytes} (digest : isDigest text = true) :
    text.length = 64 ∧ ∀ b ∈ text, Plain b := by
  simp only [isDigest, Bool.and_eq_true, beq_iff_eq, List.all_eq_true, Bool.or_eq_true, decide_eq_true_eq] at digest
  refine ⟨digest.1, fun b member => ?_⟩
  rcases digest.2 b member with range | range
  · exact plain_of_le range.1 (by rintro rfl; exact absurd range.2 (by decide))
  · exact plain_of_le (UInt8.le_trans (by decide) range.1) (by rintro rfl; exact absurd range.1 (by decide))

/-- A digest is as long before it is normalized. -/
theorem normalizeSha256_text {text digest : Bytes} (normal : normalizeSha256 text = some digest) :
    text.length = 64 ∧ ∀ b ∈ text, Plain b := by
  unfold normalizeSha256 at normal
  split at normal
  · rename_i valid
    obtain ⟨length, plain⟩ := isDigest_text valid
    refine ⟨by rwa [List.length_map] at length, fun b member => ?_⟩
    have lowered := plain _ (List.mem_map_of_mem member)
    unfold lowerHex at lowered
    split at lowered
    · rename_i upper
      exact plain_of_le (UInt8.le_trans (by decide) upper.1) (by rintro rfl; exact absurd upper.2 (by decide))
    · exact lowered
  · exact nomatch normal

end FzeroVs.Bridge
