import FzeroVs.Bridge.Numbers
import FzeroVs.Bridge.Patches

namespace FzeroVs.Bridge

/-- A digit of either case. -/
def IsHex (c : UInt8) : Prop := 48 ≤ c ∧ c ≤ 57 ∨ 65 ≤ c ∧ c ≤ 70 ∨ 97 ≤ c ∧ c ≤ 102

instance (c : UInt8) : Decidable (IsHex c) :=
  inferInstanceAs (Decidable (48 ≤ c ∧ c ≤ 57 ∨ 65 ≤ c ∧ c ≤ 70 ∨ 97 ≤ c ∧ c ≤ 102))

/-- Bytes as they are written: two digits for each, and at least one byte. -/
structure Hex (text : Bytes) : Prop where
  nonempty : text ≠ []
  even : text.length % 2 = 0
  digits : ∀ c ∈ text, IsHex c

def upperHex (c : UInt8) : UInt8 := if 97 ≤ c ∧ c ≤ 122 then c - 32 else c

theorem nibble_of_hex {c : UInt8} (digit : IsHex c) : ∃ n, nibble c = some n ∧ n < 16 ∧ hexDigit n.toNat = upperHex c := by
  have all : ∀ c, IsHex c → (nibble c).any fun n => decide (n < 16 ∧ hexDigit n.toNat = upperHex c) :=
    forall_byte (by decide +kernel)
  obtain ⟨n, read, value⟩ := (Option.any_eq_true _ _).mp (all c digit)
  exact ⟨n, read, of_decide_eq_true value⟩

theorem hex_of_nibble {c n : UInt8} (read : nibble c = some n) : IsHex c := by
  unfold nibble at read
  split at read
  · exact .inl ‹_›
  split at read
  · exact .inr (.inr ‹_›)
  split at read
  · exact .inr (.inl ‹_›)
  · exact nomatch read

theorem pair_halves {high low : UInt8} (upper : high < 16) (lower : low < 16) :
    (high <<< 4 ||| low).toNat / 16 = high.toNat ∧ (high <<< 4 ||| low).toNat % 16 = low.toNat := by
  have all : ∀ h < 16, ∀ l < 16, (UInt8.ofNat h <<< 4 ||| UInt8.ofNat l).toNat / 16 = h ∧
      (UInt8.ofNat h <<< 4 ||| UInt8.ofNat l).toNat % 16 = l := by decide +kernel
  have this := all high.toNat (UInt8.lt_iff_toNat_lt.mp upper) low.toNat (UInt8.lt_iff_toNat_lt.mp lower)
  rwa [UInt8.ofNat_toNat, UInt8.ofNat_toNat] at this

/-- The decoder takes two digits at a time, and the encoder gives them back in upper case. -/
theorem decodePairs_hex : {text : Bytes} → text.length % 2 = 0 → (∀ c ∈ text, IsHex c) →
    ∃ data, decodePairs text = some data ∧ encodeHex data = text.map upperHex
  | [], _, _ => ⟨[], rfl, rfl⟩
  | [_], even, _ => absurd (show 1 % 2 = 0 from even) (by decide)
  | high :: low :: rest, even, digits => by
    have evenRest : rest.length % 2 = 0 := by
      rw [List.length_cons, List.length_cons] at even
      omega
    obtain ⟨digitHigh, digitLow, digitsRest⟩ : IsHex high ∧ IsHex low ∧ ∀ c ∈ rest, IsHex c := by
      simpa only [List.forall_mem_cons] using digits
    obtain ⟨data, read, back⟩ := decodePairs_hex evenRest digitsRest
    obtain ⟨h, readHigh, smallHigh, upHigh⟩ := nibble_of_hex digitHigh
    obtain ⟨l, readLow, smallLow, upLow⟩ := nibble_of_hex digitLow
    obtain ⟨first, second⟩ := pair_halves smallHigh smallLow
    refine ⟨(h <<< 4 ||| l) :: data, by rw [decodePairs, readHigh, readLow, read], ?_⟩
    have pair : encodeHex ((h <<< 4 ||| l) :: data) =
        hexDigit ((h <<< 4 ||| l).toNat / 16) :: hexDigit ((h <<< 4 ||| l).toNat % 16) :: encodeHex data := rfl
    rw [pair, first, second, upHigh, upLow, back]
    rfl

theorem hex_of_decodePairs : {text data : Bytes} → decodePairs text = some data →
    text.length % 2 = 0 ∧ ∀ c ∈ text, IsHex c
  | [], _, _ => ⟨rfl, List.forall_mem_nil _⟩
  | [_], _, decoded => by cases decoded
  | high :: low :: rest, data, decoded => by
    rw [decodePairs] at decoded
    split at decoded
    · rename_i atHigh atLow atRest
      obtain ⟨even, digits⟩ := hex_of_decodePairs atRest
      rw [List.length_cons, List.length_cons, List.forall_mem_cons, List.forall_mem_cons]
      exact ⟨by omega, hex_of_nibble atHigh, hex_of_nibble atLow, digits⟩
    · cases decoded

theorem Hex.positive {text : Bytes} (hex : Hex text) : 0 < text.length / 2 := by
  have some := List.length_pos_iff.mpr hex.nonempty
  have even := hex.even
  omega

/-- What `decodeHex` takes, and what it makes of it. -/
theorem Hex.decode {text : Bytes} (hex : Hex text) :
    ∃ data, decodeHex text = some data ∧ encodeHex data = text.map upperHex ∧ data.length = text.length / 2 := by
  obtain ⟨data, read, back⟩ := decodePairs_hex hex.even hex.digits
  have sized := congrArg List.length back
  rw [length_encodeHex, List.length_map] at sized
  exact ⟨data, by rw [decodeHex, if_neg hex.nonempty, read], back, by omega⟩

theorem decodeHex_hex {text data : Bytes} (decoded : decodeHex text = some data) : Hex text := by
  unfold decodeHex at decoded
  split at decoded
  · exact nomatch decoded
  · rename_i nonempty
    obtain ⟨even, digits⟩ := hex_of_decodePairs decoded
    exact ⟨nonempty, even, digits⟩

namespace State

/-- WRAM with a region written into it, cell by cell. -/
theorem writeWram_cells (s : State) (address : Nat) (replacement : Bytes) :
    (s.writeWram address replacement).machine.wram = writeAll s.machine.wram (cells address replacement) := by
  funext a
  change (if address ≤ a ∧ a < address + replacement.length then replacement.getD (a - address) 0
    else s.machine.wram a) = _
  by_cases inside : address ≤ a ∧ a < address + replacement.length
  · have within : a - address < replacement.length := by omega
    have there : (List.range' address replacement.length)[a - address]? = some a := by
      rw [List.getElem?_range' within]
      exact congrArg some (by omega)
    have back := congrArg (fun l : Bytes => l[a - address]?) (read_writeAll_cells s.machine.wram address replacement)
    rw [List.getElem?_map, there, Option.map_some] at back
    rw [if_pos inside, List.getD_eq_getElem?_getD, ← back, Option.getD_some]
  · rw [if_neg inside, writeAll_of_not_mem fun member => inside (mem_cells_keys.mp member)]

/-- Writing back what was there before. -/
theorem writeWram_undo (s : State) (address : Nat) (replacement : Bytes) :
    (s.writeWram address replacement).writeWram address
      ((List.range' address replacement.length).map s.machine.wram) = s := by
  have restored := writeWram_cells (s.writeWram address replacement) address
    ((List.range' address replacement.length).map s.machine.wram)
  have same : writeAll (writeAll s.machine.wram (cells address replacement))
      (cells address ((List.range' address replacement.length).map s.machine.wram)) = s.machine.wram := by
    refine Eq.trans (writeAll_congr fun a outside => ?_) (writeAll_cells_self s.machine.wram address replacement.length)
    rw [mem_cells_keys, List.length_map, List.length_range'] at outside
    exact writeAll_of_not_mem fun member => outside (mem_cells_keys.mp member)
  have whole := restored.trans ((congrArg (writeAll · _) (writeWram_cells s address replacement)).trans same)
  exact congrArg (fun wram => ({ s with machine := { s.machine with wram := wram } } : State)) whole

end State

theorem stringField_eq_some {document : Document} {name : String} {text : Bytes} :
    stringField document name = some text ↔ document name = some text ∧ text ≠ ascii "null" := by
  unfold stringField
  cases document name with
  | none => exact iff_of_false nofun nofun
  | some found =>
    dsimp only
    by_cases null : found = ascii "null"
    · rw [if_pos null]
      refine iff_of_false nofun ?_
      rintro ⟨⟨⟩, other⟩
      exact other null
    · rw [if_neg null]
      refine ⟨?_, And.left⟩
      rintro ⟨⟩
      exact ⟨rfl, null⟩

/-- The fields of a `memory.write`. -/
structure Writes (document : Document) (domain address data : Bytes) : Prop where
  domain : document "domain" = some domain
  address : document "address" = some address
  data : document "data" = some data

/-- A region of WRAM, and the bytes for it. -/
structure Writable (domain address data : Bytes) : Prop where
  wram : domain = ascii "wram"
  decimal : Decimal address
  hex : Hex data
  sized : data.length / 2 ≤ maximumTransfer
  fits : numeral address + data.length / 2 ≤ wramSize

namespace State

/-- How a `memory.write` is answered. -/
def writeFields (address written : Nat) (original resulting : Bytes) : Bytes :=
  ascii ",\"domain\":\"wram\"" ++ field "address" (decimal address) ++ field "written" (decimal written) ++
    field "original" (quoted original) ++ field "resulting" (quoted resulting)

theorem memoryWrite_accepts (s : State) {document : Document} (id : Nat) {domain address data : Bytes}
    (writes : Writes document domain address data) (writable : Writable domain address data) :
    ∃ bytes, encodeHex bytes = data.map upperHex ∧ bytes.length = data.length / 2 ∧
      s.memoryWrite document id =
        (.success id (writeFields (numeral address) (data.length / 2)
          (encodeHex ((List.range' (numeral address) (data.length / 2)).map s.machine.wram)) (data.map upperHex)),
          s.writeWram (numeral address) bytes) := by
  obtain ⟨bytes, decoded, upper, length⟩ := writable.hex.decode
  have nonempty := writable.hex.positive
  have fits := writable.fits
  have there : stringField document "domain" = some domain :=
    stringField_eq_some.mpr ⟨writes.domain, writable.wram ▸ by decide⟩
  have hex : stringField document "data" = some data := by
    refine stringField_eq_some.mpr ⟨writes.data, ?_⟩
    rintro rfl
    exact absurd (writable.hex.digits 110 (by decide)) (by decide)
  have number : unsignedField document "address" 0 wramSize = some (numeral address) := by
    refine unsignedField_eq_some.mpr ⟨address, writes.address, writable.decimal, rfl, Nat.zero_le _, by omega, ?_⟩
    exact Nat.le_trans (by omega : numeral address ≤ wramSize) (by decide)
  have region : regionValid (numeral address) bytes.length wramSize = true :=
    regionValid_iff.mpr ⟨length ▸ nonempty, length ▸ writable.sized, length ▸ fits⟩
  refine ⟨bytes, upper, length, ?_⟩
  rw [memoryWrite, there, hex, Option.bind_some, decoded, number]
  dsimp only
  rw [if_neg (Nat.not_lt.mpr (length ▸ writable.sized)), if_neg (not_not.mpr writable.wram), region, length, upper]
  rfl

theorem memoryWrite_refuses (s : State) {document : Document} (id : Nat)
    (never : ∀ domain address data, Writes document domain address data → ¬ Writable domain address data) :
    (s.memoryWrite document id).1.code ≠ none ∧ (s.memoryWrite document id).2 = s := by
  unfold memoryWrite
  split
  · rename_i domain replacement address there hex number
    obtain ⟨data, text, decoded⟩ := Option.bind_eq_some_iff.mp hex
    obtain ⟨digits, written, decimal, rfl, _⟩ := unsignedField_eq_some.mp number
    split
    · exact ⟨nofun, rfl⟩
    rename_i sized
    split
    · exact ⟨nofun, rfl⟩
    rename_i wram
    split
    · exact ⟨nofun, rfl⟩
    rename_i region
    rw [Bool.not_eq_true', Bool.not_eq_false] at region
    obtain ⟨_, _, fits⟩ := regionValid_iff.mp region
    obtain ⟨length, _⟩ := decodeHex_text decoded
    have half : data.length / 2 = replacement.length := by omega
    refine absurd ?_ (never domain digits data
      ⟨(stringField_eq_some.mp there).1, written, (stringField_eq_some.mp text).1⟩)
    exact ⟨not_not.mp wram, decimal, decodeHex_hex decoded, half ▸ Nat.not_lt.mp sized, half ▸ fits⟩
  · exact ⟨nofun, rfl⟩

/-- A game for the Super Famicom is loaded, and the bridge listens. -/
structure Running (s : State) : Prop where
  gameLoaded : s.gameLoaded = true
  emulator : s.emulator = some superFamicom

theorem Running.game {s : State} (running : s.Running) : s.gameLoaded = true ∧ s.emulator = some superFamicom :=
  ⟨running.gameLoaded, running.emulator⟩

theorem dispatch_write {s : State} (running : s.Running) {document : Document} {id : Nat}
    (numbered : unsignedField document "id" 0 maximumRequestId = some id)
    (named : stringField document "command" = some (ascii "memory.write")) :
    s.dispatch (some document) = s.memoryWrite document id := by
  rw [dispatch_debug running.game numbered named (by decide), debug, if_neg (by decide), if_neg (by decide),
    if_neg (by decide), if_pos rfl]

end State

end FzeroVs.Bridge
