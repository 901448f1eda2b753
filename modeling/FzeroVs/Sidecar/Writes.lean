import FzeroVs.Bridge.Framing
import FzeroVs.Bridge.Writes
import FzeroVs.Sidecar.Service

namespace FzeroVs.Sidecar

open Bridge

/-- A value as `nodeText` finds it. -/
def plainText : Value → Bytes
  | .number n => decimal n
  | .text t => t

/-- The document is that of a request: it has the number, the command and the
parameters that `_exchange_locked` writes. -/
structure Carries (document : Document) (requestId : Nat) (command : String) (parameters : List (String × Value)) :
    Prop where
  id : document "id" = some (decimal requestId)
  command : document "command" = some (ascii command)
  parameters : ∀ parameter ∈ parameters, document parameter.1 = some (plainText parameter.2)

theorem Carries.numbered {document : Document} {requestId : Nat} {command : String}
    {parameters : List (String × Value)} (carries : Carries document requestId command parameters)
    (numbered : requestId ≤ maximumRequestId) : unsignedField document "id" 0 maximumRequestId = some requestId :=
  unsignedField_decimal carries.id (Nat.zero_le _) numbered (numbered.trans (by decide))

/-- `normalized_hex`, where nothing may be empty. -/
def normalizedHex (value : Bytes) : Option Bytes :=
  if value = [] then none
  else if value.length % 2 ≠ 0 ∨ (value.any fun c => !decide (IsHex c)) = true then none
  else some (value.map upperHex)

/-- `memory_write`: the parameters of its request, unless it raises `ValueError`. -/
def memoryWrite (domain : Bytes) (address : Int) (data : Bytes) : Option (List (String × Value)) :=
  match normalizedHex data with
  | none => none
  | some normalized =>
    if address < 0 ∨ !regionKnown domain address.toNat (normalized.length / 2) then none
    else if domain ≠ ascii "wram" then none
    else some [("domain", .text domain), ("address", .number address.toNat), ("data", .text normalized)]

theorem normalizedHex_eq_some {value normalized : Bytes} :
    normalizedHex value = some normalized ↔ Hex value ∧ value.map upperHex = normalized := by
  unfold normalizedHex
  by_cases empty : value = []
  · rw [if_pos empty]
    exact iff_of_false nofun fun hex => hex.1.nonempty empty
  rw [if_neg empty]
  have digits : (value.any fun c => !decide (IsHex c)) = true ↔ ¬ ∀ c ∈ value, IsHex c := by simp
  simp only [digits]
  by_cases odd : value.length % 2 ≠ 0 ∨ ¬ ∀ c ∈ value, IsHex c
  · rw [if_pos odd]
    exact iff_of_false nofun fun hex => odd.elim (· hex.1.even) (· hex.1.digits)
  · rw [if_neg odd, Option.some.injEq]
    rw [not_or, ne_eq, not_not, not_not] at odd
    exact ⟨fun same => ⟨⟨empty, odd.1, odd.2⟩, same⟩, And.right⟩

theorem regionKnown_wram {address size : Nat} : regionKnown (ascii "wram") address size = true ↔
    0 < size ∧ size ≤ maximumTransfer ∧ address + size ≤ wramSize := by
  have known : regionKnown (ascii "wram") address size =
      (decide (1 ≤ size) && decide (size ≤ maximumTransfer) &&
        (decide (address ≤ wramSize) && decide (size ≤ wramSize - address))) := rfl
  rw [known]
  simp only [Bool.and_eq_true, decide_eq_true_eq]
  omega

theorem upperHex_twice : ∀ c, upperHex (upperHex c) = upperHex c := forall_byte (by decide +kernel)

theorem upperHex_hex : ∀ c, IsHex c → IsHex (upperHex c) := forall_byte (by decide +kernel)

/-- Upper case is hex again, and stays as it is. -/
theorem map_upperHex {data : Bytes} (hex : Hex data) :
    Hex (data.map upperHex) ∧ (data.map upperHex).map upperHex = data.map upperHex := by
  refine ⟨⟨fun none => hex.nonempty (List.map_eq_nil_iff.mp none), ?_, ?_⟩, ?_⟩
  · rw [List.length_map]
    exact hex.even
  · intro c member
    obtain ⟨d, inside, rfl⟩ := List.mem_map.mp member
    exact upperHex_hex d (hex.digits d inside)
  · rw [List.map_map]
    exact List.map_congr_left fun c _ => upperHex_twice c

/-- What the encoder writes is hex in upper case. -/
theorem encodeHex_hex {data : Bytes} (nonempty : data ≠ []) :
    Hex (encodeHex data) ∧ (encodeHex data).map upperHex = encodeHex data := by
  have decoded := decodeHex_encodeHex nonempty
  have hex := decodeHex_hex decoded
  obtain ⟨other, also, upper, _⟩ := hex.decode
  obtain rfl := Option.some.inj (decoded.symm.trans also)
  exact ⟨hex, upper.symm⟩

theorem encodeHex_injective : Function.Injective encodeHex := fun a b same =>
  Option.some.inj ((decodePairs_encodeHex a).symm.trans (same ▸ decodePairs_encodeHex b))

/-- A `memory.write` has put these bytes into WRAM and nothing else, and its
answer is what takes them out again. -/
structure Undone (s : Bridge.State) (document : Document) (id address : Nat) (data original : Bytes)
    (t : Bridge.State) : Prop where
  answered : s.dispatch (some document) =
    (.success id (State.writeFields address (data.length / 2) original (data.map upperHex)), t)
  read : ∀ request readId, ReadRequest request readId (ascii "wram") address (data.length / 2) →
    t.dispatch (some request) =
      (.success readId
        (State.field "domain" (quoted (ascii "wram")) ++ State.field "address" (decimal address) ++
          State.field "size" (decimal (data.length / 2)) ++ State.field "data" (quoted (data.map upperHex))), t)
  others : ∀ a, a < address ∨ address + data.length / 2 ≤ a → t.machine.wram a = s.machine.wram a
  frame : t = { s with machine := { s.machine with wram := t.machine.wram } }
  restored : ∀ request undoId text, unsignedField request "id" 0 maximumRequestId = some undoId →
    stringField request "command" = some (ascii "memory.write") → Writes request (ascii "wram") text original →
    Decimal text → numeral text = address →
    t.dispatch (some request) =
      (.success undoId (State.writeFields address (data.length / 2) (data.map upperHex) original), s)

theorem readRegion_wram {s : Bridge.State} (running : s.Running) {address size : Nat}
    (valid : 0 < size ∧ size ≤ maximumTransfer ∧ address + size ≤ wramSize) :
    readRegion s (ascii "wram") address size = .ok ((List.range' address size).map s.machine.wram) := by
  have limit : s.domainLimit (ascii "wram") = wramSize := rfl
  have byte : s.domainByte (ascii "wram") = s.machine.wram := rfl
  rw [readRegion, if_neg (State.present running.game), if_neg (not_not.mpr running.emulator), limit, if_neg (by decide), regionValid_iff.mpr valid,
    byte]
  rfl

theorem write_undone {s : Bridge.State} (running : s.Running) {document : Document} {id : Nat}
    (numbered : unsignedField document "id" 0 maximumRequestId = some id)
    (named : stringField document "command" = some (ascii "memory.write")) {domain address data : Bytes}
    (writes : Writes document domain address data) (writable : Writable domain address data) :
    ∃ original t, Undone s document id (numeral address) data original t := by
  obtain ⟨bytes, upper, length, written⟩ := s.memoryWrite_accepts id writes writable
  have nonempty := writable.hex.positive
  have cells := s.writeWram_cells (numeral address) bytes
  have running' : (s.writeWram (numeral address) bytes).Running := ⟨running.gameLoaded, running.emulator⟩
  have back := read_writeAll_cells s.machine.wram (numeral address) bytes
  rw [← cells, length] at back
  refine ⟨_, _, ⟨(State.dispatch_write running numbered named).trans written, ?_, ?_, rfl, ?_⟩⟩
  · intro request readId reads
    rw [dispatch_read _ reads, readRegion_wram running' ⟨nonempty, writable.sized, writable.fits⟩, back]
    dsimp only
    rw [upper]
  · intro a outside
    rw [cells, writeAll_of_not_mem fun member => ?_]
    rw [mem_cells_keys, length] at member
    omega
  · intro request undoId text numbered' named' writes' decimal same
    have kept : (List.range' (numeral address) (data.length / 2)).map s.machine.wram ≠ [] := by
      rw [← List.length_pos_iff, List.length_map, List.length_range']
      exact nonempty
    obtain ⟨hex, upper'⟩ := encodeHex_hex kept
    have half : (encodeHex ((List.range' (numeral address) (data.length / 2)).map s.machine.wram)).length / 2 =
        data.length / 2 := by
      rw [length_encodeHex, List.length_map, List.length_range']
      omega
    obtain ⟨bytes', again, _, written'⟩ := State.memoryWrite_accepts (s.writeWram (numeral address) bytes) undoId writes'
      ⟨rfl, decimal, hex, half.trans_le writable.sized, by rw [same, half]; exact writable.fits⟩
    rw [State.dispatch_write running' numbered' named', written', half, same, back, upper, upper',
      encodeHex_injective (again.trans upper'), ← length, State.writeWram_undo]

/-- The sidecar refuses no `memory.write` that the bridge takes. -/
theorem memoryWrite_isSome_iff (domain : Bytes) (address : Int) (data : Bytes) :
    (memoryWrite domain address data).isSome = true ↔
      0 ≤ address ∧ Writable domain (decimal address.toNat) data := by
  unfold memoryWrite
  cases normal : normalizedHex data with
  | none =>
    refine iff_of_false nofun fun writable => ?_
    exact nomatch normal.symm.trans (normalizedHex_eq_some.mpr ⟨writable.2.hex, rfl⟩)
  | some normalized =>
    obtain ⟨hex, rfl⟩ := normalizedHex_eq_some.mp normal
    dsimp only
    rw [List.length_map]
    by_cases wram : domain = ascii "wram"
    · subst wram
      have known := @regionKnown_wram address.toNat (data.length / 2)
      rw [if_neg (not_not.mpr rfl)]
      by_cases refused : address < 0 ∨ (!regionKnown (ascii "wram") address.toNat (data.length / 2)) = true
      · rw [if_pos refused]
        refine iff_of_false nofun fun writable => ?_
        have fits := writable.2.fits
        rw [numeral_decimal] at fits
        have some := List.length_pos_iff.mpr hex.nonempty
        have even := hex.even
        rw [known.mpr ⟨by omega, writable.2.sized, fits⟩] at refused
        exact refused.elim (fun negative => by omega) nofun
      · rw [if_neg refused]
        rw [not_or, Bool.not_eq_true', Bool.not_eq_false, known] at refused
        refine iff_of_true rfl ⟨by omega, rfl, decimal_decimal _, hex, refused.2.2.1, ?_⟩
        rw [numeral_decimal]
        exact refused.2.2.2
    · rw [if_pos wram]
      refine iff_of_false ?_ fun writable => wram writable.2.wram
      split <;> exact nofun

/-- What the sidecar sends is what it was given, in upper case. -/
theorem memoryWrite_sends {domain data : Bytes} {address : Int} {parameters : List (String × Value)}
    (sent : memoryWrite domain address data = some parameters) :
    0 ≤ address ∧ Writable domain (decimal address.toNat) data ∧
      parameters = [("domain", .text domain), ("address", .number address.toNat), ("data", .text (data.map upperHex))] := by
  obtain ⟨above, writable⟩ := (memoryWrite_isSome_iff domain address data).mp (sent ▸ rfl)
  refine ⟨above, writable, ?_⟩
  unfold memoryWrite at sent
  rw [normalizedHex_eq_some.mpr ⟨writable.hex, rfl⟩] at sent
  dsimp only at sent
  split at sent
  · exact nomatch sent
  split at sent
  · exact nomatch sent
  · exact (Option.some.inj sent).symm

/-- Only the number of bytes and their upper case count. -/
theorem Undone.upper {s t : Bridge.State} {document : Document} {id address : Nat} {data data' original : Bytes}
    (undone : Undone s document id address data' original t) (length : data'.length = data.length)
    (upper : data'.map upperHex = data.map upperHex) : Undone s document id address data original t where
  answered := by
    rw [← length, ← upper]
    exact undone.answered
  read := by
    rw [← length, ← upper]
    exact undone.read
  others := by
    rw [← length]
    exact undone.others
  frame := undone.frame
  restored := by
    rw [← length, ← upper]
    exact undone.restored

/-- A `memory.write` of the sidecar, from its arguments to WRAM. -/
theorem memoryWrite_through {s : Bridge.State} (running : s.Running) {domain data : Bytes} {address : Int}
    {parameters : List (String × Value)} (sent : memoryWrite domain address data = some parameters) {requestId : Nat}
    (numbered : requestId ≤ maximumRequestId) {document : Document}
    (carries : Carries document requestId "memory.write" parameters) :
    ∃ original t, Undone s document requestId address.toNat data original t := by
  obtain ⟨_, writable, rfl⟩ := memoryWrite_sends sent
  obtain ⟨hex, again⟩ := map_upperHex writable.hex
  have length : (data.map upperHex).length = data.length := List.length_map _
  have inDomain := carries.parameters ("domain", .text domain) (by simp)
  have atAddress := carries.parameters ("address", .number address.toNat) (by simp)
  have text := carries.parameters ("data", .text (data.map upperHex)) (by simp)
  obtain ⟨original, t, undone⟩ := write_undone running (carries.numbered numbered)
    (stringField_eq_some.mpr ⟨carries.command, by decide⟩) ⟨inDomain, atAddress, text⟩
    ⟨writable.wram, writable.decimal, hex, length.symm ▸ writable.sized, length.symm ▸ writable.fits⟩
  simp only [plainText, numeral_decimal] at undone
  exact ⟨original, t, undone.upper length again⟩

/-- A `memory.write` is undone by its own answer. The bridge takes any hex for a
region of WRAM and nothing else; the region then reads as that hex in upper case,
and to write the `original` of the answer back gives the state before. The sidecar
sends every such request, and no other. -/
theorem memoryWrite_undone {s : Bridge.State} (running : s.Running) :
    (∀ document id, unsignedField document "id" 0 maximumRequestId = some id →
      stringField document "command" = some (ascii "memory.write") →
      (∀ domain address data, Writes document domain address data → Writable domain address data →
        ∃ original t, Undone s document id (numeral address) data original t) ∧
      ((∀ domain address data, Writes document domain address data → ¬ Writable domain address data) →
        (s.dispatch (some document)).1.code ≠ none ∧ (s.dispatch (some document)).2 = s)) ∧
    ∀ (domain : Bytes) (address : Int) (data : Bytes),
      ((memoryWrite domain address data).isSome = true ↔ 0 ≤ address ∧ Writable domain (decimal address.toNat) data) ∧
      ∀ parameters requestId document, memoryWrite domain address data = some parameters →
        requestId ≤ maximumRequestId → Carries document requestId "memory.write" parameters →
        ∃ original t, Undone s document requestId address.toNat data original t := by
  refine ⟨fun document id numbered named => ⟨fun domain address data writes writable => ?_, fun never => ?_⟩,
    fun domain address data => ⟨memoryWrite_isSome_iff domain address data,
      fun parameters requestId document sent numbered carries => ?_⟩⟩
  · exact write_undone running numbered named writes writable
  · rw [State.dispatch_write running numbered named]
    exact s.memoryWrite_refuses id never
  · exact memoryWrite_through running sent numbered carries

/-- What the parser finds in the line with nothing but the request. -/
def requestDocument (requestId : Nat) (command : String) (parameters : List (String × Value)) : Document := fun name =>
  ((("id", .number requestId) :: ("command", .text (ascii command)) :: parameters).lookup name).map plainText

/-- The last two bytes of WRAM. -/
def sampleParameters : List (String × Value) :=
  [("domain", .text (ascii "wram")), ("address", .number 131070), ("data", .text (ascii "EA0F"))]

theorem sampleStore_undone :
    ∃ original t, Undone sampleStore (requestDocument 7 "memory.write" sampleParameters) 7 131070 (ascii "eA0f")
      original t := by
  have running : sampleStore.Running := ⟨by decide +kernel, by decide +kernel⟩
  have sent : memoryWrite (ascii "wram") 131070 (ascii "eA0f") = some sampleParameters := rfl
  have carries : Carries (requestDocument 7 "memory.write" sampleParameters) 7 "memory.write" sampleParameters :=
    ⟨rfl, rfl, by decide +kernel⟩
  exact ((memoryWrite_undone running).2 (ascii "wram") 131070 (ascii "eA0f")).2 _ 7 _ sent (by decide) carries

end FzeroVs.Sidecar
