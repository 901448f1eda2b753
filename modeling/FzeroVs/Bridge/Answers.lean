import FzeroVs.Bridge.Framing
import FzeroVs.Bridge.Patches

namespace FzeroVs.Bridge

/-- How much is written about a patch. -/
def Patch.size (p : Patch) (sha : Bytes) : Nat :=
  (quoted p.id).length + (decimal p.offset).length + 2 * p.original.length + 2 * p.replacement.length +
    (quoted sha).length + 66

namespace State

/-! The sizes of the answers that repeat names, instructions or patches. The
others have room in any case, and stand here as zero. -/

def statusSize (s : State) (id : Nat) : Nat :=
  let sha := if s.romSha256 ≠ [] then (quoted s.romSha256).length else 4
  if s.gameLoaded && s.emulator.isSome then
    (decimal id).length + (quoted (s.emulator.getD [])).length + (quoted s.romName).length + sha +
      (if s.machine.paused then 6 else 7) + (decimal s.frameCounter.toNat).length + 168
  else (decimal id).length + sha + (decimal s.frameCounter.toNat).length + 183

def instructionSize (entry : Nat × Bytes × Bytes) : Nat :=
  (decimal entry.1).length + (3 * entry.2.1.length - 1) + (quoted entry.2.2).length + 38

def disassembleSize (s : State) (document : Document) (id : Nat) : Nat :=
  match unsignedField document "address" 0 0xffffff, unsignedField document "count" 1 256 with
  | some address, some count =>
    (decimal id).length + (decimal address).length + (decimal count).length + (jsonBool s.machine.e).length +
      (jsonBool (s.machine.flag 5)).length + (jsonBool (s.machine.flag 4)).length +
      ((listing s.machine count address).map instructionSize).sum + (count - 1) + 79
  | _, _ => 0

def romPatchSize (s : State) (document : Document) (id : Nat) : Nat :=
  match s.patchArguments document with
  | none => 0
  | some (offset, sha, expected, replacement) =>
    if sha ≠ s.romSha256 then 0
    else if !regionValid offset expected.length s.rom.size then 0
    else if s.patches.any (overlaps offset expected.length) then 0
    else if s.rom.readAll offset expected.length ≠ expected then 0
    else (decimal id).length + Patch.size ⟨patchId s.nextPatchId.toNat, offset, expected, replacement⟩ sha + 18

def patchListSize (s : State) (id : Nat) : Nat :=
  (decimal id).length + (s.patches.map fun p => p.size s.romSha256 + 2).sum + (s.patches.length - 1) + 30

def romPatchRevertSize (s : State) (document : Document) (id : Nat) : Nat :=
  match stringField document "patch_id", (stringField document "expected_rom_sha256").bind normalizeSha256 with
  | some patchId, some sha =>
    if sha ≠ s.romSha256 then 0
    else
      match s.patches.find? fun q => q.id == patchId with
      | none => 0
      | some p => (decimal id).length + p.size s.romSha256 + 34
  | _, _ => 0

def savestateCreateSize (s : State) (document : Document) (id : Nat) : Nat :=
  let name := stateName document
  if 80 < name.length then 0
  else
    match s.machine.serialized with
    | none => 0
    | some data =>
      (decimal id).length + (decimal s.nextStateId.toNat).length + (if name = [] then 4 else (quoted name).length) +
        (decimal data.length).length + (quoted s.romSha256).length + 67

def unknownCommandSize (id : Nat) (command : Bytes) : Nat := (decimal id).length + (jsonEscape command).length + 83

def debugSize (s : State) (document : Document) (id : Nat) (command : Bytes) : Nat :=
  if command = ascii "cpu.registers" then 0
  else if command = ascii "cpu.disassemble" then s.disassembleSize document id
  else if command = ascii "memory.read" then 0
  else if command = ascii "memory.write" then 0
  else if command = ascii "rom.read" then 0
  else if command = ascii "rom.patch" then s.romPatchSize document id
  else if command = ascii "rom.patch.list" then s.patchListSize id
  else if command = ascii "rom.patch.revert" then s.romPatchRevertSize document id
  else if command = ascii "savestate.create" then s.savestateCreateSize document id
  else if command = ascii "savestate.restore" then 0
  else if command = ascii "savestate.delete" then 0
  else if command = ascii "screen.capture" then 0
  else unknownCommandSize id command

def executeSize (s : State) (document : Document) (id : Nat) (command : Bytes) : Nat :=
  if command = ascii "emulator.status" then s.statusSize id
  else if s.gameLoaded = false ∨ s.emulator = none then 0
  else if command = ascii "emulator.pause" then 0
  else if command = ascii "emulator.resume" then 0
  else if command = ascii "emulator.reset" then 0
  else if s.emulator ≠ some superFamicom then 0
  else s.debugSize document id command

end State

theorem length_field (name : String) (value : Bytes) :
    (State.field name value).length = (ascii name).length + value.length + 4 := by
  have start : (ascii ",\"").length = 2 := by decide
  have stop : (ascii "\":").length = 2 := by decide
  rw [State.field, List.length_append, List.length_append, List.length_append, start, stop]
  omega

theorem length_separated (elements : List Bytes) :
    (State.separated elements).length = (elements.map List.length).sum + (elements.length - 1) := by
  induction elements with
  | nil => rfl
  | cons x rest ih =>
    cases rest with
    | nil => rfl
    | cons y rest =>
      have comma : (ascii ",").length = 1 := by decide
      have first : State.separated (x :: y :: rest) = x ++ ascii "," ++ State.separated (y :: rest) := rfl
      rw [first, List.length_append, List.length_append, comma, ih]
      simp only [List.map_cons, List.sum_cons, List.length_cons]
      omega

theorem length_jsonArray (elements : List Bytes) :
    (State.jsonArray elements).length = (elements.map List.length).sum + (elements.length - 1) + 2 := by
  have start : (ascii "[").length = 1 := by decide
  have stop : (ascii "]").length = 1 := by decide
  rw [State.jsonArray, List.length_append, List.length_append, start, stop, length_separated]
  omega

theorem length_success (id : Nat) (fields : Bytes) :
    (Response.success id fields).encode.length = (decimal id).length + fields.length + 17 := by
  have start : (ascii "\x7b\"id\":").length = 6 := by decide
  have mark : (ascii ",\"ok\":true").length = 10 := by decide
  have stop : (ascii "\x7d").length = 1 := by decide
  simp only [Response.encode, List.length_append, start, mark, stop]
  omega

theorem length_failure (id : Option Nat) (code : Code) (message : Bytes) :
    (Response.failure id code message).encode.length =
      (idText id).length + code.text.length + (jsonEscape message).length + 51 := by
  have start : (ascii "\x7b\"id\":").length = 6 := by decide
  have mark : (ascii ",\"ok\":false,\"error\":\x7b\"code\":").length = 28 := by decide
  have middle : (ascii ",\"message\":").length = 11 := by decide
  have stop : (ascii "\x7d\x7d").length = 2 := by decide
  have letters : (quoted code.text).length = code.text.length + 2 :=
    length_quoted_plain (by cases code <;> decide +kernel)
  simp only [Response.encode, List.length_append, start, mark, middle, stop, letters, length_quoted]
  omega

theorem length_patchFields (s : State) (p : Patch) : (s.patchFields p).length = p.size s.romSha256 := by
  have names : (ascii "\"patch_id\":").length = 11 ∧ (ascii "offset").length = 6 ∧ (ascii "original").length = 8 ∧
      (ascii "replacement").length = 11 ∧ (ascii "rom_sha256").length = 10 := by decide
  simp only [State.patchFields, List.length_append, length_field, length_quoted_plain (plain_encodeHex _),
    length_encodeHex, Patch.size]
  omega

theorem length_lowerHexDigits (value digits : Nat) : (State.lowerHexDigits value digits).length = digits := by
  rw [State.lowerHexDigits, List.length_map, List.length_range]

theorem length_listing (m : Machine) (count address : Nat) : (State.listing m count address).length = count := by
  induction count generalizing address with
  | zero => rfl
  | succ count ih => exact congrArg (· + 1) (ih _)

theorem length_instruction (entry : Nat × Bytes × Bytes) :
    (State.instruction entry).length = State.instructionSize entry := by
  have names : (ascii "\x7b\"address\":").length = 11 ∧ (ascii "bytes").length = 5 ∧
      (ascii "instruction").length = 11 ∧ (ascii "\x7d").length = 1 := by decide
  simp only [State.instruction, State.instructionSize, List.length_append, length_field,
    length_quoted_plain (plain_encodeHexSpaced _), length_encodeHexSpaced]
  omega

theorem unsignedField_le {document : Document} {name : String} {minimum maximum value : Nat}
    (read : unsignedField document name minimum maximum = some value) : value ≤ maximum := by
  unfold unsignedField at read
  split at read
  · exact nomatch read
  split at read
  · exact nomatch read
  split at read
  · exact nomatch read
  split at read
  · exact nomatch read
  · cases read
    omega

theorem domain_known {s : State} {domain : Bytes} (known : ¬ s.domainLimit domain = 0) : domain.length ≤ 5 := by
  have named : domain = ascii "wram" ∨ domain = ascii "vram" ∨ domain = ascii "oam" ∨ domain = ascii "cgram" ∨
      domain = ascii "rom" ∨ domain = ascii "bus" := by
    by_contra other
    simp only [not_or] at other
    obtain ⟨wram, vram, oam, cgram, rom, bus⟩ := other
    simp only [State.domainLimit, wram, vram, oam, cgram, rom, bus, if_false] at known
    exact known trivial
  rcases named with rfl | rfl | rfl | rfl | rfl | rfl <;> decide

theorem patchArguments_offset {s : State} {document : Document} {offset : Nat} {sha expected replacement : Bytes}
    (given : s.patchArguments document = some (offset, sha, expected, replacement)) : offset ≤ s.rom.size := by
  unfold State.patchArguments at given
  split at given
  · rename_i atOffset _ _ _
    split at given
    · exact nomatch given
    · cases given
      exact unsignedField_le atOffset
  · exact nomatch given

theorem plain_stateId (n : UInt64) : ∀ b ∈ ascii "state-" ++ decimal n.toNat, Plain b := by
  have start : ∀ b ∈ ascii "state-", Plain b := by simp [ascii, Plain]
  intro b member
  exact (List.mem_append.mp member).elim (start b) (plain_decimal _ b)

/-- The save states are named by the bridge. -/
def Numbered (states : List SaveState) : Prop :=
  ∀ state ∈ states, ∃ n : UInt64, state.id = ascii "state-" ++ decimal n.toNat

theorem Numbered.short {states : List SaveState} (numbers : Numbered states) {state : SaveState}
    (stored : state ∈ states) : (quoted state.id).length ≤ 28 := by
  obtain ⟨n, same⟩ := numbers state stored
  have start : (ascii "state-").length = 6 := by decide
  have digits : (decimal n.toNat).length ≤ 20 := length_decimal_le (by decide) (Nat.lt_trans n.toNat_lt (by decide))
  rw [same, length_quoted_plain (plain_stateId n), List.length_append]
  omega

/-- The answer has this size, or none to speak of. -/
def Measures (r : Response) (size : Nat) : Prop :=
  r.encode.length = size ∨ size = 0 ∧ r.encode.length ≤ streamLimit

theorem Measures.fits {r : Response} {size : Nat} (measures : Measures r size) :
    r.encode.length ≤ streamLimit ↔ size ≤ streamLimit := by
  rcases measures with same | ⟨none, small⟩
  · rw [same]
  · rw [none]
    exact ⟨fun _ => Nat.zero_le _, fun _ => small⟩

theorem Measures.ite {c : Prop} [Decidable c] {x y : Response × State} {a b : Nat} (yes : c → Measures x.1 a)
    (no : ¬ c → Measures y.1 b) : Measures (if c then x else y).1 (if c then a else b) := by
  by_cases holds : c
  · rw [if_pos holds, if_pos holds]
    exact yes holds
  · rw [if_neg holds, if_neg holds]
    exact no holds

section

variable {id : Nat} (numbered : id ≤ maximumRequestId)

include numbered

theorem length_id_le : (decimal id).length ≤ 16 := length_decimal_le (by decide) (Nat.lt_of_le_of_lt numbered (by decide))

theorem failure_measures (code : Code) {message : Bytes} (short : message.length ≤ 100) :
    Measures (.failure (some id) code message) 0 := by
  have name := length_id_le numbered
  have letters : code.text.length ≤ 20 := by cases code <;> decide
  have escaped := length_jsonEscape_le message
  refine .inr ⟨rfl, ?_⟩
  rw [length_failure, idText]
  unfold streamLimit
  omega

theorem success_measures {fields : Bytes} (short : fields.length ≤ 1000000) : Measures (.success id fields) 0 := by
  have name := length_id_le numbered
  refine .inr ⟨rfl, ?_⟩
  rw [length_success]
  unfold streamLimit
  omega

namespace State

omit numbered in
theorem status_measures (s : State) : Measures (s.status id) (s.statusSize id) := by
  have names : (ascii "protocol_version").length = 16 ∧ (ascii "bridge_version").length = 14 ∧
      (ascii "game_loaded").length = 11 ∧ (ascii "system").length = 6 ∧ (ascii "rom_name").length = 8 ∧
      (ascii "rom_sha256").length = 10 ∧ (ascii "running").length = 7 ∧ (ascii "paused").length = 6 ∧
      (ascii "state").length = 5 ∧ (ascii "frame").length = 5 ∧ (ascii "null").length = 4 := by decide
  have values : (decimal 1).length = 1 ∧ (quoted (ascii "0.1.0")).length = 7 ∧ (jsonBool true).length = 4 ∧
      (jsonBool false).length = 5 ∧ (quoted (ascii "paused")).length = 8 ∧ (quoted (ascii "running")).length = 9 ∧
      (quoted (ascii "empty")).length = 7 := by decide
  have sha : (if s.romSha256 ≠ [] then quoted s.romSha256 else ascii "null").length =
      if s.romSha256 ≠ [] then (quoted s.romSha256).length else 4 := by
    split <;> simp [names]
  left
  unfold status statusSize
  cases loaded : s.gameLoaded && s.emulator.isSome with
  | true =>
    simp only [if_true, length_success, List.length_append, length_field, Bool.not_true, sha]
    cases s.machine.paused <;> simp <;> omega
  | false =>
    simp only [length_success, List.length_append, length_field, Bool.not_false, if_true, Bool.false_and, sha]
    simp
    omega

theorem registers_measures (s : State) : Measures (s.registers id) 0 := by
  have names : (ascii "pc").length = 2 ∧ (ascii "pb").length = 2 ∧ (ascii "db").length = 2 ∧ (ascii "a").length = 1 ∧
      (ascii "x").length = 1 ∧ (ascii "y").length = 1 ∧ (ascii "s").length = 1 ∧ (ascii "d").length = 1 ∧
      (ascii "p").length = 1 ∧ (ascii "e").length = 1 ∧ (ascii "pc_formatted").length = 12 ∧
      (ascii "flags").length = 5 ∧ (ascii "v").length = 1 ∧ (ascii "m").length = 1 ∧ (ascii "i").length = 1 ∧
      (ascii "z").length = 1 ∧ (ascii "c").length = 1 ∧ (ascii "$").length = 1 ∧ (ascii ":").length = 1 ∧
      (ascii "\x7b\"n\":").length = 5 ∧ (ascii "\x7d").length = 1 := by decide
  have word (w : UInt16) : (decimal w.toNat).length ≤ 5 :=
    length_decimal_le (by decide) (Nat.lt_trans w.toNat_lt (by decide))
  have byte (b : UInt8) : (decimal b.toNat).length ≤ 3 :=
    length_decimal_le (by decide) (Nat.lt_trans b.toNat_lt (by decide))
  have formatted := length_jsonEscape_le
    (ascii "$" ++ lowerHexDigits s.machine.pb.toNat 2 ++ ascii ":" ++ lowerHexDigits s.machine.pc.toNat 4)
  have flag (b : Bool) := length_jsonBool_le b
  refine success_measures numbered ?_
  simp only [List.length_append, length_field, length_quoted, length_lowerHexDigits] at formatted ⊢
  have := word s.machine.pc
  have := word s.machine.a
  have := word s.machine.x
  have := word s.machine.y
  have := word s.machine.s
  have := word s.machine.d
  have := byte s.machine.pb
  have := byte s.machine.db
  have := byte s.machine.p
  have := flag s.machine.e
  have := flag (s.machine.flag 7)
  have := flag (s.machine.flag 6)
  have := flag (s.machine.flag 5)
  have := flag (s.machine.flag 4)
  have := flag (s.machine.flag 3)
  have := flag (s.machine.flag 2)
  have := flag (s.machine.flag 1)
  have := flag (s.machine.flag 0)
  omega

omit numbered in
theorem disassemble_sized {s : State} {document : Document} {address count : Nat}
    (atAddress : unsignedField document "address" 0 0xffffff = some address)
    (atCount : unsignedField document "count" 1 256 = some count) :
    (s.disassemble document id).encode.length = s.disassembleSize document id := by
  have names : (ascii "address").length = 7 ∧ (ascii "count").length = 5 ∧ (ascii "mode").length = 4 ∧
      (ascii "m").length = 1 ∧ (ascii "x").length = 1 ∧ (ascii "instructions").length = 12 ∧
      (ascii "\x7b\"e\":").length = 5 ∧ (ascii "\x7d").length = 1 := by decide
  have sizes : ((listing s.machine count address).map instruction).map List.length =
      (listing s.machine count address).map instructionSize := by
    rw [List.map_map]
    exact List.map_congr_left fun entry _ => length_instruction entry
  simp only [disassemble, disassembleSize, atAddress, atCount, length_success, List.length_append, length_field,
    length_jsonArray, sizes, List.length_map, length_listing]
  omega

theorem disassemble_measures (s : State) (document : Document) :
    Measures (s.disassemble document id) (s.disassembleSize document id) := by
  cases atAddress : unsignedField document "address" 0 0xffffff with
  | none =>
    simp only [disassemble, disassembleSize, atAddress]
    exact failure_measures numbered _ (by decide)
  | some address =>
    cases atCount : unsignedField document "count" 1 256 with
    | none =>
      simp only [disassemble, disassembleSize, atAddress, atCount]
      exact failure_measures numbered _ (by decide)
    | some count => exact .inl (disassemble_sized atAddress atCount)

theorem memoryRead_measures (s : State) (document : Document) : Measures (s.memoryRead document id) 0 := by
  have names : (ascii "domain").length = 6 ∧ (ascii "address").length = 7 ∧ (ascii "size").length = 4 ∧
      (ascii "data").length = 4 := by decide
  unfold memoryRead
  split
  · rename_i domain address size _ atAddress atSize
    split
    · exact failure_measures numbered _ (by decide)
    · rename_i known
      split
      · exact failure_measures numbered _ (by decide)
      · refine success_measures numbered ?_
        have place : (decimal address).length ≤ 8 :=
          length_decimal_le (by decide) (Nat.lt_of_le_of_lt (unsignedField_le atAddress) (by decide))
        have sized := unsignedField_le atSize
        have digits : (decimal size).length ≤ 5 :=
          length_decimal_le (by decide) (Nat.lt_of_le_of_lt sized (by decide))
        have word := length_jsonEscape_le domain
        have short := domain_known known
        simp only [List.length_append, length_field, length_quoted_plain (plain_encodeHex _), length_encodeHex,
          List.length_map, List.length_range', length_quoted]
        unfold maximumTransfer at sized
        omega
  · exact failure_measures numbered _ (by decide)

theorem memoryWrite_measures (s : State) (document : Document) : Measures (s.memoryWrite document id).1 0 := by
  have names : (ascii ",\"domain\":\"wram\"").length = 16 ∧ (ascii "address").length = 7 ∧
      (ascii "written").length = 7 ∧ (ascii "original").length = 8 ∧ (ascii "resulting").length = 9 := by decide
  unfold memoryWrite
  split
  · rename_i domain replacement address _ _ atAddress
    split
    · exact failure_measures numbered _ (by decide)
    rename_i limited
    split
    · exact failure_measures numbered _ (by decide)
    split
    · exact failure_measures numbered _ (by decide)
    · refine success_measures numbered ?_
      have place : (decimal address).length ≤ 6 :=
        length_decimal_le (by decide) (Nat.lt_of_le_of_lt (unsignedField_le atAddress) (by decide))
      have sized : replacement.length ≤ 65536 := Nat.not_lt.mp limited
      have digits : (decimal replacement.length).length ≤ 5 := length_decimal_le (by decide) (by omega)
      simp only [List.length_append, length_field, length_quoted_plain (plain_encodeHex _), length_encodeHex,
        List.length_map, List.length_range']
      omega
  · exact failure_measures numbered _ (by decide)

theorem romRead_measures (s : State) (document : Document) : Measures (s.romRead document id) 0 := by
  have names : (ascii "offset").length = 6 ∧ (ascii "size").length = 4 ∧ (ascii "data").length = 4 := by decide
  unfold romRead
  dsimp only
  split
  · rename_i offset size atOffset atSize
    split
    · exact failure_measures numbered _ (by decide)
    · refine success_measures numbered ?_
      have place : (decimal offset).length ≤ 8 :=
        length_decimal_le (by decide)
          (Nat.lt_of_le_of_lt (Nat.le_trans (unsignedField_le atOffset) s.rom.small) (by decide))
      have sized := unsignedField_le atSize
      have digits : (decimal size).length ≤ 5 :=
        length_decimal_le (by decide) (Nat.lt_of_le_of_lt sized (by decide))
      simp only [List.length_append, length_field, length_quoted_plain (plain_encodeHex _), length_encodeHex,
        Rom.readAll, List.length_map, List.length_range']
      unfold maximumTransfer at sized
      omega
  · exact failure_measures numbered _ (by decide)

theorem hashMismatch_measures : Measures (hashMismatch id) 0 := failure_measures numbered _ (by decide)

theorem romPatch_measures (s : State) (document : Document) :
    Measures (s.romPatch document id).1 (s.romPatchSize document id) := by
  have comma : (ascii ",").length = 1 := by decide
  unfold romPatch romPatchSize
  cases given : s.patchArguments document with
  | none => exact failure_measures numbered _ (by decide)
  | some arguments =>
    obtain ⟨offset, sha, expected, replacement⟩ := arguments
    refine .ite (fun _ => hashMismatch_measures numbered) fun known => ?_
    refine .ite (fun _ => failure_measures numbered _ (by decide)) fun _ => ?_
    refine .ite (fun _ => failure_measures numbered _ (by decide)) fun _ => ?_
    refine .ite (fun _ => failure_measures numbered _ (by decide)) fun held => .inl ?_
    have inside : offset < 2 ^ 32 := by
      have := Nat.le_trans (patchArguments_offset given) s.rom.small
      omega
    simp only [length_success, List.length_append, length_patchFields, not_not.mp held, Nat.mod_eq_of_lt inside, comma,
      ← not_not.mp known]
    omega

omit numbered in
theorem patchList_sized (s : State) : (s.patchList id).encode.length = s.patchListSize id := by
  have names : (ascii "patches").length = 7 ∧ (ascii "\x7b").length = 1 ∧ (ascii "\x7d").length = 1 := by decide
  have sizes : (s.patches.map fun p => ascii "\x7b" ++ s.patchFields p ++ ascii "\x7d").map List.length =
      s.patches.map fun p => p.size s.romSha256 + 2 := by
    rw [List.map_map]
    refine List.map_congr_left fun p _ => ?_
    simp only [Function.comp_apply, List.length_append, length_patchFields]
    omega
  simp only [patchList, patchListSize, length_success, length_field, length_jsonArray, sizes, List.length_map]
  omega

theorem romPatchRevert_measures {s : State} (sound : Sound s) (document : Document) :
    Measures (s.romPatchRevert document id).1 (s.romPatchRevertSize document id) := by
  have names : (ascii ",").length = 1 ∧ (ascii ",\"reverted\":true").length = 16 := by decide
  unfold romPatchRevert romPatchRevertSize
  cases stringField document "patch_id" with
  | none => exact failure_measures numbered _ (by decide)
  | some patchId =>
    cases (stringField document "expected_rom_sha256").bind normalizeSha256 with
    | none => exact failure_measures numbered _ (by decide)
    | some sha =>
      refine .ite (fun _ => hashMismatch_measures numbered) fun _ => ?_
      cases found : s.patches.find? fun q => q.id == patchId with
      | none => exact failure_measures numbered _ (by decide)
      | some p =>
        have held := sound.readback (List.mem_of_find?_eq_some found)
        dsimp only
        rw [if_neg (not_not.mpr held)]
        left
        simp only [length_success, List.length_append, length_patchFields]
        omega

theorem savestateCreate_measures (s : State) (document : Document) :
    Measures (s.savestateCreate document id).1 (s.savestateCreateSize document id) := by
  have names : (ascii "state_id").length = 8 ∧ (ascii "name").length = 4 ∧ (ascii "size").length = 4 ∧
      (ascii "rom_sha256").length = 10 ∧ (ascii "state-").length = 6 := by decide
  unfold savestateCreate savestateCreateSize
  refine .ite (fun _ => failure_measures numbered _ (by decide)) fun _ => ?_
  cases s.machine.serialized with
  | none => exact failure_measures numbered _ (by decide)
  | some data =>
    left
    have name : (if stateName document = [] then ascii "null" else quoted (stateName document)).length =
        if stateName document = [] then 4 else (quoted (stateName document)).length := by
      split <;> rfl
    simp only [length_success, List.length_append, length_field, length_quoted_plain (plain_stateId _), name]
    omega

omit numbered in
theorem unknownCommand_measures (command : Bytes) :
    Measures (unknownCommand id command) (unknownCommandSize id command) := by
  have names : (ascii "unknown command: ").length = 17 ∧ Code.text .unknownCommand = ascii "UNKNOWN_COMMAND" ∧
      (ascii "UNKNOWN_COMMAND").length = 15 := by decide
  have start : jsonEscape (ascii "unknown command: ") = ascii "unknown command: " := by decide
  left
  rw [unknownCommand, unknownCommandSize, length_failure, jsonEscape, List.flatMap_append, List.length_append]
  rw [jsonEscape] at start
  rw [start, names.2.1, idText, jsonEscape]
  omega

theorem savestateRestore_measures {s : State} (numbers : Numbered s.states) (document : Document) :
    Measures (s.savestateRestore document id) 0 := by
  have names : (ascii "state_id").length = 8 ∧ (ascii ",\"restored\":true").length = 16 := by decide
  unfold savestateRestore
  split
  · exact failure_measures numbered _ (by decide)
  split
  · exact failure_measures numbered _ (by decide)
  · rename_i state found
    split
    · exact failure_measures numbered _ (by decide)
    split
    · exact failure_measures numbered _ (by decide)
    · refine success_measures numbered ?_
      have short := numbers.short (List.mem_of_find?_eq_some found)
      have same := List.find?_some found
      rw [beq_iff_eq] at same
      rw [same] at short
      simp only [List.length_append, length_field]
      omega

theorem savestateDelete_measures {s : State} (numbers : Numbered s.states) (document : Document) :
    Measures (s.savestateDelete document id).1 0 := by
  have names : (ascii "state_id").length = 8 ∧ (ascii ",\"deleted\":true").length = 15 := by decide
  unfold savestateDelete
  split
  · exact failure_measures numbered _ (by decide)
  · rename_i stateId _
    split
    · exact failure_measures numbered _ (by decide)
    · rename_i kept
      simp only [List.all_eq_true, bne_iff_ne, not_forall, not_not] at kept
      obtain ⟨state, stored, same⟩ := kept
      have short := numbers.short stored
      rw [same] at short
      refine success_measures numbered ?_
      simp only [List.length_append, length_field]
      omega

theorem screenCapture_measures (s : State) : Measures (s.screenCapture id).1 0 := by
  have names : (ascii "/tmp/ares-debug-captures/ares-").length = 30 ∧ (ascii "-").length = 1 ∧
      (ascii ".png").length = 4 ∧ (ascii "path").length = 4 ∧ (ascii "width").length = 5 ∧
      (ascii "height").length = 6 ∧ (ascii "frame").length = 5 := by decide
  have long (n : UInt64) : (decimal n.toNat).length ≤ 20 :=
    length_decimal_le (by decide) (Nat.lt_trans n.toNat_lt (by decide))
  have word (n : UInt32) : (decimal n.toNat).length ≤ 10 :=
    length_decimal_le (by decide) (Nat.lt_trans n.toNat_lt (by decide))
  unfold screenCapture
  split
  · exact failure_measures numbered _ (by decide)
  split
  · exact failure_measures numbered _ (by decide)
  split
  · exact failure_measures numbered _ (by decide)
  dsimp only
  split
  · exact failure_measures numbered _ (by decide)
  · refine success_measures numbered ?_
    have path := length_jsonEscape_le (ascii "/tmp/ares-debug-captures/ares-" ++ decimal s.machine.processId.toNat ++
      ascii "-" ++ decimal s.nextCaptureId.toNat ++ ascii ".png")
    have := long s.machine.processId
    have := long s.nextCaptureId
    have := long s.frameCounter
    have := word s.frameWidth
    have := word s.frameHeight
    simp only [List.length_append, length_field, length_quoted] at path ⊢
    omega

theorem debug_measures {s : State} (sound : Sound s) (numbers : Numbered s.states) (document : Document)
    (command : Bytes) : Measures (s.debug document id command).1 (s.debugSize document id command) := by
  refine .ite (fun _ => s.registers_measures numbered) fun _ => ?_
  refine .ite (fun _ => s.disassemble_measures numbered document) fun _ => ?_
  refine .ite (fun _ => s.memoryRead_measures numbered document) fun _ => ?_
  refine .ite (fun _ => s.memoryWrite_measures numbered document) fun _ => ?_
  refine .ite (fun _ => s.romRead_measures numbered document) fun _ => ?_
  refine .ite (fun _ => s.romPatch_measures numbered document) fun _ => ?_
  refine .ite (fun _ => .inl s.patchList_sized) fun _ => ?_
  refine .ite (fun _ => romPatchRevert_measures numbered sound document) fun _ => ?_
  refine .ite (fun _ => s.savestateCreate_measures numbered document) fun _ => ?_
  refine .ite (fun _ => savestateRestore_measures numbered numbers document) fun _ => ?_
  refine .ite (fun _ => savestateDelete_measures numbered numbers document) fun _ => ?_
  exact .ite (fun _ => s.screenCapture_measures numbered) fun _ => unknownCommand_measures command

theorem execute_measures {s : State} (sound : Sound s) (numbers : Numbered s.states) (document : Document)
    (command : Bytes) : Measures (s.execute document id command).1 (s.executeSize document id command) := by
  refine .ite (fun _ => s.status_measures) fun _ => ?_
  refine .ite (fun _ => failure_measures numbered _ (by decide)) fun _ => ?_
  refine .ite (fun _ => success_measures numbered (by decide)) fun _ => ?_
  refine .ite (fun _ => success_measures numbered (by decide)) fun _ => ?_
  refine .ite (fun _ => success_measures numbered (by decide)) fun _ => ?_
  refine .ite (fun _ => failure_measures numbered _ (by decide)) fun _ => ?_
  exact debug_measures numbered sound numbers document command

end State

end

end FzeroVs.Bridge
