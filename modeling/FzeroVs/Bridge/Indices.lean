import FzeroVs.Bridge.Patches

namespace FzeroVs.Bridge

/-- A request that fails leaves everything but the number of the next capture
as it was. -/
def Fails (s : State) (r : Response) (t : State) : Prop := r.code ≠ none → ∃ n, t = { s with nextCaptureId := n }

namespace Fails

theorem stay {s : State} {r : Response} : Fails s r s := fun _ => ⟨s.nextCaptureId, rfl⟩

theorem success {s t : State} {r : Response} (done : r.code = none) : Fails s r t := fun failed => absurd done failed

theorem ite {c : Prop} [Decidable c] {s : State} {x y : Response × State} (yes : Fails s x.1 x.2)
    (no : Fails s y.1 y.2) : Fails s (if c then x else y).1 (if c then x else y).2 := by
  by_cases holds : c
  · rw [if_pos holds]
    exact yes
  · rw [if_neg holds]
    exact no

end Fails

namespace State

variable (s : State) (document : Document) (id : Nat)

theorem memoryWrite_fails : Fails s (s.memoryWrite document id).1 (s.memoryWrite document id).2 := by
  unfold memoryWrite
  split
  · exact .ite .stay (.ite .stay (.ite .stay (.success rfl)))
  · exact .stay

theorem romPatch_fails : Fails s (s.romPatch document id).1 (s.romPatch document id).2 := by
  unfold romPatch
  split
  · exact .stay
  · exact .ite .stay (.ite .stay (.ite .stay (.ite .stay (.success rfl))))

theorem romPatchRevert_fails : Fails s (s.romPatchRevert document id).1 (s.romPatchRevert document id).2 := by
  unfold romPatchRevert
  split
  · split
    · exact .stay
    split
    · exact .stay
    · exact .ite .stay (.success rfl)
  · exact .stay

theorem savestateCreate_fails : Fails s (s.savestateCreate document id).1 (s.savestateCreate document id).2 := by
  unfold savestateCreate
  dsimp only
  split
  · exact .stay
  split
  · exact .stay
  · exact .success rfl

theorem savestateDelete_fails : Fails s (s.savestateDelete document id).1 (s.savestateDelete document id).2 := by
  unfold savestateDelete
  split
  · exact .stay
  · exact .ite .stay (.success rfl)

/-- The one failure that leaves a trace: a capture that the encoder refuses has
used up its number. -/
theorem screenCapture_fails : Fails s (s.screenCapture id).1 (s.screenCapture id).2 := by
  have refused : Fails s (.failure (some id) .captureFailed (ascii "ares PNG encoder failed"))
      { s with nextCaptureId := s.nextCaptureId + 1 } := fun _ => ⟨s.nextCaptureId + 1, rfl⟩
  exact .ite .stay (.ite .stay (.ite .stay (.ite refused (.success rfl))))

theorem debug_fails (command : Bytes) :
    Fails s (s.debug document id command).1 (s.debug document id command).2 := by
  refine .ite .stay (.ite .stay (.ite .stay (.ite (s.memoryWrite_fails document id) (.ite .stay ?_))))
  refine .ite (s.romPatch_fails document id) (.ite .stay (.ite (s.romPatchRevert_fails document id) ?_))
  refine .ite (s.savestateCreate_fails document id) (.ite .stay (.ite (s.savestateDelete_fails document id) ?_))
  exact .ite (s.screenCapture_fails id) .stay

theorem execute_fails (command : Bytes) :
    Fails s (s.execute document id command).1 (s.execute document id command).2 := by
  refine .ite .stay (.ite .stay (.ite (.success rfl) (.ite (.success rfl) (.ite .stay (.ite .stay ?_)))))
  exact s.debug_fails document id command

theorem dispatch_fails (request : Option Document) :
    Fails s (s.dispatch request).1 (s.dispatch request).2 := by
  unfold dispatch
  split
  · exact .stay
  split
  · exact .stay
  split
  · exact .stay
  · exact .ite .stay (s.execute_fails _ _ _)

end State

theorem mapM_total {α β : Type} {f : α → Option β} {g : α → β} {l : List α} (each : ∀ a ∈ l, f a = some (g a)) :
    l.mapM f = some (l.map g) := by
  induction l with
  | nil => rfl
  | cons a rest ih =>
    rw [List.mapM_cons, each a (List.mem_cons_self ..), ih fun b member => each b (List.mem_cons_of_mem _ member)]
    rfl

/-! The same commands once more, with a test before each access to the cartridge,
to WRAM and to the memories of the PPU: an index outside gives nothing. Where a
command refuses before its first access, its answer stands. -/

def Rom.readChecked (r : Rom) (address : Nat) : Option UInt8 :=
  if address % 2 ^ 24 < r.size then some (r.read address) else Option.none

def Rom.programChecked (r : Rom) (address : Nat) (value : UInt8) : Option Rom :=
  if address % 2 ^ 24 < r.size then some (r.program address value) else Option.none

def Rom.readAllChecked (r : Rom) (offset size : Nat) : Option Bytes :=
  (List.range' offset size).mapM r.readChecked

def Rom.programAllChecked (r : Rom) (offset : Nat) : Bytes → Option Rom
  | [] => some r
  | value :: rest => (r.programChecked offset value).bind fun r => r.programAllChecked (offset + 1) rest

/-- Byte for byte, until one differs. -/
def Rom.liveChecked (r : Rom) (offset : Nat) : Bytes → Option Bool
  | [] => some true
  | value :: rest =>
    (r.readChecked offset).bind fun live =>
      if live ≠ value then some false else r.liveChecked (offset + 1) rest

def Memory.readChecked (m : Memory) (address : Nat) : Option UInt8 :=
  if address < m.size then some (m.read address) else none

def Machine.readChecked (m : Machine) (address : Nat) : Option UInt8 :=
  if address < wramSize then some (m.wram address) else none

def Machine.writeChecked (m : Machine) (address : Nat) (value : UInt8) : Option Machine :=
  if address < wramSize then some { m with wram := Function.update m.wram address value } else none

/-- Each byte is read before it is overwritten. -/
def Machine.replaceChecked (m : Machine) (address : Nat) : Bytes → Option (Bytes × Machine)
  | [] => some ([], m)
  | value :: rest =>
    (m.readChecked address).bind fun original =>
      (m.writeChecked address value).bind fun m =>
        (m.replaceChecked (address + 1) rest).map fun replaced => (original :: replaced.1, replaced.2)

namespace Rom

theorem inside {r : Rom} {address : Nat} (within : address < r.size) : address % 2 ^ 24 = address :=
  Nat.mod_eq_of_lt (Nat.lt_of_lt_of_le within r.small)

theorem readChecked_some {r : Rom} {address : Nat} (within : address < r.size) :
    r.readChecked address = some (r.read address) := by
  rw [readChecked, inside within, if_pos within]

theorem programChecked_some {r : Rom} {address : Nat} (within : address < r.size) (value : UInt8) :
    r.programChecked address value = some (r.program address value) := by
  rw [programChecked, inside within, if_pos within]

theorem readAllChecked_some {r : Rom} {offset size : Nat} (fits : offset + size ≤ r.size) :
    r.readAllChecked offset size = some (r.readAll offset size) := by
  refine mapM_total fun a member => readChecked_some ?_
  rw [List.mem_range'_1] at member
  omega

theorem programAllChecked_some {r : Rom} {offset : Nat} {bytes : Bytes} (fits : offset + bytes.length ≤ r.size) :
    r.programAllChecked offset bytes = some (r.programAll offset bytes) := by
  induction bytes generalizing r offset with
  | nil => rfl
  | cons value rest ih =>
    rw [List.length_cons] at fits
    have within : offset < r.size := by omega
    have later : offset + 1 + rest.length ≤ (r.program offset value).size := by
      change offset + 1 + rest.length ≤ r.size
      omega
    rw [programAllChecked, programChecked_some within, Option.bind_some, ih later]
    rfl

theorem liveChecked_some {r : Rom} {offset : Nat} {bytes : Bytes} (fits : offset + bytes.length ≤ r.size) :
    r.liveChecked offset bytes = some (decide (r.readAll offset bytes.length = bytes)) := by
  induction bytes generalizing offset with
  | nil => rfl
  | cons value rest ih =>
    rw [List.length_cons] at fits
    have within : offset < r.size := by omega
    have split : r.readAll offset (rest.length + 1) = r.read offset :: r.readAll (offset + 1) rest.length := rfl
    rw [liveChecked, readChecked_some within, Option.bind_some, ih (by omega), List.length_cons, split]
    by_cases same : r.read offset = value <;> simp [same]

end Rom

namespace Machine

/-- WRAM with a region of it replaced. -/
def replace (m : Machine) (address : Nat) (bytes : Bytes) : Machine :=
  { m with
    wram := fun a => if address ≤ a ∧ a < address + bytes.length then bytes.getD (a - address) 0 else m.wram a }

theorem replaceChecked_some {m : Machine} {address : Nat} {bytes : Bytes}
    (fits : address + bytes.length ≤ wramSize) :
    m.replaceChecked address bytes =
      some ((List.range' address bytes.length).map m.wram, m.replace address bytes) := by
  induction bytes generalizing m address with
  | nil =>
    have nothing : m.replace address [] = m := by
      have unchanged : (fun a => if address ≤ a ∧ a < address + 0 then ([] : Bytes).getD (a - address) 0 else m.wram a) =
          m.wram := by
        funext a
        rw [if_neg (by omega)]
      rw [replace, List.length_nil, unchanged]
    rw [nothing]
    rfl
  | cons value rest ih =>
    rw [List.length_cons] at fits
    have within : address < wramSize := by omega
    have first : m.readChecked address = some (m.wram address) := if_pos within
    have written : m.writeChecked address value =
        some { m with wram := Function.update m.wram address value } := if_pos within
    have others : (List.range' (address + 1) rest.length).map (Function.update m.wram address value) =
        (List.range' (address + 1) rest.length).map m.wram := by
      refine List.map_congr_left fun a member => ?_
      rw [List.mem_range'_1] at member
      exact Function.update_of_ne (by omega) _ _
    have whole : ({ m with wram := Function.update m.wram address value } : Machine).replace (address + 1) rest =
        m.replace address (value :: rest) := by
      have cells : (fun a => if address + 1 ≤ a ∧ a < address + 1 + rest.length then rest.getD (a - (address + 1)) 0
          else Function.update m.wram address value a) =
          fun a => if address ≤ a ∧ a < address + (value :: rest).length then (value :: rest).getD (a - address) 0
            else m.wram a := by
        funext a
        rw [List.length_cons]
        by_cases here : a = address
        · subst here
          rw [if_neg (by omega), if_pos (by omega), Function.update_self, Nat.sub_self]
          rfl
        · rw [Function.update_of_ne here]
          by_cases later : address + 1 ≤ a ∧ a < address + 1 + rest.length
          · have next : a - address = a - (address + 1) + 1 := by omega
            rw [if_pos later, if_pos (by omega), next]
            rfl
          · rw [if_neg later, if_neg (by omega)]
      rw [replace, replace, cells]
    rw [replaceChecked, first, Option.bind_some, written, Option.bind_some, ih (by omega), whole, others]
    rfl

end Machine

namespace State

def domainByteChecked (s : State) (domain : Bytes) (address : Nat) : Option UInt8 :=
  let byte (node : Option Memory) := node.bind fun memory => memory.readChecked address
  if domain = ascii "wram" then s.machine.readChecked address
  else if domain = ascii "vram" then byte s.machine.vram
  else if domain = ascii "oam" then byte s.machine.oam
  else if domain = ascii "cgram" then byte s.machine.cgram
  else if domain = ascii "rom" then s.rom.readChecked address
  else if domain = ascii "bus" then some (s.machine.bus (address % 2 ^ 24))
  else some 0

def memoryReadChecked (s : State) (document : Document) (id : Nat) : Option Response :=
  match stringField document "domain", unsignedField document "address" 0 0xffffff,
      unsignedField document "size" 1 maximumTransfer with
  | some domain, some address, some size =>
    if s.domainLimit domain = 0 ∨ !regionValid address size (s.domainLimit domain) then some (s.memoryRead document id)
    else
      ((List.range' address size).mapM (s.domainByteChecked domain)).map fun data =>
        .success id
          (field "domain" (quoted domain) ++ field "address" (decimal address) ++ field "size" (decimal size) ++
            field "data" (quoted (encodeHex data)))
  | _, _, _ => some (s.memoryRead document id)

def memoryWriteChecked (s : State) (document : Document) (id : Nat) : Option (Response × State) :=
  match stringField document "domain", (stringField document "data").bind decodeHex,
      unsignedField document "address" 0 wramSize with
  | some domain, some replacement, some address =>
    if maximumTransfer < replacement.length ∨ domain ≠ ascii "wram" ∨
        !regionValid address replacement.length wramSize then
      some (s.memoryWrite document id)
    else
      (s.machine.replaceChecked address replacement).map fun replaced =>
        (.success id
          (ascii ",\"domain\":\"wram\"" ++ field "address" (decimal address) ++
            field "written" (decimal replacement.length) ++ field "original" (quoted (encodeHex replaced.1)) ++
            field "resulting" (quoted (encodeHex replacement))), { s with machine := replaced.2 })
  | _, _, _ => some (s.memoryWrite document id)

def romReadChecked (s : State) (document : Document) (id : Nat) : Option Response :=
  match unsignedField document "offset" 0 s.rom.size, unsignedField document "size" 1 maximumTransfer with
  | some offset, some size =>
    if !regionValid offset size s.rom.size then some (s.romRead document id)
    else
      (s.rom.readAllChecked offset size).map fun data =>
        .success id
          (field "offset" (decimal offset) ++ field "size" (decimal size) ++ field "data" (quoted (encodeHex data)))
  | _, _ => some (s.romRead document id)

def romPatchChecked (s : State) (document : Document) (id : Nat) : Option (Response × State) :=
  match s.patchArguments document with
  | none => some (s.romPatch document id)
  | some (offset, sha, expected, replacement) =>
    if sha ≠ s.romSha256 ∨ !regionValid offset expected.length s.rom.size ∨
        s.patches.any (overlaps offset expected.length) then
      some (s.romPatch document id)
    else
      (s.rom.readAllChecked offset expected.length).bind fun actual =>
        if actual ≠ expected then
          some (.failure (some id) .expectedMismatch (ascii "current ROM bytes do not match expected"), s)
        else
          let p : Patch := ⟨patchId s.nextPatchId.toNat, offset % 2 ^ 32, actual, replacement⟩
          (s.rom.programAllChecked offset replacement).map fun rom =>
            (.success id (ascii "," ++ s.patchFields p), { s.apply p with rom := rom })

def romPatchRevertChecked (s : State) (document : Document) (id : Nat) : Option (Response × State) :=
  match stringField document "patch_id", (stringField document "expected_rom_sha256").bind normalizeSha256 with
  | some patchId, some sha =>
    if sha ≠ s.romSha256 then some (s.romPatchRevert document id)
    else
      match s.patches.find? fun q => q.id == patchId with
      | none => some (s.romPatchRevert document id)
      | some p =>
        (s.rom.liveChecked p.offset p.replacement).bind fun live =>
          if !live then
            some (.failure (some id) .patchConflict
              (ascii "live ROM bytes no longer match this patch's replacement"), s)
          else
            (s.rom.programAllChecked p.offset p.original).map fun rom =>
              (.success id (ascii "," ++ s.patchFields p ++ ascii ",\"reverted\":true"), { s.revert p with rom := rom })
  | _, _ => some (s.romPatchRevert document id)

/-- The other commands touch none of these memories themselves. -/
def debugChecked (s : State) (document : Document) (id : Nat) (command : Bytes) : Option (Response × State) :=
  if command = ascii "memory.read" then (s.memoryReadChecked document id).map (·, s)
  else if command = ascii "memory.write" then s.memoryWriteChecked document id
  else if command = ascii "rom.read" then (s.romReadChecked document id).map (·, s)
  else if command = ascii "rom.patch" then s.romPatchChecked document id
  else if command = ascii "rom.patch.revert" then s.romPatchRevertChecked document id
  else some (s.debug document id command)

def executeChecked (s : State) (document : Document) (id : Nat) (command : Bytes) : Option (Response × State) :=
  if command = ascii "emulator.status" ∨ (s.gameLoaded = false ∨ s.emulator = none) ∨ command = ascii "emulator.pause" ∨
      command = ascii "emulator.resume" ∨ command = ascii "emulator.reset" ∨ s.emulator ≠ some superFamicom then
    some (s.execute document id command)
  else s.debugChecked document id command

def dispatchChecked (s : State) : Option Document → Option (Response × State)
  | none => some (s.dispatch none)
  | some document =>
    match unsignedField document "id" 0 maximumRequestId, stringField document "command" with
    | some id, some command =>
      if command = [] then some (s.dispatch (some document)) else s.executeChecked document id command
    | _, _ => some (s.dispatch (some document))

/-- A memory of the PPU that is there, and that is large enough. -/
theorem node_some {node : Option Memory} {address : Nat} (within : address < (node.map Memory.size).getD 0) :
    (node.bind fun memory => memory.readChecked address) =
      some ((node.map fun memory => memory.read address).getD 0) := by
  cases node with
  | none => exact absurd within (Nat.not_lt_zero address)
  | some memory => exact if_pos within

theorem domainByteChecked_some {s : State} {domain : Bytes} {address : Nat}
    (within : address < s.domainLimit domain) :
    s.domainByteChecked domain address = some (s.domainByte domain address) := by
  unfold domainLimit at within
  unfold domainByteChecked domainByte
  dsimp only at within ⊢
  split
  · rename_i wram
    rw [if_pos wram] at within
    exact if_pos within
  rename_i other
  rw [if_neg other] at within
  split
  · rename_i vram
    rw [if_pos vram] at within
    exact node_some within
  rename_i other
  rw [if_neg other] at within
  split
  · rename_i oam
    rw [if_pos oam] at within
    exact node_some within
  rename_i other
  rw [if_neg other] at within
  split
  · rename_i cgram
    rw [if_pos cgram] at within
    exact node_some within
  rename_i other
  rw [if_neg other] at within
  split
  · rename_i rom
    rw [if_pos rom] at within
    exact Rom.readChecked_some within
  split <;> rfl

section

variable (s : State) (document : Document) (id : Nat)

theorem memoryReadChecked_some : s.memoryReadChecked document id = some (s.memoryRead document id) := by
  unfold memoryReadChecked
  split
  · split
    · rfl
    rename_i domain address size named place amount passed
    simp only [not_or, Bool.not_eq_true', Bool.not_eq_false] at passed
    obtain ⟨present, region⟩ := passed
    obtain ⟨_, _, fits⟩ := regionValid_iff.mp region
    have within : ∀ a ∈ List.range' address size, s.domainByteChecked domain a = some (s.domainByte domain a) := by
      intro a member
      rw [List.mem_range'_1] at member
      exact domainByteChecked_some (by omega)
    rw [mapM_total within, memoryRead, named, place, amount]
    dsimp only
    rw [if_neg present, region]
    rfl
  · rfl

theorem memoryWriteChecked_some : s.memoryWriteChecked document id = some (s.memoryWrite document id) := by
  unfold memoryWriteChecked
  split
  · split
    · rfl
    rename_i domain replacement address named bytes place passed
    simp only [not_or, Bool.not_eq_true', Bool.not_eq_false, not_not] at passed
    obtain ⟨short, wram, region⟩ := passed
    obtain ⟨_, _, fits⟩ := regionValid_iff.mp region
    rw [Machine.replaceChecked_some fits, memoryWrite, named, bytes, place]
    dsimp only
    rw [if_neg short, if_neg (not_not.mpr wram), region]
    rfl
  · rfl

theorem romReadChecked_some : s.romReadChecked document id = some (s.romRead document id) := by
  unfold romReadChecked
  split
  · split
    · rfl
    rename_i offset size place amount region
    simp only [Bool.not_eq_true', Bool.not_eq_false] at region
    obtain ⟨_, _, fits⟩ := regionValid_iff.mp region
    rw [Rom.readAllChecked_some fits, romRead, place, amount]
    dsimp only
    rw [region]
    rfl
  · rfl

theorem romPatchChecked_some : s.romPatchChecked document id = some (s.romPatch document id) := by
  unfold romPatchChecked
  split
  · rfl
  · rename_i offset sha expected replacement arguments
    split
    · rfl
    rename_i passed
    simp only [not_or, Bool.not_eq_true', Bool.not_eq_false, not_not] at passed
    obtain ⟨known, region, apart⟩ := passed
    obtain ⟨_, _, fits⟩ := regionValid_iff.mp region
    have fits' : offset + replacement.length ≤ s.rom.size := patchArguments_lengths arguments ▸ fits
    have small := s.rom.small
    have offset32 : offset % 2 ^ 32 = offset := Nat.mod_eq_of_lt (by omega)
    rw [Rom.readAllChecked_some fits, Option.bind_some, Rom.programAllChecked_some fits', romPatch, arguments]
    dsimp only
    rw [if_neg (not_not.mpr known), region, if_neg apart, offset32]
    split <;> rfl

/-- What was patched is inside the cartridge still. -/
theorem romPatchRevertChecked_some {s : State} (sound : Sound s) :
    s.romPatchRevertChecked document id = some (s.romPatchRevert document id) := by
  unfold romPatchRevertChecked
  split
  · rename_i patchId sha named known
    split
    · rfl
    rename_i same
    split
    · rfl
    rename_i p found
    obtain ⟨_, lengths, _, fits⟩ := sound.shape p (List.mem_of_find?_eq_some found)
    rw [Rom.liveChecked_some fits, Option.bind_some, Rom.programAllChecked_some (lengths ▸ fits), romPatchRevert, named,
      known]
    dsimp only
    rw [if_neg same, found]
    by_cases live : s.rom.readAll p.offset p.replacement.length = p.replacement
    · simp only [live, decide_true, ne_eq, not_true_eq_false, if_false, Bool.not_true, Bool.false_eq_true]
      rfl
    · simp only [live, decide_false, ne_eq, not_false_eq_true, if_true, Bool.not_false]
  · rfl

theorem debugChecked_some {s : State} (sound : Sound s) (command : Bytes) :
    s.debugChecked document id command = some (s.debug document id command) := by
  unfold debugChecked
  split
  · rename_i read
    subst read
    rw [memoryReadChecked_some, debug, if_neg (by decide), if_neg (by decide), if_pos rfl]
    rfl
  split
  · rename_i write
    subst write
    rw [memoryWriteChecked_some, debug, if_neg (by decide), if_neg (by decide), if_neg (by decide), if_pos rfl]
  split
  · rename_i read
    subst read
    rw [romReadChecked_some, debug, if_neg (by decide), if_neg (by decide), if_neg (by decide), if_neg (by decide),
      if_pos rfl]
    rfl
  split
  · rename_i patch
    subst patch
    rw [romPatchChecked_some, debug, if_neg (by decide), if_neg (by decide), if_neg (by decide), if_neg (by decide),
      if_neg (by decide), if_pos rfl]
  split
  · rename_i revert
    subst revert
    rw [romPatchRevertChecked_some document id sound, debug, if_neg (by decide), if_neg (by decide), if_neg (by decide),
      if_neg (by decide), if_neg (by decide), if_neg (by decide), if_neg (by decide), if_pos rfl]
  · rfl

theorem executeChecked_some {s : State} (sound : Sound s) (command : Bytes) :
    s.executeChecked document id command = some (s.execute document id command) := by
  unfold executeChecked
  split
  · rfl
  rename_i passed
  simp only [not_or] at passed
  obtain ⟨status, present, pause, resume, reset, console⟩ := passed
  rw [debugChecked_some document id sound, execute, if_neg status, if_neg (not_or.mpr present), if_neg pause,
    if_neg resume, if_neg reset, if_neg console]

theorem dispatchChecked_some {s : State} (sound : Sound s) (request : Option Document) :
    s.dispatchChecked request = some (s.dispatch request) := by
  unfold dispatchChecked
  split
  · rfl
  rename_i document
  split
  · rename_i id command numbered named
    split
    · rfl
    · rename_i present
      rw [executeChecked_some document id sound, dispatch, numbered]
      dsimp only
      rw [named]
      dsimp only
      rw [if_neg present]
  · rfl

end

end State

/-- A request that is refused changes nothing, whatever state the bridge is in. In
the states that it can be in, no request, refused or not, touches WRAM, the
cartridge or a memory of the PPU outside of its bounds. -/
theorem dispatch_contained (s : State) (request : Option Document) :
    (∀ id code message, (s.dispatch request).1 = .failure id code message →
      (s.dispatch request).2.machine.wram = s.machine.wram ∧ (s.dispatch request).2.rom = s.rom ∧
        (s.dispatch request).2.patches = s.patches ∧ (s.dispatch request).2.states = s.states ∧
        (s.dispatch request).2.nextPatchId = s.nextPatchId ∧ (s.dispatch request).2.nextStateId = s.nextStateId) ∧
      (State.system.Reachable s → s.dispatchChecked request = some (s.dispatch request)) := by
  refine ⟨fun id code message refused => ?_, fun reach => s.dispatchChecked_some (reachable_sound reach) request⟩
  obtain ⟨n, same⟩ := s.dispatch_fails request (by rw [refused]; exact nofun)
  rw [same]
  exact ⟨rfl, rfl, rfl, rfl, rfl, rfl⟩

/-- The same patch a second time: the bytes are taken, and stay as they are. -/
theorem sampleStore_refuses : (sampleStore.dispatch (some sampleApply)).2.rom = sampleStore.rom ∧
    (sampleStore.dispatchChecked (some sampleApply)).isSome = true := by
  obtain ⟨unchanged, contained⟩ := dispatch_contained sampleStore (some sampleApply)
  have refused : (sampleStore.dispatch (some sampleApply)).1 =
      .failure (some 1) .patchOverlap (ascii "patch overlaps an active runtime patch") := by decide +kernel
  have kept := unchanged _ _ _ refused
  rw [contained sampleStore_reachable]
  exact ⟨kept.2.1, rfl⟩

end FzeroVs.Bridge
