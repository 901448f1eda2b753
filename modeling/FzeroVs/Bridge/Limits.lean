import FzeroVs.Bridge.Answers
import Mathlib.Algebra.Order.BigOperators.Group.List
import Mathlib.Algebra.Order.Ring.Nat
import Mathlib.Algebra.Group.Action.Defs

namespace FzeroVs.Bridge

theorem Numbered.ite {c : Prop} [Decidable c] {x y : Response × State} (yes : Numbered x.2.states)
    (no : Numbered y.2.states) : Numbered (if c then x else y).2.states := by
  by_cases holds : c
  · rwa [if_pos holds]
  · rwa [if_neg holds]

section

variable {s : State} (numbers : Numbered s.states)

include numbers

theorem Numbered.create (document : Document) (id : Nat) : Numbered (s.savestateCreate document id).2.states := by
  unfold State.savestateCreate
  refine .ite numbers ?_
  split
  · exact numbers
  · intro state stored
    rcases mem_emplace stored with rfl | old
    · exact ⟨s.nextStateId, rfl⟩
    · exact numbers state old

theorem Numbered.delete (document : Document) (id : Nat) : Numbered (s.savestateDelete document id).2.states := by
  unfold State.savestateDelete
  split
  · exact numbers
  · exact .ite numbers fun state kept => numbers state (List.mem_filter.mp kept).1

theorem Numbered.debug (document : Document) (id : Nat) (command : Bytes) :
    Numbered (s.debug document id command).2.states := by
  have written : (s.memoryWrite document id).2.states = s.states := by
    unfold State.memoryWrite
    split
    · split
      · rfl
      split
      · rfl
      split <;> rfl
    · rfl
  have patched : (s.romPatch document id).2.states = s.states := by
    unfold State.romPatch
    split
    · rfl
    split
    · rfl
    split
    · rfl
    split
    · rfl
    split <;> rfl
  have reverted : (s.romPatchRevert document id).2.states = s.states := by
    unfold State.romPatchRevert
    split
    · split
      · rfl
      split
      · rfl
      split <;> rfl
    · rfl
  have captured : (s.screenCapture id).2.states = s.states := by
    unfold State.screenCapture
    split
    · rfl
    split
    · rfl
    split
    · rfl
    dsimp only
    split <;> rfl
  refine .ite numbers <| .ite numbers <| .ite numbers <| .ite (written ▸ numbers) <| .ite numbers <|
    .ite (patched ▸ numbers) <| .ite numbers <| .ite (reverted ▸ numbers) <| .ite (numbers.create document id) <|
    .ite numbers <| .ite (numbers.delete document id) <| .ite (captured ▸ numbers) numbers

theorem Numbered.dispatch (document : Option Document) : Numbered (s.dispatch document).2.states := by
  unfold State.dispatch
  split
  · exact numbers
  split
  · exact numbers
  split
  · exact numbers
  refine .ite numbers <| .ite numbers <| .ite numbers <| .ite numbers <| .ite numbers <| .ite numbers <|
    .ite numbers (numbers.debug _ _ _)

theorem Numbered.step (e : State.Event) : Numbered (s.step e).states := by
  cases e with
  | gameLoaded active emulator =>
    simp only [State.step, State.load]
    split <;> exact List.forall_mem_nil _
  | gameUnloaded => exact List.forall_mem_nil _
  | captureFrame data pitch width height =>
    simp only [State.step, State.captureFrame]
    split <;> exact numbers
  | run machine => exact numbers
  | request document => exact numbers.dispatch document

end

theorem reachable_numbered {s : State} (reach : State.system.Reachable s) : Numbered s.states := by
  refine reach.invariant (P := fun s => Numbered s.states) ?_ fun _ e _ _ _ numbers => numbers.step e
  rintro s ⟨machine, rfl⟩
  exact nofun

/-- Whether the sidecar has room for the answer to a request. -/
def State.Narrow (s : State) : Option Document → Prop
  | none => True
  | some document => ∀ id command, unsignedField document "id" 0 maximumRequestId = some id →
      stringField document "command" = some command → command ≠ [] → s.executeSize document id command ≤ streamLimit

theorem malformed_fits (code : Code) {message : Bytes} (short : message.length ≤ 100) :
    (Response.failure none code message).encode.length ≤ streamLimit := by
  have letters : code.text.length ≤ 20 := by cases code <;> decide
  have null : (idText none).length = 4 := by decide
  have escaped := length_jsonEscape_le message
  rw [length_failure, null]
  unfold streamLimit
  omega

theorem dispatch_fits {s : State} (reach : State.system.Reachable s) (document : Option Document) :
    (s.dispatch document).1.encode.length ≤ streamLimit ↔ s.Narrow document := by
  cases document with
  | none => exact iff_of_true (malformed_fits _ (by decide)) trivial
  | some document =>
    cases atId : unsignedField document "id" 0 maximumRequestId with
    | none =>
      simp only [State.dispatch, atId]
      exact iff_of_true (malformed_fits _ (by decide)) fun id _ other => by cases atId.symm.trans other
    | some id =>
      have numbered := unsignedField_le atId
      have refused : Measures (.failure (some id) .invalidCommand (ascii "command must be a non-empty string")) 0 :=
        failure_measures numbered _ (by decide)
      cases atCommand : stringField document "command" with
      | none =>
        simp only [State.dispatch, atId, atCommand]
        exact iff_of_true (refused.fits.mpr (Nat.zero_le _)) fun _ command _ other => by
          cases atCommand.symm.trans other
      | some command =>
        simp only [State.dispatch, atId, atCommand]
        by_cases nothing : command = []
        · rw [if_pos nothing]
          refine iff_of_true (refused.fits.mpr (Nat.zero_le _)) fun id' command' _ other named => ?_
          exact absurd (Option.some.inj (other.symm.trans atCommand) |>.trans nothing) named
        · rw [if_neg nothing,
            (State.execute_measures numbered (reachable_sound reach) (reachable_numbered reach) document command).fits]
          constructor
          · intro room id' command' sameId sameCommand _
            rw [Option.some.inj (sameId.symm.trans atId), Option.some.inj (sameCommand.symm.trans atCommand)]
            exact room
          · intro narrow
            exact narrow id command atId atCommand nothing

/-- Exactly when the lines of the two sides fit. A request gets through to
`dispatch` if its own bytes and numbers leave room in a request line, however
the line is cut into buffers; an answer gets through to the sidecar if what it
repeats of names, instructions and patches leaves room under the limit of the
stream. -/
theorem framing_limits (c : Connection) (buffers : List Bytes) (requestId : Nat) {s : State}
    (reach : State.system.Reachable s) (document : Option Document) :
    (∀ address data bytes, decodeHex data = some bytes → Sends c buffers (memoryWriteLine requestId address data) →
      ((c.clientLoop buffers).handled = c.handled ++ [.enqueue (memoryWriteLine requestId address data)] ↔
        2 * bytes.length + (decimal requestId).length + (decimal address).length + 69 ≤ maximumRequestLine)) ∧
    (∀ offset expected original replacement bytes identity sha,
      decodeHex expected = some original → decodeHex replacement = some bytes → original.length = bytes.length →
      normalizeSha256 identity = some sha → Sends c buffers (romPatchLine requestId offset expected replacement identity) →
      ((c.clientLoop buffers).handled =
          c.handled ++ [.enqueue (romPatchLine requestId offset expected replacement identity)] ↔
        4 * bytes.length + (decimal requestId).length + (decimal offset).length + 159 ≤ maximumRequestLine)) ∧
    ((readline (s.dispatch document).1.encode).isSome = true ↔ s.Narrow document) := by
  refine ⟨?_, ?_, ?_⟩
  · intro address data bytes decoded sends
    rw [← memoryWriteLine_length requestId address decoded]
    exact requestLine_handled sends
  · intro offset expected original replacement bytes identity sha before after sized digest sends
    rw [← romPatchLine_length requestId offset before after sized digest]
    exact requestLine_handled sends
  · rw [← dispatch_fits reach document, readline]
    split <;> simp <;> omega

def listDocument : Document := sampleDocument [("id", ascii "1"), ("command", ascii "rom.patch.list")]

def sampleWriteLine : Bytes := memoryWriteLine 1 0x1000 (ascii "EA")

def samplePatchLine : Bytes := romPatchLine 2 2 (ascii "0203") (ascii "EAEA") sampleDigest.text

theorem sampleLines_fit :
    (({} : Connection).clientLoop [sampleWriteLine.take 20, sampleWriteLine.drop 20 ++ [10]]).handled =
      [.enqueue sampleWriteLine] ∧
    (({} : Connection).clientLoop [samplePatchLine ++ [10]]).handled = [.enqueue samplePatchLine] ∧
    (readline (sampleStore.dispatch (some listDocument)).1.encode).isSome = true := by
  have written : Sends {} [sampleWriteLine.take 20, sampleWriteLine.drop 20 ++ [10]] sampleWriteLine :=
    ⟨rfl, rfl, by decide +kernel, by decide +kernel⟩
  have patched : Sends {} [samplePatchLine ++ [10]] samplePatchLine := ⟨rfl, rfl, by decide +kernel, by decide +kernel⟩
  obtain ⟨write, _, _⟩ := framing_limits {} [sampleWriteLine.take 20, sampleWriteLine.drop 20 ++ [10]] 1
    sampleStore_reachable (some listDocument)
  obtain ⟨_, patch, answer⟩ := framing_limits {} [samplePatchLine ++ [10]] 2 sampleStore_reachable (some listDocument)
  refine ⟨(write 0x1000 (ascii "EA") [0xea] (by decide +kernel) written).mpr (by decide +kernel),
    (patch 2 (ascii "0203") [2, 3] (ascii "EAEA") [0xea, 0xea] sampleDigest.text sampleDigest.text
      (by decide +kernel) (by decide +kernel) rfl (by decide +kernel) patched).mpr (by decide +kernel), answer.mpr ?_⟩
  intro id command atId atCommand _
  have one : unsignedField listDocument "id" 0 maximumRequestId = some 1 := by decide +kernel
  have list : stringField listDocument "command" = some (ascii "rom.patch.list") := by decide +kernel
  cases one.symm.trans atId
  cases list.symm.trans atCommand
  decide +kernel

/-! A cartridge of zeros, and requests that patch zeros over it. -/

def blankRom : Rom := ⟨2 ^ 19, fun _ => 0, by decide⟩

def blankGame : Emulator where
  name := superFamicom
  game := some (ascii "blank.sfc")
  rom := some (blankRom, sampleDigest)

def blankDocument (offset : Nat) (data : Bytes) : Document :=
  sampleDocument [("id", ascii "1"), ("command", ascii "rom.patch"), ("offset", decimal offset),
    ("expected", encodeHex data), ("replacement", encodeHex data), ("expected_rom_sha256", sampleDigest.text)]

def blankStore (data : Bytes) : Nat → State
  | 0 => State.step { machine := sampleMachine } (.gameLoaded true blankGame)
  | k + 1 => (blankStore data k).step (.request (some (blankDocument (60000 * k) data)))

/-- What is known of the store after so many patches of 60000 bytes. -/
structure Stacked (k : Nat) (s : State) : Prop where
  reach : State.system.Reachable s
  game : s.gameLoaded = true ∧ s.emulator = some superFamicom
  sha : s.romSha256 = sampleDigest.text
  size : s.rom.size = 2 ^ 19
  blank : ∀ a, s.rom.cells a = 0
  count : s.patches.length = k
  given : s.given.length = k
  shape : ∀ p ∈ s.patches, p.original.length = 60000 ∧ p.replacement.length = 60000 ∧ p.offset + 60000 ≤ 60000 * k

theorem programAll_blank {r : Rom} (blank : ∀ a, r.cells a = 0) (offset : Nat) {data : Bytes} (zero : ∀ b ∈ data, b = 0) :
    (∀ a, (r.programAll offset data).cells a = 0) ∧ (r.programAll offset data).size = r.size := by
  induction data generalizing r offset with
  | nil => exact ⟨blank, rfl⟩
  | cons b rest ih =>
    have still (a : Nat) : (r.program offset b).cells a = 0 := by
      change Function.update r.cells (offset % 2 ^ 24) b a = 0
      rw [Function.update_apply, blank a, zero b (List.mem_cons_self ..), ite_self]
    exact ih still (offset + 1) fun c member => zero c (List.mem_cons_of_mem _ member)

theorem readAll_blank {r : Rom} (blank : ∀ a, r.cells a = 0) (offset : Nat) {data : Bytes} (zero : ∀ b ∈ data, b = 0) :
    r.readAll offset data.length = data := by
  have same : data = List.replicate data.length 0 := List.eq_replicate_iff.mpr ⟨rfl, zero⟩
  have read : r.readAll offset data.length = List.replicate data.length 0 := by
    refine List.eq_replicate_iff.mpr ⟨by rw [Rom.readAll, List.length_map, List.length_range'], fun b member => ?_⟩
    obtain ⟨a, _, rfl⟩ := List.mem_map.mp member
    exact blank _
  rw [read, ← same]

theorem length_emplace {α : Type} {key : α → Bytes} {x : α} {l : List α} (fresh : ∀ y ∈ l, key y ≠ key x) :
    (emplace key x l).length = l.length + 1 := by
  obtain ⟨l₁, l₂, same, placed⟩ := emplace_split key x l fresh
  rw [placed, same, List.length_append, List.length_append, List.length_cons]
  omega

theorem blankDocument_fields (offset : Nat) (data : Bytes) :
    blankDocument offset data "id" = some (ascii "1") ∧ blankDocument offset data "command" = some (ascii "rom.patch") ∧
      blankDocument offset data "offset" = some (decimal offset) ∧
      blankDocument offset data "expected" = some (encodeHex data) ∧
      blankDocument offset data "replacement" = some (encodeHex data) ∧
      blankDocument offset data "expected_rom_sha256" = some sampleDigest.text := by
  simp [blankDocument, sampleDocument, List.lookup_cons]

section

variable {data : Bytes} (zero : ∀ b ∈ data, b = 0) (length : data.length = 60000)

include length

/-- The request is in order as long as the cartridge has room. -/
theorem blankDocument_arguments {k : Nat} {s : State} (stacked : Stacked k s) (room : k < 5) :
    s.patchArguments (blankDocument (60000 * k) data) = some (60000 * k, sampleDigest.text, data, data) := by
  obtain ⟨_, _, atOffset, atExpected, atReplacement, atSha⟩ := blankDocument_fields (60000 * k) data
  have decoded := decodeHex_encodeHex_of_length (Nat.lt_of_lt_of_eq (by decide) length.symm)
  have long : encodeHex data ≠ ascii "null" := by
    intro same
    have digits := length_encodeHex data
    rw [same, length] at digits
    exact nomatch digits
  have numbers : ∀ k < 5, decimal (60000 * k) ≠ [] ∧ parseDigits 0 (decimal (60000 * k)) = some (60000 * k) := by
    decide +kernel
  have digest : sampleDigest.text ≠ ascii "null" ∧ normalizeSha256 sampleDigest.text = some sampleDigest.text := by
    decide +kernel
  have inside : ¬ (60000 * k < 0 ∨ 2 ^ 19 < 60000 * k) := by omega
  simp only [State.patchArguments, unsignedField, stringField, atOffset, atExpected, atReplacement, atSha, stacked.size,
    if_neg (numbers k room).1, (numbers k room).2, if_neg inside, if_neg long, if_neg digest.1, Option.bind_some,
    decoded, digest.2, length]
  rfl

include zero

theorem Stacked.applied {k : Nat} {s : State} (stacked : Stacked k s) (room : k < 5) :
    (s.dispatch (some (blankDocument (60000 * k) data))).2 =
      s.apply ⟨patchId s.nextPatchId.toNat, 60000 * k, data, data⟩ := by
  obtain ⟨atId, atCommand, _⟩ := blankDocument_fields (60000 * k) data
  have id : unsignedField (blankDocument (60000 * k) data) "id" 0 maximumRequestId = some 1 := by
    simp only [unsignedField, atId]
    decide +kernel
  have command : stringField (blankDocument (60000 * k) data) "command" = some (ascii "rom.patch") := by
    simp only [stringField, atCommand]
    decide +kernel
  have reached : s.dispatch (some (blankDocument (60000 * k) data)) = s.romPatch (blankDocument (60000 * k) data) 1 := by
    rw [State.dispatch_debug stacked.game id command (by decide), State.debug, if_neg (by decide), if_neg (by decide),
      if_neg (by decide), if_neg (by decide), if_neg (by decide), if_pos rfl]
  have valid : regionValid (60000 * k) data.length s.rom.size = true := by
    simp only [regionValid, length, stacked.size, maximumTransfer, Bool.and_eq_true, decide_eq_true_eq]
    omega
  have apart : s.patches.any (overlaps (60000 * k) data.length) = false := by
    rw [List.any_eq_false]
    intro p active both
    obtain ⟨_, size, before⟩ := stacked.shape p active
    simp only [overlaps, size, Bool.and_eq_true, decide_eq_true_eq] at both
    omega
  have held := readAll_blank stacked.blank (60000 * k) zero
  rw [reached, State.romPatch, blankDocument_arguments length stacked room]
  simp only [stacked.sha, valid, apart, held, Nat.mod_eq_of_lt (show 60000 * k < 2 ^ 32 by omega)]
  simp

theorem Stacked.patch {k : Nat} {s : State} (stacked : Stacked k s) (room : k < 5) :
    Stacked (k + 1) (s.step (.request (some (blankDocument (60000 * k) data)))) := by
  have sound := reachable_sound stacked.reach
  have applied := stacked.applied zero length room
  obtain ⟨blank, size⟩ := programAll_blank stacked.blank (60000 * k) zero
  have fresh : ∀ q ∈ s.patches, q.id ≠ patchId s.nextPatchId.toNat := by
    intro q active same
    refine sound.fresh (stacked.given ▸ ?_) (same ▸ sound.known q active)
    omega
  have next : s.step (.request (some (blankDocument (60000 * k) data))) =
      s.apply ⟨patchId s.nextPatchId.toNat, 60000 * k, data, data⟩ := applied
  constructor
  case reach => exact stacked.reach.next (.request _) trivial trivial
  case game =>
    rw [next]
    exact stacked.game
  case sha =>
    rw [next]
    exact stacked.sha
  case size =>
    rw [next]
    exact size.trans stacked.size
  case blank =>
    rw [next]
    exact blank
  case count =>
    rw [next]
    exact (length_emplace fresh).trans (congrArg (· + 1) stacked.count)
  case given =>
    rw [next]
    exact List.length_append.trans (congrArg (· + 1) stacked.given)
  case shape =>
    rw [next]
    intro p active
    rcases mem_emplace active with rfl | old
    · exact ⟨length, length, by dsimp only; omega⟩
    · obtain ⟨original, replacement, before⟩ := stacked.shape p old
      exact ⟨original, replacement, by omega⟩

theorem blankStore_stacked {k : Nat} (room : k ≤ 5) : Stacked k (blankStore data k) := by
  induction k with
  | zero =>
    have started : State.system.Reachable { machine := sampleMachine } := .start ⟨sampleMachine, rfl⟩
    exact ⟨started.next (State.Event.gameLoaded true blankGame) trivial trivial, ⟨rfl, rfl⟩, rfl, rfl, fun _ => rfl, rfl,
      rfl, nofun⟩
  | succ k ih => exact (ih (Nat.le_of_succ_le room)).patch zero length room

end

/-- Each patch is listed with both its texts in hexadecimal. -/
theorem Stacked.listed {k : Nat} {s : State} (stacked : Stacked k s) (id : Nat) :
    k * 240000 ≤ (s.patchList id).encode.length := by
  have each : ∀ size ∈ s.patches.map fun p => p.size s.romSha256 + 2, 240000 ≤ size := by
    intro size member
    obtain ⟨p, active, rfl⟩ := List.mem_map.mp member
    obtain ⟨original, replacement, _⟩ := stacked.shape p active
    rw [Patch.size, original, replacement]
    omega
  have total := List.card_nsmul_le_sum _ _ each
  rw [List.length_map, stacked.count, smul_eq_mul] at total
  rw [s.patchList_sized, State.patchListSize]
  omega

theorem Stacked.dispatch_list {k : Nat} {s : State} (stacked : Stacked k s) :
    (s.dispatch (some listDocument)).1 = s.patchList 1 := by
  have id : unsignedField listDocument "id" 0 maximumRequestId = some 1 := by decide +kernel
  have command : stringField listDocument "command" = some (ascii "rom.patch.list") := by decide +kernel
  rw [State.dispatch_debug stacked.game id command (by decide), State.debug, if_neg (by decide), if_neg (by decide),
    if_neg (by decide), if_neg (by decide), if_neg (by decide), if_neg (by decide), if_pos rfl]

theorem romPatchLine_refused {data : Bytes} (length : data.length = maximumTransfer) :
    let line := romPatchLine 1 0 (encodeHex data) (encodeHex data) sampleDigest.text
    decodeHex (encodeHex data) = some data ∧
      (({} : Connection).clientLoop [line ++ [10]]).handled ≠ [.enqueue line] := by
  have decoded := decodeHex_encodeHex_of_length (Nat.lt_of_lt_of_eq (by decide) length.symm)
  have digest : normalizeSha256 sampleDigest.text = some sampleDigest.text := by decide +kernel
  refine ⟨decoded, fun handled => ?_⟩
  have sends : Sends {} [romPatchLine 1 0 (encodeHex data) (encodeHex data) sampleDigest.text ++ [10]]
      (romPatchLine 1 0 (encodeHex data) (encodeHex data) sampleDigest.text) :=
    ⟨rfl, rfl, by simp, List.flatten_singleton⟩
  have fits := (requestLine_handled sends).mp handled
  have size := romPatchLine_length 1 0 decoded decoded rfl digest
  rw [romPatchLine] at size
  rw [size, length] at fits
  exact absurd fits (by unfold maximumTransfer maximumRequestLine; omega)

def largest : Bytes := List.replicate maximumTransfer 0

def large : Bytes := List.replicate 60000 0

/-- The largest patch does not fit a request line, and five patches that do are
more than an answer can list. -/
theorem framing_overflows :
    (largest.length ≤ maximumTransfer ∧ decodeHex (encodeHex largest) = some largest ∧
      let line := romPatchLine 1 0 (encodeHex largest) (encodeHex largest) sampleDigest.text
      (({} : Connection).clientLoop [line ++ [10]]).handled ≠ [.enqueue line]) ∧
    State.system.Reachable (blankStore large 5) ∧
      streamLimit < ((blankStore large 5).dispatch (some listDocument)).1.encode.length := by
  have whole : largest.length = maximumTransfer := List.length_replicate
  have refused := romPatchLine_refused whole
  have stacked : Stacked 5 (blankStore large 5) :=
    blankStore_stacked (fun _ member => List.eq_of_mem_replicate member) List.length_replicate (Nat.le_refl 5)
  have listed := stacked.listed 1
  refine ⟨⟨Nat.le_of_eq whole, refused⟩, stacked.reach, ?_⟩
  rw [stacked.dispatch_list]
  unfold streamLimit
  omega

end FzeroVs.Bridge
