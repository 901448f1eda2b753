import FzeroVs.Bridge.Framing
import FzeroVs.Bridge.Numbers
import FzeroVs.Bridge.Patches
import FzeroVs.Library.Json

namespace FzeroVs.Bridge

/-- A byte is written as itself, as a short escape, or by its number. -/
theorem escapeByte_cases (b : UInt8) :
    escapeByte b = [b] ∧ ¬ (b < 32 ∨ b = 34) ∧ b ≠ 92 ∨
      (∃ e, escapeByte b = [92, e] ∧ e ≠ 117 ∧ Json.shortEscape e = some b) ∨
      ∃ high low, escapeByte b = [92, 117, 48, 48, high, low] ∧ Json.hexValue high = some (b.toNat / 16) ∧
        Json.hexValue low = some (b.toNat % 16) ∧ b < 32 := by
  unfold escapeByte
  split
  · exact .inr (.inl ⟨34, rfl, by decide, by subst b; rfl⟩)
  rename_i quote
  split
  · exact .inr (.inl ⟨92, rfl, by decide, by subst b; rfl⟩)
  rename_i slash
  split
  · exact .inr (.inl ⟨98, rfl, by decide, by subst b; rfl⟩)
  split
  · exact .inr (.inl ⟨102, rfl, by decide, by subst b; rfl⟩)
  split
  · exact .inr (.inl ⟨110, rfl, by decide, by subst b; rfl⟩)
  split
  · exact .inr (.inl ⟨114, rfl, by decide, by subst b; rfl⟩)
  split
  · exact .inr (.inl ⟨116, rfl, by decide, by subst b; rfl⟩)
  split
  · rename_i control
    have digits : ∀ b : UInt8, b < 32 →
        Json.hexValue ((ascii "0123456789abcdef").getD (b >>> 4).toNat 0) = some (b.toNat / 16) ∧
          Json.hexValue ((ascii "0123456789abcdef").getD (b &&& 15).toNat 0) = some (b.toNat % 16) :=
      forall_byte (by decide +kernel)
    obtain ⟨high, low⟩ := digits b control
    exact .inr (.inr ⟨_, _, rfl, high, low, control⟩)
  · rename_i above
    exact .inl ⟨rfl, not_or.mpr ⟨above, quote⟩, slash⟩

theorem escapeByte_readable : Json.Readable escapeByte := by
  intro b rest
  rcases escapeByte_cases b with ⟨text, plain, slash⟩ | ⟨e, text, short, value⟩ | ⟨high, low, text, upper, lower, control⟩
  · rw [text, List.singleton_append, Json.readCharacter, if_neg plain, if_neg slash]
  · rw [text]
    change Json.readEscape (e :: rest) = _
    rw [Json.readEscape, if_neg short, value]
    rfl
  · rw [text]
    change Json.readCode (48 :: 48 :: high :: low :: rest) = _
    have zero : Json.hexValue 48 = some 0 := rfl
    have whole : ((0 * 16 + 0) * 16 + b.toNat / 16) * 16 + b.toNat % 16 = b.toNat := by omega
    have small : b.toNat < 0x80 := Nat.lt_trans (UInt8.lt_iff_toNat_lt.mp control) (by decide)
    rw [Json.readCode, zero, upper, lower]
    dsimp only
    rw [whole, Json.utf8, if_pos small, UInt8.ofNat_toNat]
    rfl

def numberWord (n : Nat) : Word where
  text := decimal n
  nonempty := (decimal_decimal n).nonempty
  letters := by
    intro b member
    obtain ⟨low, high⟩ := (decimal_decimal n).digits b member
    simp [isWord, low, high]

def nullWord : Word := ⟨ascii "null", by decide, List.all_eq_true.mp rfl⟩

def boolWord : Bool → Word
  | true => ⟨ascii "true", by decide, List.all_eq_true.mp rfl⟩
  | false => ⟨ascii "false", by decide, List.all_eq_true.mp rfl⟩

/-- What `idText` writes. -/
def idWord : Option Nat → Word
  | none => nullWord
  | some id => numberWord id

/-- A text that is a value. -/
def Valued (text : Bytes) : Prop := ∃ j, Json.print escapeByte j = text

namespace Valued

theorem number (n : Nat) : Valued (decimal n) := ⟨.word (numberWord n), by rw [Json.print]; rfl⟩

theorem null : Valued (ascii "null") := ⟨.word nullWord, by rw [Json.print]; rfl⟩

theorem bool (value : Bool) : Valued (jsonBool value) :=
  ⟨.word (boolWord value), by rw [Json.print]; cases value <;> rfl⟩

theorem string (text : Bytes) : Valued (quoted text) := ⟨.string text, by rw [Json.print]; rfl⟩

theorem ite {c : Prop} [Decidable c] {x y : Bytes} (yes : Valued x) (no : Valued y) : Valued (if c then x else y) := by
  split
  · exact yes
  · exact no

end Valued

theorem separated_intercalate (l : List Bytes) : State.separated l = [44].intercalate l := by
  induction l with
  | nil => rfl
  | cons x l ih =>
    cases l with
    | nil => simp [State.separated, List.intercalate]
    | cons y l =>
      rw [Json.intercalate_cons, ← ih]
      rfl

theorem Valued.all {l : List Bytes} (elements : ∀ x ∈ l, Valued x) :
    ∃ values : List Json, values.map (Json.print escapeByte) = l := by
  induction l with
  | nil => exact ⟨[], rfl⟩
  | cons x l ih =>
    obtain ⟨j, rfl⟩ := elements x (List.mem_cons_self ..)
    obtain ⟨values, rfl⟩ := ih fun y member => elements y (List.mem_cons_of_mem _ member)
    exact ⟨j :: values, rfl⟩

theorem Valued.array {l : List Bytes} (elements : ∀ x ∈ l, Valued x) : Valued (State.jsonArray l) := by
  obtain ⟨values, rfl⟩ := Valued.all elements
  exact ⟨.array values, by rw [Json.print_array, ← separated_intercalate]; rfl⟩

/-- A name that is written as it is, and is none of the envelope. -/
def Named (name : String) : Prop := (∀ b ∈ ascii name, Plain b) ∧ ascii name ∉ [ascii "id", ascii "ok"]

instance (name : String) : Decidable (Named name) :=
  have : Decidable (∀ b ∈ ascii name, Plain b) := List.decidableBAll Plain (ascii name)
  inferInstanceAs (Decidable ((∀ b ∈ ascii name, Plain b) ∧ ascii name ∉ [ascii "id", ascii "ok"]))

def membersText (members : List (Bytes × Json)) : Bytes :=
  members.flatMap fun m => [44] ++ Json.printMember escapeByte m

/-- Members that follow others, and none of them is called `id` or `ok`. -/
def Fields (text : Bytes) : Prop :=
  ∃ members, membersText members = text ∧ ∀ m ∈ members, m.1 ∉ [ascii "id", ascii "ok"]

theorem field_member {name : String} (named : Named name) (j : Json) :
    membersText [(ascii name, j)] = State.field name (Json.print escapeByte j) := by
  have key : Json.quote escapeByte (ascii name) = [34] ++ ascii name ++ [34] :=
    congrArg (fun text => [34] ++ text ++ [34]) (jsonEscape_plain named.1)
  have opening : ascii ",\"" = [44, 34] := by decide
  have colon : ascii "\":" = [34, 58] := by decide
  rw [membersText, List.flatMap_singleton, Json.printMember, key, State.field, opening, colon]
  simp only [List.append_assoc, List.cons_append, List.nil_append]

namespace Fields

theorem nil : Fields [] := ⟨[], rfl, nofun⟩

theorem field {name : String} (named : Named name) {value : Bytes} (valued : Valued value) :
    Fields (State.field name value) := by
  obtain ⟨j, rfl⟩ := valued
  refine ⟨[(ascii name, j)], field_member named j, fun m member => ?_⟩
  rw [List.mem_singleton.mp member]
  exact named.2

theorem append {a b : Bytes} (first : Fields a) (second : Fields b) : Fields (a ++ b) := by
  obtain ⟨x, rfl, free⟩ := first
  obtain ⟨y, rfl, free'⟩ := second
  refine ⟨x ++ y, List.flatMap_append, fun m member => ?_⟩
  exact (List.mem_append.mp member).elim (free m) (free' m)

end Fields

/-- An object whose first name is this one. -/
theorem Valued.object (name : String) {opening value rest : Bytes}
    (opens : opening = [123] ++ quoted (ascii name) ++ [58]) (valued : Valued value) (fields : Fields rest) :
    Valued (opening ++ value ++ rest ++ ascii "\x7d") := by
  obtain ⟨j, rfl⟩ := valued
  obtain ⟨members, rfl, _⟩ := fields
  refine ⟨.object ((ascii name, j) :: members), ?_⟩
  rw [Json.print_object, List.map_cons, Json.intercalate_flatMap, List.flatMap_map, opens]
  simp only [List.append_assoc, membersText, Json.printMember]
  rfl

/-- An answer to this request: its own id, and fields that leave the envelope alone. -/
def Response.Replies (id : Nat) : Response → Prop
  | .success i fields => i = id ∧ Fields fields
  | .failure i _ _ => i = some id

theorem Response.Replies.ite {c : Prop} [Decidable c] {id : Nat} {x y : Response × State} (yes : x.1.Replies id)
    (no : y.1.Replies id) : (if c then x else y).1.Replies id := by
  split
  · exact yes
  · exact no

namespace State

theorem status_replies (s : State) (id : Nat) : (s.status id).Replies id := by
  refine ⟨rfl, ?_⟩
  refine .append (.append (.append (.append (.append (.append (.append (.append (.append ?_ ?_) ?_) ?_) ?_) ?_) ?_) ?_)
    ?_) ?_
  · exact .field (by decide) (.number 1)
  · exact .field (by decide) (.string _)
  · exact .field (by decide) (.bool _)
  · exact .field (by decide) (.ite (.string _) .null)
  · exact .field (by decide) (.ite (.string _) .null)
  · exact .field (by decide) (.ite (.string _) .null)
  · exact .field (by decide) (.bool _)
  · exact .field (by decide) (.bool _)
  · exact .field (by decide) (.string _)
  · exact .field (by decide) (.number _)

theorem registers_replies (s : State) (id : Nat) : (s.registers id).Replies id := by
  have flag (name : String) (named : Named name) (bit : Nat) : Fields (field name (jsonBool (s.machine.flag bit))) :=
    .field named (.bool _)
  have flags : Valued (ascii "\x7b\"n\":" ++ jsonBool (s.machine.flag 7) ++
      (field "v" (jsonBool (s.machine.flag 6)) ++ field "m" (jsonBool (s.machine.flag 5)) ++
        field "x" (jsonBool (s.machine.flag 4)) ++ field "d" (jsonBool (s.machine.flag 3)) ++
        field "i" (jsonBool (s.machine.flag 2)) ++ field "z" (jsonBool (s.machine.flag 1)) ++
        field "c" (jsonBool (s.machine.flag 0))) ++ ascii "\x7d") := by
    refine .object "n" (by decide) (.bool _) ?_
    refine .append (.append (.append (.append (.append (.append ?_ ?_) ?_) ?_) ?_) ?_) ?_
    all_goals exact flag _ (by decide) _
  refine ⟨rfl, ?_⟩
  refine .append (.append (.append (.append (.append (.append (.append (.append (.append (.append (.append ?_ ?_) ?_) ?_)
    ?_) ?_) ?_) ?_) ?_) ?_) ?_) ?_
  · exact .field (by decide) (.number _)
  · exact .field (by decide) (.number _)
  · exact .field (by decide) (.number _)
  · exact .field (by decide) (.number _)
  · exact .field (by decide) (.number _)
  · exact .field (by decide) (.number _)
  · exact .field (by decide) (.number _)
  · exact .field (by decide) (.number _)
  · exact .field (by decide) (.number _)
  · exact .field (by decide) (.bool _)
  · exact .field (by decide) (.string _)
  · refine .field (by decide) ?_
    simpa only [List.append_assoc] using flags

theorem instruction_valued (entry : Nat × Bytes × Bytes) : Valued (instruction entry) := by
  have written : Valued (ascii "\x7b\"address\":" ++ decimal entry.1 ++
      (field "bytes" (quoted (encodeHexSpaced entry.2.1)) ++ field "instruction" (quoted entry.2.2)) ++ ascii "\x7d") :=
    .object "address" (by decide) (.number _) (.append (.field (by decide) (.string _)) (.field (by decide) (.string _)))
  simpa only [instruction, List.append_assoc] using written

theorem disassemble_replies (s : State) (document : Document) (id : Nat) : (s.disassemble document id).Replies id := by
  unfold disassemble
  split
  · rename_i address count _ _
    have mode : Valued (ascii "\x7b\"e\":" ++ jsonBool s.machine.e ++
        (field "m" (jsonBool (s.machine.flag 5)) ++ field "x" (jsonBool (s.machine.flag 4))) ++ ascii "\x7d") :=
      .object "e" (by decide) (.bool _) (.append (.field (by decide) (.bool _)) (.field (by decide) (.bool _)))
    have listed : Valued (jsonArray ((listing s.machine count address).map instruction)) := by
      refine .array fun x member => ?_
      obtain ⟨entry, _, rfl⟩ := List.mem_map.mp member
      exact instruction_valued entry
    refine ⟨rfl, .append (.append (.append ?_ ?_) ?_) ?_⟩
    · exact .field (by decide) (.number _)
    · exact .field (by decide) (.number _)
    · refine .field (by decide) ?_
      simpa only [List.append_assoc] using mode
    · exact .field (by decide) listed
  · exact rfl

theorem memoryRead_replies (s : State) (document : Document) (id : Nat) : (s.memoryRead document id).Replies id := by
  unfold memoryRead
  split
  · split
    · exact rfl
    split
    · exact rfl
    refine ⟨rfl, .append (.append (.append ?_ ?_) ?_) ?_⟩
    · exact .field (by decide) (.string _)
    · exact .field (by decide) (.number _)
    · exact .field (by decide) (.number _)
    · exact .field (by decide) (.string _)
  · exact rfl

theorem memoryWrite_replies (s : State) (document : Document) (id : Nat) : (s.memoryWrite document id).1.Replies id := by
  have domain : ascii ",\"domain\":\"wram\"" = field "domain" (quoted (ascii "wram")) := by decide
  unfold memoryWrite
  split
  · split
    · exact rfl
    split
    · exact rfl
    split
    · exact rfl
    refine ⟨rfl, .append (.append (.append (.append ?_ ?_) ?_) ?_) ?_⟩
    · rw [domain]
      exact .field (by decide) (.string _)
    · exact .field (by decide) (.number _)
    · exact .field (by decide) (.number _)
    · exact .field (by decide) (.string _)
    · exact .field (by decide) (.string _)
  · exact rfl

theorem romRead_replies (s : State) (document : Document) (id : Nat) : (s.romRead document id).Replies id := by
  unfold romRead
  dsimp only
  split
  · split
    · exact rfl
    refine ⟨rfl, .append (.append ?_ ?_) ?_⟩
    · exact .field (by decide) (.number _)
    · exact .field (by decide) (.number _)
    · exact .field (by decide) (.string _)
  · exact rfl

/-- A patch behind a comma. -/
theorem patchFields_fields (s : State) (p : Patch) :
    Fields (field "offset" (decimal p.offset) ++ field "original" (quoted (encodeHex p.original)) ++
      field "replacement" (quoted (encodeHex p.replacement)) ++ field "rom_sha256" (quoted s.romSha256)) := by
  refine .append (.append (.append ?_ ?_) ?_) ?_
  · exact .field (by decide) (.number _)
  · exact .field (by decide) (.string _)
  · exact .field (by decide) (.string _)
  · exact .field (by decide) (.string _)

theorem comma_patchFields (s : State) (p : Patch) : Fields (ascii "," ++ s.patchFields p) := by
  have first : Fields (field "patch_id" (quoted p.id)) := .field (by decide) (.string _)
  have name : ascii ",\"" ++ ascii "patch_id" ++ ascii "\":" = ascii "," ++ ascii "\"patch_id\":" := by decide
  have whole := first.append (s.patchFields_fields p)
  rw [field, name] at whole
  simpa only [patchFields, List.append_assoc] using whole

theorem patchList_replies (s : State) (id : Nat) : (s.patchList id).Replies id := by
  refine ⟨rfl, .field (by decide) (.array fun x member => ?_)⟩
  obtain ⟨p, _, rfl⟩ := List.mem_map.mp member
  have opens : ascii "\x7b" ++ ascii "\"patch_id\":" = [123] ++ quoted (ascii "patch_id") ++ [58] := by decide
  have written := Valued.object "patch_id" opens (.string p.id) (s.patchFields_fields p)
  simpa only [patchFields, List.append_assoc] using written

theorem romPatch_replies (s : State) (document : Document) (id : Nat) : (s.romPatch document id).1.Replies id := by
  unfold romPatch
  split
  · exact rfl
  split
  · exact rfl
  split
  · exact rfl
  split
  · exact rfl
  split
  · exact rfl
  · exact ⟨rfl, s.comma_patchFields _⟩

theorem romPatchRevert_replies (s : State) (document : Document) (id : Nat) :
    (s.romPatchRevert document id).1.Replies id := by
  have reverted : ascii ",\"reverted\":true" = field "reverted" (jsonBool true) := by decide
  unfold romPatchRevert
  split
  · split
    · exact rfl
    split
    · exact rfl
    split
    · exact rfl
    refine ⟨rfl, .append (s.comma_patchFields _) ?_⟩
    rw [reverted]
    exact .field (by decide) (.bool _)
  · exact rfl

theorem savestateCreate_replies (s : State) (document : Document) (id : Nat) :
    (s.savestateCreate document id).1.Replies id := by
  unfold savestateCreate
  dsimp only
  split
  · exact rfl
  split
  · exact rfl
  refine ⟨rfl, .append (.append (.append ?_ ?_) ?_) ?_⟩
  · exact .field (by decide) (.string _)
  · exact .field (by decide) (.ite .null (.string _))
  · exact .field (by decide) (.number _)
  · exact .field (by decide) (.string _)

theorem savestateRestore_replies (s : State) (document : Document) (id : Nat) :
    (s.savestateRestore document id).Replies id := by
  have restored : ascii ",\"restored\":true" = field "restored" (jsonBool true) := by decide
  unfold savestateRestore
  split
  · exact rfl
  split
  · exact rfl
  split
  · exact rfl
  split
  · exact rfl
  refine ⟨rfl, .append (.field (by decide) (.string _)) ?_⟩
  rw [restored]
  exact .field (by decide) (.bool _)

theorem savestateDelete_replies (s : State) (document : Document) (id : Nat) :
    (s.savestateDelete document id).1.Replies id := by
  have deleted : ascii ",\"deleted\":true" = field "deleted" (jsonBool true) := by decide
  unfold savestateDelete
  split
  · exact rfl
  split
  · exact rfl
  refine ⟨rfl, .append (.field (by decide) (.string _)) ?_⟩
  rw [deleted]
  exact .field (by decide) (.bool _)

theorem screenCapture_replies (s : State) (id : Nat) : (s.screenCapture id).1.Replies id := by
  unfold screenCapture
  split
  · exact rfl
  split
  · exact rfl
  split
  · exact rfl
  dsimp only
  split
  · exact rfl
  refine ⟨rfl, .append (.append (.append ?_ ?_) ?_) ?_⟩
  · exact .field (by decide) (.string _)
  · exact .field (by decide) (.number _)
  · exact .field (by decide) (.number _)
  · exact .field (by decide) (.number _)

theorem debug_replies (s : State) (document : Document) (id : Nat) (command : Bytes) :
    (s.debug document id command).1.Replies id := by
  unfold debug
  refine .ite (s.registers_replies id) ?_
  refine .ite (s.disassemble_replies document id) ?_
  refine .ite (s.memoryRead_replies document id) ?_
  refine .ite (s.memoryWrite_replies document id) ?_
  refine .ite (s.romRead_replies document id) ?_
  refine .ite (s.romPatch_replies document id) ?_
  refine .ite (s.patchList_replies id) ?_
  refine .ite (s.romPatchRevert_replies document id) ?_
  refine .ite (s.savestateCreate_replies document id) ?_
  refine .ite (s.savestateRestore_replies document id) ?_
  refine .ite (s.savestateDelete_replies document id) ?_
  exact .ite (s.screenCapture_replies id) rfl

theorem execute_replies (s : State) (document : Document) (id : Nat) (command : Bytes) :
    (s.execute document id command).1.Replies id := by
  have paused (value : Bool) : Fields (field "paused" (jsonBool value)) := .field (by decide) (.bool _)
  have pausing : ascii ",\"paused\":true" = field "paused" (jsonBool true) := by decide
  have resuming : ascii ",\"paused\":false" = field "paused" (jsonBool false) := by decide
  have resetting : ascii ",\"reset\":true" = field "reset" (jsonBool true) := by decide
  unfold execute
  refine .ite (s.status_replies id) ?_
  refine .ite rfl ?_
  refine .ite ⟨rfl, pausing ▸ paused true⟩ ?_
  refine .ite ⟨rfl, resuming ▸ paused false⟩ ?_
  refine .ite ⟨rfl, resetting ▸ .field (by decide) (.bool _)⟩ ?_
  exact .ite rfl (s.debug_replies document id command)

end State

/-- The id of a request, if it has a valid one. -/
def numericId (request : Option Document) : Option Nat :=
  request.bind fun document => unsignedField document "id" 0 maximumRequestId

def Response.id : Response → Option Nat
  | .success id _ => some id
  | .failure id _ _ => id

/-- The envelope has the request's id, and nothing in it comes from anywhere else. -/
theorem dispatch_replies (s : State) (request : Option Document) :
    (s.dispatch request).1.id = numericId request ∧
      ∀ i fields, (s.dispatch request).1 = .success i fields → Fields fields := by
  have replied {r : Response} {id : Nat} (replies : r.Replies id) :
      r.id = some id ∧ ∀ i fields, r = .success i fields → Fields fields := by
    cases r with
    | success i fields =>
      refine ⟨congrArg some replies.1, ?_⟩
      rintro _ _ ⟨⟩
      exact replies.2
    | failure i code message => exact ⟨replies, nofun⟩
  unfold State.dispatch numericId
  split
  · exact ⟨rfl, nofun⟩
  rename_i document
  rw [Option.bind_some]
  split
  · rename_i invalid
    rw [invalid]
    exact ⟨rfl, nofun⟩
  rename_i id numbered
  rw [numbered]
  split
  · exact ⟨rfl, nofun⟩
  split
  · exact ⟨rfl, nofun⟩
  · exact replied (s.execute_replies document id _)

theorem envelope_object (id ok : Word) {text : Bytes} (fields : Fields text) :
    ∃ members, ascii "\x7b\"id\":" ++ id.text ++ ascii ",\"ok\":" ++ ok.text ++ text ++ ascii "\x7d" =
        Json.print escapeByte (.object ((ascii "id", .word id) :: (ascii "ok", .word ok) :: members)) ∧
      ∀ m ∈ members, m.1 ∉ [ascii "id", ascii "ok"] := by
  obtain ⟨members, rfl, free⟩ := fields
  have first : ascii "\x7b\"id\":" = [123] ++ (Json.quote escapeByte (ascii "id") ++ [58]) := by decide
  have second : ascii ",\"ok\":" = [44] ++ (Json.quote escapeByte (ascii "ok") ++ [58]) := by decide
  refine ⟨members, ?_, free⟩
  rw [Json.print_object, List.map_cons, List.map_cons, Json.intercalate_flatMap, List.flatMap_cons, List.flatMap_map,
    Json.printMember, Json.printMember, Json.print, Json.print, first, second, membersText]
  simp only [List.append_assoc]
  rfl

/-- `failure`, for the codes of `clientLoop` too. -/
def failureText (id : Option Nat) (code message : Bytes) : Bytes :=
  ascii "\x7b\"id\":" ++ idText id ++ ascii ",\"ok\":false,\"error\":\x7b\"code\":" ++ quoted code ++
    ascii ",\"message\":" ++ quoted message ++ ascii "\x7d\x7d"

theorem failure_object (id : Option Nat) (code message : Bytes) :
    ∃ members, failureText id code message =
        Json.print escapeByte (.object ((ascii "id", .word (idWord id)) :: (ascii "ok", .word (boolWord false)) :: members)) ∧
      ∀ m ∈ members, m.1 ∉ [ascii "id", ascii "ok"] := by
  have opening : ascii "\x7b\"code\":" = [123] ++ quoted (ascii "code") ++ [58] := by decide
  have second : Fields (State.field "message" (quoted message)) := .field (by decide) (.string message)
  have error : Fields (State.field "error" _) := .field (by decide) (.object "code" opening (.string code) second)
  obtain ⟨members, object, free⟩ := envelope_object (idWord id) (boolWord false) error
  refine ⟨members, Eq.trans ?_ object, free⟩
  have begins : ascii ",\"ok\":false,\"error\":\x7b\"code\":" =
      ascii ",\"ok\":" ++ ascii "false" ++ ascii ",\"" ++ ascii "error" ++ ascii "\":" ++ ascii "\x7b\"code\":" := by
    decide
  have between : ascii ",\"message\":" = ascii ",\"" ++ ascii "message" ++ ascii "\":" := by decide
  have ends : ascii "\x7d\x7d" = ascii "\x7d" ++ ascii "\x7d" := by decide
  have word : (idWord id).text = idText id := by cases id <;> rfl
  rw [failureText, begins, between, ends, word, State.field, State.field]
  simp only [List.append_assoc]
  rfl

/-- An answer is one object. Its first two members are `id` and `ok`. -/
theorem encode_object (r : Response) (fields : ∀ i text, r = .success i text → Fields text) :
    ∃ members, r.encode = Json.print escapeByte (.object ((ascii "id", .word (idWord r.id)) ::
        (ascii "ok", .word (boolWord r.code.isNone)) :: members)) ∧
      ∀ m ∈ members, m.1 ∉ [ascii "id", ascii "ok"] := by
  cases r with
  | success i text =>
    have yes : ascii ",\"ok\":true" = ascii ",\"ok\":" ++ ascii "true" := by decide
    obtain ⟨members, object, free⟩ := envelope_object (numberWord i) (boolWord true) (fields i text rfl)
    refine ⟨members, Eq.trans ?_ object, free⟩
    rw [Response.encode, yes, ← List.append_assoc]
    rfl
  | failure i code message => exact failure_object i code.text message

/-- How `clientLoop` answers a line. -/
inductive Answered
  | dispatched (s : State) (request : Option Document)
  | requestTooLarge
  | serverStopping

def Answered.response : Answered → Bytes
  | .dispatched s request => (s.dispatch request).1.encode
  | .requestTooLarge => failureText none (ascii "REQUEST_TOO_LARGE") (ascii "request line exceeds 256 KiB")
  | .serverStopping => failureText none (ascii "SERVER_STOPPING") (ascii "debug bridge is stopping")

theorem Answered.printed (a : Answered) : Printed a.response := by
  have plain (j : Json) : Printed (Json.print escapeByte j) := Json.print_plain printed_escapeByte j
  cases a with
  | dispatched s request =>
    obtain ⟨members, object, _⟩ := encode_object (s.dispatch request).1 (dispatch_replies s request).2
    rw [response, object]
    exact plain _
  | requestTooLarge =>
    obtain ⟨members, object, _⟩ := failure_object none (ascii "REQUEST_TOO_LARGE") (ascii "request line exceeds 256 KiB")
    rw [response, object]
    exact plain _
  | serverStopping =>
    obtain ⟨members, object, _⟩ := failure_object none (ascii "SERVER_STOPPING") (ascii "debug bridge is stopping")
    rw [response, object]
    exact plain _

/-- Lines without a newline in them arrive as they were sent. -/
theorem cutLines_lines {lines : List Bytes} (single : ∀ line ∈ lines, 10 ∉ line) :
    cutLines (lines.flatMap (· ++ [10])) = (lines, []) := by
  induction lines with
  | nil => rfl
  | cons line lines ih =>
    obtain ⟨first, later⟩ := List.forall_mem_cons.mp single
    rw [List.flatMap_cons, cutLines_append, cutLines_line first, List.nil_append, ih later]
    rfl

/-- A string is escaped into one line, and its escapes stand for it. An answer is
one line too: an object with the id of its request, whether it succeeded, and
members of other names. As many lines are sent as are answered, whatever the
strings in them. -/
theorem responses_one_line :
    (∀ text : Bytes, Printed (jsonEscape text) ∧ Json.readString (jsonEscape text ++ [34]) = some (text, [])) ∧
      (∀ (s : State) (request : Option Document), Printed (s.dispatch request).1.encode ∧
        ∃ members, Json.parse (s.dispatch request).1.encode =
            some (.object ((ascii "id", .word (idWord (numericId request))) ::
              (ascii "ok", .word (boolWord (s.dispatch request).1.code.isNone)) :: members)) ∧
          ∀ m ∈ members, m.1 ∉ [ascii "id", ascii "ok"]) ∧
      ∀ answers : List Answered,
        cutLines ((answers.map Answered.response).flatMap (· ++ [10])) = (answers.map Answered.response, []) := by
  refine ⟨fun text => ⟨printed_jsonEscape text, ?_⟩, fun s request => ⟨?_, ?_⟩, fun answers => ?_⟩
  · exact Json.readString_quote escapeByte_readable text []
  · exact (Answered.dispatched s request).printed
  · obtain ⟨id, fields⟩ := dispatch_replies s request
    obtain ⟨members, object, free⟩ := encode_object (s.dispatch request).1 fields
    rw [id] at object
    exact ⟨members, by rw [object, Json.parse_print escapeByte_readable], free⟩
  · refine cutLines_lines fun line member => ?_
    obtain ⟨a, _, rfl⟩ := List.mem_map.mp member
    exact a.printed.newline

end FzeroVs.Bridge
