import FzeroVs.Client.Marks
import FzeroVs.Server.Shots
import FzeroVs.Room.Commands
import FzeroVs.Room.Picture

namespace FzeroVs

/-- The status in which the command of the barrier has been applied. -/
def Shot.Reached : Shot → Status → Prop
  | .select, status => Status.selected.rank ≤ status.rank
  | .loaded, status => Status.loaded.rank ≤ status.rank
  | .finish, status => status = .finished

instance Shot.Reached.decidable : (shot : Shot) → (status : Status) → Decidable (shot.Reached status)
  | .select, _ => inferInstanceAs (Decidable (_ ≤ _))
  | .loaded, _ => inferInstanceAs (Decidable (_ ≤ _))
  | .finish, _ => inferInstanceAs (Decidable (_ = _))

namespace Client

/-- Within a generation a number is given out once. -/
theorem Numbered.unique {c : Client} (numbers : Numbered c) {x y : Issued} (memberX : x ∈ c.issuedIn c.race)
    (memberY : y ∈ c.issuedIn c.race) (same : x.seq = y.seq) : x = y := by
  obtain ⟨i, atI⟩ := List.mem_iff_getElem?.mp memberX
  obtain ⟨j, atJ⟩ := List.mem_iff_getElem?.mp memberY
  have numberX := numbers.numbered i x atI
  have numberY := numbers.numbered j y atJ
  have withinI := (List.getElem?_eq_some_iff.mp atI).1
  have withinJ := (List.getElem?_eq_some_iff.mp atJ).1
  rw [same] at numberX
  obtain rfl : i = j := by omega
  exact Option.some.inj (atI.symm.trans atJ)

/-- What is numbered above the commands that do not wait still waits. -/
theorem Account.waits {c : Client} (account : Account c) {x : Issued} (member : x ∈ c.issuedIn c.race)
    (above : c.commandSeq.toNat < x.seq.toNat + c.pending.length) : ∃ q ∈ c.pending, q.packet = x.packet := by
  obtain ⟨before, split⟩ := account.waiting
  have length := congrArg List.length split
  rw [List.length_append, List.length_map, List.length_map] at length
  obtain ⟨i, atI⟩ := List.mem_iff_getElem?.mp member
  have number := account.numbered i x atI
  have within := (List.getElem?_eq_some_iff.mp atI).1
  have packet : ((c.issuedIn c.race).map Issued.packet)[i]? = some x.packet := by
    rw [List.getElem?_map, atI]
    rfl
  rw [← split, List.getElem?_append_right (by omega), List.getElem?_map] at packet
  obtain ⟨q, atQ, same⟩ := Option.map_eq_some_iff.mp packet
  exact ⟨q, List.mem_of_getElem? atQ, same⟩

theorem accept_issued (c : Client) (t : UInt64) (p : Packet) (v : Picture) :
    ∃ more, (c.accept t p v).issued = c.issued ++ more := by
  obtain ⟨more, grows⟩ := Path.grows (c.settle t p v).arm_path
  exact ⟨more, (c.settle_history t p v).1 ▸ grows.issued⟩

end Client

namespace Server

/-- No snapshot of the current generation shows a later phase than the room has. -/
def Shown (s : Server) : Prop :=
  ∀ p, s.Answered p → ∀ v, readPicture p = some v → p.race = s.race → v.phase.rank ≤ s.phase.rank

theorem Shown.step {s : Server} (shown : Shown s) (reach : system.Reachable s) (receipts : Receipts s)
    (low : s.race.toNat < 2 ^ 31) (e : Event) : Shown (s.step e) := by
  intro p answered v read current
  obtain ⟨kind, d, member, decoded⟩ := answered
  obtain ⟨new, sent, news⟩ := (s.step_emission e).news
  rw [sent] at member
  rcases List.mem_append.mp member with old | added
  · have answered : s.Answered p := ⟨kind, d, old, decoded⟩
    have past := receipts.answered answered
    have onward := race_mono low e
    have before : p.race = s.race := by
      apply UInt32.toNat.inj
      have := congrArg UInt32.toNat current
      omega
    have less := shown p answered v read before
    rcases s.step_stay_or_begun e with stay | ⟨later, _⟩
    · exact less.trans stay.phase_le
    · exact absurd (current.symm.trans before) later.ne
  · have ranged := reachable_ranged (reach.next e trivial trivial)
    rcases news d added with other | ⟨j, seated, _, isWelcome | ⟨_, isPicture⟩⟩
    · have picture := Client.readPicture_kind read
      rw [(other p decoded).2] at picture
      exact nomatch picture
    · have picture := Client.readPicture_kind read
      rw [isWelcome] at decoded
      cases decoded
      exact nomatch picture
    · rw [isPicture] at decoded
      cases decoded
      have same := (readPicture_picture ranged e.sampled j).symm.trans read
      cases same
      exact Nat.le_refl _

instance Takes.decidable (s : Server) (address : Endpoint) (i : Fin 4) (packet : Packet) :
    Decidable (Takes s address i packet) :=
  decidable_of_iff (s.closed = false ∧ (s.players i).occupied = true ∧ packet.session = s.session ∧
      packet.token = (s.players i).token ∧ address = (s.players i).address ∧ packet.is .command = true ∧
      packet.race = s.race ∧ 1 ≤ packet.length.toNat ∧ packet.seq = (s.players i).commandSeq + 1)
    ⟨fun ⟨live, seated, session, token, address, command, race, nonempty, seq⟩ =>
        ⟨live, seated, session, token, address, command, race, nonempty, seq⟩,
      fun takes => ⟨takes.live, takes.seated, takes.session, takes.token, takes.address, takes.command,
        takes.race, takes.nonempty, takes.seq⟩⟩

end Server

namespace Room

/-- The command of a mark is one that the client has numbered in its
generation, and once it has been taken its player is past the barrier. -/
structure Aimed (s : Server) (c : Client) (shot : Shot) (x : Issued) : Prop where
  known : x ∈ c.issuedIn c.race
  fits : shot.Fits x.payload
  opened : shot ≠ .finish → shot.phase.rank ≤ s.phase.rank
  taken : ∀ k ∈ s.holders c.token, x.seq.toNat ≤ (s.players k).commandSeq.toNat → s.Holds shot c.token k

/-- A FINISH that the server takes from a client that has finished finds a race
that has started. -/
def Started (s : Server) (c : Client) (d : Server.Incoming) : Prop :=
  c.finishedSent = true → ∀ packet ∈ decode d.data, ∀ k ∈ s.holders c.token,
    Server.Takes s d.address k packet → Shot.finish.Fits packet.body → Phase.racing.rank ≤ s.phase.rank

instance Started.decidable (s : Server) (c : Client) (d : Server.Incoming) : Decidable (Started s c d) :=
  inferInstanceAs (Decidable (c.finishedSent = true → ∀ packet ∈ decode d.data, ∀ k ∈ s.holders c.token,
    Server.Takes s d.address k packet → Shot.finish.Fits packet.body → Phase.racing.rank ≤ s.phase.rank))

namespace Aimed
variable {s : Server} {c : Client} {a : Endpoint} {shot : Shot} {x : Issued}

/-- The server takes the command in time, or something else. -/
theorem server (aimed : Aimed s c shot x) (inStep : InStep s c a) (reach : Server.system.Reachable s)
    (receipts : Server.Receipts s) (ledger : Server.Ledger s) (low : s.race.toNat < 2 ^ 31)
    (few : c.issued.length < 2 ^ 31) {e : Server.Event} (undrawn : Server.Undrawn s e)
    (honest : ∀ d, e = .packet d → d.address = a → d.data ∈ c.sent) (current : c.race = (s.step e).race)
    (finished : shot = .finish → c.finishedSent = true) (started : ∀ d, e = .packet d → Started s c d) :
    Aimed (s.step e) c shot x := by
  have before : c.race = s.race := inStep.same_race low current
  have race : (s.step e).race = s.race := current.symm.trans before
  have stay : Server.Stay s (s.step e) := by
    rcases s.step_stay_or_begun e with stay | ⟨later, _⟩
    · exact stay
    · exact absurd race later.ne
  refine ⟨aimed.known, aimed.fits, fun other => (aimed.opened other).trans stay.phase_le, fun k holds taken => ?_⟩
  have other : e.random ≠ c.token := receipts.undrawn undrawn inStep.drawn
  cases Server.step_booking ledger other with
  | idle _ _ slot =>
    obtain ⟨held, same⟩ := slot k holds
    exact (aimed.taken k held (same ▸ taken)).stay stay
  | took d j packet isPacket decoded takes held _ slot =>
    subst isPacket
    obtain ⟨rfl, seq⟩ := slot k holds
    rw [seq] at taken
    rcases Nat.lt_or_ge (s.players k).commandSeq.toNat x.seq.toNat with new | old
    · have place : d.address = a := takes.from_place ledger held inStep.drawn
      obtain ⟨_, known, _⟩ := inStep.account.sent d.data (honest d rfl place) packet decoded takes.command
      have next : packet.seq.toNat = (s.players k).commandSeq.toNat + 1 := by
        have bound := (inStep.slot k held).few
        rw [takes.seq, toNat_add_one (by omega)]
      have same : x = ⟨packet.race, packet.seq, packet.body⟩ :=
        inStep.account.unique aimed.known (Client.mem_issuedIn.mpr ⟨known, takes.race.trans before.symm⟩)
          (UInt32.toNat.inj (by change x.seq.toNat = packet.seq.toNat; omega))
      have fits : shot.Fits packet.body := by
        have fits := aimed.fits
        rwa [same] at fits
      have opened : shot.phase.rank ≤ s.phase.rank := by
        by_cases isFinish : shot = .finish
        · subst isFinish
          exact started d rfl (finished rfl) packet decoded k held takes fits
        · exact aimed.opened isFinish
      rw [← (Server.mem_holders.mp held).2]
      exact takes.holds reach ledger decoded fits opened race
    · exact (aimed.taken k held old).stay stay

/-- The client numbers further commands. -/
theorem grows (aimed : Aimed s c shot x) {d : Client} (issued : ∃ more, d.issued = c.issued ++ more)
    (race : d.race = c.race) (token : d.token = c.token) : Aimed s d shot x := by
  obtain ⟨known, fits, opened, taken⟩ := aimed
  obtain ⟨more, issued⟩ := issued
  obtain ⟨member, here⟩ := Client.mem_issuedIn.mp known
  refine ⟨Client.mem_issuedIn.mpr ⟨?_, here.trans race.symm⟩, fits, opened, ?_⟩
  · rw [issued]
    exact List.mem_append_left _ member
  · rw [token]
    exact taken

/-- A command that finds room on the queue has not been taken yet. -/
theorem queued (inStep : InStep s c a) (few : c.issued.length < 2 ^ 31) (current : c.race = s.race)
    (joined : c.id ≠ none) (room : c.pending.length < 8) {command : List UInt8} (fits : shot.Fits command)
    (opened : shot ≠ .finish → shot.phase.rank ≤ s.phase.rank) {d : Client}
    (issued : d.issued = (c.queue command).issued) (race : d.race = c.race) (token : d.token = c.token) :
    Aimed s d shot ⟨c.race, c.commandSeq + 1, command⟩ := by
  have short : ¬ maxPacket - headerSize < command.length := by
    rw [fits.size]
    cases shot <;> decide
  have asked : ¬ (c.id = none ∨ 8 ≤ c.pending.length ∨ maxPacket - headerSize < command.length) := by
    rintro (waits | full | long)
    · exact joined waits
    · omega
    · exact short long
  rw [Client.queue, if_neg asked] at issued
  refine ⟨Client.mem_issuedIn.mpr ⟨?_, race.symm⟩, fits, opened, fun k holds taken => ?_⟩
  · rw [issued]
    exact List.mem_append_right _ (List.mem_singleton_self _)
  · rw [token] at holds
    have count := (inStep.slot k holds).count current
    have fewer := (inStep.taken c.race).length_le
    rw [List.length_map] at fewer
    have bound := inStep.account.few
    change (c.commandSeq + 1).toNat ≤ _ at taken
    rw [toNat_add_one (by omega)] at taken
    omega

/-- The command still waits, or its player is past the barrier. -/
theorem delivered (aimed : Aimed s c shot x) (inStep : InStep s c a) (ledger : Server.Ledger s)
    (current : c.race = s.race) (joined : c.id ≠ none) :
    (∃ q ∈ c.pending, shot.Fits q.packet.payload) ∨
      ∀ k ∈ s.holders c.token, shot.Reached (s.players k).status := by
  rw [Classical.or_iff_not_imp_left]
  intro gone k holds
  have taken : x.seq.toNat ≤ (s.players k).commandSeq.toNat := by
    by_contra above
    obtain ⟨least, _⟩ := (inStep.slot k holds).first current joined
    obtain ⟨q, member, same⟩ := inStep.account.waits aimed.known (by omega)
    refine gone ⟨q, member, ?_⟩
    rw [same]
    exact aimed.fits
  have passed := (aimed.taken k holds taken).passed ledger.apart holds
  have rank := passed.status
  cases shot with
  | select => exact rank
  | loaded => exact rank
  | finish =>
    have seated := Server.occupied_iff.mp (Server.mem_holders.mp holds).1
    change (s.players k).status = .finished
    revert rank
    cases status : (s.players k).status <;> simp_all [Shot.status, Status.rank]

end Aimed

/-- Every mark of the generation of the room has its command. -/
def Marked (s : Server) (c : Client) : Prop :=
  ∀ shot, c.marked shot = true → c.race = s.race → ∃ x, Aimed s c shot x

/-- A client without a place has no marks, and no step but its joining gives it one. -/
theorem Marked.outside {s : Server} {c : Client} (entered : Client.Entered c) (waits : c.id = none)
    {e : Client.Event} (stays : e ≠ .detach) : Marked s (c.step e) := by
  have none (waits : (c.step e).id = none) (after : Client.Entered (c.step e)) : Marked s (c.step e) :=
    fun shot marked _ => nomatch (after.unmarked waits shot).symm.trans marked
  cases c.step_marks e with
  | same same =>
    intro shot marked
    rw [same.marked, entered.unmarked waits] at marked
    exact nomatch marked
  | frame ram due now isFrame _ =>
    subst isFrame
    exact none ((Client.Path.kept (c.frame_path ram due now)).id.trans waits) (entered.frame ram due now)
  | accept t data p v isHear decoded accepts same => exact absurd waits accepts.joined
  | attach random now isAttach =>
    subst isAttach
    exact none (c.attach_blank random now).2.1 (entered.attach waits random now)
  | detach isDetach => exact absurd isDetach stays

theorem Marked.accept {s : Server} {c : Client} (marks : Marked s c) (t : UInt64) {p : Packet} {v : Picture} :
    Marked s (c.accept t p v) := by
  have took := c.accept_took t p v
  intro shot marked current
  rcases c.accept_marks t p v with ⟨race, same⟩ | ⟨_, cleared, _⟩
  · rw [same.marked] at marked
    have here : (c.accept t p v).race = c.race := took.race.trans race
    obtain ⟨x, aimed⟩ := marks shot marked (here ▸ current)
    exact ⟨x, aimed.grows (c.accept_issued t p v) here took.token⟩
  · exact nomatch (cleared shot).symm.trans marked

theorem Marked.path {s : Server} {c d : Client} (marks : Marked s c) (path : Client.Path c d)
    (marked : ∀ shot, d.marked shot = true → c.race = s.race → c.marked shot = true ∨ ∃ x, Aimed s d shot x) :
    Marked s d := by
  have kept := Client.Path.kept path
  intro shot set current
  rcases marked shot set (kept.race ▸ current) with old | new
  · obtain ⟨x, aimed⟩ := marks shot old (kept.race ▸ current)
    obtain ⟨more, grows⟩ := Client.Path.grows path
    exact ⟨x, aimed.grows ⟨more, grows.issued⟩ kept.race kept.token⟩
  · exact new

variable {ι : Type} [DecidableEq ι] {place : ι ↪ Endpoint} {room : Room ι} {i : ι}

/-- The client does not leave, and no numbers run out. -/
def Present (i : ι) (room : Room ι) (e : Event ι) : Prop :=
  Counted i room e ∧ match e with
    | .client j .detach => j ≠ i
    | _ => True

instance Present.decidable (i : ι) (room : Room ι) : (e : Event ι) → Decidable (Present i room e)
  | .client j .detach => inferInstanceAs (Decidable (_ ∧ j ≠ i))
  | .server _ => inferInstanceAs (Decidable (_ ∧ True))
  | .client _ (.attach _ _) => inferInstanceAs (Decidable (_ ∧ True))
  | .client _ (.request _ _) => inferInstanceAs (Decidable (_ ∧ True))
  | .client _ (.hear _ _) => inferInstanceAs (Decidable (_ ∧ True))
  | .client _ (.pulse _) => inferInstanceAs (Decidable (_ ∧ True))
  | .client _ (.frame _ _ _) => inferInstanceAs (Decidable (_ ∧ True))

/-- A frame that marks a command finds room on the queue, and no FINISH that
has been marked is taken before the race. -/
def Heeded (i : ι) (room : Room ι) : Event ι → Prop
  | .client j (.frame ram _ _) =>
    j = i → (room.client i).oneShot ram ≠ none → (room.client i).pending.length < 8
  | .server (.packet d) => Started room.server (room.client i) d
  | _ => True

instance Heeded.decidable (i : ι) (room : Room ι) : (e : Event ι) → Decidable (Heeded i room e)
  | .client j (.frame ram _ _) => inferInstanceAs (Decidable (j = i → (room.client i).oneShot ram ≠ none → _ < 8))
  | .server (.packet d) => inferInstanceAs (Decidable (Started _ _ d))
  | .server (.timer _ _) => .isTrue trivial
  | .server (.probe _) => .isTrue trivial
  | .server .close => .isTrue trivial
  | .client _ (.attach _ _) => .isTrue trivial
  | .client _ (.request _ _) => .isTrue trivial
  | .client _ (.hear _ _) => .isTrue trivial
  | .client _ (.pulse _) => .isTrue trivial
  | .client _ .detach => .isTrue trivial

theorem Present.stays {e : Client.Event} (present : Present i room (.client i e)) : e ≠ .detach := by
  rintro rfl
  exact present.2 rfl

theorem reach_shown (reach : (system place).Reach (Counted i) room) : Server.Shown room.server := by
  refine reach.invariant (P := fun room => Server.Shown room.server) (fun room init p answered => ?_)
    fun room e previous _ _ shown => ?_
  · obtain ⟨_, session, now, created⟩ := init.1
    obtain ⟨_, _, _, _, _, same⟩ := Server.create_some created
    obtain ⟨_, d, member, _⟩ := answered
    rw [same] at member
    exact nomatch member
  · cases e with
    | server e => exact shown.step (reach_server previous) (reach_receipts previous) (reach_counted previous).1 e
    | client j e => exact shown

/-- The client shows no later phase of the generation than the room has. -/
theorem reach_phase (reach : (system place).Reach (Counted i) room)
    (current : (room.client i).race = room.server.race) :
    (room.client i).phase.rank ≤ room.server.phase.rank := by
  have mirror := reach_mirror reach i
  cases isLast : (room.client i).accepted.getLast? with
  | none =>
    rw [mirror.blank (List.getLast?_eq_none_iff.mp isLast)]
    exact Nat.zero_le _
  | some p =>
    obtain ⟨v, read, phase, _, _, _, race, _⟩ := mirror.last p isLast
    obtain ⟨kind, _, data, sent, decoded⟩ := reach_heard reach i p (List.mem_of_getLast? isLast)
    rw [phase]
    exact reach_shown reach p ⟨.inr kind, _, sent, decoded⟩ v read (race.symm.trans current)

theorem reach_entered (reach : (system place).Reach (Present i) room) : (room.client i).Entered := by
  refine reach_pair (P := fun _ c => c.Entered) reach (fun _ c _ init => ?_) (fun _ _ _ _ _ entered => entered)
    fun room e previous may present entered => ?_
  · obtain ⟨config, rfl⟩ := init
    exact ⟨nofun, fun _ shot => by cases shot <;> rfl, (by decide : (0 : UInt8) < 4)⟩
  · refine entered.step present.stays fun random now isAttach => ?_
    exact (reach_unborn previous (enabled_attach may (by rw [isAttach]; rfl))).id

theorem reach_marked (reach : (system place).Reach (fun room e => Present i room e ∧ Heeded i room e) room) :
    Marked room.server (room.client i) := by
  refine reach_pair (P := Marked) reach (fun s c _ init => ?_) (fun room e previous may allowed marks => ?_)
    fun room e previous may allowed marks => ?_
  · obtain ⟨config, rfl⟩ := init
    intro shot marked
    cases shot <;> exact nomatch marked
  · have present := previous.mono fun _ _ both => both.1
    have counted := present.mono fun _ _ both => both.1
    have entered := reach_entered present
    obtain ⟨low, few⟩ := reach_counted counted
    intro shot marked current
    rcases reach_inStep counted with outside | inStep
    · exact nomatch (entered.unmarked outside.silent.waits shot).symm.trans marked
    · obtain ⟨x, aimed⟩ := marks shot marked (inStep.same_race low current)
      refine ⟨x, aimed.server inStep (reach_server counted) (reach_receipts counted) (reach_ledger counted) low few
        (enabled_undrawn may) ?_ current ?_ ?_⟩
      · rintro d rfl own
        exact enabled_sent may own
      · rintro rfl
        exact marked
      · rintro d rfl
        exact allowed.2
  · have present := previous.mono fun _ _ both => both.1
    have counted := present.mono fun _ _ both => both.1
    have entered := reach_entered present
    obtain ⟨low, few⟩ := reach_counted counted
    have stays := allowed.1.stays
    have unborn (attach : attaches e = true) := reach_unborn previous (enabled_attach may attach)
    rcases reach_inStep counted with outside | inStep
    · exact .outside entered outside.silent.waits stays
    have attached (random : Option UInt64) (now : UInt64) (isAttach : e = .attach random now) : False :=
      (reach_receipts counted).drawn _ inStep.drawn (unborn (by rw [isAttach]; rfl)).token
    cases (room.client i).step_marks e with
    | same same =>
      cases (room.client i).step_turn e with
      | path path _ _ => exact marks.path path fun shot marked _ => .inl (same.marked shot ▸ marked)
      | join t data p isHear decoded admits _ =>
        exact nomatch (inStep.left admits.waiting).symm.trans admits.opened
      | accept t data p v isHear decoded accepts same =>
        rw [same]
        exact marks.accept t
      | attach random now isAttach => exact (attached random now isAttach).elim
      | detach isDetach => exact absurd isDetach stays
    | frame ram due now isFrame marking =>
      subst isFrame
      have path := (room.client i).frame_path ram due now
      have kept := Client.Path.kept path
      refine marks.path path fun shot marked current => ?_
      rcases marking.marked shot marked with old | ⟨command, isDue, issued⟩
      · exact .inl old
      · obtain ⟨fits, phase, placed⟩ := Client.oneShot_fits isDue
        have joined := placed.elim id fun grid => entered.seated grid.1 grid.2
        have space : (room.client i).pending.length < 8 := allowed.2 rfl (by rw [isDue]; exact nofun)
        refine .inr ⟨_, .queued inStep few current joined space (fits entered.car) (fun other => ?_) issued
          kept.race kept.token⟩
        rw [← phase other]
        exact reach_phase counted current
    | accept t data p v isHear decoded accepts same =>
      rw [same]
      exact marks.accept t
    | attach random now isAttach => exact (attached random now isAttach).elim
    | detach isDetach => exact absurd isDetach stays

/-- What becomes of a marked command: it waits, or it belongs to a generation
that the room has left, or there is no slot with the token of the client any
more, or the slot has reached the status. -/
def Delivered (room : Room ι) (i : ι) (shot : Shot) : Prop :=
  (room.client i).marked shot = true →
    (∃ q ∈ (room.client i).pending, shot.Fits q.packet.payload) ∨
    (room.client i).race ≠ room.server.race ∨
    room.server.holders (room.client i).token = [] ∨
    ∀ k ∈ room.server.holders (room.client i).token, shot.Reached (room.server.players k).status

instance Delivered.decidable (room : Room ι) (i : ι) (shot : Shot) : Decidable (room.Delivered i shot) :=
  inferInstanceAs (Decidable (_ → _ ∨ _ ∨ _ ∨ _))

/-- A marked command is not lost, as long as the marking frames find room on
the queue and no FINISH is taken before the race. -/
theorem one_shots_kept (reach : (system place).Reach (fun room e => Present i room e ∧ Heeded i room e) room) :
    ∀ shot, room.Delivered i shot := by
  intro shot marked
  have present := reach.mono fun _ _ both => both.1
  have counted := present.mono fun _ _ both => both.1
  rcases reach_inStep counted with outside | inStep
  · exact nomatch ((reach_entered present).unmarked outside.silent.waits shot).symm.trans marked
  by_cases current : (room.client i).race = room.server.race
  · obtain ⟨x, aimed⟩ := reach_marked reach shot marked current
    have joined : (room.client i).id ≠ none := fun waits =>
      nomatch ((reach_entered present).unmarked waits shot).symm.trans marked
    rcases aimed.delivered inStep (reach_ledger counted) current joined with waits | reached
    · exact .inl waits
    · exact .inr (.inr (.inr reached))
  · exact .inr (.inl current)

/-- The sample client with everybody on the grid. -/
def sampleGrided : Room (Fin 1) := sampleEvents.foldl step sampleLobby

theorem sampleGrided_reach :
    (system samplePlace).Reach (fun room e => Present 0 room e ∧ Heeded 0 room e) sampleGrided :=
  System.Reach.run (.start sampleLobby_init) (by decide +kernel)

theorem sampleGrided_kept : (sampleGrided.client 0).marked .loaded = true ∧
    sampleGrided.server.holders (sampleGrided.client 0).token = [0] ∧
    (sampleGrided.server.players 0).status = .loaded ∧ sampleGrided.Delivered 0 .loaded :=
  ⟨by decide +kernel, by decide +kernel, by decide +kernel, one_shots_kept sampleGrided_reach .loaded⟩

/-- On a full queue that has no such command already, a frame loses the one
that it marks. -/
theorem marked_on_full_queue {ram : UInt32 → UInt8} {shot : Shot} {command : List UInt8}
    (isDue : (room.client i).oneShot ram = some (shot, command)) (full : 8 ≤ (room.client i).pending.length)
    (others : ∀ q ∈ (room.client i).pending, ¬ shot.Fits q.packet.payload)
    (current : (room.client i).race = room.server.race) {k : Fin 4}
    (holds : k ∈ room.server.holders (room.client i).token) (behind : ¬ shot.Reached (room.server.players k).status)
    (due : Bool) (now : UInt64) : ¬ (room.step (.client i (.frame ram due now))).Delivered i shot := by
  obtain ⟨marked, pending⟩ := Client.frame_full isDue full due now
  have kept := Client.Path.kept ((room.client i).frame_path ram due now)
  intro delivered
  simp only [Delivered, step_client_self, step_client_server, Client.step] at delivered
  rw [pending, kept.race, kept.token] at delivered
  rcases delivered marked with ⟨q, member, fits⟩ | other | vacant | reached
  · exact others q member fits
  · exact other current
  · rw [vacant] at holds
    exact List.not_mem_nil holds
  · exact behind (reached k holds)

/-- Eight requests fill the queue before the client waits for the others. -/
def crowdedScript : List (Room (Fin 1) → Event (Fin 1)) :=
  let frame ram : Room (Fin 1) → Event (Fin 1) := fun _ => .client 0 (.frame ram true 1500000)
  let pulse : Room (Fin 1) → Event (Fin 1) := fun _ => .client 0 (.pulse 1500000)
  [fun _ => .client 0 (.attach (some 9) 1000000), pulse, sampleDeliver .hello 77,
    fun room => .client 0 (.hear 1500000 ((room.server.sent.headD ⟨Server.sampleGuest, []⟩).data)), sampleHear] ++
    List.replicate 8 (fun _ => .client 0 (.request Command.config.code [2, 0, 0])) ++
    [pulse, frame sampleMenu, frame sampleMenu, frame sampleMenu]

def sampleCrowded : Room (Fin 1) := (sampleLobby.play crowdedScript).foldl step sampleLobby

def sampleOver (address : UInt32) : UInt8 := if address = 0x54 then 3 else 0

/-- The race of the client is over before that of the server has begun. -/
def hastyScript : List (Room (Fin 1) → Event (Fin 1)) :=
  [fun _ => .client 0 (.frame sampleOver true 1500000), fun _ => .client 0 (.pulse 1500000),
    sampleDeliver .command 0, sampleHear]

def sampleHasty : Room (Fin 1) := (sampleGrided.play hastyScript).foldl step sampleGrided

/-- A SELECT is lost on a full queue, and a FINISH in the countdown, which the
server acknowledges without applying it. -/
theorem one_shots_lost :
    ((system samplePlace).Reach (Present 0) sampleCrowded ∧ ¬ sampleCrowded.Delivered 0 .select) ∧
    ((system samplePlace).Reach (Present 0) sampleHasty ∧ ¬ sampleHasty.Delivered 0 .finish) :=
  ⟨⟨.run (.start sampleLobby_init) (by decide +kernel), by decide +kernel⟩,
    ⟨.run (sampleGrided_reach.mono fun _ _ both => both.1) (by decide +kernel), by decide +kernel⟩⟩

end Room

end FzeroVs
