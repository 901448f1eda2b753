import FzeroVs.Server.Lobbies

namespace FzeroVs

/-- The clock is far from its end. -/
theorem Micros.add_toNat (now : Micros) (k : UInt64) (small : k.toNat < 2 ^ 63) :
    (now.val + k).toNat = now.val.toNat + k.toNat := by
  have below := now.below
  rw [UInt64.toNat_add]
  omega

namespace Server

/-- Whether somebody sits in a slot, and since when nothing has come from there. -/
def Presence (p q : Player) : Prop := q.occupied = p.occupied ∧ (p.occupied = true → q.seen = p.seen)

theorem Presence.refl (p : Player) : Presence p p := ⟨rfl, fun _ => rfl⟩

theorem Presence.trans {p q r : Player} (first : Presence p q) (second : Presence q r) : Presence p r where
  left := second.1.trans first.1
  right seated := (second.2 (first.1.trans seated)).trans (first.2 seated)

theorem Presence.silent {s t : Server} {j : Fin 4} (same : Presence (s.players j) (t.players j)) (now : UInt64) :
    t.silent now j = s.silent now j := by
  obtain ⟨occupied, seen⟩ := same
  unfold Server.silent
  rw [occupied]
  cases seated : (s.players j).occupied with
  | false => rfl
  | true => rw [seen seated]

theorem relobby_presence (p : Player) : Presence p (relobby p) := by
  refine ⟨relobby_occupied p, fun seated => ?_⟩
  unfold relobby
  rw [if_pos seated]

/-- A departure is felt in its own slot only. -/
theorem drop_presence (s : Server) {i j : Fin 4} (other : j ≠ i) :
    Presence (s.players j) ((s.drop i).players j) := by
  rcases s.drop_cases i with ⟨same, _⟩ | ⟨same, _⟩ | ⟨same, _⟩
  · rw [same]
    change Presence (s.players j) ((s.disconnect i).players j)
    rw [disconnect, modify_players_ne _ _ other]
    exact .refl _
  · rw [same, vacate_players_ne s other]
    exact .refl _
  · rw [same]
    change Presence (s.players j) (relobby (((s.disconnect i).vacate i).players j))
    rw [vacate_players_ne s other]
    exact relobby_presence _

theorem drop_free (s : Server) (i : Fin 4) : ((s.drop i).players i).occupied = false := by
  rcases s.drop_cases i with ⟨same, _⟩ | ⟨same, _⟩ | ⟨same, _⟩
  · rw [same]
    change ((s.disconnect i).players i).occupied = false
    rw [disconnect, modify_players_self]
    rfl
  · rw [same]
    exact s.vacate_free i
  · rw [same]
    change (relobby (((s.disconnect i).vacate i).players i)).occupied = false
    rw [relobby_occupied]
    exact s.vacate_free i

theorem silent_of_free {s : Server} {now : UInt64} {i : Fin 4} (free : (s.players i).occupied = false) :
    s.silent now i = false := by
  rw [silent, free]
  rfl

/-- The timeout loop drops the silent slots of its list, and touches nobody else. -/
theorem dropEach_presence (now : UInt64) (l : List (Fin 4)) (s : Server) (j : Fin 4) :
    (j ∈ l ∧ s.silent now j = true ∧ ((dropEach now l s).players j).occupied = false) ∨
      ((j ∈ l → s.silent now j = false) ∧ Presence (s.players j) ((dropEach now l s).players j)) := by
  induction l generalizing s with
  | nil => exact .inr ⟨nofun, .refl _⟩
  | cons i rest ih =>
    rw [dropEach_cons]
    by_cases own : j = i
    · subst own
      cases gone : s.silent now j with
      | true =>
        refine .inl ⟨List.mem_cons_self, rfl, ?_⟩
        have free := s.drop_free j
        rw [if_pos rfl]
        rcases ih (s.drop j) with ⟨_, _, left⟩ | ⟨_, same⟩
        · exact left
        · exact same.1.trans free
      | false =>
        rw [if_neg Bool.false_ne_true]
        rcases ih s with ⟨_, silent, _⟩ | ⟨_, same⟩
        · exact nomatch gone.symm.trans silent
        · exact .inr ⟨fun _ => rfl, same⟩
    · have step : Presence (s.players j) ((if s.silent now i then s.drop i else s).players j) := by
        split
        · exact drop_presence s own
        · exact .refl _
      have member : j ∈ i :: rest ↔ j ∈ rest := by simp [own]
      rw [member, ← step.silent now]
      rcases ih (if s.silent now i then s.drop i else s) with left | ⟨stays, same⟩
      · exact .inl left
      · exact .inr ⟨stays, step.trans same⟩

theorem dropEach_of_awake {now : UInt64} {s : Server} (awake : ∀ i, s.silent now i = false) (l : List (Fin 4)) :
    dropEach now l s = s := by
  induction l with
  | nil => rfl
  | cons i rest ih =>
    rw [dropEach_cons, awake i]
    exact ih

theorem passBarriers_presence (s : Server) (now : UInt64) (i : Fin 4) :
    Presence (s.players i) ((s.passBarriers now).players i) := by
  have loading (s : Server) : Presence (s.players i) (s.enterLoading.players i) := by
    unfold enterLoading
    split <;> exact .refl _
  have counting (s : Server) : Presence (s.players i) ((s.enterCountdown now).players i) := by
    unfold enterCountdown
    split <;> exact ⟨rfl, fun _ => rfl⟩
  have starting (s : Server) : Presence (s.players i) ((s.countdown now).players i) := by
    refine ⟨s.countdown_occupied now i, fun seated => ?_⟩
    unfold countdown
    split
    · split
      · rfl
      · split
        · simp only [release, seated, if_true]
        · rfl
    · rfl
  have finishing (s : Server) : Presence (s.players i) (s.enterResults.players i) := by
    unfold enterResults
    split <;> exact .refl _
  exact (((loading s).trans (counting _)).trans (starting _)).trans (finishing _)

/-- The start is far enough, or everybody knows it and it is still to come. -/
def Ahead (s : Server) (now : UInt64) : Prop :=
  now.toNat + 500000 < s.start.toNat ∨ s.allArmed = true ∧ now.toNat < s.start.toNat

theorem countdown_ahead (s : Server) (now : Micros) (counting : (s.countdown now.val).phase = .countdown) :
    Ahead (s.countdown now.val) now.val := by
  unfold countdown at counting ⊢
  split
  next before =>
    rw [if_pos before] at counting
    split
    · refine .inl ?_
      change now.val.toNat + 500000 < (now.val + 2000000).toNat
      rw [now.add_toNat 2000000 (by decide)]
      exact Nat.add_lt_add_left (by decide) _
    next keep =>
      rw [if_neg keep] at counting
      split
      next go =>
        rw [if_pos go] at counting
        exact nomatch counting
      next wait =>
        rw [UInt64.le_iff_toNat_le, now.add_toNat 500000 (by decide)] at keep
        rw [UInt64.le_iff_toNat_le] at wait
        cases armed : s.allArmed with
        | true => exact .inr ⟨armed, Nat.lt_of_not_le fun due => wait ⟨armed, due⟩⟩
        | false => exact .inl (Nat.lt_of_not_le fun late => keep ⟨by simp [armed], late⟩)
  next before =>
    rw [if_neg before] at counting
    exact absurd counting before

/-- Before a start that is ahead nothing happens. -/
theorem countdown_of_ahead {s : Server} {now : Micros} (ahead : s.phase = .countdown → Ahead s now.val) :
    s.countdown now.val = s := by
  unfold countdown
  split
  next counting =>
    have margin : (now.val + 500000).toNat = now.val.toNat + 500000 := now.add_toNat 500000 (by decide)
    have notLate : ¬ (¬ s.allArmed = true ∧ s.start ≤ now.val + 500000) := by
      rintro ⟨missing, late⟩
      rw [UInt64.le_iff_toNat_le, margin] at late
      rcases ahead counting with far | ⟨armed, _⟩
      · omega
      · exact missing armed
    have notDue : ¬ (s.allArmed = true ∧ s.start ≤ now.val) := by
      rintro ⟨_, due⟩
      rw [UInt64.le_iff_toNat_le] at due
      rcases ahead counting with far | ⟨_, near⟩ <;> omega
    rw [if_neg notLate, if_neg notDue]
  next => rfl

theorem passBarriers_ahead (s : Server) (now : Micros) (counting : (s.passBarriers now.val).phase = .countdown) :
    Ahead (s.passBarriers now.val) now.val := by
  unfold passBarriers at counting ⊢
  obtain ⟨same, _⟩ := enterResults_of_phase (by rw [counting]; decide)
  rw [same] at counting ⊢
  exact countdown_ahead _ now counting

/-- No barrier is complete, and the start is ahead: another pass changes nothing. -/
theorem passBarriers_of_settled {s : Server} {now : Micros} (staging : Staging s) (settled : Settled s)
    (ahead : s.phase = .countdown → Ahead s now.val) : s.passBarriers now.val = s := by
  have loading : s.enterLoading = s := by
    refine if_neg fun ready => ?_
    obtain ⟨lobby, full, selected⟩ := ready
    obtain ⟨_, high⟩ := allAtLeast_iff.mp selected
    rcases settled.lobby lobby with few | ⟨i, joined⟩
    · omega
    · have low := high i (by rw [Player.occupied, joined]; rfl)
      rw [joined] at low
      exact absurd low (by decide)
  have counting : s.enterCountdown now.val = s := by
    refine if_neg fun ready => ?_
    obtain ⟨loading, loaded⟩ := ready
    obtain ⟨_, high⟩ := allAtLeast_iff.mp loaded
    obtain ⟨i, seated, missing⟩ := settled.loading loading
    have low := high i seated
    rcases (staging.loading loading).2 i seated with selected | present
    · rw [selected] at low
      exact absurd low (by decide)
    · exact missing present
  have finishing : s.enterResults = s := by
    refine if_neg fun ready => ?_
    obtain ⟨racing, finished⟩ := ready
    obtain ⟨_, high⟩ := allAtLeast_iff.mp finished
    obtain ⟨i, runs⟩ := settled.racing racing
    have low := high i (by rw [Player.occupied, runs]; rfl)
    rw [runs] at low
    exact absurd low (by decide)
  rw [passBarriers, loading, counting, countdown_of_ahead ahead, finishing]

/-- After `advance` nobody in the room is silent. -/
theorem advance_presence (s : Server) (now : UInt64) (i : Fin 4) :
    (s.silent now i = true ∧ ((s.advance now).players i).occupied = false) ∨
      (s.silent now i = false ∧ Presence (s.players i) ((s.advance now).players i)) := by
  have barriers : Presence ((s.dropSilent now).players i) ((s.advance now).players i) := by
    simp only [advance]
    split
    · exact .refl _
    · exact passBarriers_presence _ now i
  rcases dropEach_presence now slots s i with ⟨_, gone, free⟩ | ⟨stays, same⟩
  · exact .inl ⟨gone, barriers.1.trans free⟩
  · exact .inr ⟨stays (mem_slots i), same.trans barriers⟩

theorem advance_awake (s : Server) (now : UInt64) (i : Fin 4) : (s.advance now).silent now i = false := by
  rcases s.advance_presence now i with ⟨_, free⟩ | ⟨awake, same⟩
  · exact silent_of_free free
  · exact (same.silent now).trans awake

theorem advance_of_awake {s : Server} {now : UInt64} (awake : ∀ i, s.silent now i = false) :
    s.advance now = if s.closed then s else s.passBarriers now := by
  simp only [advance, dropSilent, dropEach_of_awake awake]

/-- Unsigned or not, the time since the last sign of life is the same. -/
theorem silent_iff {s : Server} {now : UInt64} {i : Fin 4} (past : (s.players i).seen ≤ now) :
    s.silent now i = true ↔
      (s.players i).occupied = true ∧ (s.players i).seen.toNat + 5000000 ≤ now.toNat := by
  have elapsed := UInt64.toNat_sub_of_le now (s.players i).seen past
  rw [UInt64.le_iff_toNat_le] at past
  simp only [silent, Bool.and_eq_true, decide_eq_true_eq, UInt64.le_iff_toNat_le]
  rw [elapsed]
  exact and_congr_right fun _ => ⟨fun late => by change 5000000 ≤ _ at late; omega,
    fun late => by change 5000000 ≤ _; omega⟩

/-- One pass settles the room: a second one with the same clock changes nothing,
exactly the silent players are gone, and in the countdown the start is ahead. -/
theorem advance_settles {s : Server} (reach : system.Reachable s) (now : Micros)
    (past : ∀ i, (s.players i).occupied = true → (s.players i).seen ≤ now.val) :
    (s.advance now.val).advance now.val = s.advance now.val ∧
    (∀ i, ((s.advance now.val).players i).occupied = true ↔
      (s.players i).occupied = true ∧ now.val.toNat < (s.players i).seen.toNat + 5000000) ∧
    (∀ i, ((s.advance now.val).players i).occupied = true →
      now.val.toNat < ((s.advance now.val).players i).seen.toNat + 5000000) ∧
    ((s.advance now.val).closed = false → (s.advance now.val).phase = .countdown →
      (∀ i, ((s.advance now.val).players i).occupied = true →
          ((s.advance now.val).players i).armed = (s.advance now.val).start) ∧
        now.val.toNat < (s.advance now.val).start.toNat ∨
      now.val.toNat + 500000 < (s.advance now.val).start.toNat) := by
  have present (i : Fin 4) : ((s.advance now.val).players i).occupied = true ↔
      (s.players i).occupied = true ∧ now.val.toNat < (s.players i).seen.toNat + 5000000 := by
    rcases s.advance_presence now.val i with ⟨gone, free⟩ | ⟨awake, same⟩
    · have seated := silent_occupied gone
      have late := ((silent_iff (past i seated)).mp gone).2
      rw [free]
      exact iff_of_false Bool.false_ne_true fun both => by omega
    · rw [same.1]
      refine ⟨fun seated => ⟨seated, Nat.lt_of_not_le fun late => ?_⟩, fun both => both.1⟩
      have gone := (silent_iff (past i seated)).mpr ⟨seated, late⟩
      cases awake.symm.trans gone
  have recent (i : Fin 4) (seated : ((s.advance now.val).players i).occupied = true) :
      now.val.toNat < ((s.advance now.val).players i).seen.toNat + 5000000 := by
    obtain ⟨before, early⟩ := (present i).mp seated
    rcases s.advance_presence now.val i with ⟨_, free⟩ | ⟨_, same⟩
    · cases free.symm.trans seated
    · rw [same.2 before]
      exact early
  have ahead (live : (s.advance now.val).closed = false) (counting : (s.advance now.val).phase = .countdown) :
      Ahead (s.advance now.val) now.val := by
    simp only [advance] at live counting ⊢
    split at live
    next closed => cases closed.symm.trans live
    next opened =>
      rw [if_neg opened] at counting ⊢
      exact passBarriers_ahead _ now counting
  refine ⟨?_, present, recent, fun live counting => ?_⟩
  · rw [advance_of_awake (s.advance_awake now.val)]
    split
    · rfl
    next opened =>
      have live : (s.advance now.val).closed = false := Bool.not_eq_true _ ▸ opened
      have open' : s.closed = false := (s.advance_path now).live live
      have seating := reachable_seating reach open'
      have staging := reachable_staging reach open'
      exact passBarriers_of_settled ((s.advance_path now).seating_staging live ⟨seating, staging⟩).2
        (advance_settled now live seating staging) (ahead live)
  · rcases ahead live counting with far | ⟨armed, near⟩
    · exact .inr far
    · exact .inl ⟨allArmed_iff.mp armed, near⟩

def sampleLate : Micros := ⟨6000000, by decide⟩

/-- Five seconds after the guest of the sample has joined it is gone. -/
theorem sampleJoin_silent :
    ((sampleRoom.step sampleJoin).players 0).occupied = true ∧
      (((sampleRoom.step sampleJoin).advance sampleLate.val).players 0).occupied = false ∧
      ((sampleRoom.step sampleJoin).advance sampleLate.val).advance sampleLate.val =
        (sampleRoom.step sampleJoin).advance sampleLate.val := by
  have past : ∀ i, ((sampleRoom.step sampleJoin).players i).occupied = true →
      ((sampleRoom.step sampleJoin).players i).seen ≤ sampleLate.val := by
    decide +kernel
  obtain ⟨settled, present, _, _⟩ := advance_settles sampleJoin_reachable sampleLate past
  have late : ¬ sampleLate.val.toNat < ((sampleRoom.step sampleJoin).players 0).seen.toNat + 5000000 := by
    decide +kernel
  refine ⟨by decide +kernel, ?_, settled⟩
  rw [← Bool.not_eq_true, present 0]
  exact fun both => late both.2

end Server

end FzeroVs
