import FzeroVs.Sidecar.Labels
import Std.Data.String.ToNat
import Mathlib.Data.List.Nodup

namespace FzeroVs.Sidecar.Service

open Bridge

/-- The last snapshot that was captured under a name. -/
def lastNamed (s : Service) (name : String) : Option Snapshot := s.snapshots.reverse.find? fun x => x.name == some name

/-- `memory_diff` of this handle compares with this snapshot. -/
def Uses (s : Service) (handle : String) (x : Snapshot) : Prop :=
  ∀ maxChanges, 1 ≤ maxChanges → maxChanges ≤ 65536 →
    s.memoryDiff handle maxChanges = { s with tasks := s.tasks ++ [.checking x maxChanges] }

/-- What a call captures when its second request is answered. -/
def captured (s : Service) (domain : Bytes) (address : Nat) (name : Option String) (data readFrom : Bytes) : Snapshot :=
  ⟨"snapshot-" ++ toString s.nextSnapshotId, name, domain, address, data, s.bridge.romSha256, readFrom⟩

/-- The snapshots are numbered in order, and each name leads to the last of its
own. -/
structure Stored (s : Service) : Prop where
  next : s.nextSnapshotId = s.snapshots.length + 1
  ids : s.snapshots.map Snapshot.snapshotId =
    (List.range s.snapshots.length).map fun k => "snapshot-" ++ toString (k + 1)
  names : ∀ name, s.snapshotNames.lookup name = (s.lastNamed name).map Snapshot.snapshotId

/-- The registry of one service is that of another. -/
structure Kept (s t : Service) : Prop where
  snapshots : t.snapshots = s.snapshots
  names : t.snapshotNames = s.snapshotNames
  next : t.nextSnapshotId = s.nextSnapshotId

theorem Stored.kept {s t : Service} (stored : Stored s) (kept : Kept s t) : Stored t where
  next := by rw [kept.next, kept.snapshots, stored.next]
  ids := by rw [kept.snapshots, stored.ids]
  names := by
    intro name
    rw [kept.names, lastNamed, kept.snapshots, stored.names]
    rfl

/-- Only the second answer of `memory_snapshot` touches the registry. -/
theorem step_stores (s : Service) (e : Event) :
    Kept s (s.step e) ∨
      ∃ i domain address name data readFrom, e = .answered i ∧
        s.tasks[i]? = some (.identifying domain address name data readFrom) := by
  cases e with
  | bridge e => exact .inl ⟨rfl, rfl, rfl⟩
  | memorySnapshot domain address size name =>
    left
    simp only [step, memorySnapshot]
    split <;> exact ⟨rfl, rfl, rfl⟩
  | memoryDiff snapshotId maxChanges =>
    left
    simp only [step, memoryDiff]
    split
    · split <;> exact ⟨rfl, rfl, rfl⟩
    · exact ⟨rfl, rfl, rfl⟩
  | lost i => exact .inl ⟨rfl, rfl, rfl⟩
  | cancelled i => exact .inl ⟨rfl, rfl, rfl⟩
  | answered i =>
    simp only [step]
    cases task : s.tasks[i]? with
    | none => exact .inl ⟨rfl, rfl, rfl⟩
    | some t =>
      cases t with
      | identifying domain address name data readFrom =>
        exact .inr ⟨i, domain, address, name, data, readFrom, rfl, task⟩
      | reading domain address size name =>
        left
        simp only [answer]
        split <;> exact ⟨rfl, rfl, rfl⟩
      | checking snapshot maxChanges =>
        left
        simp only [answer]
        split <;> exact ⟨rfl, rfl, rfl⟩
      | rereading snapshot maxChanges checked =>
        left
        simp only [answer]
        split <;> exact ⟨rfl, rfl, rfl⟩

section Capture
variable {s : Service} {i address : Nat} {domain data readFrom : Bytes} {name : Option String}

theorem step_captures (task : s.tasks[i]? = some (.identifying domain address name data readFrom)) :
    s.step (.answered i) =
      { s.store domain address name data readFrom s.bridge.romSha256 with tasks := s.tasks.eraseIdx i } := by
  simp only [step, task, answer]

theorem captured_snapshots (task : s.tasks[i]? = some (.identifying domain address name data readFrom)) :
    (s.step (.answered i)).snapshots = s.snapshots ++ [s.captured domain address name data readFrom] := by
  rw [step_captures task]
  rfl

theorem lastNamed_append {t : Service} {x : Snapshot} (appended : t.snapshots = s.snapshots ++ [x]) (handle : String) :
    t.lastNamed handle = if x.name = some handle then some x else s.lastNamed handle := by
  rw [lastNamed, appended, List.reverse_append, List.reverse_singleton, List.singleton_append, List.find?_cons]
  by_cases own : x.name = some handle
  · rw [if_pos own, own]
    simp
  · rw [if_neg own, beq_false_of_ne own]
    rfl

theorem Stored.capture (stored : Stored s)
    (task : s.tasks[i]? = some (.identifying domain address name data readFrom)) :
    Stored (s.step (.answered i)) where
  next := by
    rw [captured_snapshots task, List.length_append, step_captures task]
    exact congrArg (· + 1) stored.next
  ids := by
    rw [captured_snapshots task, List.map_append, List.length_append, List.length_singleton, List.range_succ,
      List.map_append, stored.ids, List.map_singleton, List.map_singleton, captured, stored.next]
  names := by
    intro handle
    have last := lastNamed_append (captured_snapshots task) handle
    have names : (s.step (.answered i)).snapshotNames =
        (name.map fun name => (name, "snapshot-" ++ toString s.nextSnapshotId)).toList ++ s.snapshotNames := by
      rw [step_captures task]
      rfl
    rw [last, names]
    cases name with
    | none => exact stored.names handle
    | some own =>
      show List.lookup handle ((own, _) :: s.snapshotNames) = _
      rw [List.lookup_cons]
      by_cases same : own = handle
      · subst same
        simp [captured]
      · have other : (handle == own) = false := beq_false_of_ne (Ne.symm same)
        have unnamed : ¬ (s.captured domain address (some own) data readFrom).name = some handle := fun named =>
          same (Option.some.inj named)
        rw [other, if_neg unnamed]
        exact stored.names handle

end Capture

theorem Stored.step {s : Service} (stored : Stored s) (e : Event) : Stored (s.step e) := by
  rcases s.step_stores e with kept | ⟨i, domain, address, name, data, readFrom, rfl, task⟩
  · exact stored.kept kept
  · exact stored.capture task

theorem reachable_stored {s : Service} (reach : system.Reachable s) : Stored s := by
  refine reach.invariant ?_ fun _ e _ _ _ stored => stored.step e
  rintro _ ⟨machine, rfl⟩
  exact ⟨rfl, rfl, fun _ => rfl⟩

/-- What is stored stays, and stays what it is. -/
theorem snapshots_grow (s : Service) (events : List Event) :
    s.snapshots <+: (events.foldl Service.step s).snapshots := by
  refine List.foldlRecOn (motive := fun t => s.snapshots <+: t.snapshots) events Service.step
    (List.prefix_refl _) fun t grown e _ => ?_
  have more : t.snapshots <+: (t.step e).snapshots := by
    rcases t.step_stores e with kept | ⟨i, domain, address, name, data, readFrom, rfl, task⟩
    · exact kept.snapshots ▸ List.prefix_refl _
    · rw [captured_snapshots task]
      exact List.prefix_append ..
  exact grown.trans more

namespace Stored
variable {s : Service} {x y : Snapshot}

theorem distinct (stored : Stored s) : (s.snapshots.map Snapshot.snapshotId).Nodup := by
  rw [stored.ids]
  refine List.nodup_range.map fun j k same => ?_
  have number := (String.append_right_inj "snapshot-").mp same
  exact Nat.succ.inj (Nat.repr_injective number)

/-- An id finds its snapshot. -/
theorem find (stored : Stored s) (member : x ∈ s.snapshots) :
    s.snapshots.find? (fun y => y.snapshotId == x.snapshotId) = some x := by
  cases found : s.snapshots.find? fun y => y.snapshotId == x.snapshotId with
  | none =>
    have absent := List.find?_eq_none.mp found x member
    exact absurd (beq_self_eq_true _) absent
  | some y =>
    have same : y.snapshotId = x.snapshotId := by simpa using List.find?_some found
    rw [List.inj_on_of_nodup_map stored.distinct (List.mem_of_find?_eq_some found) member same]

theorem uses_of_resolved {handle : String} (stored : Stored s) (member : x ∈ s.snapshots)
    (resolved : (s.snapshotNames.lookup handle).getD handle = x.snapshotId) : s.Uses handle x := by
  intro maxChanges atLeast atMost
  simp only [memoryDiff, resolved, stored.find member, if_pos (And.intro atLeast atMost)]

theorem uses_named {handle : String} (stored : Stored s) (last : s.lastNamed handle = some y) : s.Uses handle y := by
  have member : y ∈ s.snapshots := List.mem_reverse.mp (List.mem_of_find?_eq_some last)
  apply stored.uses_of_resolved member
  rw [stored.names, last]
  rfl

theorem uses_id (stored : Stored s) (member : x ∈ s.snapshots) (unnamed : s.lastNamed x.snapshotId = none) :
    s.Uses x.snapshotId x := by
  apply stored.uses_of_resolved member
  rw [stored.names, unnamed]
  rfl

theorem uses_unique {handle : String} (first : s.Uses handle x) (second : s.Uses handle y) : x = y := by
  have same := (first 1 (by decide) (by decide)).symm.trans (second 1 (by decide) (by decide))
  have tasks := List.append_cancel_left (congrArg Service.tasks same)
  exact (Task.checking.inj (List.cons.inj tasks).1).1

/-- The id of a snapshot leads to it exactly if as a name it leads nowhere else. -/
theorem uses_id_iff (stored : Stored s) (member : x ∈ s.snapshots) :
    s.Uses x.snapshotId x ↔ ∀ y, s.lastNamed x.snapshotId = some y → y = x := by
  constructor
  · intro used y last
    exact uses_unique (stored.uses_named last) used
  · intro own
    cases last : s.lastNamed x.snapshotId with
    | none => exact stored.uses_id member last
    | some y =>
      have used := stored.uses_named last
      rwa [own y last] at used

end Stored

/-- With which snapshot a call compares, and how many changes it reports. -/
def comparison : Task → Option (Snapshot × Nat)
  | .checking snapshot maxChanges | .rereading snapshot maxChanges _ => some (snapshot, maxChanges)
  | .reading .. | .identifying .. => none

/-- A call that compares with a snapshot is answered: it goes on with it, it
fails, or it returns how live memory differs from the data of that snapshot. -/
def Compared (s : Service) (i : Nat) (x : Snapshot) (maxChanges : Nat) : Prop :=
  (∃ u, comparison u = some (x, maxChanges) ∧ s.step (.answered i) = { s with tasks := s.tasks.set i u }) ∨
    (∃ f, s.step (.answered i) = { s with tasks := s.tasks.eraseIdx i, raised := s.raised ++ [f] }) ∨
    ∃ current, readRegion s.bridge x.domain x.address x.data.length = .ok current ∧
      s.step (.answered i) =
        { s with
          tasks := s.tasks.eraseIdx i
          results := s.results ++ [compare x maxChanges current s.bridge.romSha256] }

theorem compared_of_task {s : Service} {i maxChanges : Nat} {t : Task} {x : Snapshot} (task : s.tasks[i]? = some t)
    (compares : comparison t = some (x, maxChanges)) : Compared s i x maxChanges := by
  simp only [Compared, step, task]
  cases t with
  | reading domain address size name => cases compares
  | identifying domain address name data readFrom => cases compares
  | checking snapshot bound =>
    obtain ⟨rfl, rfl⟩ := Prod.mk.inj (Option.some.inj compares)
    simp only [answer]
    split
    · exact .inr (.inl ⟨_, rfl⟩)
    · exact .inl ⟨.rereading snapshot bound s.bridge.romSha256, rfl, rfl⟩
  | rereading snapshot bound checked =>
    obtain ⟨rfl, rfl⟩ := Prod.mk.inj (Option.some.inj compares)
    simp only [answer]
    split
    · rename_i current read
      exact .inr (.inr ⟨current, read, rfl⟩)
    · exact .inr (.inl ⟨_, rfl⟩)

/-- The answer to this call makes it return a snapshot. -/
def Captures (s : Service) (i : Nat) (x : Snapshot) : Prop :=
  ∃ domain address name data readFrom, s.tasks[i]? = some (.identifying domain address name data readFrom) ∧
    x = s.captured domain address name data readFrom

theorem stored_run {s : Service} (stored : Stored s) (events : List Event) : Stored (events.foldl Service.step s) :=
  List.foldlRecOn events Service.step stored fun _ stored e _ => stored.step e

/-- The id that a call returned leads, at any later time, to what that call
captured, exactly if as a name it leads to nothing else. A name that is no id
leads to the last snapshot of that name. -/
theorem snapshot_handles {s : Service} (reach : system.Reachable s) :
    (∀ i x, Captures s i x → ∀ events : List Event,
      ((events.foldl Service.step (s.step (.answered i))).Uses x.snapshotId x ↔
        ∀ y, (events.foldl Service.step (s.step (.answered i))).lastNamed x.snapshotId = some y → y = x)) ∧
      (∀ name y, lastNamed s name = some y → (∀ x ∈ s.snapshots, x.snapshotId ≠ name) → Uses s name y) ∧
      ∀ i t x maxChanges, s.tasks[i]? = some t → comparison t = some (x, maxChanges) → s.Compared i x maxChanges := by
  refine ⟨?_, ?_, fun i t x maxChanges task compares => compared_of_task task compares⟩
  · rintro i x ⟨domain, address, name, data, readFrom, task, rfl⟩ events
    have stored := stored_run ((reachable_stored reach).capture task) events
    have now : s.captured domain address name data readFrom ∈ (s.step (.answered i)).snapshots := by
      rw [captured_snapshots task]
      exact List.mem_append_right _ (List.mem_singleton_self _)
    exact stored.uses_id_iff ((snapshots_grow (s.step (.answered i)) events).subset now)
  · intro name y last _
    exact (reachable_stored reach).uses_named last

/-! A snapshot with a name of its own, and a second one that is named as the first
is numbered. -/

def sampleFirst : List Event :=
  [.bridge (.gameLoaded true sampleGame), .memorySnapshot (ascii "rom") 0 4 (some "before"), .answered 0]

def sampleSecond : List Event := [.memorySnapshot (ascii "rom") 4 4 (some "snapshot-1"), .answered 0, .answered 0]

def sampleCaptured : Snapshot :=
  ⟨"snapshot-1", some "before", ascii "rom", 0, [0, 1, 2, 3], sampleDigest.text, sampleDigest.text⟩

theorem sampleFirst_reachable : system.Reachable (sampleService sampleFirst) := by
  have admits : system.Admits Steady { bridge := { machine := sampleMachine } } sampleFirst := by decide +kernel
  exact (sampleService_reachable sampleFirst admits).reachable

theorem sampleFirst_captures : Captures (sampleService sampleFirst) 0 sampleCaptured :=
  ⟨ascii "rom", 0, some "before", [0, 1, 2, 3], sampleDigest.text, by decide +kernel, by decide +kernel⟩

theorem sampleFirst_used :
    Uses ((sampleService sampleFirst).step (.answered 0)) "snapshot-1" sampleCaptured ∧
      Uses ((sampleService sampleFirst).step (.answered 0)) "before" sampleCaptured ∧
      Compared (((sampleService sampleFirst).step (.answered 0)).memoryDiff "before" 16) 0 sampleCaptured 16 := by
  have reach := sampleFirst_reachable.next (.answered 0) (by decide +kernel) trivial
  have compares := reach.next (.memoryDiff "before" 16) (by decide +kernel) trivial
  obtain ⟨ids, _, _⟩ := snapshot_handles sampleFirst_reachable
  obtain ⟨_, names, _⟩ := snapshot_handles reach
  obtain ⟨_, _, compared⟩ := snapshot_handles compares
  refine ⟨(ids 0 sampleCaptured sampleFirst_captures []).mpr ?_, ?_, ?_⟩
  · have unnamed : lastNamed ((sampleService sampleFirst).step (.answered 0)) "snapshot-1" = none := by decide +kernel
    exact fun y last => nomatch unnamed.symm.trans last
  · exact names "before" sampleCaptured (by decide +kernel) (by decide +kernel)
  · exact compared 0 (.checking sampleCaptured 16) sampleCaptured 16 (by decide +kernel) rfl

/-- After the second snapshot the id of the first leads to the second. -/
theorem sampleSecond_misleads :
    system.Reachable (sampleService sampleFirst) ∧ Captures (sampleService sampleFirst) 0 sampleCaptured ∧
      ¬ Uses (sampleSecond.foldl Service.step ((sampleService sampleFirst).step (.answered 0)))
        sampleCaptured.snapshotId sampleCaptured := by
  refine ⟨sampleFirst_reachable, sampleFirst_captures, fun used => ?_⟩
  let later := sampleSecond.foldl Service.step ((sampleService sampleFirst).step (.answered 0))
  have other : (later.memoryDiff sampleCaptured.snapshotId 1).tasks ≠ later.tasks ++ [.checking sampleCaptured 1] := by
    decide +kernel
  exact other (congrArg Service.tasks (used 1 (by decide) (by decide)))

end FzeroVs.Sidecar.Service
