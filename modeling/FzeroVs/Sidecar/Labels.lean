import FzeroVs.Sidecar.Service
import FzeroVs.Bridge.Patches

namespace FzeroVs.Sidecar

open Bridge

/-- Every label tells from which ROM the bytes came. -/
structure Labelled (s : Service) : Prop where
  snapshots : ∀ x ∈ s.snapshots, x.romSha256 = x.readFrom
  results : ∀ r ∈ s.results, r.readFrom = r.snapshot.romSha256

/-- When the second request of a call is answered, the ROM is the one of its
first. A region that the bridge refuses to read again can be under any ROM. -/
def SteadyFor (s : Service) : Task → Prop
  | .identifying _ _ _ _ readFrom => s.bridge.romSha256 = readFrom
  | .rereading snapshot _ checked =>
    (readRegion s.bridge snapshot.domain snapshot.address snapshot.data.length).isOk = true →
      s.bridge.romSha256 = checked
  | .reading .. | .checking .. => True

def Steady (s : Service) : Service.Event → Prop
  | .answered i => ∀ t ∈ s.tasks[i]?, SteadyFor s t
  | .bridge _ | .memorySnapshot .. | .memoryDiff .. | .lost _ | .cancelled _ => True

instance SteadyFor.decidable (s : Service) : (t : Task) → Decidable (SteadyFor s t)
  | .identifying _ _ _ _ readFrom => inferInstanceAs (Decidable (s.bridge.romSha256 = readFrom))
  | .rereading snapshot _ checked =>
    inferInstanceAs (Decidable
      ((readRegion s.bridge snapshot.domain snapshot.address snapshot.data.length).isOk = true →
        s.bridge.romSha256 = checked))
  | .reading .. | .checking .. => inferInstanceAs (Decidable True)

instance Steady.decidable (s : Service) : (e : Service.Event) → Decidable (Steady s e)
  | .answered i => inferInstanceAs (Decidable (∀ t ∈ s.tasks[i]?, SteadyFor s t))
  | .bridge _ | .memorySnapshot .. | .memoryDiff .. | .lost _ | .cancelled _ => inferInstanceAs (Decidable True)

/-- A call that reads again has seen the ROM of its snapshot. -/
def Checked (s : Service) : Prop :=
  ∀ snapshot maxChanges checked, Task.rereading snapshot maxChanges checked ∈ s.tasks → checked = snapshot.romSha256

theorem Checked.mono {s t : Service} (checked : Checked s) (fewer : ∀ x ∈ t.tasks, x ∈ s.tasks) : Checked t :=
  fun snapshot maxChanges seen member => checked snapshot maxChanges seen (fewer _ member)

theorem Checked.answer {s : Service} (checked : Checked s) (i : Nat) (t : Task) : Checked (s.answer i t) := by
  have left : ∀ x ∈ s.tasks.eraseIdx i, x ∈ s.tasks := fun x member => List.mem_of_mem_eraseIdx member
  cases t with
  | reading domain address size name =>
    simp only [Service.answer]
    split
    · intro snapshot maxChanges seen member
      rcases List.mem_or_eq_of_mem_set member with old | new
      · exact checked snapshot maxChanges seen old
      · exact nomatch new
    · exact checked.mono left
  | identifying domain address name data readFrom => exact checked.mono left
  | checking snapshot maxChanges =>
    simp only [Service.answer]
    split
    · exact checked.mono left
    · rename_i same
      intro other bound seen member
      rcases List.mem_or_eq_of_mem_set member with old | new
      · exact checked other bound seen old
      · cases new
        exact not_not.mp same
  | rereading snapshot maxChanges seen =>
    simp only [Service.answer]
    split <;> exact checked.mono left

theorem Checked.step {s : Service} (checked : Checked s) (e : Service.Event) : Checked (s.step e) := by
  cases e with
  | bridge e => exact checked
  | memorySnapshot domain address size name =>
    simp only [Service.step, Service.memorySnapshot]
    split
    · intro snapshot maxChanges seen member
      rcases List.mem_append.mp member with old | new
      · exact checked snapshot maxChanges seen old
      · exact nomatch List.mem_singleton.mp new
    · exact checked
  | memoryDiff snapshotId maxChanges =>
    simp only [Service.step, Service.memoryDiff]
    split
    · split
      · intro snapshot bound seen member
        rcases List.mem_append.mp member with old | new
        · exact checked snapshot bound seen old
        · exact nomatch List.mem_singleton.mp new
      · exact checked
    · exact checked
  | answered i =>
    cases task : s.tasks[i]? with
    | none => simpa only [Service.step, task] using checked
    | some t => simpa only [Service.step, task] using checked.answer i t
  | lost i => exact checked.mono fun x member => List.mem_of_mem_eraseIdx member
  | cancelled i => exact checked.mono fun x member => List.mem_of_mem_eraseIdx member

theorem Labelled.same {s t : Service} (labelled : Labelled s) (snapshots : t.snapshots = s.snapshots)
    (results : t.results = s.results) : Labelled t := ⟨snapshots ▸ labelled.snapshots, results ▸ labelled.results⟩

def sampleService (events : List Service.Event) : Service :=
  events.foldl Service.step { bridge := { machine := sampleMachine } }

theorem sampleService_reachable (events : List Service.Event)
    (admits : Service.system.Admits Steady { bridge := { machine := sampleMachine } } events) :
    Service.system.Reach Steady (sampleService events) := by
  have started : Service.system.Reach Steady { bridge := { machine := sampleMachine } } := .start ⟨sampleMachine, rfl⟩
  exact started.run admits

end FzeroVs.Sidecar
