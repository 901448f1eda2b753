import FzeroVs.Client.State
import FzeroVs.Library.Rounding
import Mathlib.Data.Rat.Floor
import Mathlib.Tactic.NormNum

namespace FzeroVs

/-- A difference of two times, `none` where the unsigned subtraction would wrap. -/
def elapsed (later earlier : UInt64) : Option UInt64 :=
  if earlier ≤ later then some (later - earlier) else none

/-- A ratio of two times, `none` for a division by zero. -/
def ratio (a b : UInt64) : Option ℚ := if b = 0 then none else some (a.toNat / b.toNat)

namespace Client

/-- Fifty milliseconds and twice the jitter, at most a hundred, in microseconds. -/
def interpolationDelay (jitter : ℚ) : UInt64 := UInt64.ofNat ⌊max 50 (min 100 (50 + 2 * jitter)) * 1000⌋₊

def blend (fraction : ℚ) (a b : UInt16) : UInt16 :=
  UInt16.ofInt (lround ((a.toNat : ℚ) + ((b.toNat : ℚ) - a.toNat) * fraction))

/-- The way from one orientation to another, around the nearer side. -/
def turn (a b : UInt8) : ℤ :=
  let turn := (b.toNat : ℤ) - a.toNat
  if 127 < turn then turn - 256 else if turn < -128 then turn + 256 else turn

def rotate (fraction : ℚ) (a b : UInt8) : UInt8 :=
  UInt8.ofInt (lround ((a.toNat : ℚ) + (turn a b) * fraction) % 256)

def blendPeer (fraction : ℚ) (a b : Peer) : Peer :=
  { a with
    x := blend fraction a.x b.x
    y := blend fraction a.y b.y
    orientation := rotate fraction a.orientation b.orientation }

/-- The body of the loop for the pair that it stops at. -/
def interpolate (renderTime : UInt64) (before after : Snapshot) : Option (Fin 4 → Peer) := do
  let since ← elapsed renderTime before.time
  let span ← elapsed after.time before.time
  let fraction ← ratio since span
  return fun i => blendPeer fraction (before.peers i) (after.peers i)

/-- The loop over neighbouring entries, and the last entry after it. -/
def search (renderTime : UInt64) (back : Snapshot) : List Snapshot → Option (Fin 4 → Peer)
  | before :: after :: rest =>
    if after.time < renderTime then search renderTime back (after :: rest)
    else interpolate renderTime before after
  | _ => some back.peers

/-- `renderedPeers` of a client with these peers and this snapshot buffer. -/
def renderedPeers (peers : Fin 4 → Peer) (snapshotBuffer : List Snapshot) (delay serverTime : UInt64) :
    Option (Fin 4 → Peer) :=
  match snapshotBuffer with
  | [] => some peers
  | front :: rest =>
    let back := rest.getLastD front
    (if delay < serverTime then elapsed serverTime delay else some 0).bind fun renderTime =>
      if renderTime ≤ front.time then some front.peers
      else if back.time ≤ renderTime then some back.peers
      else search renderTime back (front :: rest)

end Client

theorem elapsed_of_le {later earlier : UInt64} (order : earlier ≤ later) :
    elapsed later earlier = some (later - earlier) := if_pos order

theorem UInt16.toNat_ofInt_of_range {z : ℤ} (low : 0 ≤ z) (high : z < 65536) :
    ((UInt16.ofInt z).toNat : ℤ) = z := by
  rw [UInt16.ofInt, UInt16.toNat_ofNat']
  omega

theorem UInt8.ofInt_emod (z : ℤ) : UInt8.ofInt (z % 256) = UInt8.ofInt z := by
  simp only [UInt8.ofInt]
  congr 1
  omega

theorem UInt8.ofInt_toNat (a : UInt8) : UInt8.ofInt a.toNat = a := by
  have small := a.toNat_lt
  have reduced : ((a.toNat : ℤ) % 2 ^ 8).toNat = a.toNat := by omega
  rw [UInt8.ofInt, reduced, UInt8.ofNat_toNat]

namespace Client

/-- The third value lies between the first two. -/
def Between (a b c : UInt16) : Prop :=
  min a.toNat b.toNat ≤ c.toNat ∧ c.toNat ≤ max a.toNat b.toNat

section
variable {fraction : ℚ} (least : 0 ≤ fraction) (most : fraction ≤ 1)
include least most

/-- The exact value is rounded between the end points, so the conversion does
not wrap. -/
theorem blend_between (a b : UInt16) : Between a b (blend fraction a b) := by
  have smallA := a.toNat_lt
  have smallB := b.toNat_lt
  have step : ((a.toNat : ℚ) + ((b.toNat : ℚ) - a.toNat) * fraction) =
      ((a.toNat : ℤ) : ℚ) + (((b.toNat : ℤ) - a.toNat : ℤ) : ℚ) * fraction := by push_cast; rfl
  rw [blend, step, Between]
  rcases le_total a.toNat b.toNat with up | down
  · have ascent : 0 ≤ (b.toNat : ℤ) - a.toNat := by omega
    obtain ⟨low, high⟩ := lround_up (a := (a.toNat : ℤ)) least most ascent
    generalize lround (((a.toNat : ℤ) : ℚ) + (((b.toNat : ℤ) - a.toNat : ℤ) : ℚ) * fraction) = z at *
    have value := UInt16.toNat_ofInt_of_range (z := z) (by omega) (by omega)
    omega
  · have descent : (b.toNat : ℤ) - a.toNat ≤ 0 := by omega
    obtain ⟨low, high⟩ := lround_down (a := (a.toNat : ℤ)) least most descent
    generalize lround (((a.toNat : ℤ) : ℚ) + (((b.toNat : ℤ) - a.toNat : ℤ) : ℚ) * fraction) = z at *
    have value := UInt16.toNat_ofInt_of_range (z := z) (by omega) (by omega)
    omega

/-- A partial turn of the rendered orientation, in the direction of the whole
one and not beyond it. -/
theorem rotate_arc (a b : UInt8) : ∃ moved : ℤ, rotate fraction a b = UInt8.ofInt (a.toNat + moved) ∧
    (0 ≤ moved ∧ moved ≤ turn a b ∨ turn a b ≤ moved ∧ moved ≤ 0) := by
  refine ⟨lround ((a.toNat : ℚ) + (turn a b) * fraction) - a.toNat, ?_, ?_⟩
  · rw [rotate, UInt8.ofInt_emod, add_sub_cancel]
  · rcases le_total 0 (turn a b) with up | down
    · have bounds := lround_up (a := (a.toNat : ℤ)) least most up
      rw [Int.cast_natCast] at bounds
      omega
    · have bounds := lround_down (a := (a.toNat : ℤ)) least most down
      rw [Int.cast_natCast] at bounds
      omega

end

theorem blend_one (a b : UInt16) : blend 1 a b = b := by
  have small := b.toNat_lt
  have whole : ((a.toNat : ℚ) + ((b.toNat : ℚ) - a.toNat) * 1) = ((b.toNat : ℤ) : ℚ) := by push_cast; ring
  rw [blend, whole, lround_intCast]
  have value := UInt16.toNat_ofInt_of_range (z := b.toNat) (by omega) (by omega)
  exact UInt16.toNat_inj.mp (Int.ofNat_inj.mp value)

/-- The turn is the one of the 256 that is nearest to none. -/
theorem turn_range (a b : UInt8) : -128 ≤ turn a b ∧ turn a b ≤ 127 := by
  have smallA := a.toNat_lt
  have smallB := b.toNat_lt
  simp only [turn]
  split
  · omega
  · split <;> omega

theorem turn_arrives (a b : UInt8) : UInt8.ofInt (a.toNat + turn a b) = b := by
  have congruent : ((a.toNat : ℤ) + turn a b) % 256 = (b.toNat : ℤ) % 256 := by
    simp only [turn]
    split
    · omega
    · split <;> omega
  rw [← UInt8.ofInt_emod, congruent, UInt8.ofInt_emod, UInt8.ofInt_toNat]

theorem rotate_one (a b : UInt8) : rotate 1 a b = b := by
  have whole : ((a.toNat : ℚ) + (turn a b) * 1) = (((a.toNat : ℤ) + turn a b : ℤ) : ℚ) := by push_cast; ring
  rw [rotate, whole, lround_intCast, UInt8.ofInt_emod, turn_arrives]

/-- The peers of a frame between two snapshots. -/
structure OnPath (renderTime : UInt64) (before after : Snapshot) (result : Fin 4 → Peer) : Prop where
  early : before.time < renderTime
  late : renderTime ≤ after.time
  x : ∀ i, Between (before.peers i).x (after.peers i).x (result i).x
  y : ∀ i, Between (before.peers i).y (after.peers i).y (result i).y
  range : ∀ i, -128 ≤ turn (before.peers i).orientation (after.peers i).orientation ∧
    turn (before.peers i).orientation (after.peers i).orientation ≤ 127
  arrives : ∀ i, UInt8.ofInt ((before.peers i).orientation.toNat +
    turn (before.peers i).orientation (after.peers i).orientation) = (after.peers i).orientation
  arc : ∀ i, ∃ moved : ℤ,
    (result i).orientation = UInt8.ofInt ((before.peers i).orientation.toNat + moved) ∧
    (0 ≤ moved ∧ moved ≤ turn (before.peers i).orientation (after.peers i).orientation ∨
      turn (before.peers i).orientation (after.peers i).orientation ≤ moved ∧ moved ≤ 0)
  exact : renderTime = after.time → ∀ i, (result i).x = (after.peers i).x ∧
    (result i).y = (after.peers i).y ∧ (result i).orientation = (after.peers i).orientation
  others : ∀ i, result i = { before.peers i with
    x := (result i).x, y := (result i).y, orientation := (result i).orientation }

theorem interpolate_onPath {renderTime : UInt64} {before after : Snapshot} (early : before.time < renderTime)
    (late : renderTime ≤ after.time) :
    ∃ result, interpolate renderTime before after = some result ∧ OnPath renderTime before after result := by
  have earlyN := UInt64.lt_iff_toNat_lt.mp early
  have lateN := UInt64.le_iff_toNat_le.mp late
  have sinceN : (renderTime - before.time).toNat = renderTime.toNat - before.time.toNat :=
    UInt64.toNat_sub_of_le _ _ (UInt64.le_of_lt early)
  have spanN : (after.time - before.time).toNat = after.time.toNat - before.time.toNat :=
    UInt64.toNat_sub_of_le _ _ (UInt64.le_of_lt (UInt64.lt_of_lt_of_le early late))
  have divisor : after.time - before.time ≠ 0 := by
    intro zero
    rw [zero] at spanN
    change 0 = _ at spanN
    omega
  have positive : (0 : ℚ) < (after.time - before.time).toNat := by
    rw [spanN]
    exact Nat.cast_pos.mpr (by omega)
  have within : ((renderTime - before.time).toNat : ℚ) ≤ (after.time - before.time).toNat := by
    rw [sinceN, spanN]
    exact Nat.cast_le.mpr (by omega)
  generalize share : ((renderTime - before.time).toNat : ℚ) / (after.time - before.time).toNat = fraction
  have least : 0 ≤ fraction := share ▸ div_nonneg (Nat.cast_nonneg _) positive.le
  have most : fraction ≤ 1 := share ▸ (div_le_one positive).mpr within
  refine ⟨fun i => blendPeer fraction (before.peers i) (after.peers i), ?_, ?_⟩
  · rw [interpolate, elapsed_of_le (UInt64.le_of_lt early),
      elapsed_of_le (UInt64.le_of_lt (UInt64.lt_of_lt_of_le early late))]
    simp only [Option.bind_eq_bind, Option.bind_some, ratio, if_neg divisor, share]
    rfl
  · refine
      { early := early
        late := late
        x := fun i => blend_between least most _ _
        y := fun i => blend_between least most _ _
        range := fun i => turn_range _ _
        arrives := fun i => turn_arrives _ _
        arc := fun i => rotate_arc least most _ _
        exact := fun arrived i => ?_
        others := fun i => rfl }
    have whole : fraction = 1 := by
      rw [← share, arrived]
      exact div_self positive.ne'
    simp only [blendPeer, whole]
    exact ⟨blend_one _ _, blend_one _ _, rotate_one _ _⟩

/-- What the frame at `renderTime` shows: a snapshot as it is, or a point
between two neighbours. -/
inductive Rendered (renderTime : UInt64) (snapshotBuffer : List Snapshot) (result : Fin 4 → Peer) : Prop
  | held (s : Snapshot) : s ∈ snapshotBuffer → result = s.peers → Rendered renderTime snapshotBuffer result
  | between (left right : List Snapshot) (before after : Snapshot) :
      snapshotBuffer = left ++ before :: after :: right → OnPath renderTime before after result →
      Rendered renderTime snapshotBuffer result

/-- Whatever the loop has skipped ends before the frame, in any buffer: so the
pair that it stops at encloses it. -/
theorem search_rendered {renderTime : UInt64} {back : Snapshot} {snapshotBuffer left rest : List Snapshot}
    {before : Snapshot} (split : snapshotBuffer = left ++ before :: rest) (last : back ∈ snapshotBuffer)
    (early : before.time < renderTime) :
    ∃ result, search renderTime back (before :: rest) = some result ∧
      Rendered renderTime snapshotBuffer result := by
  induction rest generalizing left before with
  | nil => exact ⟨back.peers, rfl, .held back last rfl⟩
  | cons after right ih =>
    unfold search
    split
    next skipped =>
      have further : snapshotBuffer = (left ++ [before]) ++ after :: right := by
        rw [split, List.append_assoc]
        rfl
      exact ih further skipped
    next stop =>
      obtain ⟨result, found, path⟩ := interpolate_onPath early (UInt64.not_lt.mp stop)
      exact ⟨result, found, .between left right before after split path⟩

/-- The server time that a frame shows. -/
def renderTime (delay serverTime : UInt64) : UInt64 := if delay < serverTime then serverTime - delay else 0

/-- No subtraction of times wraps and nothing is divided by zero, whatever the
buffer; and the peers are those of a snapshot or on the path between two. -/
theorem renderedPeers_on_path (peers : Fin 4 → Peer) (snapshotBuffer : List Snapshot) (delay serverTime : UInt64) :
    ∃ result, renderedPeers peers snapshotBuffer delay serverTime = some result ∧
      (snapshotBuffer = [] ∧ result = peers ∨
        Rendered (renderTime delay serverTime) snapshotBuffer result) := by
  cases snapshotBuffer with
  | nil => exact ⟨peers, rfl, .inl ⟨rfl, rfl⟩⟩
  | cons front rest =>
    have time : (if delay < serverTime then elapsed serverTime delay else some 0) =
        some (renderTime delay serverTime) := by
      unfold renderTime
      split
      next later => exact elapsed_of_le (UInt64.le_of_lt later)
      next => rfl
    have last : rest.getLastD front ∈ front :: rest := List.getLastD_mem_cons
    simp only [renderedPeers, time, Option.bind_some]
    split
    · exact ⟨front.peers, rfl, .inr (.held front List.mem_cons_self rfl)⟩
    next early =>
      split
      · exact ⟨_, rfl, .inr (.held _ last rfl)⟩
      · obtain ⟨result, found, rendered⟩ :=
          search_rendered (List.nil_append (front :: rest)).symm last (UInt64.not_le.mp early)
        exact ⟨result, found, .inr rendered⟩

def sampleBefore : Snapshot where
  time := 1000000
  peers _ := { status := .racing, orientation := 250, x := 100, y := 200 }

def sampleAfter : Snapshot where
  time := 1100000
  peers _ := { status := .racing, orientation := 10, x := 300, y := 400 }

/-- Half way between the two, the orientation across the origin. -/
example : (renderedPeers (fun _ => {}) [sampleBefore, sampleAfter] (interpolationDelay 0) 1100000).map (· 3) =
    some { status := .racing, orientation := 2, x := 200, y := 300 } := by
  decide +kernel

/-- The delay is between fifty and a hundred milliseconds. -/
theorem interpolationDelay_range (jitter : ℚ) :
    50000 ≤ interpolationDelay jitter ∧ interpolationDelay jitter ≤ 100000 := by
  have low : (50 : ℚ) ≤ max 50 (min 100 (50 + 2 * jitter)) := le_max_left _ _
  have high : max 50 (min 100 (50 + 2 * jitter)) ≤ (100 : ℚ) := max_le (by norm_num) (min_le_left _ _)
  generalize clamped : max 50 (min 100 (50 + 2 * jitter)) = delay at *
  have least : 50000 ≤ ⌊delay * 1000⌋₊ := Nat.le_floor (by push_cast; linarith)
  have most : ⌊delay * 1000⌋₊ ≤ 100000 := Nat.floor_le_of_le (by push_cast; linarith)
  have value : (interpolationDelay jitter).toNat = ⌊delay * 1000⌋₊ := by
    rw [interpolationDelay, clamped, UInt64.toNat_ofNat']
    omega
  rw [UInt64.le_iff_toNat_le, UInt64.le_iff_toNat_le, value]
  exact ⟨least, most⟩

end Client

end FzeroVs
