import Mathlib.Data.Nat.Bitwise
import FzeroVs.Library.Serial

namespace FzeroVs

/-- Little-endian reads. A list stands for the pointer to its first byte, so
`p + 2` is `p.drop 2`; a byte past the end reads as the zero padding that every
packet buffer is initialised with. -/
def u16 (p : List UInt8) : UInt16 :=
  (p.getD 0 0).toUInt16 ||| (p.getD 1 0).toUInt16 <<< 8

def u32 (p : List UInt8) : UInt32 := (u16 p).toUInt32 ||| (u16 (p.drop 2)).toUInt32 <<< 16

def u64 (p : List UInt8) : UInt64 := (u32 p).toUInt64 ||| (u32 (p.drop 4)).toUInt64 <<< 32

/-- The bytes that the corresponding writes store, in address order. -/
def put16 (v : UInt16) : List UInt8 := [v.toUInt8, (v >>> 8).toUInt8]

def put32 (v : UInt32) : List UInt8 := put16 v.toUInt16 ++ put16 (v >>> 16).toUInt16

def put64 (v : UInt64) : List UInt8 := put32 v.toUInt32 ++ put32 (v >>> 32).toUInt32

/-- `fz_newer`: wrapping comparison of 32-bit sequence numbers. -/
def newer (a b : UInt32) : Bool := a != b && a - b < 0x80000000

theorem newer_eq_serial (a b : UInt32) : newer a b = Serial.newer a.toBitVec b.toBitVec := by
  rw [Bool.eq_iff_iff, Serial.newer_iff]
  simp only [newer, Bool.and_eq_true, bne_iff_ne, decide_eq_true_eq, ne_eq, UInt32.lt_iff_toNat_lt,
    ← UInt32.toBitVec_inj]
  rfl

@[simp] theorem newer_self (a : UInt32) : newer a a = false := by
  rw [newer_eq_serial, Serial.newer_self]

theorem newer_add_one (a : UInt32) : newer (a + 1) a = true := by
  rw [newer_eq_serial]
  exact Serial.newer_add_one (by decide) a.toBitVec

theorem newer_iff_lt {a b : UInt32} (lowA : a.toNat < 2 ^ 31) (lowB : b.toNat < 2 ^ 31) :
    newer a b = true ↔ b.toNat < a.toNat := by
  rw [newer_eq_serial]
  exact Serial.newer_iff_lt (by decide) lowA lowB

theorem toNat_add_one {n : UInt32} (low : n.toNat < 2 ^ 32 - 1) : (n + 1).toNat = n.toNat + 1 := by
  rw [UInt32.toNat_add]
  exact Nat.mod_eq_of_lt (by change n.toNat + 1 < _; omega)

theorem toNat_add_two {n : UInt32} (low : n.toNat < 2 ^ 32 - 2) : (n + 2).toNat = n.toNat + 2 := by
  rw [UInt32.toNat_add]
  exact Nat.mod_eq_of_lt (by change n.toNat + 2 < _; omega)

theorem newer_zero_iff {a : UInt32} : newer a 0 = true ↔ 0 < a.toNat ∧ a.toNat < 2 ^ 31 := by
  rw [newer_eq_serial]
  exact Serial.newer_zero_iff (by decide)

theorem or_shiftLeft_eq {lo hi k : Nat} (low : lo < 2 ^ k) : lo ||| hi <<< k = lo + 2 ^ k * hi := by
  rw [Nat.or_comm, ← Nat.shiftLeft_add_eq_or_of_lt low, Nat.shiftLeft_eq, Nat.mul_comm, Nat.add_comm]

theorem u16_toNat (p : List UInt8) :
    (u16 p).toNat = (p.getD 0 0).toNat + 2 ^ 8 * (p.getD 1 0).toNat := by
  have low := (p.getD 0 0).toNat_lt
  have high := (p.getD 1 0).toNat_lt
  have fits : (p.getD 1 0).toNat <<< 8 % 2 ^ 16 = (p.getD 1 0).toNat <<< 8 :=
    Nat.mod_eq_of_lt (by rw [Nat.shiftLeft_eq]; omega)
  simp only [u16, UInt16.toNat_or, UInt16.toNat_shiftLeft, UInt8.toNat_toUInt16]
  rw [show UInt16.toNat 8 % 16 = 8 from rfl, fits, or_shiftLeft_eq low]

theorem u32_toNat (p : List UInt8) :
    (u32 p).toNat = (u16 p).toNat + 2 ^ 16 * (u16 (p.drop 2)).toNat := by
  have low := (u16 p).toNat_lt
  have high := (u16 (p.drop 2)).toNat_lt
  have fits : (u16 (p.drop 2)).toNat <<< 16 % 2 ^ 32 = (u16 (p.drop 2)).toNat <<< 16 :=
    Nat.mod_eq_of_lt (by rw [Nat.shiftLeft_eq]; omega)
  simp only [u32, UInt32.toNat_or, UInt32.toNat_shiftLeft, UInt16.toNat_toUInt32]
  rw [show UInt32.toNat 16 % 32 = 16 from rfl, fits, or_shiftLeft_eq low]

theorem u64_toNat (p : List UInt8) :
    (u64 p).toNat = (u32 p).toNat + 2 ^ 32 * (u32 (p.drop 4)).toNat := by
  have low := (u32 p).toNat_lt
  have high := (u32 (p.drop 4)).toNat_lt
  have fits : (u32 (p.drop 4)).toNat <<< 32 % 2 ^ 64 = (u32 (p.drop 4)).toNat <<< 32 :=
    Nat.mod_eq_of_lt (by rw [Nat.shiftLeft_eq]; omega)
  simp only [u64, UInt64.toNat_or, UInt64.toNat_shiftLeft, UInt32.toNat_toUInt64]
  rw [show UInt64.toNat 32 % 64 = 32 from rfl, fits, or_shiftLeft_eq low]

@[simp] theorem put16_length (v : UInt16) : (put16 v).length = 2 := rfl

@[simp] theorem put32_length (v : UInt32) : (put32 v).length = 4 := rfl

@[simp] theorem put64_length (v : UInt64) : (put64 v).length = 8 := rfl

@[simp] theorem drop_put16_append (v : UInt16) (rest : List UInt8) :
    (put16 v ++ rest).drop 2 = rest := rfl

@[simp] theorem drop_put32_append (v : UInt32) (rest : List UInt8) :
    (put32 v ++ rest).drop 4 = rest := rfl

@[simp] theorem drop_put64_append (v : UInt64) (rest : List UInt8) :
    (put64 v ++ rest).drop 8 = rest := rfl

@[simp] theorem u16_put16 (v : UInt16) (rest : List UInt8) : u16 (put16 v ++ rest) = v := by
  have bound := v.toNat_lt
  apply UInt16.toNat.inj
  rw [u16_toNat]
  simp only [put16, List.cons_append, List.nil_append, List.getD_cons_zero, List.getD_cons_succ,
    UInt16.toNat_toUInt8, UInt16.toNat_shiftRight, show UInt16.toNat 8 % 16 = 8 from rfl,
    Nat.shiftRight_eq_div_pow]
  omega

@[simp] theorem u32_put32 (v : UInt32) (rest : List UInt8) : u32 (put32 v ++ rest) = v := by
  have bound := v.toNat_lt
  apply UInt32.toNat.inj
  rw [u32_toNat, put32, List.append_assoc, drop_put16_append, u16_put16, u16_put16]
  simp only [UInt32.toNat_toUInt16, UInt32.toNat_shiftRight, show UInt32.toNat 16 % 32 = 16 from rfl,
    Nat.shiftRight_eq_div_pow]
  omega

@[simp] theorem u64_put64 (v : UInt64) (rest : List UInt8) : u64 (put64 v ++ rest) = v := by
  have bound := v.toNat_lt
  apply UInt64.toNat.inj
  rw [u64_toNat, put64, List.append_assoc, drop_put32_append, u32_put32, u32_put32]
  simp only [UInt64.toNat_toUInt32, UInt64.toNat_shiftRight, show UInt64.toNat 32 % 64 = 32 from rfl,
    Nat.shiftRight_eq_div_pow]
  omega

@[simp] theorem u16_put16_self (v : UInt16) : u16 (put16 v) = v := by
  simpa only [List.append_nil] using u16_put16 v []

@[simp] theorem u64_put64_self (v : UInt64) : u64 (put64 v) = v := by
  simpa only [List.append_nil] using u64_put64 v []

/-- Writing back what was read: the bytes are the only ones with that value. -/
theorem put16_u16 {p : List UInt8} (long : 2 ≤ p.length) : put16 (u16 p) = p.take 2 := by
  match p, long with
  | a :: b :: rest, _ =>
    have low := a.toNat_lt
    have high := b.toNat_lt
    have value := u16_toNat (a :: b :: rest)
    simp only [List.getD_cons_zero, List.getD_cons_succ] at value
    have first : (u16 (a :: b :: rest)).toUInt8 = a := by
      apply UInt8.toNat.inj
      rw [UInt16.toNat_toUInt8, value]
      omega
    have second : (u16 (a :: b :: rest) >>> 8).toUInt8 = b := by
      apply UInt8.toNat.inj
      rw [UInt16.toNat_toUInt8, UInt16.toNat_shiftRight, value, show UInt16.toNat 8 % 16 = 8 from rfl,
        Nat.shiftRight_eq_div_pow]
      omega
    simp only [put16, first, second, List.take_succ_cons, List.take_zero]

theorem put32_u32 {p : List UInt8} (long : 4 ≤ p.length) : put32 (u32 p) = p.take 4 := by
  have value := u32_toNat p
  have low := (u16 p).toNat_lt
  have high := (u16 (p.drop 2)).toNat_lt
  have first : (u32 p).toUInt16 = u16 p := by
    apply UInt16.toNat.inj
    rw [UInt32.toNat_toUInt16, value]
    omega
  have second : (u32 p >>> 16).toUInt16 = u16 (p.drop 2) := by
    apply UInt16.toNat.inj
    rw [UInt32.toNat_toUInt16, UInt32.toNat_shiftRight, value, show UInt32.toNat 16 % 32 = 16 from rfl,
      Nat.shiftRight_eq_div_pow]
    omega
  rw [put32, first, second, put16_u16 (by omega), put16_u16 (by rw [List.length_drop]; omega)]
  exact List.take_add.symm

theorem put64_u64 {p : List UInt8} (long : 8 ≤ p.length) : put64 (u64 p) = p.take 8 := by
  have value := u64_toNat p
  have low := (u32 p).toNat_lt
  have high := (u32 (p.drop 4)).toNat_lt
  have first : (u64 p).toUInt32 = u32 p := by
    apply UInt32.toNat.inj
    rw [UInt64.toNat_toUInt32, value]
    omega
  have second : (u64 p >>> 32).toUInt32 = u32 (p.drop 4) := by
    apply UInt32.toNat.inj
    rw [UInt64.toNat_toUInt32, UInt64.toNat_shiftRight, value, show UInt64.toNat 32 % 64 = 32 from rfl,
      Nat.shiftRight_eq_div_pow]
    omega
  rw [put64, first, second, put32_u32 (by omega), put32_u32 (by rw [List.length_drop]; omega)]
  exact List.take_add.symm

end FzeroVs
