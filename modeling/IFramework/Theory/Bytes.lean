import Mathlib.Data.List.Basic
import Mathlib.Data.List.Induction
import Mathlib.Data.Nat.Digits.Defs
import Mathlib.Data.Nat.Size

/-!
# Integers as bytes

A list of bytes, the least significant one first, stands for a natural number (`value`) and, when
its last bit is read as a sign, for an integer in two's complement (`toInt`). `ofInt` is the
shortest list of bytes for an integer.
-/

namespace Bytes

/-! ## Numbers without a sign -/

/-- The number that the bytes stand for. -/
def value (bs : List UInt8) : ℕ := Nat.ofDigits 256 (bs.map UInt8.toNat)

theorem value_append (bs cs : List UInt8) :
    value (bs ++ cs) = value bs + 256 ^ bs.length * value cs := by
  simp [value, Nat.ofDigits_append]

@[simp] theorem value_append_zeros (bs : List UInt8) (k : ℕ) :
    value (bs ++ List.replicate k 0) = value bs := by
  simp [value]

theorem toNat_lt_of_mem {bs : List UInt8} : ∀ n ∈ bs.map UInt8.toNat, n < 256 := by
  intro n hn
  obtain ⟨b, -, rfl⟩ := List.mem_map.1 hn
  exact b.toNat_lt

theorem value_lt (bs : List UInt8) : value bs < 256 ^ bs.length := by
  have hbytes : ∀ n ∈ bs.map UInt8.toNat, n < 256 := toNat_lt_of_mem
  have hlt := Nat.ofDigits_lt_base_pow_length (b := 256) (by decide) hbytes
  rwa [List.length_map] at hlt

/-- Bytes of one length that stand for one number are the same. -/
theorem eq_of_value_eq {bs cs : List UInt8} (hlen : bs.length = cs.length)
    (hval : value bs = value cs) : bs = cs := by
  have hmap : bs.map UInt8.toNat = cs.map UInt8.toNat := by
    apply Nat.ofDigits_inj_of_len_eq (b := 256) (by decide)
    · simpa using hlen
    · exact toNat_lt_of_mem
    · exact toNat_lt_of_mem
    · exact hval
  exact List.map_injective_iff.2 (fun _ _ => UInt8.toNat_inj.1) hmap

/-- The last `k` bytes of a number, the least significant one first. -/
def ofNat : ℕ → ℕ → List UInt8
  | 0, _ => []
  | k + 1, n => UInt8.ofNat n :: ofNat k (n / 256)

@[simp] theorem length_ofNat (k n : ℕ) : (ofNat k n).length = k := by
  induction k generalizing n with
  | zero => rfl
  | succ k ih => simp [ofNat, ih]

theorem value_ofNat (k n : ℕ) : value (ofNat k n) = n % 256 ^ k := by
  induction k generalizing n with
  | zero => simp [ofNat, value, Nat.mod_one]
  | succ k ih =>
    have hcons : value (ofNat (k + 1) n) = n % 256 + 256 * value (ofNat k (n / 256)) := by
      simp [ofNat, value, Nat.ofDigits_cons]
    rw [hcons, ih, pow_succ', Nat.mod_mul]

/-! ## Two's complement -/

/-- The most significant bit of the last byte. -/
def signBit (bs : List UInt8) : Bool := bs.getLast?.any fun b => b &&& 0x80 == 0x80

theorem and_0x80_eq_iff (b : UInt8) : b &&& 0x80 = 0x80 ↔ 128 ≤ b.toNat := by
  have hall : ∀ n : Fin 256, UInt8.ofNat n.val &&& 0x80 = 0x80 ↔ 128 ≤ n.val := by
    decide +kernel
  have hb := hall ⟨b.toNat, b.toNat_lt⟩
  simpa using hb

/-- The sign bit is set in the upper half of the numbers that fit. -/
theorem signBit_iff (bs : List UInt8) : signBit bs = true ↔ 256 ^ bs.length ≤ 2 * value bs := by
  induction bs using List.reverseRecOn with
  | nil => simp [signBit, value]
  | append_singleton bs b _ =>
    have hval : value (bs ++ [b]) = value bs + 256 ^ bs.length * b.toNat := by
      rw [value_append]
      simp [value]
    have hlt := value_lt bs
    have hbit : signBit (bs ++ [b]) = true ↔ 128 ≤ b.toNat := by
      simp [signBit, and_0x80_eq_iff]
    rw [hbit, hval, List.length_append, List.length_singleton, pow_succ]
    generalize 256 ^ bs.length = p at hlt ⊢
    constructor
    · intro hb
      have := Nat.mul_le_mul_left p hb
      omega
    · intro hle
      by_contra hb
      have := Nat.mul_le_mul_left p (Nat.le_of_lt_succ (Nat.not_le.1 hb))
      omega

/-- The integer that the bytes stand for. -/
def toInt (bs : List UInt8) : ℤ :=
  if signBit bs then value bs - 256 ^ bs.length else value bs

/-- As many bytes as the magnitude and a sign bit need. -/
def byteCount : ℤ → ℕ
  | .ofNat n => n.size / 8 + 1
  | .negSucc n => n.size / 8 + 1

/-- The shortest bytes that stand for an integer. -/
def ofInt (v : ℤ) : List UInt8 := ofNat (byteCount v) (v % (256 ^ byteCount v : ℕ)).toNat

theorem two_mul_le_of_size (n : ℕ) : 2 * (n + 1) ≤ 256 ^ (n.size / 8 + 1) := by
  calc
    2 * (n + 1) ≤ 2 * 2 ^ n.size := Nat.mul_le_mul_left 2 (Nat.lt_size_self n)
    _ = 2 ^ (n.size + 1) := (pow_succ' 2 n.size).symm
    _ ≤ 2 ^ (8 * (n.size / 8 + 1)) := Nat.pow_le_pow_right (by decide) (by omega)
    _ = 256 ^ (n.size / 8 + 1) := pow_mul 2 8 _

theorem byteCount_spec (v : ℤ) :
    -(256 ^ byteCount v : ℕ) ≤ 2 * v ∧ 2 * v < (256 ^ byteCount v : ℕ) := by
  cases v with
  | ofNat n =>
    have hfit := two_mul_le_of_size n
    simp only [byteCount, Int.ofNat_eq_natCast]
    omega
  | negSucc n =>
    have hfit := two_mul_le_of_size n
    simp only [byteCount]
    omega

@[simp] theorem length_ofInt (v : ℤ) : (ofInt v).length = byteCount v := length_ofNat _ _

theorem value_ofInt (v : ℤ) : (value (ofInt v) : ℤ) = v % (256 ^ byteCount v : ℕ) := by
  have hnonneg : 0 ≤ v % (256 ^ byteCount v : ℕ) := Int.emod_nonneg v (by positivity)
  have hlt : v % (256 ^ byteCount v : ℕ) < (256 ^ byteCount v : ℕ) :=
    Int.emod_lt_of_pos v (by positivity)
  rw [ofInt, value_ofNat, Nat.mod_eq_of_lt (by omega)]
  exact Int.toNat_of_nonneg hnonneg

theorem toInt_ofInt (v : ℤ) : toInt (ofInt v) = v := by
  obtain ⟨hlow, hhigh⟩ := byteCount_spec v
  have hval := value_ofInt v
  have hsign := signBit_iff (ofInt v)
  rw [length_ofInt] at hsign
  have hpow : ((256 ^ byteCount v : ℕ) : ℤ) = 256 ^ byteCount v := by push_cast; rfl
  by_cases hneg : v < 0
  · have hmod : v % (256 ^ byteCount v : ℕ) = v + (256 ^ byteCount v : ℕ) := by
      rw [← Int.add_emod_right]
      exact Int.emod_eq_of_lt (by omega) (by omega)
    have hset : signBit (ofInt v) = true := hsign.2 (by omega)
    rw [toInt, if_pos hset, length_ofInt]
    omega
  · have hmod : v % (256 ^ byteCount v : ℕ) = v := Int.emod_eq_of_lt (by omega) (by omega)
    have hclear : signBit (ofInt v) ≠ true := fun hset => by
      have := hsign.1 hset
      omega
    rw [toInt, if_neg hclear]
    omega

theorem toInt_of_signBit {bs : List UInt8} (h : signBit bs = false) : toInt bs = value bs := by
  simp [toInt, h]

/-- The bytes of an integer that is not negative, read without a sign. -/
theorem value_ofInt_natCast (n : ℕ) : value (ofInt n) = n := by
  have hround := toInt_ofInt n
  have hlt : (value (ofInt n) : ℤ) < 256 ^ (ofInt n).length := by exact_mod_cast value_lt _
  unfold toInt at hround
  split at hround <;> omega

end Bytes
