import Mathlib.Data.Nat.Bitwise

/-!
# Integers of 32 bits as four bytes

The integers are those of a language with signed shifts, casts that narrow and sums that wrap. All
of these are arithmetic on the number that the same bits give without a sign (`unsigned`): a shift
to the right and a narrowing to a byte pick one digit in base 256, shifts to the left and a sum put
the digits together again.
-/

namespace Int32Bytes

/-- The number of the 32 bits without a sign. -/
def unsigned (i : Int32) : ℕ := i.toUInt32.toNat

/-- The last byte. -/
def byte (i : Int32) : UInt8 := i.toUInt32.toUInt8

/-- A byte as an integer. -/
def ofByte (b : UInt8) : Int32 := b.toUInt32.toInt32

theorem unsigned_lt (i : Int32) : unsigned i < 2 ^ 32 := i.toUInt32.toNat_lt

theorem eq_of_unsigned_eq {i j : Int32} (h : unsigned i = unsigned j) : i = j := by
  apply Int32.toBitVec_inj.1
  exact BitVec.eq_of_toNat_eq h

/-- A cut out of the bits does not see which bits a shift fills in. -/
theorem toNat_setWidth_sshiftRight {n m k : ℕ} (h : k + m ≤ n) (w : BitVec n) :
    ((w.sshiftRight k).setWidth m).toNat = w.toNat / 2 ^ k % 2 ^ m := by
  have hcut : (w.sshiftRight k).setWidth m = w.extractLsb' k m := by
    ext i hi
    have hin : k + i < n := by omega
    simp [BitVec.getLsbD_sshiftRight, hin]
    omega
  rw [hcut, BitVec.extractLsb'_toNat, Nat.shiftRight_eq_div_pow]

/-- An amount of less than 32 is what the operators shift by. -/
theorem toNat_smod_of_lt {k : ℕ} (hk : k < 32) : ((Int32.ofNat k).toBitVec.smod 32).toNat = k := by
  have hall : ∀ k : Fin 32, ((Int32.ofNat k.val).toBitVec.smod 32).toNat = k.val := by decide
  exact hall ⟨k, hk⟩

theorem toNat_byte_shiftRight (i : Int32) {k : ℕ} (hk : k ≤ 24) :
    (byte (i >>> Int32.ofNat k)).toNat = unsigned i / 2 ^ k % 256 := by
  have hamount := toNat_smod_of_lt (Nat.lt_of_le_of_lt hk (by decide))
  have hcut := toNat_setWidth_sshiftRight (m := 8) (by omega : k + 8 ≤ 32) i.toBitVec
  have hshift : (i >>> Int32.ofNat k).toBitVec = i.toBitVec.sshiftRight k := by
    rw [Int32.toBitVec_shiftRight, BitVec.sshiftRight_eq', hamount]
  calc
    (byte (i >>> Int32.ofNat k)).toNat =
        ((i >>> Int32.ofNat k).toBitVec.setWidth 8).toNat := rfl
    _ = unsigned i / 2 ^ k % 256 := by rw [hshift, hcut]; rfl

theorem toNat_byte (i : Int32) : (byte i).toNat = unsigned i % 256 := rfl

theorem unsigned_shiftLeft (b : UInt8) {k : ℕ} (hk : k ≤ 24) :
    unsigned (ofByte b <<< Int32.ofNat k) = b.toNat * 2 ^ k := by
  have hamount := toNat_smod_of_lt (Nat.lt_of_le_of_lt hk (by decide))
  have hshift : (ofByte b <<< Int32.ofNat k).toBitVec = (ofByte b).toBitVec <<< k := by
    rw [Int32.toBitVec_shiftLeft, BitVec.shiftLeft_eq', hamount]
  have hfit : b.toNat * 2 ^ k < 2 ^ 32 := by
    calc
      b.toNat * 2 ^ k < 256 * 2 ^ k := Nat.mul_lt_mul_of_pos_right b.toNat_lt (Nat.two_pow_pos k)
      _ ≤ 256 * 2 ^ 24 := Nat.mul_le_mul_left 256 (Nat.pow_le_pow_right (by decide) hk)
      _ = 2 ^ 32 := by decide
  calc
    unsigned (ofByte b <<< Int32.ofNat k) = ((ofByte b).toBitVec <<< k).toNat := by
      rw [← hshift]; rfl
    _ = b.toNat * 2 ^ k % 2 ^ 32 := by
      rw [BitVec.toNat_shiftLeft, Nat.shiftLeft_eq]; rfl
    _ = b.toNat * 2 ^ k := Nat.mod_eq_of_lt hfit

theorem unsigned_ofByte (b : UInt8) : unsigned (ofByte b) = b.toNat := rfl

theorem unsigned_add (i j : Int32) :
    unsigned (i + j) = (unsigned i + unsigned j) % 2 ^ 32 := rfl

/-! ## Bytes put together -/

theorem unsigned_word2 (b₀ b₁ : UInt8) :
    unsigned ((ofByte b₀ <<< 8) + ofByte b₁) = b₀.toNat * 2 ^ 8 + b₁.toNat := by
  have h₀ : unsigned (ofByte b₀ <<< 8) = b₀.toNat * 2 ^ 8 := unsigned_shiftLeft b₀ (by decide)
  have hb₀ := b₀.toNat_lt
  have hb₁ := b₁.toNat_lt
  rw [unsigned_add, h₀, unsigned_ofByte]
  omega

theorem unsigned_word3 (b₀ b₁ b₂ : UInt8) :
    unsigned ((ofByte b₀ <<< 16) + (ofByte b₁ <<< 8) + ofByte b₂) =
      b₀.toNat * 2 ^ 16 + b₁.toNat * 2 ^ 8 + b₂.toNat := by
  have h₀ : unsigned (ofByte b₀ <<< 16) = b₀.toNat * 2 ^ 16 := unsigned_shiftLeft b₀ (by decide)
  have h₁ : unsigned (ofByte b₁ <<< 8) = b₁.toNat * 2 ^ 8 := unsigned_shiftLeft b₁ (by decide)
  have hb₀ := b₀.toNat_lt
  have hb₁ := b₁.toNat_lt
  have hb₂ := b₂.toNat_lt
  rw [unsigned_add, unsigned_add, h₀, h₁, unsigned_ofByte]
  omega

theorem unsigned_word4 (b₀ b₁ b₂ b₃ : UInt8) :
    unsigned ((ofByte b₀ <<< 24) + (ofByte b₁ <<< 16) + (ofByte b₂ <<< 8) + ofByte b₃) =
      b₀.toNat * 2 ^ 24 + b₁.toNat * 2 ^ 16 + b₂.toNat * 2 ^ 8 + b₃.toNat := by
  have h₀ : unsigned (ofByte b₀ <<< 24) = b₀.toNat * 2 ^ 24 := unsigned_shiftLeft b₀ (by decide)
  have h₁ : unsigned (ofByte b₁ <<< 16) = b₁.toNat * 2 ^ 16 := unsigned_shiftLeft b₁ (by decide)
  have h₂ : unsigned (ofByte b₂ <<< 8) = b₂.toNat * 2 ^ 8 := unsigned_shiftLeft b₂ (by decide)
  have hb₀ := b₀.toNat_lt
  have hb₁ := b₁.toNat_lt
  have hb₂ := b₂.toNat_lt
  have hb₃ := b₃.toNat_lt
  rw [unsigned_add, unsigned_add, unsigned_add, h₀, h₁, h₂, unsigned_ofByte]
  omega

theorem byte_eq_of_digit {i : Int32} {b : UInt8} (h : unsigned i % 256 = b.toNat) : byte i = b :=
  UInt8.toNat_inj.1 ((toNat_byte i).trans h)

theorem byte_shiftRight_eq_of_digit {i : Int32} {b : UInt8} {k : ℕ} (hk : k ≤ 24)
    (h : unsigned i / 2 ^ k % 256 = b.toNat) : byte (i >>> Int32.ofNat k) = b :=
  UInt8.toNat_inj.1 ((toNat_byte_shiftRight i hk).trans h)

/-- The bytes that a number was put together from are its bytes. -/
theorem bytes_of_unsigned_word4 {i : Int32} {b₀ b₁ b₂ b₃ : UInt8}
    (h : unsigned i = b₀.toNat * 2 ^ 24 + b₁.toNat * 2 ^ 16 + b₂.toNat * 2 ^ 8 + b₃.toNat) :
    byte (i >>> 24) = b₀ ∧ byte (i >>> 16) = b₁ ∧ byte (i >>> 8) = b₂ ∧ byte i = b₃ := by
  have hb₀ := b₀.toNat_lt
  have hb₁ := b₁.toNat_lt
  have hb₂ := b₂.toNat_lt
  have hb₃ := b₃.toNat_lt
  refine ⟨byte_shiftRight_eq_of_digit (k := 24) (by decide) ?_,
    byte_shiftRight_eq_of_digit (k := 16) (by decide) ?_,
    byte_shiftRight_eq_of_digit (k := 8) (by decide) ?_, byte_eq_of_digit ?_⟩ <;> omega

theorem bytes_of_unsigned_word3 {i : Int32} {b₀ b₁ b₂ : UInt8}
    (h : unsigned i = b₀.toNat * 2 ^ 16 + b₁.toNat * 2 ^ 8 + b₂.toNat) :
    byte (i >>> 16) = b₀ ∧ byte (i >>> 8) = b₁ ∧ byte i = b₂ := by
  have hb₀ := b₀.toNat_lt
  have hb₁ := b₁.toNat_lt
  have hb₂ := b₂.toNat_lt
  refine ⟨byte_shiftRight_eq_of_digit (k := 16) (by decide) ?_,
    byte_shiftRight_eq_of_digit (k := 8) (by decide) ?_, byte_eq_of_digit ?_⟩ <;> omega

theorem bytes_of_unsigned_word2 {i : Int32} {b₀ b₁ : UInt8}
    (h : unsigned i % 2 ^ 16 = b₀.toNat * 2 ^ 8 + b₁.toNat) :
    byte (i >>> 8) = b₀ ∧ byte i = b₁ := by
  have hb₀ := b₀.toNat_lt
  have hb₁ := b₁.toNat_lt
  refine ⟨byte_shiftRight_eq_of_digit (k := 8) (by decide) ?_, byte_eq_of_digit ?_⟩ <;> omega

theorem word4_byte (i : Int32) :
    (ofByte (byte (i >>> 24)) <<< 24) + (ofByte (byte (i >>> 16)) <<< 16) +
      (ofByte (byte (i >>> 8)) <<< 8) + ofByte (byte i) = i := by
  have h₀ : (byte (i >>> 24)).toNat = unsigned i / 2 ^ 24 % 256 :=
    toNat_byte_shiftRight i (by decide)
  have h₁ : (byte (i >>> 16)).toNat = unsigned i / 2 ^ 16 % 256 :=
    toNat_byte_shiftRight i (by decide)
  have h₂ : (byte (i >>> 8)).toNat = unsigned i / 2 ^ 8 % 256 :=
    toNat_byte_shiftRight i (by decide)
  have hlt := unsigned_lt i
  apply eq_of_unsigned_eq
  rw [unsigned_word4, h₀, h₁, h₂, toNat_byte]
  omega

/-! ## Half of the bits -/

/-- The number of the 16 bits without a sign. -/
def unsigned16 (p : Int16) : ℕ := p.toUInt16.toNat

theorem eq_of_unsigned16_eq {p q : Int16} (h : unsigned16 p = unsigned16 q) : p = q := by
  apply Int16.toBitVec_inj.1
  exact BitVec.eq_of_toNat_eq h

theorem unsigned16_toInt16 (i : Int32) : unsigned16 i.toInt16 = unsigned i % 2 ^ 16 := by
  calc
    unsigned16 i.toInt16 = i.toInt16.toBitVec.toNat := rfl
    _ = (i.toBitVec.setWidth 16).toNat := by
      rw [Int32.toBitVec_toInt16, BitVec.signExtend_eq_setWidth_of_le _ (by decide)]
    _ = unsigned i % 2 ^ 16 := BitVec.toNat_setWidth _ _

theorem unsigned_toInt32 (p : Int16) : unsigned p.toInt32 % 2 ^ 16 = unsigned16 p := by
  have hback : p.toInt32.toBitVec.setWidth 16 = p.toBitVec := by
    rw [Int16.toBitVec_toInt32]
    ext i hi
    rw [BitVec.getElem_setWidth, BitVec.getLsbD_signExtend]
    simp [hi, Nat.lt_trans hi (by decide : 16 < 32)]
  calc
    unsigned p.toInt32 % 2 ^ 16 = (p.toInt32.toBitVec.setWidth 16).toNat :=
      (BitVec.toNat_setWidth _ _).symm
    _ = unsigned16 p := by rw [hback]; rfl

/-- The two bytes of a number give the number back, whatever its sign was extended to. -/
theorem word2_byte (p : Int16) :
    ((ofByte (byte (p.toInt32 >>> 8)) <<< 8) + ofByte (byte p.toInt32)).toInt16 = p := by
  have h₀ : (byte (p.toInt32 >>> 8)).toNat = unsigned p.toInt32 / 2 ^ 8 % 256 :=
    toNat_byte_shiftRight p.toInt32 (by decide)
  have hhalf := unsigned_toInt32 p
  apply eq_of_unsigned16_eq
  rw [unsigned16_toInt16, unsigned_word2, h₀, toNat_byte]
  omega

/-! ## Three bytes -/

/-- The number fits in three bytes. -/
def FitsIn3Bytes (i : Int32) : Prop := 0 ≤ i ∧ i ≤ 0xffffff

instance (i : Int32) : Decidable (FitsIn3Bytes i) := inferInstanceAs (Decidable (_ ∧ _))

theorem fitsIn3Bytes_iff_toInt {i : Int32} : FitsIn3Bytes i ↔ 0 ≤ i.toInt ∧ i.toInt < 2 ^ 24 := by
  have hzero : (0 : Int32).toInt = 0 := rfl
  have hmax : (0xffffff : Int32).toInt = 2 ^ 24 - 1 := rfl
  rw [FitsIn3Bytes, Int32.le_iff_toInt_le, Int32.le_iff_toInt_le, hzero, hmax]
  omega

theorem fitsIn3Bytes_iff {i : Int32} : FitsIn3Bytes i ↔ unsigned i < 2 ^ 24 := by
  have hint : i.toInt = if 2 * unsigned i < 2 ^ 32 then (unsigned i : ℤ)
      else (unsigned i : ℤ) - (2 ^ 32 : ℕ) := i.toBitVec.toInt_eq_toNat_cond
  have hlt := unsigned_lt i
  rw [fitsIn3Bytes_iff_toInt, hint]
  split <;> omega

theorem getLsbD_mask {k : ℕ} (hk : k < 64) :
    (0xff000000#64).getLsbD k = (decide (24 ≤ k) && decide (k < 32)) := by
  have hall : ∀ k : Fin 64,
      (0xff000000#64).getLsbD k.val = (decide (24 ≤ k.val) && decide (k.val < 32)) := by
    decide
  exact hall ⟨k, hk⟩

/-- The mask leaves the fourth byte and nothing of the copies of the sign above. -/
theorem getLsbD_and_mask (i : Int32) {k : ℕ} (hk : k < 64) :
    (i.toBitVec.signExtend 64 &&& 0xff000000#64).getLsbD k =
      ((unsigned i).testBit k && decide (24 ≤ k)) := by
  rw [BitVec.getLsbD_and, getLsbD_mask hk, BitVec.getLsbD_signExtend]
  by_cases hin : k < 32
  · simp only [hk, hin, decide_true, if_true, Bool.true_and, Bool.and_true]
    rfl
  · have hhigh : (unsigned i).testBit k = false := Nat.testBit_lt_two_pow
      (Nat.lt_of_lt_of_le (unsigned_lt i) (Nat.pow_le_pow_right (by decide) (by omega)))
    simp [hin, hhigh]

theorem and_eq_zero_iff {i : Int32} : i.toInt64 &&& 0xff000000 = 0 ↔ FitsIn3Bytes i := by
  have hbits : i.toInt64 &&& 0xff000000 = 0 ↔
      i.toBitVec.signExtend 64 &&& 0xff000000#64 = 0#64 := by
    rw [← Int64.toBitVec_inj, Int64.toBitVec_and, Int32.toBitVec_toInt64]
    rfl
  rw [hbits, fitsIn3Bytes_iff]
  constructor
  · intro hzero
    apply Nat.lt_pow_two_of_testBit
    intro k hk
    by_cases hin : k < 64
    · have hbit := getLsbD_and_mask i hin
      rw [hzero, BitVec.getLsbD_zero, decide_eq_true hk, Bool.and_true] at hbit
      exact hbit.symm
    · exact Nat.testBit_lt_two_pow (Nat.lt_of_lt_of_le (unsigned_lt i)
        (Nat.pow_le_pow_right (by decide) (by omega)))
  · intro hlt
    apply BitVec.eq_of_getLsbD_eq
    intro k hk
    rw [getLsbD_and_mask i hk, BitVec.getLsbD_zero]
    by_cases hin : 24 ≤ k
    · have hbit : (unsigned i).testBit k = false := Nat.testBit_lt_two_pow
        (Nat.lt_of_lt_of_le hlt (Nat.pow_le_pow_right (by decide) hin))
      rw [hbit, Bool.false_and]
    · rw [decide_eq_false hin, Bool.and_false]

theorem fitsIn3Bytes_word3 (b₀ b₁ b₂ : UInt8) :
    FitsIn3Bytes ((ofByte b₀ <<< 16) + (ofByte b₁ <<< 8) + ofByte b₂) := by
  have hb₀ := b₀.toNat_lt
  have hb₁ := b₁.toNat_lt
  have hb₂ := b₂.toNat_lt
  rw [fitsIn3Bytes_iff, unsigned_word3]
  omega

/-- The three bytes of a number that fits give the number back. -/
theorem word3_byte {i : Int32} (h : FitsIn3Bytes i) :
    (ofByte (byte (i >>> 16)) <<< 16) + (ofByte (byte (i >>> 8)) <<< 8) + ofByte (byte i) = i := by
  have h₀ : (byte (i >>> 16)).toNat = unsigned i / 2 ^ 16 % 256 :=
    toNat_byte_shiftRight i (by decide)
  have h₁ : (byte (i >>> 8)).toNat = unsigned i / 2 ^ 8 % 256 :=
    toNat_byte_shiftRight i (by decide)
  have hlt := fitsIn3Bytes_iff.1 h
  apply eq_of_unsigned_eq
  rw [unsigned_word3, h₀, h₁, toNat_byte]
  omega

theorem unsigned_and (i : Int32) : unsigned (i &&& 0x00ffffff) = unsigned i % 2 ^ 24 := by
  calc
    unsigned (i &&& 0x00ffffff) = unsigned i &&& (2 ^ 24 - 1) := rfl
    _ = unsigned i % 2 ^ 24 := Nat.and_two_pow_sub_one_eq_mod _ _

theorem fitsIn3Bytes_and (i : Int32) : FitsIn3Bytes (i &&& 0x00ffffff) := by
  rw [fitsIn3Bytes_iff, unsigned_and]
  exact Nat.mod_lt _ (by decide)

end Int32Bytes
