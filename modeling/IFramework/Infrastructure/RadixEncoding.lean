import IFramework.Theory.Bytes
import Mathlib.Analysis.SpecialFunctions.Log.Base
import Mathlib.Data.Nat.Digits.Lemmas

/-!
# Radix encoding

`RadixEncoding` writes bytes as digits of a radix and reads them back. With `includeProceedingZeros`
the encoder fills up with zero digits to the number of characters that the bytes can need
(`encodingCharsCount`), and the decoder, which does not see how many bytes there were, answers each
zero digit in front with the share of zero bytes it can stand for (`decodingBytesCount`). Both
numbers are rounded up. `decode_encode` says that the bytes come back, and after them at most zeros.
-/

namespace IFramework.Infrastructure

/-- Endian ordering of the bytes. -/
inductive EndianFormat where
  | little
  | big
  deriving DecidableEq, Repr

/-- An encoder, with an alphabet of 2 to 256 distinct characters as the digits. -/
structure RadixEncoding (χ : Type) where
  kDigits : List χ
  endian : EndianFormat
  includeProceedingZeros : Bool
  nodup : kDigits.Nodup
  two_le : 2 ≤ kDigits.length
  le_256 : kDigits.length ≤ 256

/-- A `List<char>`, which knows how many characters it has room for. -/
structure CharList (χ : Type) where
  items : List χ
  capacity : Nat

/-- `List.Add`, which makes room by doubling. -/
def CharList.add {χ : Type} (result : CharList χ) (c : χ) : CharList χ where
  items := result.items ++ [c]
  capacity :=
    if result.items.length = result.capacity then
      if result.capacity = 0 then 4 else 2 * result.capacity
    else result.capacity

/-- What is thrown when a decoded `null` is used. -/
inductive DecodingException where
  | nullReferenceException
  | argumentNullException
  deriving DecidableEq, Repr

namespace RadixEncoding

variable {χ : Type} (e : RadixEncoding χ)

/-! ## The encoder -/

/-- Numerical base of the encoding. -/
abbrev radix : Nat := e.kDigits.length

theorem one_lt_radix : 1 < e.radix := e.two_le

theorem radix_pos : 0 < e.radix := Nat.lt_trans Nat.zero_lt_one e.one_lt_radix

/-- The character that represents zero. -/
def zeroDigit : χ := e.kDigits.get ⟨0, e.radix_pos⟩

/-- Number of characters needed for encoding so many bytes. -/
def encodingCharsCount (bytesLength : Nat) : Nat := Nat.clog e.radix (256 ^ bytesLength)

/-- Number of bytes needed for decoding so many characters. -/
def decodingBytesCount (charsCount : Nat) : Nat := Nat.clog 256 (e.radix ^ charsCount)

theorem natAbs_tmod_lt (dividend : Int) : (dividend.tmod e.radix).natAbs < e.radix := by
  rw [Int.natAbs_tmod]
  exact Nat.mod_lt _ e.radix_pos

theorem natAbs_tdiv_lt {dividend : Int} (h : dividend ≠ 0) :
    (dividend.tdiv e.radix).natAbs < dividend.natAbs := by
  rw [Int.natAbs_tdiv]
  exact Nat.div_lt_self (Int.natAbs_pos.2 h) e.one_lt_radix

/-- The loop over the digits, which adds the least significant digit first. -/
def addDigits (dividend : Int) (result : CharList χ) : CharList χ :=
  if _h : dividend = 0 then result
  else
    let remainder := dividend.tmod e.radix
    addDigits (dividend.tdiv e.radix)
      (result.add (e.kDigits.get ⟨remainder.natAbs, e.natAbs_tmod_lt dividend⟩))
  termination_by dividend.natAbs
  decreasing_by exact e.natAbs_tdiv_lt _h

/-- The loop that pads with zero digits up to the capacity. -/
def padDigits (result : CharList χ) : CharList χ :=
  if _h : result.items.length < result.capacity then padDigits (result.add e.zeroDigit) else result
  termination_by result.capacity - result.items.length
  decreasing_by
    simp only [CharList.add, if_neg (Nat.ne_of_lt _h), List.length_append, List.length_singleton]
    omega

/-- Encode bytes. An extra byte keeps the number from being read as a negative one. -/
def encode (bytes : List UInt8) : List χ :=
  if bytes.length = 0 then []
  else
    let result_length := e.encodingCharsCount bytes.length
    let result : CharList χ := ⟨[], result_length⟩
    let bytes := if Bytes.signBit bytes then bytes ++ [0] else bytes
    let result := e.addDigits (Bytes.toInt bytes) result
    let result := if e.includeProceedingZeros then e.padDigits result else result
    match e.endian with
    | .little => result.items.reverse
    | .big => result.items

/-! ## The decoder -/

variable [DecidableEq χ]

/-- The number that the characters stand for, the most significant digit first. -/
def readDigits (chars : List χ) : Option Int :=
  chars.foldlM (fun bi c => do
    let i ← e.kDigits.idxOf? c
    return bi * e.radix + i) 0

/-- The characters from `startIndex` on; `none` is the `null` for an invalid character. -/
def decodeImpl (chars : List χ) (startIndex : Nat) : Option (List UInt8) :=
  (e.readDigits (chars.drop startIndex)).map Bytes.ofInt

/-- The characters from `startIndex` before the end down to the first. -/
def decodeImplReversed (chars : List χ) (startIndex : Nat) : Option (List UInt8) :=
  (e.readDigits (chars.reverse.drop startIndex)).map Bytes.ofInt

/-- Append the zero bytes for the zero digits. -/
def decodeImplPadResult (result : Option (List UInt8)) (padCount : Nat) :
    Except DecodingException (Option (List UInt8)) :=
  if 0 < padCount then
    match result with
    | none => .error .nullReferenceException
    | some result => .ok (some (result ++ List.replicate (e.decodingBytesCount padCount) 0))
  else .ok result

/-- Zero digits at the start are the padding. -/
def decodeImplWithPadding (chars : List χ) : Except DecodingException (Option (List UInt8)) :=
  let pad_count := (chars.takeWhile (· = e.zeroDigit)).length
  e.decodeImplPadResult (e.decodeImpl chars pad_count) pad_count

/-- Zero digits at the end are the padding. -/
def decodeImplReversedWithPadding (chars : List χ) :
    Except DecodingException (Option (List UInt8)) :=
  let pad_count := (chars.reverse.takeWhile (· = e.zeroDigit)).length
  e.decodeImplPadResult (e.decodeImplReversed chars pad_count) pad_count

/-- Decode characters. -/
def decode (radixChars : List χ) : Except DecodingException (Option (List UInt8)) :=
  match e.endian with
  | .big =>
    if e.includeProceedingZeros then e.decodeImplReversedWithPadding radixChars
    else .ok (e.decodeImplReversed radixChars 0)
  | .little =>
    if e.includeProceedingZeros then e.decodeImplWithPadding radixChars
    else .ok (e.decodeImpl radixChars 0)

end RadixEncoding

/-! ## Base 36 -/

def kBase36Digits : List Char := "0123456789abcdefghijklmnopqrstuvwxyz".toList

/-- The encoding of an `ObjectId` in base 36. -/
def base36 (bytesEndian : EndianFormat) (includeProceedingZeros : Bool) : RadixEncoding Char where
  kDigits := kBase36Digits
  endian := bytesEndian
  includeProceedingZeros := includeProceedingZeros
  nodup := by decide
  two_le := by decide
  le_256 := by decide

def toBase36String (bytes : List UInt8) (bytesEndian : EndianFormat)
    (includeProceedingZeros : Bool) : List Char :=
  (base36 bytesEndian includeProceedingZeros).encode bytes

/-- The list that is made of the decoded bytes throws on `null`. -/
def convertBase36StringToBytes (base36String : List Char) (bytesEndian : EndianFormat)
    (includeProceedingZeros : Bool) : Except DecodingException (List UInt8) := do
  match ← (base36 bytesEndian includeProceedingZeros).decode base36String with
  | some bytes => return bytes
  | none => throw .argumentNullException

namespace RadixEncoding

variable {χ : Type} (e : RadixEncoding χ)

/-! ## The two bounds -/

/-- The ceiling of `bytesLength * kByteBitCount / kBitsPerDigit`. -/
theorem encodingCharsCount_eq_ceil (n : Nat) :
    e.encodingCharsCount n = ⌈(n * 8 : ℝ) / Real.logb 2 e.radix⌉₊ := by
  have hlog : Real.logb e.radix ((256 ^ n : ℕ) : ℝ) = n * 8 / Real.logb 2 e.radix := by
    have h256 : ((256 ^ n : ℕ) : ℝ) = 2 ^ (n * 8) := by
      rw [Nat.mul_comm, pow_mul]
      norm_num
    rw [h256, Real.logb_pow, ← Real.inv_logb, div_eq_mul_inv]
    push_cast
    rfl
  rw [encodingCharsCount, ← Real.natCeil_logb_natCast, hlog]

/-- The ceiling of `charsCount * kBitsPerDigit / kByteBitCount`. -/
theorem decodingBytesCount_eq_ceil (n : Nat) :
    e.decodingBytesCount n = ⌈n * Real.logb 2 e.radix / 8⌉₊ := by
  have hlog : Real.logb (256 : ℕ) ((e.radix ^ n : ℕ) : ℝ) = n * Real.logb 2 e.radix / 8 := by
    have h256 : Real.logb 2 (256 : ℕ) = 8 := by
      have hpow : ((256 : ℕ) : ℝ) = 2 ^ 8 := by norm_num
      rw [hpow, Real.logb_pow, Real.logb_self_eq_one (by norm_num)]
      norm_num
    have hbase : Real.logb (256 : ℕ) e.radix = Real.logb 2 e.radix / Real.logb 2 (256 : ℕ) :=
      (div_div_div_cancel_right₀ (Real.log_pos (by norm_num)).ne' _ _).symm
    rw [Nat.cast_pow, Real.logb_pow, hbase, h256, mul_div_assoc]
  rw [decodingBytesCount, ← Real.natCeil_logb_natCast, hlog]

/-! ## The digits -/

/-- The character of a digit. -/
def digit (i : Nat) : χ := e.kDigits.getD i e.zeroDigit

theorem digit_eq {i : Nat} (h : i < e.radix) : e.digit i = e.kDigits.get ⟨i, h⟩ := by
  simp [digit, List.getElem?_eq_getElem h]

theorem digit_eq_zeroDigit_iff {i : Nat} (h : i < e.radix) : e.digit i = e.zeroDigit ↔ i = 0 := by
  rw [e.digit_eq h, zeroDigit, e.nodup.get_inj_iff, Fin.mk.injEq]

/-- While there is room the loop adds the digits of the number. -/
theorem addDigits_eq (n : Nat) (result : CharList χ)
    (hroom : result.items.length + (Nat.digits e.radix n).length ≤ result.capacity) :
    e.addDigits n result =
      ⟨result.items ++ (Nat.digits e.radix n).map e.digit, result.capacity⟩ := by
  induction n using Nat.strongRecOn generalizing result with
  | ind n ih =>
    rw [addDigits]
    by_cases hn : n = 0
    · simp [hn]
    · have hpos : 0 < n := Nat.pos_of_ne_zero hn
      rw [Nat.digits_def' e.one_lt_radix hpos, List.length_cons] at hroom
      rw [dif_neg (by exact_mod_cast hn), Nat.digits_def' e.one_lt_radix hpos]
      have hdiv : ((n : Int).tdiv e.radix) = (n / e.radix : Nat) := rfl
      have hmod : ((n : Int).tmod e.radix).natAbs = n % e.radix := rfl
      simp only [hdiv, hmod]
      have hadd : result.add (e.kDigits.get ⟨n % e.radix, Nat.mod_lt n e.radix_pos⟩) =
          ⟨result.items ++ [e.digit (n % e.radix)], result.capacity⟩ := by
        rw [CharList.add, if_neg (by omega), e.digit_eq (Nat.mod_lt n e.radix_pos)]
      rw [hadd, ih (n / e.radix) (Nat.div_lt_self hpos e.one_lt_radix)]
      · simp
      · simp only [List.length_append, List.length_singleton]
        omega

theorem padDigits_eq (result : CharList χ) :
    (e.padDigits result).items =
      result.items ++ List.replicate (result.capacity - result.items.length) e.zeroDigit := by
  fun_induction e.padDigits result with
  | case1 result h ih =>
    have hcap : (result.add e.zeroDigit).capacity = result.capacity := by
      rw [CharList.add, if_neg (Nat.ne_of_lt h)]
    have hitems : (result.add e.zeroDigit).items = result.items ++ [e.zeroDigit] := rfl
    have hsub : result.capacity - result.items.length =
        result.capacity - (result.items.length + 1) + 1 := by
      omega
    rw [ih, hcap, hitems, List.append_assoc, List.length_append, List.length_singleton, hsub,
      List.replicate_succ, List.singleton_append]
  | case2 result h =>
    rw [Nat.sub_eq_zero_of_le (Nat.le_of_not_lt h), List.replicate_zero, List.append_nil]

/-! ## What the encoder writes -/

/-- The digits of the number of the bytes. -/
def valueDigits (bytes : List UInt8) : List Nat := Nat.digits e.radix (Bytes.value bytes)

/-- The number of zero digits that fill the characters up. -/
def padding (bytes : List UInt8) : Nat :=
  e.encodingCharsCount bytes.length - (e.valueDigits bytes).length

/-- The characters of the bytes, the least significant digit first. -/
def digitChars (bytes : List UInt8) : List χ :=
  (e.valueDigits bytes).map e.digit ++ List.replicate (e.padding bytes) e.zeroDigit

/-- The number of the bytes has no more digits than there is room for. -/
theorem length_valueDigits_le (bytes : List UInt8) :
    (e.valueDigits bytes).length ≤ e.encodingCharsCount bytes.length := by
  rw [valueDigits, Nat.digits_length_le_iff e.one_lt_radix]
  calc
    Bytes.value bytes < 256 ^ bytes.length := Bytes.value_lt bytes
    _ ≤ e.radix ^ e.encodingCharsCount bytes.length := Nat.le_pow_clog e.one_lt_radix _

theorem toInt_extend (bytes : List UInt8) :
    Bytes.toInt (if Bytes.signBit bytes then bytes ++ [0] else bytes) = Bytes.value bytes := by
  split
  · have hclear : Bytes.signBit (bytes ++ [0]) = false := by simp [Bytes.signBit]
    rw [Bytes.toInt_of_signBit hclear]
    exact_mod_cast Bytes.value_append_zeros bytes 1
  · exact Bytes.toInt_of_signBit (Bool.eq_false_iff.2 ‹_›)

theorem encode_eq (h : e.includeProceedingZeros = true) (bytes : List UInt8) :
    e.encode bytes =
      match e.endian with
      | .little => (e.digitChars bytes).reverse
      | .big => e.digitChars bytes := by
  by_cases hnil : bytes.length = 0
  · cases List.length_eq_zero_iff.1 hnil
    have hempty : e.digitChars [] = [] := by
      simp [digitChars, valueDigits, padding, Bytes.value, encodingCharsCount]
    rw [hempty]
    cases e.endian <;> rfl
  · have hloop := e.addDigits_eq (Bytes.value bytes) ⟨[], e.encodingCharsCount bytes.length⟩
      (by simpa [valueDigits] using e.length_valueDigits_le bytes)
    simp only [encode, if_neg hnil, h, if_true, toInt_extend, hloop, padDigits_eq,
      List.nil_append, List.length_map]
    rfl

/-- The length of what is written depends on the number of bytes only. -/
theorem length_encode (h : e.includeProceedingZeros = true) (bytes : List UInt8) :
    (e.encode bytes).length = e.encodingCharsCount bytes.length := by
  have hle := e.length_valueDigits_le bytes
  have hlen : (e.digitChars bytes).length = e.encodingCharsCount bytes.length := by
    simp only [digitChars, padding, List.length_append, List.length_map, List.length_replicate]
    omega
  rw [e.encode_eq h]
  cases e.endian
  · rw [List.length_reverse, hlen]
  · exact hlen

/-- The most significant digit of a number is not zero. -/
theorem head?_reverse_digits (bytes : List UInt8) :
    ((e.valueDigits bytes).map e.digit).reverse.head? ≠ some e.zeroDigit := by
  rw [valueDigits]
  generalize Bytes.value bytes = n
  by_cases hn : n = 0
  · simp [hn]
  · have hne : Nat.digits e.radix n ≠ [] := Nat.digits_ne_nil_iff_ne_zero.2 hn
    have hlt : (Nat.digits e.radix n).getLast hne < e.radix :=
      Nat.digits_lt_base e.one_lt_radix (List.getLast_mem hne)
    have hlast := (e.digit_eq_zeroDigit_iff hlt).not.2 (Nat.getLast_digit_ne_zero e.radix hn)
    simpa [List.getLast?_eq_getLast_of_ne_nil hne] using hlast

/-- The digits need less room than one byte more than the bytes of the number. -/
theorem pow_length_valueDigits_lt (bytes : List UInt8) :
    e.radix ^ (e.valueDigits bytes).length <
      256 ^ (Bytes.byteCount (Bytes.value bytes) + 1) := by
  rw [valueDigits]
  generalize Bytes.value bytes = n
  by_cases hn : n = 0
  · simp [hn]
  · have hfit : n < 256 ^ Bytes.byteCount n := by
      have hlt := Bytes.value_lt (Bytes.ofInt n)
      rwa [Bytes.value_ofInt_natCast, Bytes.length_ofInt] at hlt
    calc
      e.radix ^ (Nat.digits e.radix n).length ≤ e.radix * n :=
        Nat.base_pow_length_digits_le _ _ e.one_lt_radix hn
      _ ≤ 256 * n := Nat.mul_le_mul_right n e.le_256
      _ < 256 * 256 ^ Bytes.byteCount n := Nat.mul_lt_mul_of_pos_left hfit (by decide)
      _ = 256 ^ (Bytes.byteCount n + 1) := (pow_succ' _ _).symm

theorem length_le_decoded (bytes : List UInt8) :
    bytes.length ≤ Bytes.byteCount (Bytes.value bytes) +
      e.decodingBytesCount (e.padding bytes) := by
  have hcount : e.encodingCharsCount bytes.length =
      e.padding bytes + (e.valueDigits bytes).length :=
    (Nat.sub_add_cancel (e.length_valueDigits_le bytes)).symm
  have hpow : 256 ^ bytes.length <
      256 ^ (e.decodingBytesCount (e.padding bytes) +
        (Bytes.byteCount (Bytes.value bytes) + 1)) := by
    calc
      256 ^ bytes.length ≤ e.radix ^ e.encodingCharsCount bytes.length :=
        Nat.le_pow_clog e.one_lt_radix _
      _ = e.radix ^ e.padding bytes * e.radix ^ (e.valueDigits bytes).length := by
        rw [hcount, pow_add]
      _ ≤ 256 ^ e.decodingBytesCount (e.padding bytes) *
          e.radix ^ (e.valueDigits bytes).length :=
        Nat.mul_le_mul_right _ (Nat.le_pow_clog (by decide) _)
      _ < 256 ^ e.decodingBytesCount (e.padding bytes) *
          256 ^ (Bytes.byteCount (Bytes.value bytes) + 1) :=
        Nat.mul_lt_mul_of_pos_left (e.pow_length_valueDigits_lt bytes) (by positivity)
      _ = _ := (pow_add _ _ _).symm
  have hlt := (Nat.pow_lt_pow_iff_right (by decide)).1 hpow
  omega

/-- The zero bytes that the decoder appends to what was encoded. -/
def extraZeros (bytes : List UInt8) : Nat :=
  Bytes.byteCount (Bytes.value bytes) + e.decodingBytesCount (e.padding bytes) - bytes.length

/-! ## What the decoder reads -/

variable [DecidableEq χ]

theorem idxOf?_digit {i : Nat} (h : i < e.radix) : e.kDigits.idxOf? (e.digit i) = some i := by
  rw [e.digit_eq h, List.idxOf?_eq_some_iff]
  refine ⟨h, rfl, ?_⟩
  intro j hj heq
  have hinj := e.nodup.getElem_inj_iff.1 heq
  omega

theorem readDigits_digits {ds : List Nat} (hds : ∀ d ∈ ds, d < e.radix) :
    e.readDigits (ds.map e.digit).reverse = some ((Nat.ofDigits e.radix ds : Nat) : Int) := by
  induction ds with
  | nil => rfl
  | cons d ds ih =>
    have hd : d < e.radix := hds d List.mem_cons_self
    have ih := ih fun d' hd' => hds d' (List.mem_cons_of_mem d hd')
    have hcons : Nat.ofDigits e.radix (d :: ds) = Nat.ofDigits e.radix ds * e.radix + d := by
      rw [Nat.ofDigits_cons, Nat.add_comm, Nat.mul_comm]
    rw [readDigits] at ih ⊢
    rw [List.map_cons, List.reverse_cons, List.foldlM_append, ih, hcons]
    simp [e.idxOf?_digit hd]

theorem takeWhile_replicate_append {c : χ} {cs : List χ} (n : Nat) (h : cs.head? ≠ some c) :
    (List.replicate n c ++ cs).takeWhile (· = c) = List.replicate n c := by
  rw [List.takeWhile_append_of_pos (by simp)]
  cases cs with
  | nil => simp
  | cons c' cs =>
    have hne : c' ≠ c := fun heq => h (congrArg some heq)
    simp [hne]

/-- Both decoders find the padding in front of the most significant digit. -/
theorem decodeImplWithPadding_digitChars (bytes : List UInt8) :
    e.decodeImplWithPadding (e.digitChars bytes).reverse =
      .ok (some (Bytes.ofInt (Bytes.value bytes) ++
        List.replicate (e.decodingBytesCount (e.padding bytes)) 0)) := by
  have hchars : (e.digitChars bytes).reverse =
      List.replicate (e.padding bytes) e.zeroDigit ++
        ((e.valueDigits bytes).map e.digit).reverse := by
    rw [digitChars, List.reverse_append, List.reverse_replicate]
  have hpad := takeWhile_replicate_append (e.padding bytes) (e.head?_reverse_digits bytes)
  have hlt : ∀ d ∈ e.valueDigits bytes, d < e.radix := fun d hd =>
    Nat.digits_lt_base e.one_lt_radix hd
  have hread : e.decodeImpl (e.digitChars bytes).reverse (e.padding bytes) =
      some (Bytes.ofInt (Bytes.value bytes)) := by
    rw [decodeImpl, hchars, List.drop_left' List.length_replicate, e.readDigits_digits hlt,
      valueDigits, Nat.ofDigits_digits, Option.map_some]
  rw [decodeImplWithPadding, hchars, hpad, List.length_replicate, ← hchars, hread,
    decodeImplPadResult]
  split
  · rfl
  · have hzero : e.padding bytes = 0 := Nat.eq_zero_of_not_pos ‹_›
    simp [hzero, decodingBytesCount]

theorem decode_encode_eq (h : e.includeProceedingZeros = true) (bytes : List UInt8) :
    e.decode (e.encode bytes) =
      .ok (some (Bytes.ofInt (Bytes.value bytes) ++
        List.replicate (e.decodingBytesCount (e.padding bytes)) 0)) := by
  rw [← decodeImplWithPadding_digitChars, e.encode_eq h, decode]
  cases hendian : e.endian with
  | little => simp [h]
  | big =>
    simp only [h, if_true]
    rfl

/-! ## The bytes come back -/

theorem decode_encode_append (h : e.includeProceedingZeros = true) (bytes : List UInt8) :
    e.decode (e.encode bytes) =
      .ok (some (bytes ++ List.replicate (e.extraZeros bytes) 0)) := by
  have hle := e.length_le_decoded bytes
  rw [e.decode_encode_eq h]
  congr 2
  apply Bytes.eq_of_value_eq
  · simp only [extraZeros, List.length_append, Bytes.length_ofInt, List.length_replicate]
    omega
  · rw [Bytes.value_append_zeros, Bytes.value_append_zeros, Bytes.value_ofInt_natCast]

/-- Decoding gives the bytes back, and after them at most zeros. -/
theorem decode_encode (h : e.includeProceedingZeros = true) (bytes : List UInt8) :
    ∃ k, e.decode (e.encode bytes) = .ok (some (bytes ++ List.replicate k 0)) :=
  ⟨e.extraZeros bytes, e.decode_encode_append h bytes⟩

theorem decode_encode_base36 :
    ∃ k, (base36 .little true).decode ((base36 .little true).encode [0x54, 0xd7, 0x80, 0]) =
      .ok (some ([0x54, 0xd7, 0x80, 0] ++ List.replicate k 0)) :=
  decode_encode (base36 .little true) rfl _

end RadixEncoding

theorem convertBase36StringToBytes_toBase36String (bytesEndian : EndianFormat)
    (bytes : List UInt8) :
    ∃ k, convertBase36StringToBytes (toBase36String bytes bytesEndian true) bytesEndian true =
      .ok (bytes ++ List.replicate k 0) := by
  refine ⟨(base36 bytesEndian true).extraZeros bytes, ?_⟩
  rw [convertBase36StringToBytes, toBase36String,
    RadixEncoding.decode_encode_append (base36 bytesEndian true) rfl]
  rfl

end IFramework.Infrastructure
