import IFramework.Infrastructure.RadixEncoding

/-!
# What radix decoding rejects and adds

All four decoders go through the characters from the most significant digit on (`scanned`). With
padding they count the zero digits in front first, and append the zero bytes for them even when the
rest has turned out to be no number: a `null` is given to `Array.Resize`, which reads its length.
`rejects_iff` says for which texts a decoder returns `null` exactly where it has to.

The bytes of the number and the zero bytes of the padding are rounded up one by one.
`addsAtMostOne_iff` says when both roundings together add no more than one byte.
-/

namespace IFramework.Infrastructure.RadixEncoding

variable {χ : Type} (e : RadixEncoding χ)

/-! ## Texts with other characters -/

/-- The characters in the order in which the decoder meets them. -/
def scanned (chars : List χ) : List χ :=
  match e.endian with
  | .little => chars
  | .big => chars.reverse

theorem mem_scanned {chars : List χ} {c : χ} : c ∈ e.scanned chars ↔ c ∈ chars := by
  rw [scanned]
  cases e.endian with
  | little => exact Iff.rfl
  | big => exact List.mem_reverse

/-- A character is no digit. -/
def Malformed (chars : List χ) : Prop := ∃ c ∈ chars, c ∉ e.kDigits

variable [DecidableEq χ]

instance (chars : List χ) : Decidable (e.Malformed chars) :=
  inferInstanceAs (Decidable (∃ c ∈ chars, c ∉ e.kDigits))

/-- The decoder returns, and returns `null` for the malformed texts only. -/
def Rejects (chars : List χ) : Prop :=
  ∃ result, e.decode chars = .ok result ∧ (result = none ↔ e.Malformed chars)

/-- The number of zero digits in front. -/
def padCount (chars : List χ) : Nat := ((e.scanned chars).takeWhile (· = e.zeroDigit)).length

theorem decode_eq (chars : List χ) :
    e.decode chars =
      if e.includeProceedingZeros then
        e.decodeImplPadResult (e.decodeImpl (e.scanned chars) (e.padCount chars))
          (e.padCount chars)
      else .ok (e.decodeImpl (e.scanned chars) 0) := by
  rw [decode, padCount, scanned]
  cases e.endian <;> rfl

/-- No number is read exactly where a character is no digit. -/
theorem readDigits_eq_none_iff {chars : List χ} :
    e.readDigits chars = none ↔ e.Malformed chars := by
  have hall : ∀ bi : Int, chars.foldlM (fun bi c => do
      let i ← e.kDigits.idxOf? c
      return bi * e.radix + i) bi = none ↔ e.Malformed chars := by
    induction chars with
    | nil => simp [Malformed]
    | cons c chars ih =>
      intro bi
      rw [List.foldlM_cons]
      cases hidx : e.kDigits.idxOf? c with
      | none =>
        have hc : c ∉ e.kDigits := List.idxOf?_eq_none_iff.1 hidx
        exact iff_of_true rfl ⟨c, List.mem_cons_self, hc⟩
      | some i =>
        have hc : c ∈ e.kDigits := by
          by_contra hnone
          rw [List.idxOf?_eq_none_iff.2 hnone] at hidx
          cases hidx
        simpa [Malformed, hc] using ih (bi * e.radix + i)
  exact hall 0

omit [DecidableEq χ] in
theorem zeroDigit_mem : e.zeroDigit ∈ e.kDigits := List.get_mem _ _

/-- The padding is made of digits, so the characters behind it decide. -/
theorem decodeImpl_eq_none_iff {chars : List χ} :
    e.decodeImpl (e.scanned chars) (e.padCount chars) = none ↔ e.Malformed chars := by
  have hsplit : e.scanned chars = (e.scanned chars).takeWhile (· = e.zeroDigit) ++
      (e.scanned chars).drop (e.padCount chars) :=
    List.prefix_append_drop (List.takeWhile_prefix _)
  rw [decodeImpl, Option.map_eq_none_iff, readDigits_eq_none_iff]
  constructor
  · rintro ⟨c, hc, hnone⟩
    exact ⟨c, e.mem_scanned.1 (List.mem_of_mem_drop hc), hnone⟩
  · rintro ⟨c, hc, hnone⟩
    rw [← e.mem_scanned, hsplit, List.mem_append] at hc
    rcases hc with hpad | hc
    · have hzero : c = e.zeroDigit := by
        simpa using List.all_eq_true.1 List.all_takeWhile c hpad
      rw [hzero] at hnone
      exact absurd e.zeroDigit_mem hnone
    · exact ⟨c, hc, hnone⟩

theorem decodeImpl_zero_eq_none_iff {chars : List χ} :
    e.decodeImpl (e.scanned chars) 0 = none ↔ e.Malformed chars := by
  rw [decodeImpl, Option.map_eq_none_iff, readDigits_eq_none_iff, List.drop_zero]
  simp only [Malformed, mem_scanned]

/-- There is padding where the first character met is the zero digit. -/
theorem padCount_pos_iff {chars : List χ} :
    0 < e.padCount chars ↔ (e.scanned chars).head? = some e.zeroDigit := by
  rw [padCount]
  cases e.scanned chars with
  | nil => simp
  | cons c cs =>
    by_cases hc : c = e.zeroDigit
    · simp [hc]
    · simp [hc]

/-- A decoder returns `null` where it has to, but for the malformed texts with padding: for these
it throws. -/
theorem rejects_iff (chars : List χ) :
    e.Rejects chars ↔
      ¬ (e.includeProceedingZeros = true ∧ (e.scanned chars).head? = some e.zeroDigit ∧
        e.Malformed chars) := by
  rw [Rejects, decode_eq, ← padCount_pos_iff]
  cases hpad : e.includeProceedingZeros with
  | false =>
    refine iff_of_true ⟨_, rfl, ?_⟩ (by simp)
    exact e.decodeImpl_zero_eq_none_iff
  | true =>
    have hnone : e.decodeImpl (e.scanned chars) (e.padCount chars) = none ↔ e.Malformed chars :=
      e.decodeImpl_eq_none_iff
    simp only [if_true, decodeImplPadResult, true_and]
    by_cases hpos : 0 < e.padCount chars
    · cases hread : e.decodeImpl (e.scanned chars) (e.padCount chars) with
      | none => simp [hpos, hnone.1 hread]
      | some bytes => simp [hpos]
    · rw [if_neg hpos]
      exact iff_of_true ⟨_, rfl, hnone⟩ fun h => hpos h.1

/-- A zero digit in front of another character is enough. -/
theorem not_rejects_base36 : ¬ (base36 .little true).Rejects ['0', '!'] := by
  rintro ⟨result, hdecode, -⟩
  have hthrows : (base36 .little true).decode ['0', '!'] = .error .nullReferenceException := by
    decide
  rw [hthrows] at hdecode
  cases hdecode

/-! ## The bytes added -/

/-- The decoded bytes of what was encoded are at most one more than the bytes given. -/
def AddsAtMostOne (bytes : List UInt8) : Prop :=
  ∃ decoded, e.decode (e.encode bytes) = .ok (some decoded) ∧ decoded.length ≤ bytes.length + 1

/-- A number of so many bytes needs no more than one byte more, which is for the sign. -/
theorem byteCount_value_le (bytes : List UInt8) :
    Bytes.byteCount (Bytes.value bytes) ≤ bytes.length + 1 := by
  have hsize : (Bytes.value bytes).size ≤ 8 * bytes.length := by
    rw [Nat.size_le, pow_mul]
    exact Bytes.value_lt bytes
  have hcount : Bytes.byteCount (Bytes.value bytes) = (Bytes.value bytes).size / 8 + 1 := rfl
  omega

/-- The zero bytes for the padding have to fit behind the bytes of the number. -/
theorem addsAtMostOne_iff (h : e.includeProceedingZeros = true) (bytes : List UInt8) :
    e.AddsAtMostOne bytes ↔
      e.radix ^ e.padding bytes ≤
        256 ^ (bytes.length + 1 - Bytes.byteCount (Bytes.value bytes)) := by
  have hcount := byteCount_value_le bytes
  have hlen : e.AddsAtMostOne bytes ↔
      Bytes.byteCount (Bytes.value bytes) + e.decodingBytesCount (e.padding bytes) ≤
        bytes.length + 1 := by
    simp [AddsAtMostOne, e.decode_encode_eq h, Bytes.length_ofInt]
  rw [hlen, ← Nat.clog_le_iff_le_pow (by decide)]
  rw [decodingBytesCount]
  omega

/-- A single zero byte is written as two zero digits, which stand for two more zero bytes. -/
theorem not_addsAtMostOne_base36 : ¬ (base36 .little true).AddsAtMostOne [0] := by
  rintro ⟨decoded, hdecode, hlen⟩
  rw [decode_encode_eq _ rfl] at hdecode
  cases hdecode
  revert hlen
  decide

theorem addsAtMostOne_iff_base36 :
    (base36 .little true).AddsAtMostOne [1] ↔
      36 ^ (base36 .little true).padding [1] ≤
        256 ^ (1 + 1 - Bytes.byteCount (Bytes.value [1])) :=
  addsAtMostOne_iff (base36 .little true) rfl [1]

end IFramework.Infrastructure.RadixEncoding
