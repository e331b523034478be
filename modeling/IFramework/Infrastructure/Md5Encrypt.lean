import IFramework.Infrastructure.ObjectId
import Mathlib.Logic.Equiv.Basic

/-!
# Encryption of strings

`Md5Encrypt` encodes a string in UTF-8, encrypts the bytes with DES and writes them in hexadecimal;
`Md5Decrypt` goes the way back, but reads the decrypted bytes as ASCII. The hexadecimal text is read
back (`readPairs_formatBytes`), the cipher is the runtime's, and so a string comes back exactly if
all its characters are ASCII (`roundTrips_iff`).

A well-formed string is given by its characters, keys and hexadecimal text by their code units.
-/

namespace IFramework.Infrastructure.Md5

inductive CipherMode where
  | cbc
  | ecb
  | ofb
  | cfb
  | cts
  deriving DecidableEq

/-- The implementation of DES that `DES.Create` gives: which modes and keys it accepts, and what it
makes of bytes with a key and an initialization vector; `none` where decryption throws. With the
same key and vector, decryption inverts encryption. -/
structure Des where
  acceptsMode : CipherMode → Bool
  acceptsKey : List UInt8 → Bool
  encrypt : CipherMode → List UInt8 → List UInt8 → List UInt8 → List UInt8
  decrypt : CipherMode → List UInt8 → List UInt8 → List UInt8 → Option (List UInt8)
  decrypt_encrypt : ∀ mode key bytes, acceptsMode mode → acceptsKey key →
    decrypt mode key key (encrypt mode key key bytes) = some bytes

inductive Md5Exception where
  | cryptographicException
  | convertException (exception : ConvertException)
  deriving DecidableEq

/-! ## Encodings -/

/-- `Encoding.Default.GetBytes`. -/
def defaultGetBytes (s : List Char) : List UInt8 := s.flatMap String.utf8EncodeChar

/-- `Encoding.ASCII.GetBytes`. -/
def asciiGetBytes (s : Text) : List UInt8 :=
  s.map fun c => if c < 0x80 then c.toUInt8 else (unit '?').toUInt8

/-- `Encoding.ASCII.GetString`. -/
def asciiGetString (bytes : List UInt8) : List Char :=
  bytes.map fun b => if b < 0x80 then Char.ofNat b.toNat else '?'

/-- `AppendFormat("{0:X2}", b)` for each byte. -/
def formatBytes (bytes : List UInt8) : Text :=
  bytes.flatMap fun b => [(toX2 b.toNat).1, (toX2 b.toNat).2]

/-- `Convert.ToInt32(value, 16)`. -/
def convertToInt32 (value : Text) : Except ConvertException Nat :=
  match value with
  | [] => .error .argumentOutOfRangeException
  | c :: rest =>
    if c = unit '-' then .error .argumentException
    else
      let s := skipPrefix (if c = unit '+' then rest else value)
      match grabInts 0 s with
      | .error e => .error e
      | .ok (result, junk) =>
        if junk.length = s.length then .error .formatException
        else if junk ≠ [] then .error .formatException
        else .ok result

/-- The loop over the pairs of characters; a last single character is not read. -/
def readPairs : Text → Except ConvertException (List UInt8)
  | c₀ :: c₁ :: rest => do
    let i ← convertToInt32 [c₀, c₁]
    let bytes ← readPairs rest
    return UInt8.ofNat i :: bytes
  | _ => .ok []

section Encrypt

variable (des : Des)

/-- `Md5Encrypt`. -/
def md5Encrypt (pToEncrypt : List Char) (mode : CipherMode) (key : Text) :
    Except Md5Exception Text :=
  if des.acceptsMode mode && des.acceptsKey (asciiGetBytes key) then
    .ok (formatBytes
      (des.encrypt mode (asciiGetBytes key) (asciiGetBytes key) (defaultGetBytes pToEncrypt)))
  else .error .cryptographicException

/-- `Md5Decrypt`. -/
def md5Decrypt (pToDecrypt : Text) (mode : CipherMode) (key : Text) :
    Except Md5Exception (List Char) :=
  if des.acceptsMode mode then
    match readPairs pToDecrypt with
    | .error e => .error (.convertException e)
    | .ok inputByteArray =>
      if des.acceptsKey (asciiGetBytes key) then
        match des.decrypt mode (asciiGetBytes key) (asciiGetBytes key) inputByteArray with
        | none => .error .cryptographicException
        | some bytes => .ok (asciiGetString bytes)
      else .error .cryptographicException
  else .error .cryptographicException

/-- `Md5Decrypt` undoes `Md5Encrypt`. -/
def RoundTrips (s : List Char) (mode : CipherMode) (key : Text) : Prop :=
  ∃ encrypted, md5Encrypt des s mode key = .ok encrypted ∧
    md5Decrypt des encrypted mode key = .ok s

end Encrypt

/-! ## The stages -/

theorem formatBytes_eq (bytes : List UInt8) : formatBytes bytes = toHexString bytes := by
  induction bytes with
  | nil => rfl
  | cons b bytes ih =>
    rw [toHexString_cons, ← ih]
    rfl

/-- `Convert.ToByte` converts as `Convert.ToInt32` does, and then checks the range. -/
theorem convertToInt32_of_convertToByte {value : Text} {b : UInt8}
    (h : convertToByte value = .ok b) :
    ∃ i, convertToInt32 value = .ok i ∧ UInt8.ofNat i = b := by
  cases value with
  | nil => cases h
  | cons c rest =>
    simp only [convertToByte] at h
    simp only [convertToInt32]
    split at h
    · cases h
    · next hminus =>
      rw [if_neg hminus]
      generalize skipPrefix (if c = unit '+' then rest else c :: rest) = digits at h ⊢
      cases hgrab : grabInts 0 digits with
      | error e =>
        rw [hgrab] at h
        cases h
      | ok grabbed =>
        obtain ⟨result, junk⟩ := grabbed
        rw [hgrab] at h
        simp only at h
        split at h
        · cases h
        · next hdigits =>
          split at h
          · cases h
          · next hjunk =>
            split at h
            · cases h
            · cases h
              exact ⟨result, by simp only [if_neg hdigits, if_neg hjunk], rfl⟩

theorem readPairs_toHexString (bytes : List UInt8) : readPairs (toHexString bytes) = .ok bytes := by
  induction bytes with
  | nil => rfl
  | cons b bytes ih =>
    obtain ⟨i, hi, hvalue⟩ := convertToInt32_of_convertToByte (convertToByte_hexDigits b)
    rw [toHexString_cons, readPairs, hi, ih]
    exact congrArg (fun b => Except.ok (b :: bytes)) hvalue

theorem readPairs_formatBytes (bytes : List UInt8) : readPairs (formatBytes bytes) = .ok bytes := by
  rw [formatBytes_eq, readPairs_toHexString]

theorem toNat_ofNat_of_lt {n : Nat} (h : n < 128) : (Char.ofNat n).toNat = n := by
  have hall : ∀ n : Fin 128, (Char.ofNat n.val).toNat = n.val := by decide
  exact hall ⟨n, h⟩

theorem asciiGetString_lt (bytes : List UInt8) : ∀ c ∈ asciiGetString bytes, c.toNat < 128 := by
  intro c hc
  obtain ⟨b, -, rfl⟩ := List.mem_map.1 hc
  split
  · next hb =>
    have hlt : b.toNat < 128 := UInt8.lt_iff_toNat_lt.1 hb
    rw [toNat_ofNat_of_lt hlt]
    exact hlt
  · decide

/-- An ASCII character is encoded in one byte, which is read as that character. -/
theorem asciiGetString_utf8EncodeChar {c : Char} (h : c.toNat < 128) :
    asciiGetString (String.utf8EncodeChar c) = [c] := by
  have hc : c.val.toNat < 128 := h
  have hsize : c.utf8Size = 1 :=
    Char.utf8Size_eq_one_iff.2 (UInt32.le_iff_toNat_le.2 (Nat.le_of_lt_succ hc))
  have hval : c.val.toUInt8.toNat = c.toNat := by
    rw [UInt32.toNat_toUInt8]
    exact Nat.mod_eq_of_lt (Nat.lt_trans hc (by decide))
  have hlt : c.val.toUInt8 < 0x80 := UInt8.lt_iff_toNat_lt.2 (by rw [hval]; exact h)
  rw [String.utf8EncodeChar_eq_singleton hsize, asciiGetString, List.map_singleton, if_pos hlt, hval,
    Char.ofNat_toNat]

theorem asciiGetString_defaultGetBytes {s : List Char} (h : ∀ c ∈ s, c.toNat < 128) :
    asciiGetString (defaultGetBytes s) = s := by
  induction s with
  | nil => rfl
  | cons c s ih =>
    obtain ⟨hc, hs⟩ := List.forall_mem_cons.1 h
    have hrest : asciiGetString (s.flatMap String.utf8EncodeChar) = s := ih hs
    rw [defaultGetBytes, List.flatMap_cons, asciiGetString, List.map_append]
    exact congrArg₂ (· ++ ·) (asciiGetString_utf8EncodeChar hc) hrest

variable {des : Des} {s : List Char} {mode : CipherMode} {key : Text}

theorem md5Decrypt_md5Encrypt (hmode : des.acceptsMode mode)
    (hkey : des.acceptsKey (asciiGetBytes key)) :
    ∃ encrypted, md5Encrypt des s mode key = .ok encrypted ∧
      md5Decrypt des encrypted mode key = .ok (asciiGetString (defaultGetBytes s)) := by
  refine ⟨_, if_pos (by rw [hmode, hkey]; rfl), ?_⟩
  simp only [md5Decrypt, if_pos hmode, readPairs_formatBytes, if_pos hkey,
    des.decrypt_encrypt _ _ _ hmode hkey]

/-- A string comes back exactly if all its characters are ASCII. -/
theorem roundTrips_iff (s : List Char) (hmode : des.acceptsMode mode)
    (hkey : des.acceptsKey (asciiGetBytes key)) :
    RoundTrips des s mode key ↔ ∀ c ∈ s, c.toNat < 128 := by
  obtain ⟨encrypted, hencrypt, hdecrypt⟩ := md5Decrypt_md5Encrypt (s := s) hmode hkey
  constructor
  · rintro ⟨encrypted', hencrypt', hdecrypt'⟩
    rw [hencrypt] at hencrypt'
    cases hencrypt'
    rw [hdecrypt] at hdecrypt'
    have hs := Except.ok.inj hdecrypt'
    rw [← hs]
    exact asciiGetString_lt _
  · intro hascii
    rw [asciiGetString_defaultGetBytes hascii] at hdecrypt
    exact ⟨encrypted, hencrypt, hdecrypt⟩

/-- The blocks that DES in mode CBC with the key `12345678` makes of two strings, padded. -/
def sampleCipher : Equiv.Perm (List UInt8) :=
  Equiv.swap [0x61] [0x2D, 0xA1, 0x20, 0x34, 0xD1, 0x4D, 0x4E, 0x0B] *
    Equiv.swap [0xC3, 0xA9] [0x6F, 0x7A, 0xF6, 0x2A, 0xAB, 0x12, 0x27, 0xD4]

def sampleDes : Des where
  acceptsMode mode := mode = .cbc
  acceptsKey key := key = asciiGetBytes (text "12345678")
  encrypt _ _ _ := sampleCipher
  decrypt _ _ _ bytes := some (sampleCipher.symm bytes)
  decrypt_encrypt _ _ bytes _ _ := by rw [Equiv.symm_apply_apply]

theorem roundTrips_iff_sampleDes :
    md5Encrypt sampleDes ['a'] .cbc (text "12345678") = .ok (text "2DA12034D14D4E0B") ∧
      RoundTrips sampleDes ['a'] .cbc (text "12345678") :=
  ⟨by decide, (roundTrips_iff ['a'] (by decide) (by decide)).2
    (List.forall_mem_singleton.2 (by decide))⟩

/-- A letter with an accent comes back as two question marks. -/
theorem not_roundTrips_sampleDes :
    md5Encrypt sampleDes ['é'] .cbc (text "12345678") = .ok (text "6F7AF62AAB1227D4") ∧
      md5Decrypt sampleDes (text "6F7AF62AAB1227D4") .cbc (text "12345678") = .ok ['?', '?'] ∧
      ¬ RoundTrips sampleDes ['é'] .cbc (text "12345678") := by
  have hencrypt : md5Encrypt sampleDes ['é'] .cbc (text "12345678") =
      .ok (text "6F7AF62AAB1227D4") := by decide
  have hdecrypt : md5Decrypt sampleDes (text "6F7AF62AAB1227D4") .cbc (text "12345678") =
      .ok ['?', '?'] := by decide
  refine ⟨hencrypt, hdecrypt, ?_⟩
  rintro ⟨encrypted, hencrypt', hdecrypt'⟩
  rw [hencrypt] at hencrypt'
  cases hencrypt'
  rw [hdecrypt] at hdecrypt'
  cases hdecrypt'

end IFramework.Infrastructure.Md5
