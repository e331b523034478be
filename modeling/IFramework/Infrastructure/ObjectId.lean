import IFramework.Infrastructure.RadixEncoding
import IFramework.Theory.Int32Bytes

/-!
# Object ids

An `ObjectId` is a timestamp, a machine, a process id and an increment; the machine and the
increment have three bytes. `Pack` writes the four as twelve bytes and `Unpack` reads them, both
with shifts and casts of `int` and `short` that wrap. `ToString` writes the bytes in hexadecimal,
through a table with two characters for each byte.

`unpack_bytes` and `bytes_eq_take` say that the two are inverse to each other, and
`parseHexString_toHexString` that the hexadecimal text is read back.
-/

namespace IFramework.Infrastructure

open Int32Bytes

/-! ## Strings and exceptions -/

/-- A `string`: its UTF-16 code units. -/
abbrev Text := List UInt16

/-- The code unit of a character. -/
def unit (c : Char) : UInt16 := c.val.toUInt16

def text (s : String) : Text := s.toList.map unit

/-- What `Convert.ToByte` throws. -/
inductive ConvertException where
  | argumentOutOfRangeException
  | argumentException
  | formatException
  | overflowException
  deriving DecidableEq

inductive ObjectIdException where
  | argumentNullException (paramName : String)
  | argumentOutOfRangeException (paramName message : String)
  | formatException (message : Text)
  | convertException (exception : ConvertException)
  deriving DecidableEq

/-! ## Packing -/

/-- The check of a value that must fit in three bytes. -/
def checkFits (paramName message : String) (value : Int32) :
    Except ObjectIdException (PLift (FitsIn3Bytes value)) :=
  if h : value.toInt64 &&& 0xff000000 = 0 then .ok ⟨and_eq_zero_iff.1 h⟩
  else .error (.argumentOutOfRangeException paramName message)

def checkMachine (machine : Int32) : Except ObjectIdException (PLift (FitsIn3Bytes machine)) :=
  checkFits "machine" "The machine value must be between 0 and 16777215 (it must fit in 3 bytes)."
    machine

def checkIncrement (increment : Int32) :
    Except ObjectIdException (PLift (FitsIn3Bytes increment)) :=
  checkFits "increment"
    "The increment value must be between 0 and 16777215 (it must fit in 3 bytes)." increment

theorem checkFits_eq_ok {paramName message : String} {value : Int32} (h : FitsIn3Bytes value) :
    checkFits paramName message value = .ok ⟨h⟩ := dif_pos (and_eq_zero_iff.2 h)

/-- Packs the components of an `ObjectId` into a byte array. -/
def pack (timestamp machine : Int32) (pid : Int16) (increment : Int32) :
    Except ObjectIdException (List UInt8) := do
  let _ ← checkMachine machine
  let _ ← checkIncrement increment
  return [byte (timestamp >>> 24), byte (timestamp >>> 16), byte (timestamp >>> 8),
    byte timestamp, byte (machine >>> 16), byte (machine >>> 8), byte machine,
    byte (pid.toInt32 >>> 8), byte pid.toInt32, byte (increment >>> 16), byte (increment >>> 8),
    byte increment]

/-- Unpacks a byte array into the components of an `ObjectId`. Bytes behind the twelve are not
read. -/
def unpack (bytes : Option (List UInt8)) :
    Except ObjectIdException (Int32 × Int32 × Int16 × Int32) :=
  match bytes with
  | none => .error (.argumentNullException "bytes")
  | some (b₀ :: b₁ :: b₂ :: b₃ :: b₄ :: b₅ :: b₆ :: b₇ :: b₈ :: b₉ :: b₁₀ :: b₁₁ :: _) =>
    .ok ((ofByte b₀ <<< 24) + (ofByte b₁ <<< 16) + (ofByte b₂ <<< 8) + ofByte b₃,
      (ofByte b₄ <<< 16) + (ofByte b₅ <<< 8) + ofByte b₆,
      ((ofByte b₇ <<< 8) + ofByte b₈).toInt16,
      (ofByte b₉ <<< 16) + (ofByte b₁₀ <<< 8) + ofByte b₁₁)
  | some _ =>
    .error (.argumentOutOfRangeException "bytes" "Byte array must be larger 12 bytes long.")

theorem fitsIn3Bytes_of_unpack {bytes : Option (List UInt8)} {timestamp machine : Int32}
    {pid : Int16} {increment : Int32}
    (h : unpack bytes = .ok (timestamp, machine, pid, increment)) :
    FitsIn3Bytes machine ∧ FitsIn3Bytes increment := by
  unfold unpack at h
  split at h
  · cases h
  · cases h
    exact ⟨fitsIn3Bytes_word3 _ _ _, fitsIn3Bytes_word3 _ _ _⟩
  · cases h

/-! ## The type -/

/-- An id, which every constructor checks or makes to fit. -/
@[ext] structure ObjectId where
  timestamp : Int32
  machine : Int32
  pid : Int16
  increment : Int32
  machine_fits : FitsIn3Bytes machine
  increment_fits : FitsIn3Bytes increment
  deriving DecidableEq

namespace ObjectId

/-- `new ObjectId(timestamp, machine, pid, increment)`. -/
def new (timestamp machine : Int32) (pid : Int16) (increment : Int32) :
    Except ObjectIdException ObjectId := do
  let machine_fits ← checkMachine machine
  let increment_fits ← checkIncrement increment
  return ⟨timestamp, machine, pid, increment, machine_fits.down, increment_fits.down⟩

/-- `new ObjectId(bytes)`. -/
def ofBytes (bytes : Option (List UInt8)) : Except ObjectIdException ObjectId :=
  match h : unpack bytes with
  | .error e => .error e
  | .ok (timestamp, machine, pid, increment) =>
    .ok ⟨timestamp, machine, pid, increment, (fitsIn3Bytes_of_unpack h).1,
      (fitsIn3Bytes_of_unpack h).2⟩

/-- Converts the `ObjectId` to a byte array. -/
def toByteArray (x : ObjectId) : Except ObjectIdException (List UInt8) :=
  pack x.timestamp x.machine x.pid x.increment

theorem new_eq_ok {timestamp machine : Int32} {pid : Int16} {increment : Int32}
    (hm : FitsIn3Bytes machine) (hi : FitsIn3Bytes increment) :
    new timestamp machine pid increment = .ok ⟨timestamp, machine, pid, increment, hm, hi⟩ := by
  rw [new, checkMachine, checkIncrement, checkFits_eq_ok hm, checkFits_eq_ok hi]
  rfl

theorem ofBytes_eq_ok_iff {bytes : Option (List UInt8)} {x : ObjectId} :
    ofBytes bytes = .ok x ↔ unpack bytes = .ok (x.timestamp, x.machine, x.pid, x.increment) := by
  unfold ofBytes
  split
  next e he => simp [he]
  next timestamp machine pid increment he => simp [he, ObjectId.ext_iff]

/-! ## Packing and unpacking -/

/-- The twelve bytes of an id. -/
def bytes (x : ObjectId) : List UInt8 :=
  [byte (x.timestamp >>> 24), byte (x.timestamp >>> 16), byte (x.timestamp >>> 8),
    byte x.timestamp, byte (x.machine >>> 16), byte (x.machine >>> 8), byte x.machine,
    byte (x.pid.toInt32 >>> 8), byte x.pid.toInt32, byte (x.increment >>> 16),
    byte (x.increment >>> 8), byte x.increment]

theorem toByteArray_eq (x : ObjectId) : x.toByteArray = .ok x.bytes := by
  rw [toByteArray, pack, checkMachine, checkIncrement, checkFits_eq_ok x.machine_fits,
    checkFits_eq_ok x.increment_fits]
  rfl

end ObjectId

/-- The process id of two bytes has them as its bytes. -/
theorem bytes_toInt16_word2 (b₀ b₁ : UInt8) :
    byte (((ofByte b₀ <<< 8) + ofByte b₁).toInt16.toInt32 >>> 8) = b₀ ∧
      byte ((ofByte b₀ <<< 8) + ofByte b₁).toInt16.toInt32 = b₁ := by
  have hb₀ := b₀.toNat_lt
  have hb₁ := b₁.toNat_lt
  apply bytes_of_unsigned_word2
  rw [unsigned_toInt32, unsigned16_toInt16, unsigned_word2]
  omega

theorem ObjectId.unpack_bytes (x : ObjectId) :
    unpack (some x.bytes) = .ok (x.timestamp, x.machine, x.pid, x.increment) := by
  rw [ObjectId.bytes, unpack, word4_byte, word3_byte x.machine_fits, word2_byte,
    word3_byte x.increment_fits]

/-- What is unpacked is packed as the first twelve bytes. -/
theorem ObjectId.bytes_eq_take {bytes : List UInt8} {x : ObjectId}
    (h : unpack (some bytes) = .ok (x.timestamp, x.machine, x.pid, x.increment)) :
    x.bytes = bytes.take 12 := by
  obtain ⟨timestamp, machine, pid, increment, _, _⟩ := x
  unfold unpack at h
  split at h
  next => contradiction
  next b₀ b₁ b₂ b₃ b₄ b₅ b₆ b₇ b₈ b₉ b₁₀ b₁₁ _ heq =>
    cases heq
    simp only [Except.ok.injEq, Prod.mk.injEq] at h
    obtain ⟨rfl, rfl, rfl, rfl⟩ := h
    obtain ⟨ht₀, ht₁, ht₂, ht₃⟩ := bytes_of_unsigned_word4 (unsigned_word4 b₀ b₁ b₂ b₃)
    obtain ⟨hm₀, hm₁, hm₂⟩ := bytes_of_unsigned_word3 (unsigned_word3 b₄ b₅ b₆)
    obtain ⟨hp₀, hp₁⟩ := bytes_toInt16_word2 b₇ b₈
    obtain ⟨hi₀, hi₁, hi₂⟩ := bytes_of_unsigned_word3 (unsigned_word3 b₉ b₁₀ b₁₁)
    simp only [ObjectId.bytes, ht₀, ht₁, ht₂, ht₃, hm₀, hm₁, hm₂, hp₀, hp₁, hi₀, hi₁, hi₂,
      List.take_succ_cons, List.take_zero]
  next => cases h

theorem exists_ofBytes_eq_ok {bytes : List UInt8} (h : 12 ≤ bytes.length) :
    ∃ x, ObjectId.ofBytes (some bytes) = .ok x := by
  match bytes, h with
  | _ :: _ :: _ :: _ :: _ :: _ :: _ :: _ :: _ :: _ :: _ :: _ :: _, _ =>
    simp only [ObjectId.ofBytes_eq_ok_iff, unpack]
    exact ⟨⟨_, _, _, _, fitsIn3Bytes_word3 _ _ _, fitsIn3Bytes_word3 _ _ _⟩, rfl⟩

/-! ## Hexadecimal text -/

def hexDigit (d : Nat) : UInt16 :=
  if d < 10 then unit '0' + UInt16.ofNat d else unit 'A' + UInt16.ofNat (d - 10)

/-- The two characters of the format `"X2"`. -/
def toX2 (i : Nat) : UInt16 × UInt16 := (hexDigit (i / 16), hexDigit (i % 16))

/-- Both characters of each byte, packed into one number. -/
def createLookup32 : List UInt32 :=
  (List.range 256).map fun i =>
    let s := toX2 i
    s.1.toUInt32 + (s.2.toUInt32 <<< 16)

/-- Converts a byte array to a hex string. -/
def toHexString (bytes : List UInt8) : Text :=
  bytes.flatMap fun b =>
    let val := createLookup32.getD b.toNat 0
    [val.toUInt16, (val >>> 16).toUInt16]

/-- `IsDigit` for base 16. -/
def hexValue (c : UInt16) : Option Nat :=
  if unit '0' ≤ c ∧ c ≤ unit '9' then some (c.toNat - (unit '0').toNat)
  else if unit 'A' ≤ c ∧ c ≤ unit 'F' then some (c.toNat - (unit 'A').toNat + 10)
  else if unit 'a' ≤ c ∧ c ≤ unit 'f' then some (c.toNat - (unit 'a').toNat + 10)
  else none

/-- `GrabInts`: the digits up to the first other character, and what is left. -/
def grabInts (result : Nat) : Text → Except ConvertException (Nat × Text)
  | [] => .ok (result, [])
  | c :: s =>
    match hexValue c with
    | none => .ok (result, c :: s)
    | some value =>
      if 0x0fffffff < result then .error .overflowException
      else grabInts (result * 16 + value) s

/-- A prefix `0x` is passed over. -/
def skipPrefix : Text → Text
  | c₀ :: c₁ :: s =>
    if c₀ = unit '0' ∧ (c₁ = unit 'x' ∨ c₁ = unit 'X') then s else c₀ :: c₁ :: s
  | s => s

/-- `Convert.ToByte(value, 16)`: no minus sign, then an optional plus sign, an optional prefix, and
digits up to the end. -/
def convertToByte (value : Text) : Except ConvertException UInt8 :=
  match value with
  | [] => .error .argumentOutOfRangeException
  | c :: rest =>
    if c = unit '-' then .error .argumentException
    else
      let s := skipPrefix (if c = unit '+' then rest else value)
      match grabInts 0 s with
      | .error e => .error e
      | .ok (result, junk) =>
        if junk.length = s.length then .error .formatException
        else if junk ≠ [] then .error .formatException
        else if 255 < result then .error .overflowException
        else .ok (UInt8.ofNat result)

/-- The loop over the pairs of characters. A `FormatException` is thrown again with a message. -/
def parsePairs (s : Text) (position : Nat) : Text → Except ObjectIdException (List UInt8)
  | c₀ :: c₁ :: rest => do
    let b ←
      match convertToByte [c₀, c₁] with
      | .ok b => .ok b
      | .error .formatException =>
        .error (.formatException (text "Invalid hex string " ++ s ++
          text ". Problem with substring " ++ [c₀, c₁] ++ text " starting at position " ++
          text (toString position)))
      | .error e => .error (.convertException e)
    let bytes ← parsePairs s (position + 2) rest
    return b :: bytes
  | _ => .ok []

/-- Parses a hex string into its equivalent byte array. -/
def parseHexString (s : Option Text) : Except ObjectIdException (List UInt8) :=
  match s with
  | none => .error (.argumentNullException "s")
  | some s =>
    let s := if s.length % 2 ≠ 0 then unit '0' :: s else s
    parsePairs s 0 s

/-- Whatever is thrown is caught. -/
def tryParseHexString (s : Option Text) : Option (List UInt8) := (parseHexString s).toOption

namespace ObjectId

/-- `default(ObjectId)`. -/
def empty : ObjectId := ⟨0, 0, 0, 0, by decide, by decide⟩

/-- `new ObjectId(value)`. -/
def ofString (value : Option Text) : Except ObjectIdException ObjectId :=
  match value with
  | none => .error (.argumentNullException "value")
  | some _ => do
    let bytes ← parseHexString value
    ofBytes (some bytes)

/-- Tries to parse a string and create a new `ObjectId`. -/
def tryParse (s : Option Text) : Except ObjectIdException (Bool × ObjectId) :=
  match s with
  | none => .ok (false, empty)
  | some t =>
    if t.length = 24 then
      match tryParseHexString s with
      | none => .ok (false, empty)
      | some bytes => do
        let objectId ← ofBytes (some bytes)
        return (true, objectId)
    else .ok (false, empty)

/-- Parses a string and creates a new `ObjectId`. -/
def parse (s : Option Text) : Except ObjectIdException ObjectId :=
  match s with
  | none => .error (.argumentNullException "s")
  | some t => do
    let (success, objectId) ← tryParse s
    if success then return objectId
    throw (.formatException (text "'" ++ t ++ text "' is not a valid 24 digit hex string."))

/-- Returns a string representation of the value. -/
def toString (x : ObjectId) : Except ObjectIdException Text := do
  let bytes ← x.toByteArray
  return toHexString bytes

end ObjectId

/-! ## What the text is read as -/

theorem hexValue_hexDigit {d : Nat} (h : d < 16) : hexValue (hexDigit d) = some d := by
  have hall : ∀ d : Fin 16, hexValue (hexDigit d.val) = some d.val := by decide
  exact hall ⟨d, h⟩

theorem hexValue_lt {c : UInt16} {d : Nat} (h : hexValue c = some d) : d < 16 := by
  have h₀ : (unit '0').toNat = 48 ∧ (unit '9').toNat = 57 := by decide
  have hA : (unit 'A').toNat = 65 ∧ (unit 'F').toNat = 70 := by decide
  have ha : (unit 'a').toNat = 97 ∧ (unit 'f').toNat = 102 := by decide
  simp only [hexValue, UInt16.le_iff_toNat_le] at h
  split at h
  · cases h
    omega
  split at h
  · cases h
    omega
  split at h
  · cases h
    omega
  · cases h

/-- Two characters come out of the number that they are packed into. -/
theorem unpack_chars (c₀ c₁ : UInt16) :
    (c₀.toUInt32 + (c₁.toUInt32 <<< 16)).toUInt16 = c₀ ∧
      ((c₀.toUInt32 + (c₁.toUInt32 <<< 16)) >>> 16).toUInt16 = c₁ := by
  have h₀ := c₀.toNat_lt
  have h₁ := c₁.toNat_lt
  have hval : (c₀.toUInt32 + (c₁.toUInt32 <<< 16)).toNat = c₀.toNat + c₁.toNat * 2 ^ 16 := by
    simp [Nat.shiftLeft_eq]
    omega
  constructor
  · apply UInt16.toNat_inj.1
    rw [UInt32.toNat_toUInt16, hval]
    omega
  · apply UInt16.toNat_inj.1
    have hshift : ((c₀.toUInt32 + (c₁.toUInt32 <<< 16)) >>> 16).toNat =
        (c₀.toNat + c₁.toNat * 2 ^ 16) / 2 ^ 16 := by
      rw [UInt32.toNat_shiftRight, hval]
      exact Nat.shiftRight_eq_div_pow _ _
    rw [UInt32.toNat_toUInt16, hshift]
    omega

theorem toHexString_cons (b : UInt8) (bytes : List UInt8) :
    toHexString (b :: bytes) =
      hexDigit (b.toNat / 16) :: hexDigit (b.toNat % 16) :: toHexString bytes := by
  have hval : createLookup32.getD b.toNat 0 =
      (hexDigit (b.toNat / 16)).toUInt32 + ((hexDigit (b.toNat % 16)).toUInt32 <<< 16) := by
    simp [createLookup32, toX2, b.toNat_lt]
  obtain ⟨h₀, h₁⟩ := unpack_chars (hexDigit (b.toNat / 16)) (hexDigit (b.toNat % 16))
  rw [toHexString, List.flatMap_cons, hval]
  simp only [h₀, h₁]
  rfl

theorem skipPrefix_cons {c₀ c₁ : UInt16} {s : Text} {d : Nat} (h : hexValue c₁ = some d) :
    skipPrefix (c₀ :: c₁ :: s) = c₀ :: c₁ :: s := by
  have hx : hexValue (unit 'x') = none ∧ hexValue (unit 'X') = none := by decide
  rw [skipPrefix, if_neg]
  rintro ⟨-, rfl | rfl⟩
  · rw [hx.1] at h
    cases h
  · rw [hx.2] at h
    cases h

theorem convertToByte_pair {c₀ c₁ : UInt16} {d₀ d₁ : Nat} (h₀ : hexValue c₀ = some d₀)
    (h₁ : hexValue c₁ = some d₁) : convertToByte [c₀, c₁] = .ok (UInt8.ofNat (d₀ * 16 + d₁)) := by
  have hsign : hexValue (unit '-') = none ∧ hexValue (unit '+') = none := by decide
  have hminus : c₀ ≠ unit '-' := by
    rintro rfl
    rw [hsign.1] at h₀
    cases h₀
  have hplus : c₀ ≠ unit '+' := by
    rintro rfl
    rw [hsign.2] at h₀
    cases h₀
  have hd₀ := hexValue_lt h₀
  have hd₁ := hexValue_lt h₁
  have hgrab : grabInts 0 [c₀, c₁] = .ok (d₀ * 16 + d₁, []) := by
    simp [grabInts, h₀, h₁]
    omega
  have hfit : ¬ 255 < d₀ * 16 + d₁ := by omega
  simp [convertToByte, hminus, hplus, skipPrefix_cons h₁, hgrab, hfit]

/-- The two digits of a byte. -/
theorem convertToByte_hexDigits (b : UInt8) :
    convertToByte [hexDigit (b.toNat / 16), hexDigit (b.toNat % 16)] = .ok b := by
  have hb := b.toNat_lt
  rw [convertToByte_pair (hexValue_hexDigit (by omega : b.toNat / 16 < 16))
    (hexValue_hexDigit (by omega : b.toNat % 16 < 16)), Nat.div_add_mod', UInt8.ofNat_toNat]

theorem parsePairs_toHexString (s : Text) (position : Nat) (bytes : List UInt8) :
    parsePairs s position (toHexString bytes) = .ok bytes := by
  induction bytes generalizing position with
  | nil => rfl
  | cons b bytes ih =>
    rw [toHexString_cons, parsePairs, convertToByte_hexDigits, ih]
    rfl

theorem length_toHexString (bytes : List UInt8) :
    (toHexString bytes).length = 2 * bytes.length := by
  induction bytes with
  | nil => rfl
  | cons b bytes ih =>
    rw [toHexString_cons, List.length_cons, List.length_cons, ih, List.length_cons]
    omega

theorem parseHexString_toHexString (bytes : List UInt8) :
    parseHexString (some (toHexString bytes)) = .ok bytes := by
  rw [parseHexString, if_neg, parsePairs_toHexString]
  rw [length_toHexString]
  omega

namespace ObjectId

theorem ofBytes_bytes (x : ObjectId) : ofBytes (some x.bytes) = .ok x :=
  ofBytes_eq_ok_iff.2 x.unpack_bytes

theorem toString_eq (x : ObjectId) : x.toString = .ok (toHexString x.bytes) := by
  rw [toString, toByteArray_eq]
  rfl

theorem ofString_toHexString (x : ObjectId) : ofString (some (toHexString x.bytes)) = .ok x := by
  rw [ofString, parseHexString_toHexString]
  exact x.ofBytes_bytes

theorem parse_toHexString (x : ObjectId) : parse (some (toHexString x.bytes)) = .ok x := by
  have hlen : (toHexString x.bytes).length = 24 := length_toHexString x.bytes
  have htry : tryParseHexString (some (toHexString x.bytes)) = some x.bytes := by
    rw [tryParseHexString, parseHexString_toHexString]
    rfl
  simp only [parse, tryParse, if_pos hlen, htry, ofBytes_bytes]
  rfl

/-- The binary and the hexadecimal format of an id give it back. -/
theorem round_trip :
    (∀ timestamp machine pid increment, FitsIn3Bytes machine → FitsIn3Bytes increment →
      ∃ bytes, pack timestamp machine pid increment = .ok bytes ∧
        unpack (some bytes) = .ok (timestamp, machine, pid, increment)) ∧
    (∀ bytes : List UInt8, bytes.length = 12 →
      ∃ timestamp machine pid increment,
        unpack (some bytes) = .ok (timestamp, machine, pid, increment) ∧
          pack timestamp machine pid increment = .ok bytes) ∧
    ∀ x : ObjectId,
      (∃ s, x.toString = .ok s ∧ parse (some s) = .ok x ∧ ofString (some s) = .ok x) ∧
        ∃ bytes, x.toByteArray = .ok bytes ∧ ofBytes (some bytes) = .ok x := by
  refine ⟨?_, ?_, ?_⟩
  · intro timestamp machine pid increment hm hi
    exact ⟨_, toByteArray_eq ⟨timestamp, machine, pid, increment, hm, hi⟩, unpack_bytes _⟩
  · intro bytes hlen
    obtain ⟨x, hx⟩ := exists_ofBytes_eq_ok (Nat.le_of_eq hlen.symm)
    have hunpack := ofBytes_eq_ok_iff.1 hx
    have hbytes : x.bytes = bytes := by
      rw [bytes_eq_take hunpack, ← hlen, List.take_length]
    exact ⟨x.timestamp, x.machine, x.pid, x.increment, hunpack, hbytes ▸ x.toByteArray_eq⟩
  · intro x
    exact ⟨⟨_, x.toString_eq, x.parse_toHexString, x.ofString_toHexString⟩,
      _, x.toByteArray_eq, x.ofBytes_bytes⟩

theorem round_trip_negative :
    ∃ bytes, pack (-5) 0xabcdef (-1) 0x123456 = .ok bytes ∧
      unpack (some bytes) = .ok (-5, 0xabcdef, -1, 0x123456) :=
  round_trip.1 (-5) 0xabcdef (-1) 0x123456 (by decide) (by decide)

end ObjectId

end IFramework.Infrastructure
