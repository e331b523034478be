import IFramework.Infrastructure.ObjectId

/-!
# Which texts are parsed as object ids

`Convert.ToByte` takes a plus sign in front of its digits, so a pair of a plus sign and a digit
counts as a byte. `TryParse`, and `Parse` with it, asks for 24 characters. `new ObjectId(string)`
asks for nothing: a digit in front makes the length even, and bytes behind the twelfth are dropped.
`parsersAgree_iff` says which texts all three take or refuse as they should.
-/

namespace IFramework.Infrastructure

/-- One of the characters `0` to `9`, `a` to `f` and `A` to `F`. -/
def IsHexDigit (c : UInt16) : Prop := c ∈ text "0123456789abcdefABCDEF"

instance (c : UInt16) : Decidable (IsHexDigit c) := inferInstanceAs (Decidable (c ∈ text _))

/-- The character in upper case. -/
def toUpper (c : UInt16) : UInt16 :=
  if unit 'a' ≤ c ∧ c ≤ unit 'z' then c - (unit 'a' - unit 'A') else c

/-- A text of digits, or with plus signs for the first digit of a pair. -/
def PairsAccepted : Text → Prop
  | c₀ :: c₁ :: rest => (IsHexDigit c₀ ∨ c₀ = unit '+') ∧ IsHexDigit c₁ ∧ PairsAccepted rest
  | [] => True
  | [_] => True

instance PairsAccepted.decidable : ∀ s, Decidable (PairsAccepted s)
  | c₀ :: c₁ :: rest =>
    have := PairsAccepted.decidable rest
    inferInstanceAs (Decidable ((IsHexDigit c₀ ∨ c₀ = unit '+') ∧ IsHexDigit c₁ ∧
      PairsAccepted rest))
  | [] => isTrue trivial
  | [_] => isTrue trivial

/-- The text with its length made even. -/
def evenText (s : Text) : Text := if s.length % 2 ≠ 0 then unit '0' :: s else s

/-- Exactly 24 digits. -/
def Is24HexDigits (s : Option Text) : Prop :=
  ∃ t, s = some t ∧ t.length = 24 ∧ ∀ c ∈ t, IsHexDigit c

/-- Twelve pairs or more. -/
def IsPairsOfAtLeast24 (s : Option Text) : Prop :=
  ∃ t, s = some t ∧ 24 ≤ (evenText t).length ∧ PairsAccepted (evenText t)

/-! ## Digits -/

theorem toNat_lt_of_hexValue {c : UInt16} {d : Nat} (h : hexValue c = some d) : c.toNat < 103 := by
  have hupper : (unit '9').toNat = 57 ∧ (unit 'F').toNat = 70 ∧ (unit 'f').toNat = 102 := by decide
  simp only [hexValue, UInt16.le_iff_toNat_le] at h
  split at h
  · omega
  split at h
  · omega
  split at h
  · omega
  · cases h

/-- What holds of the first code units holds of the digits. -/
theorem forall_hexValue {P : UInt16 → Nat → Prop}
    (hall : ∀ n : Fin 103, ∀ d : Fin 16, hexValue (UInt16.ofNat n) = some d.val →
      P (UInt16.ofNat n) d) {c : UInt16} {d : Nat} (h : hexValue c = some d) : P c d := by
  have hc := hall ⟨c.toNat, toNat_lt_of_hexValue h⟩ ⟨d, hexValue_lt h⟩
  rw [UInt16.ofNat_toNat] at hc
  exact hc h

theorem isHexDigit_iff {c : UInt16} : IsHexDigit c ↔ ∃ d, hexValue c = some d := by
  constructor
  · have hall : (text "0123456789abcdefABCDEF").all fun c => (hexValue c).isSome := by decide
    intro hc
    exact Option.isSome_iff_exists.1 (List.all_eq_true.1 hall c hc)
  · rintro ⟨d, hd⟩
    exact forall_hexValue (P := fun c _ => IsHexDigit c) (by decide +kernel) hd

theorem hexDigit_hexValue {c : UInt16} {d : Nat} (h : hexValue c = some d) :
    hexDigit d = toUpper c :=
  forall_hexValue (P := fun c d => hexDigit d = toUpper c) (by decide +kernel) h

/-! ## Pairs of characters -/

theorem convertToByte_plus {c : UInt16} {d : Nat} (h : hexValue c = some d) :
    convertToByte [unit '+', c] = .ok (UInt8.ofNat d) := by
  have hminus : unit '+' ≠ unit '-' := by decide
  have hgrab : grabInts 0 [c] = .ok (d, []) := by simp [grabInts, h]
  have hfit : ¬ 255 < d := by
    have hd := hexValue_lt h
    omega
  simp [convertToByte, hminus, skipPrefix, hgrab, hfit]

theorem digits_of_grabInts {s : Text} {result value : Nat}
    (h : grabInts result s = .ok (value, [])) :
    ∀ c ∈ s, ∃ d, hexValue c = some d := by
  induction s generalizing result with
  | nil => simp
  | cons c s ih =>
    rw [grabInts] at h
    cases hd : hexValue c with
    | none =>
      simp only [hd] at h
      cases h
    | some d =>
      simp only [hd] at h
      split at h
      · cases h
      · exact List.forall_mem_cons.2 ⟨⟨d, hd⟩, ih h⟩

/-- What stands behind the sign and the prefix are digits, at least one. -/
theorem digits_of_convertToByte {c : UInt16} {rest : Text} {b : UInt8}
    (h : convertToByte (c :: rest) = .ok b) :
    skipPrefix (if c = unit '+' then rest else c :: rest) ≠ [] ∧
      ∀ c' ∈ skipPrefix (if c = unit '+' then rest else c :: rest), ∃ d, hexValue c' = some d := by
  simp only [convertToByte] at h
  generalize skipPrefix (if c = unit '+' then rest else c :: rest) = s at h ⊢
  split at h
  · cases h
  split at h
  · cases h
  next result junk hgrab =>
    split at h
    · cases h
    split at h
    · cases h
    next hlen hjunk =>
      cases not_not.1 hjunk
      refine ⟨?_, digits_of_grabInts hgrab⟩
      rintro rfl
      exact hlen rfl

theorem exists_convertToByte_iff {c₀ c₁ : UInt16} :
    (∃ b, convertToByte [c₀, c₁] = .ok b) ↔
      (IsHexDigit c₀ ∨ c₀ = unit '+') ∧ IsHexDigit c₁ := by
  rw [isHexDigit_iff, isHexDigit_iff]
  constructor
  · rintro ⟨b, hb⟩
    obtain ⟨hne, hdigits⟩ := digits_of_convertToByte hb
    by_cases hplus : c₀ = unit '+'
    · rw [if_pos hplus] at hdigits
      exact ⟨.inr hplus, hdigits c₁ List.mem_cons_self⟩
    · rw [if_neg hplus, skipPrefix] at hne hdigits
      split at hdigits
      next hprefix => exact absurd (if_pos hprefix) hne
      next => exact ⟨.inl (hdigits c₀ (by simp)), hdigits c₁ (by simp)⟩
  · rintro ⟨⟨d₀, h₀⟩ | rfl, d₁, h₁⟩
    · exact ⟨_, convertToByte_pair h₀ h₁⟩
    · exact ⟨_, convertToByte_plus h₁⟩

theorem parsePairs_cons_eq_ok_iff {s rest : Text} {position : Nat} {c₀ c₁ : UInt16}
    {bytes : List UInt8} :
    parsePairs s position (c₀ :: c₁ :: rest) = .ok bytes ↔
      ∃ b tail, convertToByte [c₀, c₁] = .ok b ∧
        parsePairs s (position + 2) rest = .ok tail ∧ b :: tail = bytes := by
  rw [parsePairs]
  cases convertToByte [c₀, c₁] with
  | error e => cases e <;> simp [bind, Except.bind]
  | ok b => cases parsePairs s (position + 2) rest <;> simp [bind, Except.bind, pure, Except.pure]

theorem exists_parsePairs_iff {s t : Text} {position : Nat} :
    (∃ bytes, parsePairs s position t = .ok bytes) ↔ PairsAccepted t := by
  fun_induction PairsAccepted t generalizing position with
  | case1 c₀ c₁ rest ih =>
    rw [← and_assoc, ← exists_convertToByte_iff, ← @ih (position + 2)]
    simp only [parsePairs_cons_eq_ok_iff]
    constructor
    · rintro ⟨_, b, tail, hb, htail, -⟩
      exact ⟨⟨b, hb⟩, tail, htail⟩
    · rintro ⟨⟨b, hb⟩, tail, htail⟩
      exact ⟨b :: tail, b, tail, hb, htail, rfl⟩
  | case2 | case3 => exact iff_of_true ⟨[], rfl⟩ trivial

theorem length_parsePairs {s t : Text} {position : Nat} {bytes : List UInt8}
    (h : parsePairs s position t = .ok bytes) : bytes.length = t.length / 2 := by
  fun_induction PairsAccepted t generalizing position bytes with
  | case1 c₀ c₁ rest ih =>
    obtain ⟨b, tail, -, htail, rfl⟩ := parsePairs_cons_eq_ok_iff.1 h
    rw [List.length_cons, ih htail, List.length_cons, List.length_cons]
    omega
  | case2 =>
    cases h
    rfl
  | case3 =>
    cases h
    simp

/-- Digits are read as the bytes that are written as the same digits. -/
theorem toHexString_of_parsePairs {s t : Text} {position : Nat} {bytes : List UInt8}
    (heven : t.length % 2 = 0) (hdigits : ∀ c ∈ t, IsHexDigit c)
    (h : parsePairs s position t = .ok bytes) : toHexString bytes = t.map toUpper := by
  fun_induction PairsAccepted t generalizing position bytes with
  | case1 c₀ c₁ rest ih =>
    obtain ⟨b, tail, hb, htail, rfl⟩ := parsePairs_cons_eq_ok_iff.1 h
    obtain ⟨d₀, h₀⟩ := isHexDigit_iff.1 (hdigits c₀ (by simp))
    obtain ⟨d₁, h₁⟩ := isHexDigit_iff.1 (hdigits c₁ (by simp))
    have hlt₀ := hexValue_lt h₀
    have hlt₁ := hexValue_lt h₁
    rw [convertToByte_pair h₀ h₁] at hb
    cases hb
    have hval : (UInt8.ofNat (d₀ * 16 + d₁)).toNat = d₀ * 16 + d₁ :=
      UInt8.toNat_ofNat_of_lt' (by omega : d₀ * 16 + d₁ < 256)
    have hhigh : (d₀ * 16 + d₁) / 16 = d₀ := by omega
    have hlow : (d₀ * 16 + d₁) % 16 = d₁ := by omega
    have hrest : rest.length % 2 = 0 := by
      rw [List.length_cons, List.length_cons] at heven
      omega
    rw [toHexString_cons, hval, hhigh, hlow, hexDigit_hexValue h₀, hexDigit_hexValue h₁,
      ih hrest (fun c hc => hdigits c (by simp [hc])) htail, List.map_cons, List.map_cons]
  | case2 =>
    cases h
    rfl
  | case3 => simp at heven

theorem pairsAccepted_of_digits {t : Text} (h : ∀ c ∈ t, IsHexDigit c) : PairsAccepted t := by
  fun_induction PairsAccepted t with
  | case1 c₀ c₁ rest ih =>
    exact ⟨.inl (h c₀ (by simp)), h c₁ (by simp), ih fun c hc => h c (by simp [hc])⟩
  | case2 | case3 => trivial

/-! ## The three parsers -/

theorem parseHexString_some (t : Text) :
    parseHexString (some t) = parsePairs (evenText t) 0 (evenText t) := rfl

theorem length_evenText (t : Text) : (evenText t).length % 2 = 0 := by
  unfold evenText
  split
  · rw [List.length_cons]
    omega
  · omega

theorem evenText_of_even {t : Text} (h : t.length % 2 = 0) : evenText t = t :=
  if_neg (not_not.2 h)

theorem Is24HexDigits.isPairs {s : Option Text} (h : Is24HexDigits s) : IsPairsOfAtLeast24 s := by
  obtain ⟨t, rfl, hlen, hdigits⟩ := h
  have heven : evenText t = t := evenText_of_even (by omega)
  refine ⟨t, rfl, by rw [heven, hlen], ?_⟩
  rw [heven]
  exact pairsAccepted_of_digits hdigits

namespace ObjectId

theorem ofString_some_eq_ok_iff {t : Text} {x : ObjectId} :
    ofString (some t) = .ok x ↔
      ∃ bytes, parsePairs (evenText t) 0 (evenText t) = .ok bytes ∧
        ofBytes (some bytes) = .ok x := by
  rw [ofString, parseHexString_some]
  cases parsePairs (evenText t) 0 (evenText t) <;> simp [bind, Except.bind]

theorem length_of_ofBytes {bytes : List UInt8} {x : ObjectId}
    (h : ofBytes (some bytes) = .ok x) : 12 ≤ bytes.length := by
  have htake := congrArg List.length (bytes_eq_take (ofBytes_eq_ok_iff.1 h))
  have hlen : x.bytes.length = 12 := rfl
  rw [List.length_take, hlen] at htake
  omega

/-- `new ObjectId(string)` takes the texts of twelve pairs or more. -/
theorem exists_ofString_iff {s : Option Text} :
    (∃ x, ofString s = .ok x) ↔ IsPairsOfAtLeast24 s := by
  have heven := length_evenText
  cases s with
  | none => simp [ofString, IsPairsOfAtLeast24]
  | some t =>
    constructor
    · rintro ⟨x, hx⟩
      obtain ⟨bytes, hparse, hbytes⟩ := ofString_some_eq_ok_iff.1 hx
      have hlen := length_of_ofBytes hbytes
      rw [length_parsePairs hparse] at hlen
      exact ⟨t, rfl, by omega, exists_parsePairs_iff.1 ⟨bytes, hparse⟩⟩
    · rintro ⟨t', ht, hlen, hpairs⟩
      cases ht
      obtain ⟨bytes, hparse⟩ := exists_parsePairs_iff.2 hpairs
      have hbytes : 12 ≤ bytes.length := by
        rw [length_parsePairs hparse]
        omega
      obtain ⟨x, hx⟩ := exists_ofBytes_eq_ok hbytes
      exact ⟨x, ofString_some_eq_ok_iff.2 ⟨bytes, hparse, hx⟩⟩

/-- `TryParse` is the constructor on texts of 24 characters. -/
theorem tryParse_eq_ok_true_iff {s : Option Text} {x : ObjectId} :
    tryParse s = .ok (true, x) ↔ (∃ t, s = some t ∧ t.length = 24) ∧ ofString s = .ok x := by
  cases s with
  | none => simp [tryParse]
  | some t =>
    rw [tryParse, ofString]
    split
    next hlen =>
      rw [tryParseHexString]
      cases parseHexString (some t) with
      | error e => simp [Except.toOption, bind, Except.bind]
      | ok bytes =>
        cases hbytes : ofBytes (some bytes) <;>
          simp [Except.toOption, bind, Except.bind, pure, Except.pure, hlen, hbytes]
    next hlen => simp [hlen]

theorem parse_eq_ok_iff {s : Option Text} {x : ObjectId} :
    parse s = .ok x ↔ tryParse s = .ok (true, x) := by
  cases s with
  | none => simp [parse, tryParse]
  | some t =>
    rw [parse]
    cases tryParse (some t) with
    | error e => simp [bind, Except.bind]
    | ok result =>
      obtain ⟨success, objectId⟩ := result
      cases success <;> simp [bind, Except.bind, pure, Except.pure, throw, throwThe,
        MonadExceptOf.throw]

/-- 24 digits are read as the id that is written as the same digits. -/
theorem toString_of_ofString {t : Text} {x : ObjectId} (hlen : t.length = 24)
    (hdigits : ∀ c ∈ t, IsHexDigit c) (h : ofString (some t) = .ok x) :
    x.toString = .ok (t.map toUpper) := by
  have heven : t.length % 2 = 0 := by omega
  obtain ⟨bytes, hparse, hbytes⟩ := ofString_some_eq_ok_iff.1 h
  rw [evenText_of_even heven] at hparse
  have hcount : bytes.length = 12 := by rw [length_parsePairs hparse, hlen]
  have hx : x.bytes = bytes := by
    rw [bytes_eq_take (ofBytes_eq_ok_iff.1 hbytes), ← hcount, List.take_length]
  rw [toString_eq, hx, toHexString_of_parsePairs heven hdigits hparse]

/-- All three accept exactly the texts of 24 digits, give the same id, and the id is written as the
text is, up to case. -/
def ParsersAgree (s : Option Text) : Prop :=
  ((∃ x, tryParse s = .ok (true, x)) ↔ Is24HexDigits s) ∧
    ((∃ x, parse s = .ok x) ↔ Is24HexDigits s) ∧
    ((∃ x, ofString s = .ok x) ↔ Is24HexDigits s) ∧
    ∀ x y z, tryParse s = .ok (true, x) → parse s = .ok y → ofString s = .ok z →
      x = y ∧ y = z ∧ ∃ t, s = some t ∧ x.toString = .ok (t.map toUpper)

/-- The parsers agree on the texts of 24 digits, and on those that are not twelve pairs or more. -/
theorem parsersAgree_iff (s : Option Text) :
    ParsersAgree s ↔ Is24HexDigits s ∨ ¬ IsPairsOfAtLeast24 s := by
  constructor
  · rintro ⟨-, -, hctor, -⟩
    by_cases hpairs : IsPairsOfAtLeast24 s
    · exact .inl (hctor.1 (exists_ofString_iff.2 hpairs))
    · exact .inr hpairs
  · rintro (hdigits | hnone)
    · have h24 := hdigits
      obtain ⟨x, hx⟩ := exists_ofString_iff.2 hdigits.isPairs
      obtain ⟨t, rfl, hlen, hall⟩ := hdigits
      have htry : tryParse (some t) = .ok (true, x) :=
        tryParse_eq_ok_true_iff.2 ⟨⟨t, rfl, hlen⟩, hx⟩
      have hparse := parse_eq_ok_iff.2 htry
      refine ⟨iff_of_true ⟨x, htry⟩ h24, iff_of_true ⟨x, hparse⟩ h24, iff_of_true ⟨x, hx⟩ h24, ?_⟩
      intro x' y z hx' hy hz
      rw [htry] at hx'
      rw [hparse] at hy
      rw [hx] at hz
      cases hx'
      cases hy
      cases hz
      exact ⟨rfl, rfl, t, rfl, toString_of_ofString hlen hall hx⟩
    · have hdigits : ¬ Is24HexDigits s := fun h => hnone h.isPairs
      have hctor : ¬ ∃ x, ofString s = .ok x := fun h => hnone (exists_ofString_iff.1 h)
      have htry : ¬ ∃ x, tryParse s = .ok (true, x) := by
        rintro ⟨x, hx⟩
        exact hctor ⟨x, (tryParse_eq_ok_true_iff.1 hx).2⟩
      have hparse : ¬ ∃ x, parse s = .ok x := by
        rintro ⟨x, hx⟩
        exact htry ⟨x, parse_eq_ok_iff.1 hx⟩
      refine ⟨iff_of_false htry hdigits, iff_of_false hparse hdigits,
        iff_of_false hctor hdigits, ?_⟩
      intro x _ _ hx
      exact absurd ⟨x, hx⟩ htry

/-- A plus sign in place of a digit is accepted by all three. -/
theorem not_parsersAgree_plus :
    ¬ ParsersAgree (some (text "+00000000000000000000000")) := by
  rintro ⟨-, -, hctor, -⟩
  obtain ⟨t, ht, -, hdigits⟩ := hctor.1 (exists_ofString_iff.2 ⟨_, rfl, by decide, by decide⟩)
  cases ht
  exact absurd (hdigits (unit '+') (by decide)) (by decide)

end ObjectId

end IFramework.Infrastructure
