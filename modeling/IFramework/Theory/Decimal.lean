import Mathlib.Data.Int.Order.Lemmas
import Mathlib.Data.List.Basic
import Mathlib.Tactic.Ring

/-!
# Decimal numbers with 96 bits

A decimal number has a sign, a coefficient of 96 bits and a scale of at most 28 digits behind the
point. It is modelled by its value, an integer that counts `10^-28`. A sum that is no decimal number
is rounded, to the even neighbour if it lies in the middle, at the largest scale at which the
coefficient fits, and overflows if it fits at none. `round_eq_self_iff` says which integers are left
as they are.
-/

namespace Decimal

/-- The largest number of digits behind the point. -/
def maxScale : Nat := 28

/-- A bound of the coefficients. -/
def coefficientBound : Nat := 2 ^ 96

/-- The quotient, rounded to the nearest integer and in the middle to the even one. -/
def divHalfEven (n d : Int) : Int :=
  if 2 * (n % d) < d ∨ 2 * (n % d) = d ∧ n / d % 2 = 0 then n / d else n / d + 1

/-- The number without its last `k` digits, if its coefficient fits then. -/
def roundAt (n : Int) (k : Nat) : Option Int :=
  if (divHalfEven n (10 ^ k)).natAbs < coefficientBound then some (divHalfEven n (10 ^ k) * 10 ^ k)
  else none

/-- The number with as many digits as there is room for; `none` is an overflow. -/
def round (n : Int) : Option Int := (List.range (maxScale + 1)).findSome? (roundAt n)

def add (x y : Int) : Option Int := round (x + y)

def sub (x y : Int) : Option Int := round (x - y)

/-- The number has a coefficient that fits, at some scale. -/
def IsDecimal (n : Int) : Prop :=
  ∃ k ∈ List.range (maxScale + 1), (10 ^ k : Int) ∣ n ∧ (n / 10 ^ k).natAbs < coefficientBound

instance : DecidablePred IsDecimal := fun n =>
  inferInstanceAs (Decidable (∃ k ∈ List.range (maxScale + 1),
    (10 ^ k : Int) ∣ n ∧ (n / 10 ^ k).natAbs < coefficientBound))

theorem divHalfEven_of_dvd {n d : Int} (hd : 0 < d) (h : d ∣ n) : divHalfEven n d = n / d := by
  rw [divHalfEven, Int.emod_eq_zero_of_dvd h, if_pos]
  exact .inl (by omega)

/-- Where nothing is rounded, the number is left as it is. -/
theorem roundAt_of_dvd {n : Int} {k : Nat} (h : (10 ^ k : Int) ∣ n) :
    roundAt n k = if (n / 10 ^ k).natAbs < coefficientBound then some n else none := by
  have hpos : (0 : Int) < 10 ^ k := Int.pow_pos (by decide)
  rw [roundAt, divHalfEven_of_dvd hpos h, Int.ediv_mul_cancel h]

/-- What a rounded number is counted in. -/
theorem isDecimal_of_roundAt {n m : Int} {k : Nat} (hk : k ∈ List.range (maxScale + 1))
    (h : roundAt n k = some m) : IsDecimal m := by
  unfold roundAt at h
  split at h
  · next hfits =>
    cases h
    have hne : (10 ^ k : Int) ≠ 0 := Int.pow_ne_zero (by decide)
    refine ⟨k, hk, Int.dvd_mul_left _ _, ?_⟩
    rw [Int.mul_ediv_cancel _ hne]
    exact hfits
  · cases h

theorem isDecimal_of_round {n m : Int} (h : round n = some m) : IsDecimal m := by
  obtain ⟨k, hk, hround⟩ := List.exists_of_findSome?_eq_some h
  exact isDecimal_of_roundAt hk hround

/-- At a scale that has room for more digits than the number has, nothing is rounded. -/
theorem roundAt_of_le {n : Int} {j k : Nat} (hjk : j ≤ k) (h : (10 ^ k : Int) ∣ n) :
    roundAt n j = none ∨ roundAt n j = some n := by
  rw [roundAt_of_dvd ((pow_dvd_pow 10 hjk).trans h)]
  split
  · exact .inr rfl
  · exact .inl rfl

/-- A number is left as it is exactly if it is a decimal number. -/
theorem round_eq_self_iff {n : Int} : round n = some n ↔ IsDecimal n := by
  constructor
  · exact isDecimal_of_round
  · rintro ⟨k, hk, hdvd, hfits⟩
    have hround : roundAt n k = some n := by rw [roundAt_of_dvd hdvd, if_pos hfits]
    obtain ⟨m, hm⟩ : ∃ m, round n = some m := by
      rw [← Option.isSome_iff_exists, round, List.findSome?_isSome_iff]
      exact ⟨k, hk, by rw [hround]; rfl⟩
    obtain ⟨before, j, after, hrange, hj, hnone⟩ := List.findSome?_eq_some_iff.1 hm
    -- the first scale at which the number fits has room for all its digits
    have hjk : j ≤ k := by
      by_contra hlt
      have hkbefore : k ∈ before := by
        have hsorted : (List.range (maxScale + 1)).Pairwise (· < ·) := List.pairwise_lt_range
        rw [hrange] at hk hsorted
        rcases List.mem_append.1 hk with hk | hk
        · exact hk
        · have hle := (List.pairwise_cons.1 (List.pairwise_append.1 hsorted).2.1).1
          rcases List.mem_cons.1 hk with rfl | hk
          · omega
          · have := hle k hk
            omega
      rw [hnone k hkbefore] at hround
      cases hround
    rcases roundAt_of_le hjk hdvd with h | h
    · rw [h] at hj
      cases hj
    · rw [hm, ← hj, h]

theorem add_of_isDecimal {x y : Int} (h : IsDecimal (x + y)) : add x y = some (x + y) :=
  round_eq_self_iff.2 h

theorem sub_of_isDecimal {x y : Int} (h : IsDecimal (x - y)) : sub x y = some (x - y) :=
  round_eq_self_iff.2 h

/-- `1e28` less `0.4` is rounded to `1e28`. -/
example : sub (10 ^ 56) (4 * 10 ^ 27) = some (10 ^ 56) := by decide +kernel

/-- The largest number and one. -/
example : add ((2 ^ 96 - 1) * 10 ^ 28) (10 ^ 28) = none := by decide +kernel

end Decimal
