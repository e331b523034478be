import Mathlib.Order.Basic

/-!
# Loops that may not end

`doWhile body` runs `body` from a state until it throws or says that the loop is left. The number of
iterations is not known, so it takes fuel; `Returns body s r` says that the loop ends with `r`, for
some fuel and then for any larger one. What a loop does is proved from what one iteration does
(`returns_next`, `returns_done`), and that it ends from a measure (`returns_of_measure`).
-/

namespace Loop

variable {σ ε : Type*}

/-- `do … while`: the body returns the next state and whether the loop goes on. `none` when the
fuel is used up. -/
def doWhile (body : σ → Except ε (σ × Bool)) : Nat → σ → Option (Except ε σ)
  | 0, _ => none
  | fuel + 1, s =>
    match body s with
    | .error e => some (.error e)
    | .ok (s', true) => doWhile body fuel s'
    | .ok (s', false) => some (.ok s')

/-- The loop ends with this result. -/
def Returns (body : σ → Except ε (σ × Bool)) (s : σ) (r : Except ε σ) : Prop :=
  ∃ fuel, doWhile body fuel s = some r

variable {body : σ → Except ε (σ × Bool)} {s s' : σ} {r r' : Except ε σ}

/-- More fuel changes nothing once the loop has ended. -/
theorem doWhile_add {fuel : Nat} (h : doWhile body fuel s = some r) (k : Nat) :
    doWhile body (fuel + k) s = some r := by
  induction fuel generalizing s with
  | zero => cases h
  | succ fuel ih =>
    rw [Nat.succ_add]
    simp only [doWhile] at h ⊢
    split at h
    · exact h
    · exact ih h
    · exact h

theorem Returns.unique (h : Returns body s r) (h' : Returns body s r') : r = r' := by
  obtain ⟨fuel, hfuel⟩ := h
  obtain ⟨fuel', hfuel'⟩ := h'
  have heq := (doWhile_add hfuel fuel').symm.trans
    (Nat.add_comm fuel fuel' ▸ doWhile_add hfuel' fuel)
  exact Option.some.inj heq

theorem returns_error {e : ε} (h : body s = .error e) : Returns body s (.error e) :=
  ⟨1, by simp [doWhile, h]⟩

theorem returns_done (h : body s = .ok (s', false)) : Returns body s (.ok s') :=
  ⟨1, by simp [doWhile, h]⟩

theorem returns_next (h : body s = .ok (s', true)) (hr : Returns body s' r) :
    Returns body s r := by
  obtain ⟨fuel, hfuel⟩ := hr
  exact ⟨fuel + 1, by simpa [doWhile, h] using hfuel⟩

/-- A loop whose body keeps an invariant, does not throw, and makes a measure smaller whenever it
goes on, ends with a state that the last iteration has left. -/
theorem returns_of_measure (Inv Post : σ → Prop) (measure : σ → Nat)
    (hbody : ∀ s, Inv s → ∃ s' again, body s = .ok (s', again) ∧
      (again = true → Inv s' ∧ measure s' < measure s) ∧ (again = false → Post s'))
    (hs : Inv s) : ∃ s', Returns body s (.ok s') ∧ Post s' := by
  induction hn : measure s using Nat.strongRecOn generalizing s with
  | _ n ih =>
    obtain ⟨s', again, hstep, hnext, hpost⟩ := hbody s hs
    cases again with
    | false => exact ⟨s', returns_done hstep, hpost rfl⟩
    | true =>
      obtain ⟨hinv, hlt⟩ := hnext rfl
      obtain ⟨s'', hreturns, hs''⟩ := ih _ (hn ▸ hlt) hinv rfl
      exact ⟨s'', returns_next hstep hreturns, hs''⟩

end Loop
