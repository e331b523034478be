import Mathlib.Logic.Function.Basic

/-!
# Folds that append, clear and overwrite

A state is changed by a list of actions. An observation of the state is a queue when each action
either appends to it or clears it first, and a register when each action either overwrites it or
leaves it alone. What the actions make of a queue or a register is then the same from every state,
up to what they take over from it.

A table that is changed by assignments holds, under a key, the value of the last assignment to it
(`assignAll_of_last`).
-/

namespace Accumulate

variable {σ α β : Type*} {step : σ → α → σ}

/-- Each action appends `out` to the queue, after clearing it if `clears`. -/
def IsQueue (step : σ → α → σ) (queue : σ → List β) (clears : α → Bool) (out : α → List β) :
    Prop :=
  ∀ s a, queue (step s a) = (if clears a then [] else queue s) ++ out a

/-- Each action writes `value` into the register if `sets`, and keeps it otherwise. -/
def IsRegister (step : σ → α → σ) (register : σ → β) (sets : α → Bool) (value : α → β) : Prop :=
  ∀ s a, register (step s a) = if sets a then value a else register s

/-- Actions that do not clear a queue keep what is in it; behind that stands what they put into an
empty one. -/
theorem IsQueue.foldl {queue : σ → List β} {clears : α → Bool} {out : α → List β}
    (h : IsQueue step queue clears out) {empty : σ} (hempty : queue empty = []) (as : List α)
    (s : σ) :
    queue (as.foldl step s) =
      (if as.any clears then [] else queue s) ++ queue (as.foldl step empty) := by
  induction as generalizing s with
  | nil => simp [hempty]
  | cons a as ih =>
    rw [List.foldl_cons, List.foldl_cons, ih (step s a), ih (step empty a), h s a, h empty a,
      List.any_cons, hempty]
    cases clears a <;> cases as.any clears <;> simp

/-- The register holds what the actions have written, if they have. -/
theorem IsRegister.foldl {register : σ → β} {sets : α → Bool} {value : α → β}
    (h : IsRegister step register sets value) (as : List α) (s t : σ) :
    register (as.foldl step s) =
      if as.any sets then register (as.foldl step t) else register s := by
  induction as generalizing s t with
  | nil => simp
  | cons a as ih =>
    rw [List.foldl_cons, List.foldl_cons, ih (step s a) (step t a), h s a, List.any_cons]
    cases hsets : sets a with
    | false => simp
    | true =>
      cases hany : as.any sets with
      | true => simp
      | false =>
        have hkept := ih (step t a) s
        rw [hany, h t a, hsets] at hkept
        simpa using hkept.symm

/-! ## Assignments -/

section Assignments

variable {κ ν : Type*} [DecidableEq κ] {f : κ → ν} {ws : List (κ × ν)} {k : κ} {v : ν}

/-- The table after these assignments. -/
def assignAll (f : κ → ν) (ws : List (κ × ν)) : κ → ν :=
  ws.foldl (fun f w => Function.update f w.1 w.2) f

@[simp] theorem assignAll_nil : assignAll f [] = f := rfl

@[simp] theorem assignAll_cons (w : κ × ν) :
    assignAll f (w :: ws) = assignAll (Function.update f w.1 w.2) ws := rfl

theorem assignAll_append (ws' : List (κ × ν)) :
    assignAll f (ws ++ ws') = assignAll (assignAll f ws) ws' :=
  List.foldl_append

theorem assignAll_of_absent (h : ∀ w ∈ ws, w.1 ≠ k) : assignAll f ws k = f k := by
  induction ws generalizing f with
  | nil => rfl
  | cons w ws ih =>
    rw [assignAll_cons, ih fun w' hw' => h w' (List.mem_cons_of_mem w hw'),
      Function.update_of_ne (h w List.mem_cons_self).symm]

theorem assignAll_of_last {post : List (κ × ν)} (h : ∀ w ∈ post, w.1 ≠ k) :
    assignAll f (ws ++ (k, v) :: post) k = v := by
  rw [assignAll_append, assignAll_cons, assignAll_of_absent h, Function.update_self]

/-- A key is not assigned, or it has a last assignment. -/
theorem absent_or_last (ws : List (κ × ν)) (k : κ) :
    (∀ w ∈ ws, w.1 ≠ k) ∨ ∃ pre v post, ws = pre ++ (k, v) :: post ∧ ∀ w ∈ post, w.1 ≠ k := by
  induction ws with
  | nil => exact .inl (by simp)
  | cons w ws ih =>
    rcases ih with habsent | ⟨pre, v, post, rfl, hpost⟩
    · by_cases hk : w.1 = k
      · exact .inr ⟨[], w.2, ws, by simp [← hk], habsent⟩
      · exact .inl (by simpa [hk] using habsent)
    · exact .inr ⟨w :: pre, v, post, rfl, hpost⟩

end Assignments

end Accumulate
