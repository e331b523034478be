import Mathlib.Logic.Basic

/-!
# Recursive calls that may not end

A call changes a state and returns or throws; a recursive one gets the depth to which it may
recurse, and has no result when that is used up. `andThen_eq_some` says how a sequence of calls has
ended. `Finishes c s P` says that a call returns, from some depth on, in a state that meets `P`; it
has a rule for each way to build a call, and one for a level of the recursion.
-/

namespace Calls

/-- How a call ends. -/
inductive Outcome where
  | returned
  | threw
  deriving DecidableEq

/-- A call, `none` when the depth is used up. -/
abbrev Call (σ : Type*) := σ → Option (Outcome × σ)

section Definitions

variable {σ α : Type*}

/-- A call that does nothing. -/
def skip : Call σ := fun s => some (.returned, s)

/-- A call that throws. -/
def throw : Call σ := fun s => some (.threw, s)

/-- An assignment. -/
def update (f : σ → σ) : Call σ := fun s => some (.returned, f s)

/-- One call after the other, unless the first one throws. -/
def andThen (c d : Call σ) : Call σ := fun s =>
  match c s with
  | none => none
  | some (.threw, t) => some (.threw, t)
  | some (.returned, t) => d t

/-- `foreach`. -/
def forEach (body : α → Call σ) : List α → Call σ
  | [] => skip
  | a :: as => andThen (body a) (forEach body as)

/-- From some depth on, the call returns in a state that meets `P`. -/
def Finishes (c : Nat → Call σ) (s : σ) (P : σ → Prop) : Prop :=
  ∃ t, P t ∧ ∃ n, ∀ m, n ≤ m → c m s = some (.returned, t)

end Definitions

variable {σ α β : Type*} {c d : Call σ} {s t u : σ} {o : Outcome}

theorem andThen_eq_some :
    andThen c d s = some (o, t) ↔
      (c s = some (.threw, t) ∧ o = .threw) ∨
        ∃ u, c s = some (.returned, u) ∧ d u = some (o, t) := by
  unfold andThen
  rcases c s with _ | ⟨_ | _, u⟩ <;> simp [and_comm, eq_comm]

theorem andThen_of_returned (h : c s = some (.returned, t)) : andThen c d s = d t := by
  simp only [andThen, h]

theorem andThen_skip (c : Call σ) (s : σ) : andThen c skip s = c s := by
  unfold andThen
  rcases c s with _ | ⟨_ | _, t⟩ <;> rfl

theorem forEach_map (body : β → Call σ) (f : α → β) (as : List α) :
    forEach body (as.map f) = forEach (fun a => body (f a)) as := by
  induction as with
  | nil => rfl
  | cons a as ih => simp only [List.map_cons, forEach, ih]

/-! ## Calls that return -/

section Finishes

variable {P Q : σ → Prop} {f g : Nat → Call σ}

theorem Finishes.of_forall (h : ∀ n, f n s = some (.returned, t)) (ht : P t) : Finishes f s P :=
  ⟨t, ht, 0, fun m _ => h m⟩

theorem Finishes.mono (h : Finishes f s P) (hPQ : ∀ t, P t → Q t) : Finishes f s Q := by
  obtain ⟨t, ht, hn⟩ := h
  exact ⟨t, hPQ t ht, hn⟩

theorem Finishes.congr (heq : ∀ n, f n s = g n s) (h : Finishes g s P) : Finishes f s P := by
  obtain ⟨t, ht, n, hn⟩ := h
  exact ⟨t, ht, n, fun m hm => (heq m).trans (hn m hm)⟩

theorem Finishes.succ (h : Finishes (fun n => f (n + 1)) s P) : Finishes f s P := by
  obtain ⟨t, ht, n, hn⟩ := h
  refine ⟨t, ht, n + 1, ?_⟩
  intro m hm
  obtain ⟨k, rfl⟩ : ∃ k, m = k + 1 := ⟨m - 1, by omega⟩
  exact hn k (Nat.succ_le_succ_iff.1 hm)

theorem Finishes.andThen (hf : Finishes f s P) (hg : ∀ t, P t → Finishes g t Q) :
    Finishes (fun n => andThen (f n) (g n)) s Q := by
  obtain ⟨t, ht, n, hn⟩ := hf
  obtain ⟨u, hu, k, hk⟩ := hg t ht
  refine ⟨u, hu, max n k, ?_⟩
  intro m hm
  have hreturned := hn m (Nat.le_trans (Nat.le_max_left n k) hm)
  exact (andThen_of_returned hreturned).trans (hk m (Nat.le_trans (Nat.le_max_right n k) hm))

/-- A loop whose body always returns and keeps an invariant. -/
theorem Finishes.forEach {body : Nat → α → Call σ} {as : List α}
    (hbody : ∀ a ∈ as, ∀ s, P s → Finishes (fun n => body n a) s P) (hs : P s) :
    Finishes (fun n => forEach (body n) as) s P := by
  induction as generalizing s with
  | nil => exact Finishes.of_forall (fun _ => rfl) hs
  | cons a as ih =>
    obtain ⟨ha, has⟩ := List.forall_mem_cons.1 hbody
    exact (ha s hs).andThen fun t ht => ih has ht

/-- A call that has a result at one depth and returns from some depth on. -/
theorem Finishes.exists_eq (h : Finishes f s P) :
    ∃ n t, f n s = some (.returned, t) ∧ P t := by
  obtain ⟨t, ht, n, hn⟩ := h
  exact ⟨n, t, hn n (Nat.le_refl n), ht⟩

end Finishes

end Calls
