import Mathlib.Data.List.Basic

/-!
# Tasks that are completed once

A task is pending until it is completed with a result, with an error, or by cancellation; of several
attempts to complete it the first one counts (`trySet`). `whenAll` joins tasks: it is pending while
one of them is, and has a result exactly when all of them have one (`whenAll_eq_result_iff`).
-/

/-- The state of a task. -/
inductive TaskStatus (ε α : Type*) where
  | pending
  | result (value : α)
  | faulted (error : ε)
  | canceled
  deriving DecidableEq, Repr

namespace TaskStatus

variable {ε α : Type*}

/-- The task has been completed. -/
def IsCompleted (t : TaskStatus ε α) : Prop := t ≠ pending

instance (t : TaskStatus ε α) : Decidable t.IsCompleted :=
  match t with
  | pending => isFalse (fun h => h rfl)
  | result _ => isTrue nofun
  | faulted _ => isTrue nofun
  | canceled => isTrue nofun

/-- Complete the task, unless it has been completed. -/
def trySet (t outcome : TaskStatus ε α) : TaskStatus ε α :=
  match t with
  | pending => outcome
  | t => t

@[simp] theorem trySet_pending (outcome : TaskStatus ε α) : pending.trySet outcome = outcome := rfl

theorem trySet_of_isCompleted {t : TaskStatus ε α} (h : t.IsCompleted)
    (outcome : TaskStatus ε α) : t.trySet outcome = t := by
  cases t with
  | pending => exact absurd rfl h
  | result value => rfl
  | faulted error => rfl
  | canceled => rfl

/-- After an attempt to complete it, a task is as it was, or it was pending and has the outcome. -/
theorem trySet_cases (t outcome : TaskStatus ε α) :
    (t = pending ∧ t.trySet outcome = outcome) ∨ (t ≠ pending ∧ t.trySet outcome = t) := by
  by_cases h : t = pending
  · subst h
    exact .inl ⟨rfl, rfl⟩
  · exact .inr ⟨h, trySet_of_isCompleted h outcome⟩

theorem isCompleted_trySet {t outcome : TaskStatus ε α} (h : outcome.IsCompleted) :
    (t.trySet outcome).IsCompleted := by
  rcases trySet_cases t outcome with ⟨-, heq⟩ | ⟨hne, heq⟩
  · rwa [heq]
  · rw [heq]
    exact hne

/-- The error of a task. -/
def error? : TaskStatus ε α → Option ε
  | faulted error => some error
  | _ => none

/-- The result of a task. -/
def result? : TaskStatus ε α → Option α
  | result value => some value
  | _ => none

/-- The task that joins these tasks: it is completed when all of them are, with the errors if there
are any, as cancelled if one of them was, and with the results in order otherwise. -/
def whenAll (ts : List (TaskStatus ε α)) : TaskStatus (List ε) (List α) :=
  if ts.all fun t => decide t.IsCompleted then
    if (ts.filterMap error?).isEmpty then
      if (ts.filterMap result?).length = ts.length then result (ts.filterMap result?) else canceled
    else faulted (ts.filterMap error?)
  else pending

variable {ts : List (TaskStatus ε α)}

theorem isCompleted_whenAll_iff : (whenAll ts).IsCompleted ↔ ∀ t ∈ ts, t.IsCompleted := by
  unfold whenAll
  split
  · next hall =>
    refine iff_of_true ?_ (by simpa using hall)
    split
    · split
      · exact nofun
      · exact nofun
    · exact nofun
  · next hall => exact iff_of_false (fun h => h rfl) (by simpa using hall)

/-- When there are as many results as tasks, each task has one. -/
theorem map_result_filterMap (h : (ts.filterMap result?).length = ts.length) :
    (ts.filterMap result?).map result = ts := by
  induction ts with
  | nil => rfl
  | cons t ts ih =>
    have hle := List.length_filterMap_le result? ts
    cases t with
    | result value =>
      simp only [List.filterMap_cons, result?, List.length_cons, List.map_cons] at h ⊢
      rw [ih (by omega)]
    | _ =>
      simp only [List.filterMap_cons, result?, List.length_cons] at h
      omega

/-- The joined task has a result exactly when each task has one; it is the list of them. -/
theorem whenAll_eq_result_iff {values : List α} :
    whenAll ts = result values ↔ ts = values.map result := by
  constructor
  · intro h
    unfold whenAll at h
    split at h
    · split at h
      · split at h
        · next hlength =>
          cases h
          exact (map_result_filterMap hlength).symm
        · cases h
      · cases h
    · cases h
  · rintro rfl
    have hcompleted : ((values.map (result : α → TaskStatus ε α)).all
        fun t => decide t.IsCompleted) = true := by
      simp [IsCompleted]
    have herror : (values.map (result : α → TaskStatus ε α)).filterMap error? = [] := by
      simp [List.filterMap_map, error?, Function.comp_def]
    have hresult : (values.map (result : α → TaskStatus ε α)).filterMap result? = values := by
      simp [List.filterMap_map, result?, Function.comp_def]
    unfold whenAll
    rw [if_pos hcompleted, herror, hresult]
    simp

end TaskStatus
