import Mathlib.Data.List.Basic
import Mathlib.Logic.Function.Basic

/-!
# Memo tables

A memo table keeps the value that `compute` found for an argument under the `key` of the argument,
and answers later arguments of this key with it; what fails is not kept. When keys may collide, the
table holds what was computed for the first argument of each key (`after_eq`), and an answer is the
computed one exactly when that first argument had the same value (`answer_eq_compute_iff`).
-/

namespace Memo

variable {α κ ε ν : Type*} [DecidableEq κ] (key : α → κ) (compute : α → Except ε ν)

/-- Answer from the table, or compute and keep the value. -/
def getOrAdd (table : κ → Option ν) (a : α) : Except ε ν × (κ → Option ν) :=
  match table (key a) with
  | some v => (.ok v, table)
  | none =>
    match compute a with
    | .ok v => (.ok v, Function.update table (key a) (some v))
    | .error x => (.error x, table)

/-- The answer to an argument. -/
def answer (table : κ → Option ν) (a : α) : Except ε ν := (getOrAdd key compute table a).1

/-- The table after it was asked for these arguments, empty at first. -/
def after (as : List α) : κ → Option ν :=
  as.foldl (fun table a => (getOrAdd key compute table a).2) fun _ => none

/-- The first argument of the key that has a value. -/
def firstOf (as : List α) (k : κ) : Option α :=
  as.find? fun a => decide (key a = k) && (compute a).isOk

theorem getOrAdd_snd_apply (table : κ → Option ν) (a : α) (k : κ) :
    (getOrAdd key compute table a).2 k =
      (table k).or (if key a = k then (compute a).toOption else none) := by
  unfold getOrAdd
  cases htable : table (key a) with
  | some v =>
    by_cases hk : key a = k
    · cases hk
      simp [htable]
    · simp [hk]
  | none =>
    cases hcompute : compute a with
    | ok v =>
      by_cases hk : key a = k
      · cases hk
        simp [htable, Except.toOption]
      · simp [hk, Ne.symm hk]
    | error x => simp [Except.toOption]

theorem firstOf_cons (a : α) (as : List α) (k : κ) :
    firstOf key compute (a :: as) k =
      if key a = k ∧ (compute a).isOk then some a else firstOf key compute as k := by
  unfold firstOf
  rw [List.find?_cons]
  by_cases h : key a = k ∧ (compute a).isOk
  · simp [h]
  · rw [if_neg h]
    split
    · simp_all
    · rfl

theorem after_eq (as : List α) (k : κ) :
    after key compute as k = (firstOf key compute as k).bind fun a => (compute a).toOption := by
  have hfold : ∀ table : κ → Option ν,
      as.foldl (fun table a => (getOrAdd key compute table a).2) table k =
        (table k).or ((firstOf key compute as k).bind fun a => (compute a).toOption) := by
    induction as with
    | nil => simp [firstOf]
    | cons a as ih =>
      intro table
      rw [List.foldl_cons, ih, getOrAdd_snd_apply, firstOf_cons, Option.or_assoc]
      by_cases hk : key a = k
      · cases hcompute : compute a with
        | ok v => simp [hk, hcompute, Except.toOption, Except.isOk, Except.toBool]
        | error x => simp [Except.toOption, Except.isOk, Except.toBool]
      · simp [hk]
  rw [after, hfold]
  rfl

theorem answer_eq (table : κ → Option ν) (a : α) :
    answer key compute table a = (table (key a)).elim (compute a) .ok := by
  unfold answer getOrAdd
  cases table (key a) with
  | some v => rfl
  | none => cases compute a <;> rfl

/-- The answer is the value of the argument exactly if the first argument of its key has it too. -/
theorem answer_eq_compute_iff (as : List α) (a : α) :
    answer key compute (after key compute as) a = compute a ↔
      ∀ a₀, firstOf key compute as (key a) = some a₀ → compute a₀ = compute a := by
  rw [answer_eq, after_eq]
  cases hfirst : firstOf key compute as (key a) with
  | none => simp
  | some a₀ =>
    have hok : (compute a₀).isOk = true := by
      have hfound := List.find?_some hfirst
      simp only [Bool.and_eq_true] at hfound
      exact hfound.2
    cases hcompute : compute a₀ with
    | ok v => simp [hcompute, Except.toOption]
    | error x => simp [hcompute, Except.isOk, Except.toBool] at hok

/-- Where the key tells the arguments apart, the answers are the values. -/
theorem answer_eq_compute_of_key {as : List α} {a : α}
    (h : ∀ a₀ ∈ as, key a₀ = key a → compute a₀ = compute a) :
    answer key compute (after key compute as) a = compute a := by
  rw [answer_eq_compute_iff]
  intro a₀ hfirst
  have hfound := List.find?_some hfirst
  simp only [Bool.and_eq_true, decide_eq_true_eq] at hfound
  exact h a₀ (List.mem_of_find?_eq_some hfirst) hfound.1

end Memo
