import Mathlib.Data.List.Induction
import Mathlib.Data.List.Nodup

/-!
# Unions of lists in order

`union xs ys` has the elements of `xs` and behind them those of `ys` that are new, each of them
once, where it stands first. What it keeps is the order of the first list: a list without duplicates
is a prefix of each of its unions (`prefix_union`), and of a union of several lists that begins with
it (`prefix_unionAll`).
-/

namespace ListUnion

variable {α : Type*} [DecidableEq α] {x : α} {xs ys : List α}

/-- The elements of both lists, each once. -/
def union (xs ys : List α) : List α := (xs ++ ys).eraseDups

/-- The union of these lists, taken one after the other. -/
def unionAll (xss : List (List α)) : List α := xss.foldl union []

theorem nodup_eraseDups (xs : List α) : xs.eraseDups.Nodup := by
  match xs with
  | [] => exact List.nodup_nil
  | x :: xs =>
    rw [List.eraseDups_cons, List.nodup_cons]
    exact ⟨by simp, nodup_eraseDups _⟩
termination_by xs.length
decreasing_by
  have hle := List.length_filter_le (fun y => !y == x) xs
  rw [List.length_cons]
  omega

theorem eraseDups_of_nodup (h : xs.Nodup) : xs.eraseDups = xs := by
  induction xs with
  | nil => rfl
  | cons x xs ih =>
    obtain ⟨hx, hxs⟩ := List.nodup_cons.1 h
    have hfilter : xs.filter (fun y => !y == x) = xs := by
      refine List.filter_eq_self.2 fun y hy => ?_
      have hne : y ≠ x := fun heq => hx (heq ▸ hy)
      simpa using hne
    rw [List.eraseDups_cons, hfilter, ih hxs]

theorem head?_eraseDups (xs : List α) : xs.eraseDups.head? = xs.head? := by
  cases xs with
  | nil => rfl
  | cons x xs => rw [List.eraseDups_cons, List.head?_cons, List.head?_cons]

theorem eraseDups_concat (xs : List α) (x : α) :
    (xs ++ [x]).eraseDups = if x ∈ xs then xs.eraseDups else xs.eraseDups ++ [x] := by
  rw [List.eraseDups_append]
  by_cases hx : x ∈ xs
  · simp [List.removeAll, hx]
  · simp [List.removeAll, hx, List.eraseDups_cons]

@[simp] theorem mem_union : x ∈ union xs ys ↔ x ∈ xs ∨ x ∈ ys := by
  simp [union]

theorem nodup_union (xs ys : List α) : (union xs ys).Nodup := nodup_eraseDups _

theorem prefix_union (h : xs.Nodup) (ys : List α) : xs <+: union xs ys := by
  rw [union, List.eraseDups_append, eraseDups_of_nodup h]
  exact List.prefix_append ..

theorem unionAll_concat (xss : List (List α)) (xs : List α) :
    unionAll (xss ++ [xs]) = union (unionAll xss) xs := by
  simp [unionAll]

theorem mem_unionAll {xss : List (List α)} : x ∈ unionAll xss ↔ ∃ xs ∈ xss, x ∈ xs := by
  induction xss using List.reverseRecOn with
  | nil => simp [unionAll]
  | append_singleton xss xs ih => simp [unionAll_concat, ih, or_and_right, exists_or]

theorem nodup_unionAll (xss : List (List α)) : (unionAll xss).Nodup := by
  induction xss using List.reverseRecOn with
  | nil => exact List.nodup_nil
  | append_singleton xss xs => exact unionAll_concat xss xs ▸ nodup_union _ _

/-- A union keeps the order of the first of its lists. -/
theorem prefix_unionAll (h : xs.Nodup) (xss : List (List α)) : xs <+: unionAll (xs :: xss) := by
  induction xss using List.reverseRecOn with
  | nil =>
    have hself : unionAll [xs] = xs := eraseDups_of_nodup h
    exact ⟨[], by rw [List.append_nil, hself]⟩
  | append_singleton xss ys ih =>
    rw [← List.cons_append, unionAll_concat]
    exact ih.trans (prefix_union (nodup_unionAll _) ys)

omit [DecidableEq α] in
theorem head?_prefix_eq (h : xs <+: ys) (hne : xs ≠ []) : ys.head? = xs.head? := by
  obtain ⟨zs, rfl⟩ := h
  exact List.head?_append_of_ne_nil xs hne

end ListUnion
