import Mathlib.Algebra.BigOperators.Group.List.Basic
import Mathlib.Algebra.Order.BigOperators.Group.List
import Mathlib.Data.List.AList
import Mathlib.Tactic.Abel

/-!
# Totals over a dictionary

`total f d` adds up `f` over the entries of an association list. Storing an entry changes the total
by the new value less the one it replaces (`total_insert_of_lookup`), removing one takes its value
away (`total_erase_of_lookup`).
-/

namespace AList

variable {α : Type*} {β : Type*} {M : Type*} [DecidableEq α]

/-- The sum of `f` over the entries. -/
def total [AddCommMonoid M] (f : α → β → M) (d : AList fun _ : α => β) : M :=
  (d.entries.map fun e => f e.1 e.2).sum

section AddCommMonoid

variable [AddCommMonoid M] (f : α → β → M)

omit [DecidableEq α] in
@[simp] theorem total_empty : total f ∅ = 0 := rfl

omit [DecidableEq α] in
@[simp] theorem total_zero {d : AList fun _ : α => β} : total (fun _ _ => (0 : M)) d = 0 := by
  simp [total]

theorem entries_erase (a : α) (d : AList fun _ : α => β) :
    (d.erase a).entries = d.entries.kerase a := rfl

theorem total_insert (a : α) (b : β) (d : AList fun _ : α => β) :
    total f (d.insert a b) = f a b + total f (d.erase a) := by
  simp [total, entries_erase]

theorem total_erase_of_lookup {a : α} {b : β} {d : AList fun _ : α => β}
    (h : d.lookup a = some b) : f a b + total f (d.erase a) = total f d := by
  have hkey : a ∈ d.entries.keys := mem_keys.1 (lookup_isSome.1 (by simp [h]))
  obtain ⟨b', l₁, l₂, -, hd, herase⟩ := List.exists_of_kerase hkey
  have hb' : d.lookup a = some b' := mem_lookup_iff.2 (by simp [hd])
  obtain rfl : b = b' := Option.some.inj (h.symm.trans hb')
  rw [total, total, entries_erase, herase, hd]
  simp only [List.map_append, List.map_cons, List.sum_append, List.sum_cons, add_left_comm]

theorem total_erase_of_lookup_none {a : α} {d : AList fun _ : α => β}
    (h : d.lookup a = none) : total f (d.erase a) = total f d := by
  have hkeys : a ∉ d.entries.keys := fun hmem => by
    have := lookup_isSome.2 (mem_keys.2 hmem)
    simp [h] at this
  simp [total, entries_erase, List.kerase_of_notMem_keys hkeys]

/-- A new entry adds its value. -/
theorem total_insert_of_lookup_none {a : α} {b : β} {d : AList fun _ : α => β}
    (h : d.lookup a = none) : total f (d.insert a b) = f a b + total f d := by
  rw [total_insert, total_erase_of_lookup_none f h]

theorem total_nonneg [PartialOrder M] [IsOrderedAddMonoid M] {f : α → β → M}
    {d : AList fun _ : α => β} (h : ∀ a b, d.lookup a = some b → 0 ≤ f a b) : 0 ≤ total f d :=
  List.sum_nonneg fun _ hx => by
    obtain ⟨e, he, rfl⟩ := List.mem_map.1 hx
    exact h e.1 e.2 (mem_lookup_iff.2 he)

theorem le_total_of_lookup [PartialOrder M] [IsOrderedAddMonoid M] {f : α → β → M}
    {d : AList fun _ : α => β} (h : ∀ a b, 0 ≤ f a b) {a : α} {b : β} (hb : d.lookup a = some b) :
    f a b ≤ total f d := by
  rw [← total_erase_of_lookup f hb]
  exact le_add_of_nonneg_right (total_nonneg fun a b _ => h a b)

/-- A total of equal values. -/
theorem total_congr {f g : α → β → M} {d : AList fun _ : α => β}
    (h : ∀ a b, d.lookup a = some b → f a b = g a b) : total f d = total g d := by
  unfold total
  congr 1
  exact List.map_congr_left fun e he => h e.1 e.2 (mem_lookup_iff.2 he)

theorem total_erase_congr {f g : α → β → M} {a : α} {d : AList fun _ : α => β}
    (h : ∀ a' b, a' ≠ a → d.lookup a' = some b → f a' b = g a' b) :
    total f (d.erase a) = total g (d.erase a) :=
  total_congr fun a' b hb => by
    by_cases ha : a' = a
    · rw [ha, lookup_erase] at hb
      cases hb
    · exact h a' b ha ((lookup_erase_ne ha).symm.trans hb)

end AddCommMonoid

/-- Two functions that differ at one key, and two dictionaries that differ at it. -/
theorem total_of_lookup_ne [AddCommGroup M] {f g : α → β → M} {a : α} {b b' : β}
    {d d' : AList fun _ : α => β} (hb : d.lookup a = some b) (hb' : d'.lookup a = some b')
    (hd : ∀ a', a' ≠ a → d'.lookup a' = d.lookup a')
    (h : ∀ a' b, a' ≠ a → d.lookup a' = some b → g a' b = f a' b) :
    total g d' = total f d + (g a b' - f a b) := by
  have hperm : (d'.erase a).entries.Perm (d.erase a).entries := by
    refine List.lookup_ext (d'.erase a).nodupKeys (d.erase a).nodupKeys fun a' c => ?_
    have hlookup : (d'.erase a).lookup a' = (d.erase a).lookup a' := by
      by_cases ha : a' = a
      · rw [ha, lookup_erase, lookup_erase]
      · rw [lookup_erase_ne ha, lookup_erase_ne ha, hd a' ha]
    exact iff_of_eq (congrArg (c ∈ ·) hlookup)
  have herase : total g (d'.erase a) = total g (d.erase a) := (hperm.map _).sum_eq
  rw [← total_erase_of_lookup g hb', herase, ← total_erase_of_lookup f hb, total_erase_congr h]
  abel

/-- An entry that takes the place of another one. -/
theorem total_insert_of_lookup [AddCommGroup M] (f : α → β → M) {a : α} {b b' : β}
    {d : AList fun _ : α => β} (h : d.lookup a = some b) :
    total f (d.insert a b') = total f d + (f a b' - f a b) := by
  rw [total_insert, ← total_erase_of_lookup f h]
  abel

end AList
