import Mathlib.Data.List.Pairwise
import Mathlib.Tactic.Tauto

/-!
# Stable sorting by several keys

A `Comparer` compares values; different values may compare equal. Comparers are made from keys
(`on`), turned round (`reverse`) and taken one after the other (`lexicographic`). `sort` is the
stable sort by a comparer. What holds between the elements of the sorted list is what held before,
from the one that compares less to the other, and in the order of the list where they compare equal
(`pairwise_sort_iff`).
-/

/-- A comparison of values that is a total preorder. -/
@[ext]
structure Comparer (α : Type*) where
  compare : α → α → Ordering
  trans : Std.TransCmp compare

namespace Comparer

variable {α β : Type*}

instance (c : Comparer α) : Std.TransCmp c.compare := c.trans

/-- `a` may stand before `b`. -/
def le (c : Comparer α) (a b : α) : Bool := (c.compare a b).isLE

theorem le_trans (c : Comparer α) (x y z : α) : c.le x y → c.le y z → c.le x z :=
  Std.TransCmp.isLE_trans

theorem le_total (c : Comparer α) (x y : α) : c.le x y || c.le y x := by
  have hswap : c.compare y x = (c.compare x y).swap := Std.OrientedCmp.eq_swap
  rw [le, le, hswap]
  cases c.compare x y <;> rfl

/-- All values compare equal. -/
def indifferent : Comparer α where
  compare _ _ := .eq
  trans := { eq_swap := rfl, isLE_trans := fun _ h => h }

/-- Values are compared by a key. -/
def on (c : Comparer β) (key : α → β) : Comparer α where
  compare a b := c.compare (key a) (key b)
  trans :=
    { eq_swap := c.trans.eq_swap
      isLE_trans := c.trans.isLE_trans }

/-- The greater value comes first. -/
def reverse (c : Comparer α) : Comparer α where
  compare a b := c.compare b a
  trans :=
    { eq_swap := c.trans.eq_swap
      isLE_trans := fun hab hbc => c.trans.isLE_trans hbc hab }

/-- The first comparer that tells two values apart decides. -/
def lexicographic : List (Comparer α) → Comparer α
  | [] => indifferent
  | c :: cs =>
    { compare := compareLex c.compare (lexicographic cs).compare
      trans := inferInstance }

/-- The stable sort. -/
def sort (c : Comparer α) (xs : List α) : List α := xs.mergeSort c.le

variable {c : Comparer α} {xs : List α} {R : α → α → Prop}

theorem sort_perm (c : Comparer α) (xs : List α) : (c.sort xs).Perm xs :=
  List.mergeSort_perm xs c.le

theorem pairwise_sort (c : Comparer α) (xs : List α) : (c.sort xs).Pairwise fun a b => c.le a b :=
  List.pairwise_mergeSort c.le_trans c.le_total xs

theorem sort_indifferent (xs : List α) : indifferent.sort xs = xs :=
  List.mergeSort_of_pairwise (List.pairwise_of_forall fun _ _ => rfl)

/-- A relation holds along the sorted list if it holds from each element to those behind it that
compare no less, and back from the others. -/
theorem pairwise_sort_iff :
    (c.sort xs).Pairwise R ↔ xs.Pairwise fun a b => if c.le a b then R a b else R b a := by
  induction xs with
  | nil => simp [sort]
  | cons x xs ih =>
    -- `x` is put before the elements that compare no less, and behind the others
    obtain ⟨front, back, hcons, hxs, hfront⟩ := List.mergeSort_cons c.le_trans c.le_total x xs
    have hsorted := c.pairwise_sort (x :: xs)
    rw [sort, hcons] at hsorted
    have hback := (List.pairwise_cons.1 (List.pairwise_append.1 hsorted).2.1).1
    have hmem : ∀ b, b ∈ xs ↔ b ∈ front ∨ b ∈ back := by
      intro b
      rw [← (sort_perm c xs).mem_iff, sort, hxs, List.mem_append]
    have hR : (∀ b ∈ xs, if c.le x b then R x b else R b x) ↔
        (∀ b ∈ front, R b x) ∧ ∀ b ∈ back, R x b := by
      constructor
      · intro h
        refine ⟨fun b hb => ?_, fun b hb => ?_⟩
        · have hle : c.le x b = false := by simpa using hfront b hb
          simpa [hle] using h b ((hmem b).2 (.inl hb))
        · simpa [hback b hb] using h b ((hmem b).2 (.inr hb))
      · rintro ⟨hbefore, hbehind⟩ b hb
        rcases (hmem b).1 hb with hb | hb
        · have hle : c.le x b = false := by simpa using hfront b hb
          simpa [hle] using hbefore b hb
        · simpa [hback b hb] using hbehind b hb
    rw [List.pairwise_cons, ← ih, hR, sort, sort, hcons, hxs, List.pairwise_append,
      List.pairwise_append, List.pairwise_cons]
    simp only [List.forall_mem_cons, imp_and, forall_and]
    tauto

end Comparer
