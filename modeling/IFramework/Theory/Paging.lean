import Mathlib.Data.List.Lemmas

/-!
# Pages of a list

The page `i` of a list has the elements at the positions from `i * s` on, `s` of them where the
list is long enough. Elements may be equal, so where a statement is about positions the list is
taken with them, as `l.zipIdx`.
-/

namespace Paging

variable {α : Type*} {l : List α} {s i j k a b : ℕ} {x : α}

/-- `s` elements from the position `a` on. -/
def window (l : List α) (s a : ℕ) : List α := (l.drop a).take s

/-- The page `i`. -/
def page (l : List α) (s i : ℕ) : List α := window l s (i * s)

theorem map_window {β : Type*} (f : α → β) (l : List α) (s a : ℕ) :
    (window l s a).map f = window (l.map f) s a := by
  simp only [window, List.map_take, List.map_drop]

theorem getElem?_window (h : k < s) : (window l s a)[k]? = l[a + k]? := by
  rw [window, List.getElem?_take_of_lt h, List.getElem?_drop]

theorem window_eq_nil_iff (hs : 0 < s) : window l s a = [] ↔ l.length ≤ a := by
  rw [window, List.take_eq_nil_iff, List.drop_eq_nil_iff]
  constructor
  · rintro (hzero | hle)
    · omega
    · exact hle
  · exact .inr

/-- The elements of a window and their positions. -/
theorem mem_window_zipIdx : (x, k) ∈ window l.zipIdx s a ↔ l[k]? = some x ∧ a ≤ k ∧ k < a + s := by
  rw [List.mem_iff_getElem?]
  constructor
  · rintro ⟨m, hm⟩
    have hlt : m < s := by
      have hlength := (List.getElem?_eq_some_iff.1 hm).1
      rw [window, List.length_take] at hlength
      omega
    rw [getElem?_window hlt, List.getElem?_zipIdx, Option.map_eq_some_iff] at hm
    obtain ⟨y, hy, heq⟩ := hm
    cases heq
    rw [Nat.zero_add]
    exact ⟨hy, Nat.le_add_right a m, Nat.add_lt_add_left hlt a⟩
  · rintro ⟨hx, hle, hlt⟩
    refine ⟨k - a, ?_⟩
    rw [getElem?_window (by omega), Nat.add_sub_cancel' hle, List.getElem?_zipIdx, hx]
    simp

/-- Two windows have the same positions only if they begin at the same one, or lie behind the end
of the list. -/
theorem window_zipIdx_eq_iff (hs : 0 < s) (hab : a < b) :
    window l.zipIdx s a = window l.zipIdx s b ↔ l.length ≤ a := by
  constructor
  · intro heq
    by_contra hlt
    have hlt : a < l.length := Nat.lt_of_not_le hlt
    have hmem : (l[a], a) ∈ window l.zipIdx s a :=
      mem_window_zipIdx.2 ⟨List.getElem?_eq_getElem hlt, Nat.le_refl a, Nat.lt_add_of_pos_right hs⟩
    rw [heq] at hmem
    have hle := (mem_window_zipIdx.1 hmem).2.1
    omega
  · intro hle
    have ha : window l.zipIdx s a = [] := (window_eq_nil_iff hs).2 (by simpa using hle)
    have hb : window l.zipIdx s b = [] := (window_eq_nil_iff hs).2 (by simp; omega)
    rw [ha, hb]

/-- No position is on two pages. -/
theorem disjoint_page (hij : i ≠ j) : (page l.zipIdx s i).Disjoint (page l.zipIdx s j) := by
  rintro ⟨x, k⟩ hi hj
  obtain ⟨-, hi, hi'⟩ := mem_window_zipIdx.1 hi
  obtain ⟨-, hj, hj'⟩ := mem_window_zipIdx.1 hj
  rw [← Nat.succ_mul] at hi' hj'
  have hlt : i < j + 1 := Nat.lt_of_mul_lt_mul_right (Nat.lt_of_le_of_lt hi hj')
  have hlt' : j < i + 1 := Nat.lt_of_mul_lt_mul_right (Nat.lt_of_le_of_lt hj hi')
  omega

/-- The first pages, one after the other. -/
theorem flatMap_page (l : List α) (s n : ℕ) :
    (List.range n).flatMap (page l s) = l.take (n * s) := by
  induction n with
  | zero => simp
  | succ n ih =>
    rw [List.range_succ, List.flatMap_append, ih, Nat.succ_mul, List.take_add]
    simp [page, window]

end Paging
