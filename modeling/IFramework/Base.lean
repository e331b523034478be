import Mathlib.Logic.Function.Basic

/-!
# The base library

`string.IsNullOrWhiteSpace` with the white-space characters of `char.IsWhiteSpace`; a null
reference is `none`. `Select` with a function that can throw is `List.mapM`.
-/

namespace IFramework

/-- `char.IsWhiteSpace`: the Unicode separators and the control characters that count as white
space. -/
def isWhiteSpace (c : Char) : Bool :=
  (0x09 ≤ c.val && c.val ≤ 0x0D) || c.val == 0x20 || c.val == 0x85 || c.val == 0xA0 ||
    c.val == 0x1680 || (0x2000 ≤ c.val && c.val ≤ 0x200A) || c.val == 0x2028 ||
    c.val == 0x2029 || c.val == 0x202F || c.val == 0x205F || c.val == 0x3000

/-- `string.IsNullOrWhiteSpace`. -/
def isNullOrWhiteSpace : Option String → Bool
  | none => true
  | some s => s.toList.all isWhiteSpace

theorem mapM_eq_ok {ε α β : Type} {f : α → Except ε β} {g : α → β} {xs : List α}
    (h : ∀ x ∈ xs, f x = .ok (g x)) : xs.mapM f = .ok (xs.map g) := by
  induction xs with
  | nil => rfl
  | cons x xs ih =>
    rw [List.mapM_cons, h x List.mem_cons_self, ih fun y hy => h y (List.mem_cons_of_mem x hy)]
    rfl

end IFramework
