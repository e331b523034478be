import Mathlib.Data.Fintype.EquivFin
import Mathlib.Logic.Relation
import Mathlib.Order.WellFounded

/-!
# Paths that end

On a finite type, all paths of a relation from a point end exactly when none of the points they
reach lies on a cycle.
-/

namespace Acyclic

open Relation

variable {α : Type*} {r : α → α → Prop} {a b : α}

/-- No point on a cycle is reached from a point all of whose paths end. -/
theorem not_transGen_self_of_acc (h : Acc (flip r) a) (hb : ReflTransGen r a b) :
    ¬ TransGen r b b := by
  induction h generalizing b with
  | intro a _ ih =>
    rcases hb.cases_head with rfl | ⟨c, hac, hcb⟩
    · intro hcycle
      obtain ⟨c, hac, hca⟩ := TransGen.head'_iff.1 hcycle
      exact ih c hac ReflTransGen.refl (TransGen.tail' hca hac)
    · exact ih c hac hcb

/-- The points that `a` reaches, ordered by the paths between them, when none is on a cycle. -/
theorem wellFounded_reached [Finite α] (h : ∀ b, ReflTransGen r a b → ¬ TransGen r b b) :
    WellFounded fun x y : {b // ReflTransGen r a b} => TransGen r y.1 x.1 := by
  have htrans : IsTrans {b // ReflTransGen r a b} fun x y => TransGen r y.1 x.1 :=
    ⟨fun _ _ _ hxy hyz => hyz.trans hxy⟩
  have hirrefl : Std.Irrefl fun x y : {b // ReflTransGen r a b} => TransGen r y.1 x.1 :=
    ⟨fun x => h x.1 x.2⟩
  exact Finite.wellFounded_of_trans_of_irrefl _

theorem acc_of_not_transGen_self [Finite α]
    (h : ∀ b, ReflTransGen r a b → ¬ TransGen r b b) : Acc (flip r) a := by
  have hall : ∀ x : {b // ReflTransGen r a b}, Acc (flip r) x.1 := by
    intro x
    induction x using (wellFounded_reached h).induction with
    | _ x ih =>
      refine Acc.intro x.1 ?_
      intro y hxy
      exact ih ⟨y, x.2.tail hxy⟩ (TransGen.single hxy)
  exact hall ⟨a, ReflTransGen.refl⟩

theorem acc_iff [Finite α] :
    Acc (flip r) a ↔ ∀ b, ReflTransGen r a b → ¬ TransGen r b b :=
  ⟨fun h _ => not_transGen_self_of_acc h, acc_of_not_transGen_self⟩

end Acyclic
