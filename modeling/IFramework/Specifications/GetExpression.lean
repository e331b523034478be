import IFramework.Specifications.Specification

/-!
# What the expression of a specification means

Trees of `And`, `Or` and `Not` over `All`, `None` and given predicates. Three things can go wrong
with their expressions. A replacement captures a parameter when a nested lambda declares the very
object that is put in (`CaptureFree` says that none does). A nested lambda with several parameters
can get one of them twice, and is refused (`DeclaresDistinct`). And `Not` takes its parameter from a
second call of `GetExpression`: if it is one that `All` or `None` makes, it is not the one in the
body, and a body with a parameter is not closed (`NotsClosed`).

`correct_iff`: where nothing is captured, the expression is closed and means the Boolean combination
of the predicates exactly when the other two do not happen either. `AndNot` always throws
(`not_andNotMeets`).
-/

namespace IFramework.Specifications

open Binding

variable {κ ι : Type}

/-- The composite specifications that merge two bodies. -/
inductive Composite where
  | and
  | or
  deriving DecidableEq, Repr

/-- A specification tree. -/
inductive Specification (κ ι : Type) where
  | all
  | none
  | eval (e : Predicate κ ι)
  | composite (op : Composite) (left right : Specification κ ι)
  | not (spec : Specification κ ι)

/-- The merge of the two bodies. -/
def Composite.merge : Composite → Expression κ ι → Expression κ ι → Expression κ ι
  | .and => .andAlso
  | .or => .orElse

/-- The value of a composite; the right operand counts if it is reached. -/
def Composite.value {ε : Type} (left right : Except ε Bool) : Composite → Except ε Bool
  | .and => left >>= fun l => if l then right else .ok false
  | .or => left >>= fun l => if l then .ok true else right

variable [DecidableEq ι]

/-- The class of a composite. -/
def Composite.specification :
    Composite → Call (LambdaExpression κ ι) → Call (LambdaExpression κ ι) →
      Call (LambdaExpression κ ι)
  | .and => andSpecification
  | .or => orSpecification

namespace Specification

/-- `GetExpression()` of the specification of a tree. -/
def getExpression : Specification κ ι → Call (LambdaExpression κ ι)
  | .all => allSpecification
  | .none => noneSpecification
  | .eval e => expressionSpecification e
  | .composite op left right => op.specification left.getExpression right.getExpression
  | .not spec => notSpecification spec.getExpression

/-- The Boolean combination of the values of the predicates. -/
def value (I : Interpretation κ) (obj : I.Value) : Specification κ ι → Except I.Exc Bool
  | .all => .ok true
  | .none => .ok false
  | .eval e => e.value I obj
  | .composite op left right => op.value (left.value I obj) (right.value I obj)
  | .not spec => (spec.value I obj).map Bool.not

/-- When `next` parameters have been made: `GetExpression()` is a closed lambda with one parameter,
and `IsSatisfiedBy` is the Boolean combination of the predicates, on every object. -/
def Correct (t : Specification κ ι) (next : Nat) : Prop :=
  (∃ e next', t.getExpression next = .ok (e, next') ∧ e.body.Scoped [e.parameter]) ∧
    ∀ (I : Interpretation κ) (obj : I.Value),
      ∃ next', isSatisfiedBy t.getExpression I obj next = .ok (t.value I obj, next')

/-! ## What is made and replaced -/

omit [DecidableEq ι] in
/-- How many parameters a call makes. -/
def made : Specification κ ι → Nat
  | .all => 1
  | .none => 1
  | .eval _ => 0
  | .composite _ left right => left.made + right.made
  | .not spec => spec.made + spec.made

omit [DecidableEq ι] in
/-- The parameter of the lambda. -/
def parameter : Specification κ ι → Nat → ParameterExpression ι
  | .all, next => .inr next
  | .none, next => .inr next
  | .eval e, _ => .inl e.parameter
  | .composite _ left _, next => left.parameter next
  | .not spec, next => spec.parameter (next + spec.made)

/-- The replacement in the right operand of a composite. -/
abbrev replacement (left right : Specification κ ι) (next : Nat) :
    ParameterExpression ι → ParameterExpression ι :=
  visitParameter [(right.parameter (next + left.made), left.parameter next)]

/-- Under the replacements of the composites around it, every parameter of a predicate is bound
where it was. -/
def CaptureFree : Specification κ ι → Nat →
    (ParameterExpression ι → ParameterExpression ι) → Prop
  | .all, _, _ => True
  | .none, _, _ => True
  | .eval e, _, f => e.body.Preserves (f ∘ .inl) [e.parameter]
  | .composite _ left right, next, f =>
    left.CaptureFree next f ∧
      right.CaptureFree (next + left.made) (f ∘ replacement left right next)
  | .not spec, next, f => spec.CaptureFree next f

instance CaptureFree.decidable : (t : Specification κ ι) → (next : Nat) →
    (f : ParameterExpression ι → ParameterExpression ι) → Decidable (t.CaptureFree next f)
  | .all, _, _ => isTrue trivial
  | .none, _, _ => isTrue trivial
  | .eval e, _, f => inferInstanceAs (Decidable (e.body.Preserves (f ∘ .inl) [e.parameter]))
  | .composite _ left right, next, f =>
    have := CaptureFree.decidable left next f
    have := CaptureFree.decidable right (next + left.made) (f ∘ replacement left right next)
    inferInstanceAs (Decidable (left.CaptureFree next f ∧
      right.CaptureFree (next + left.made) (f ∘ replacement left right next)))
  | .not spec, next, f => CaptureFree.decidable spec next f

/-- No nested lambda of a predicate has a parameter twice then. -/
def DeclaresDistinct : Specification κ ι → Nat →
    (ParameterExpression ι → ParameterExpression ι) → Prop
  | .all, _, _ => True
  | .none, _, _ => True
  | .eval e, _, f => (e.body.rename (f ∘ .inl)).Distinct
  | .composite _ left right, next, f =>
    left.DeclaresDistinct next f ∧
      right.DeclaresDistinct (next + left.made) (f ∘ replacement left right next)
  | .not spec, next, f => spec.DeclaresDistinct next f

omit [DecidableEq ι] in
/-- A predicate of the tree has its parameter in its body. -/
def UsesParameter : Specification κ ι → Prop
  | .all => False
  | .none => False
  | .eval e => ¬e.body.Scoped []
  | .composite _ left right => left.UsesParameter ∨ right.UsesParameter
  | .not spec => spec.UsesParameter

omit [DecidableEq ι] in
/-- The leftmost leaf is `All` or `None`, which makes the parameter of the lambda. -/
def MakesParameter : Specification κ ι → Prop
  | .all => True
  | .none => True
  | .eval _ => False
  | .composite _ left _ => left.MakesParameter
  | .not spec => spec.MakesParameter

omit [DecidableEq ι] in
/-- No `Not` stands over a tree that makes the parameter of its lambda and uses it. -/
def NotsClosed : Specification κ ι → Prop
  | .composite _ left right => left.NotsClosed ∧ right.NotsClosed
  | .not spec => spec.NotsClosed ∧ ¬(spec.MakesParameter ∧ spec.UsesParameter)
  | _ => True

/-- The body of the lambda, with the replacements of the composites around it. -/
def body : Specification κ ι → Nat → (ParameterExpression ι → ParameterExpression ι) →
    Expression κ ι
  | .all, _, _ => .constant true
  | .none, _, _ => .constant false
  | .eval e, _, f => e.body.rename (f ∘ .inl)
  | .composite op left right, next, f =>
    op.merge (left.body next f)
      (right.body (next + left.made) (f ∘ replacement left right next))
  | .not spec, next, f => .not (spec.body next f)

variable {t : Specification κ ι} {next : Nat} {f : ParameterExpression ι → ParameterExpression ι}

/-! ## The expression -/

theorem visitParameter_singleton (p q x : ParameterExpression ι) :
    visitParameter [(p, q)] x = if x = p then q else x := by
  by_cases hx : p = x
  · simp [visitParameter, hx]
  · simp [visitParameter, hx, Ne.symm hx]

omit [DecidableEq ι] in
theorem rename_merge (f : ParameterExpression ι → ParameterExpression ι) (op : Composite)
    (left right : Expression κ ι) :
    (op.merge left right).rename f = op.merge (left.rename f) (right.rename f) := by
  cases op <;> exact congrArg (Term.node _ 2) (funext (Fin.forall_fin_two.2 ⟨rfl, rfl⟩))

omit [DecidableEq ι] in
theorem distinct_merge_iff (op : Composite) (left right : Expression κ ι) :
    (op.merge left right).Distinct ↔ left.Distinct ∧ right.Distinct := by
  cases op <;> exact Fin.forall_fin_two

omit [DecidableEq ι] in
theorem scoped_merge_iff (scope : List (ParameterExpression ι)) (op : Composite)
    (left right : Expression κ ι) :
    (op.merge left right).Scoped scope ↔ left.Scoped scope ∧ right.Scoped scope := by
  cases op <;> exact Fin.forall_fin_two

/-- A replacement in the body is one more replacement around the tree. -/
theorem rename_body (g : ParameterExpression ι → ParameterExpression ι) (t : Specification κ ι)
    (next : Nat) (f : ParameterExpression ι → ParameterExpression ι) :
    (t.body next f).rename g = t.body next (g ∘ f) := by
  induction t generalizing next f with
  | all => exact congrArg (Term.node _ 0) (funext fun i => i.elim0)
  | none => exact congrArg (Term.node _ 0) (funext fun i => i.elim0)
  | eval e => exact Term.rename_rename _ _ _
  | composite op left right ihl ihr =>
    rw [body, body, rename_merge, ihl, ihr]
    rfl
  | not spec ih =>
    exact congrArg (Term.node _ 1) (funext (Fin.forall_fin_one.2 (ih next f)))

theorem distinct_body_iff : (t.body next f).Distinct ↔ t.DeclaresDistinct next f := by
  induction t generalizing next f with
  | all => exact iff_of_true (fun i => i.elim0) trivial
  | none => exact iff_of_true (fun i => i.elim0) trivial
  | eval e => exact Iff.rfl
  | composite op left right ihl ihr =>
    exact (distinct_merge_iff op _ _).trans (and_congr ihl ihr)
  | not spec ih => exact Fin.forall_fin_one.trans ih

theorem liftM_apply {α : Type} (x : Except SpecificationException α) (next : Nat) :
    (liftM x : Call α) next = x.map fun a => (a, next) := by
  cases x <;> rfl

/-- The class of a composite runs both calls, one after the other, and composes the lambdas. -/
theorem specification_apply (op : Composite) (left right : Call (LambdaExpression κ ι))
    (next : Nat) :
    op.specification left right next =
      (left next).bind fun first => (right first.2).bind fun second =>
        (first.1.compose second.1 op.merge).map fun e => (e, second.2) := by
  cases op with
  | and =>
    simp only [Composite.specification, andSpecification, bind, StateT.bind, liftM_apply]
    rfl
  | or =>
    simp only [Composite.specification, orSpecification, bind, StateT.bind, liftM_apply]
    rfl

/-- The factory refuses a body with a parameter that is declared twice. -/
theorem compose_eq (first second : LambdaExpression κ ι) (op : Composite) :
    first.compose second op.merge =
      if (second.body.rename (visitParameter [(second.parameter, first.parameter)])).Distinct then
        .ok ⟨op.merge first.body
          (second.body.rename (visitParameter [(second.parameter, first.parameter)])),
            first.parameter⟩
      else .error .argument := by
  have hmap : second.parameters.zip first.parameters = [(second.parameter, first.parameter)] := rfl
  rw [LambdaExpression.compose, hmap, replaceParameters]
  split <;> rfl

omit [DecidableEq ι] in
theorem notSpecification_eq_ok {spec : Call (LambdaExpression κ ι)}
    {first second : LambdaExpression κ ι} {next next' next'' : Nat}
    (hfirst : spec next = .ok (first, next')) (hsecond : spec next' = .ok (second, next'')) :
    notSpecification spec next = .ok (⟨.not first.body, second.parameter⟩, next'') := by
  simp only [notSpecification, bind, StateT.bind, hfirst, Except.bind, hsecond]
  rfl

/-! ### Later calls -/

omit [DecidableEq ι] in
/-- What is made later, after `k` more parameters. -/
def shift (k : Nat) : ParameterExpression ι → ParameterExpression ι := Sum.map id (· + k)

omit [DecidableEq ι] in
theorem shift_injective (k : Nat) :
    Function.Injective (shift k : ParameterExpression ι → ParameterExpression ι) :=
  Sum.map_injective.2 ⟨Function.injective_id, fun _ _ h => Nat.add_right_cancel h⟩

omit [DecidableEq ι] in
theorem parameter_add (t : Specification κ ι) (next k : Nat) :
    t.parameter (next + k) = shift k (t.parameter next) := by
  induction t generalizing next with
  | all => rfl
  | none => rfl
  | eval e => rfl
  | composite op left right ihl => exact ihl next
  | not spec ih =>
    have hadd : next + k + spec.made = next + spec.made + k := Nat.add_right_comm ..
    rw [parameter, hadd, ih, parameter]

theorem replacement_comp_shift (left right : Specification κ ι) (next k : Nat) :
    replacement left right (next + k) ∘ shift k = shift k ∘ replacement left right next := by
  have hadd : next + k + left.made = next + left.made + k := Nat.add_right_comm ..
  funext x
  simp only [Function.comp_apply, replacement, hadd, parameter_add, visitParameter_singleton,
    (shift_injective k).eq_iff]
  split <;> rfl

theorem declaresDistinct_add (k : Nat) :
    t.DeclaresDistinct (next + k) f ↔ t.DeclaresDistinct next (f ∘ shift k) := by
  induction t generalizing next f with
  | all => exact Iff.rfl
  | none => exact Iff.rfl
  | eval e => exact Iff.rfl
  | composite op left right ihl ihr =>
    have hadd : next + k + left.made = next + left.made + k := Nat.add_right_comm ..
    rw [DeclaresDistinct, DeclaresDistinct, ihl, hadd, ihr, Function.comp_assoc,
      Function.comp_assoc, replacement_comp_shift]
  | not spec ih => exact ih

/-- What is not declared twice now is not declared twice later. -/
theorem DeclaresDistinct.later (h : t.DeclaresDistinct next f) (k : Nat) :
    t.DeclaresDistinct (next + k) (f ∘ Sum.map id (· - k)) := by
  rw [declaresDistinct_add]
  have hid : (f ∘ Sum.map id (· - k)) ∘ shift k = f := by
    funext x
    cases x with
    | inl p => rfl
    | inr n => exact congrArg (fun m => f (.inr m)) (Nat.add_sub_cancel n k)
  rwa [hid]

theorem rename_replacement (left right : Specification κ ι) (next next' : Nat) :
    (right.body next' id).rename (replacement left right next) =
      right.body next' (id ∘ replacement left right next) :=
  rename_body _ _ _ _

/-- Where no parameter is declared twice no factory throws. -/
theorem DeclaresDistinct.getExpression (h : t.DeclaresDistinct next f) :
    t.getExpression next = .ok (⟨t.body next id, t.parameter next⟩, next + t.made) := by
  induction t generalizing next f with
  | all => rfl
  | none => rfl
  | eval e => rfl
  | composite op left right ihl ihr =>
    have hright := rename_replacement left right next (next + left.made)
    have hdistinct :
        ((right.body (next + left.made) id).rename (replacement left right next)).Distinct := by
      have hall := distinct_body_iff.2 h.2
      rw [← rename_body] at hall
      exact hright ▸ hall.of_rename
    rw [Specification.getExpression, specification_apply, ihl h.1, Except.bind, ihr h.2,
      Except.bind, compose_eq, if_pos hdistinct, Except.map, made, Nat.add_assoc, body, ← hright]
    rfl
  | not spec ih =>
    have hok := notSpecification_eq_ok (ih h) (ih (h.later spec.made))
    rw [Specification.getExpression, hok, made, Nat.add_assoc]
    rfl

/-- A composite that does not throw has run both calls and replaced the parameter. -/
theorem exists_of_specification_eq_ok {left right : Call (LambdaExpression κ ι)}
    {r : LambdaExpression κ ι × Nat} {next : Nat} (op : Composite)
    (h : op.specification left right next = .ok r) :
    ∃ first next' second next'', left next = .ok (first, next') ∧
      right next' = .ok (second, next'') ∧
      (second.body.rename (visitParameter [(second.parameter, first.parameter)])).Distinct := by
  rw [specification_apply] at h
  cases hleft : left next with
  | error e =>
    rw [hleft] at h
    cases h
  | ok first =>
    cases hright : right first.2 with
    | error e =>
      rw [hleft, Except.bind, hright] at h
      cases h
    | ok second =>
      refine ⟨first.1, first.2, second.1, second.2, rfl, hright, ?_⟩
      by_contra hdistinct
      rw [hleft, Except.bind, hright, Except.bind, compose_eq, if_neg hdistinct] at h
      cases h

/-- An expression that is made has no parameter declared twice. -/
theorem declaresDistinct_of_getExpression {r : LambdaExpression κ ι × Nat}
    (h : t.getExpression next = .ok r) : t.DeclaresDistinct next id := by
  induction t generalizing next r with
  | all => trivial
  | none => trivial
  | eval e => exact e.distinct.rename Sum.inl_injective
  | composite op left right ihl ihr =>
    obtain ⟨first, next', second, next'', hleft, hright, hdistinct⟩ :=
      exists_of_specification_eq_ok op h
    have hl := ihl hleft
    rw [hl.getExpression] at hleft
    cases hleft
    have hr := ihr hright
    rw [hr.getExpression] at hright
    cases hright
    refine ⟨hl, ?_⟩
    rw [← distinct_body_iff, ← rename_replacement]
    exact hdistinct
  | not spec ih =>
    cases hspec : spec.getExpression next with
    | error e =>
      simp [Specification.getExpression, notSpecification, bind, StateT.bind, hspec,
        Except.bind] at h
    | ok first => exact ih hspec

/-! ## Closed bodies -/

omit [DecidableEq ι] in
/-- The parameter is made in the call, or it is one that is given. -/
theorem parameter_cases (t : Specification κ ι) :
    (t.MakesParameter ∧ ∀ next, ∃ j, t.parameter next = .inr j ∧ next ≤ j ∧ j < next + t.made) ∨
      ¬t.MakesParameter ∧ ∃ p, ∀ next, t.parameter next = .inl p := by
  induction t with
  | all => exact .inl ⟨trivial, fun next => ⟨next, rfl, Nat.le_refl _, Nat.lt_succ_self _⟩⟩
  | none => exact .inl ⟨trivial, fun next => ⟨next, rfl, Nat.le_refl _, Nat.lt_succ_self _⟩⟩
  | eval e => exact .inr ⟨fun h => h, e.parameter, fun _ => rfl⟩
  | composite op left right ihl =>
    refine ihl.imp_left fun ⟨hmakes, hl⟩ => ⟨hmakes, fun next => ?_⟩
    obtain ⟨j, hj, hle, hlt⟩ := hl next
    refine ⟨j, hj, hle, ?_⟩
    rw [made]
    omega
  | not spec ih =>
    rcases ih with ⟨hmakes, hs⟩ | ⟨hmakes, p, hp⟩
    · refine .inl ⟨hmakes, fun next => ?_⟩
      obtain ⟨j, hj, hle, hlt⟩ := hs (next + spec.made)
      refine ⟨j, hj, ?_, ?_⟩
      · omega
      · rw [made]
        omega
    · exact .inr ⟨hmakes, p, fun next => hp _⟩

omit [DecidableEq ι] in
/-- The replacements leave the parameters alone that are made in the call, but for the one of the
lambda. -/
def Keeps (f : ParameterExpression ι → ParameterExpression ι) (t : Specification κ ι)
    (next : Nat) : Prop :=
  ∀ j, next ≤ j → j < next + t.made → .inr j ≠ t.parameter next →
    ∀ q, f q = .inr j ↔ q = .inr j

omit [DecidableEq ι] in
theorem keeps_id (t : Specification κ ι) (next : Nat) : Keeps id t next :=
  fun _ _ _ _ _ => Iff.rfl

omit [DecidableEq ι] in
theorem Keeps.left {op : Composite} {left right : Specification κ ι}
    (h : Keeps f (.composite op left right) next) : Keeps f left next := by
  intro j hle hlt hne
  refine h j hle ?_ hne
  rw [made]
  omega

omit [DecidableEq ι] in
/-- The parameter of a lambda is none that another call makes. -/
theorem parameter_ne (t : Specification κ ι) {next j : Nat} (h : j < next ∨ next + t.made ≤ j) :
    .inr j ≠ t.parameter next := by
  intro heq
  rcases t.parameter_cases with ⟨-, hmade⟩ | ⟨-, p, hp⟩
  · obtain ⟨j', hj', hle, hlt⟩ := hmade next
    rw [hj'] at heq
    cases heq
    omega
  · rw [hp next] at heq
    cases heq

theorem Keeps.right {op : Composite} {left right : Specification κ ι}
    (h : Keeps f (.composite op left right) next) :
    Keeps (f ∘ replacement left right next) right (next + left.made) := by
  intro j hle hlt hne q
  have hleft := left.parameter_ne (.inr hle)
  have hkeeps : ∀ q, f q = .inr j ↔ q = .inr j := by
    refine h j ?_ ?_ hleft
    · omega
    · rw [made]
      omega
  rw [Function.comp_apply, hkeeps, replacement, visitParameter_singleton]
  split
  · next hq => exact iff_of_false (Ne.symm hleft) fun hq' => hne (hq'.symm.trans hq)
  · exact Iff.rfl

omit [DecidableEq ι] in
theorem Keeps.not {spec : Specification κ ι} (h : Keeps f (.not spec) next) :
    Keeps f spec next := by
  intro j hle hlt _
  refine h j hle ?_ ?_
  · rw [made]
    omega
  · exact spec.parameter_ne (.inl hlt)

omit [DecidableEq ι] in
/-- The parameter of the first of the two calls: one that it makes and nothing replaces, or the
parameter of both. -/
theorem Keeps.first {spec : Specification κ ι} (h : Keeps f (.not spec) next) :
    (spec.MakesParameter ∧
        ∃ j, f (spec.parameter next) = .inr j ∧ next ≤ j ∧ j < next + spec.made) ∨
      ¬spec.MakesParameter ∧ spec.parameter next = spec.parameter (next + spec.made) := by
  rcases spec.parameter_cases with ⟨hmakes, hmade⟩ | ⟨hmakes, p, hp⟩
  · obtain ⟨j, hj, hle, hlt⟩ := hmade next
    refine .inl ⟨hmakes, j, ?_, hle, hlt⟩
    rw [hj]
    refine (h j hle ?_ (spec.parameter_ne (.inl hlt)) (.inr j)).2 rfl
    rw [made]
    omega
  · exact .inr ⟨hmakes, by rw [hp, hp]⟩

omit [DecidableEq ι] in
/-- The parameter of the second call is none that the first one makes. -/
theorem Keeps.second {spec : Specification κ ι} (h : Keeps f (.not spec) next) {j : Nat}
    (hle : next ≤ j) (hlt : j < next + spec.made) :
    f (spec.parameter (next + spec.made)) ≠ .inr j := by
  have hne := spec.parameter_ne (.inl hlt)
  have hrange : j < next + (Specification.not spec).made := by
    rw [made]
    omega
  exact fun heq => hne ((h j hle hrange hne _).1 heq).symm

theorem scoped_of_not_usesParameter (h : ¬t.UsesParameter) (next : Nat)
    (f : ParameterExpression ι → ParameterExpression ι) : (t.body next f).Scoped [] := by
  induction t generalizing next f with
  | all => exact fun i => i.elim0
  | none => exact fun i => i.elim0
  | eval e => exact (not_not.1 h).rename (f ∘ .inl)
  | composite op left right ihl ihr =>
    obtain ⟨hleft, hright⟩ := not_or.1 h
    exact (scoped_merge_iff [] op _ _).2 ⟨ihl hleft next f, ihr hright _ _⟩
  | not spec ih => exact Fin.forall_fin_one.2 (ih h next f)

/-- A body that is closed by another parameter than its own has none. -/
theorem CaptureFree.not_usesParameter (h : t.CaptureFree next f) (hkeeps : Keeps f t next)
    {q : ParameterExpression ι} (hq : q ≠ f (t.parameter next))
    (hmade : ∀ j, next ≤ j → j < next + t.made → q ≠ .inr j)
    (hscoped : (t.body next f).Scoped [q]) : ¬t.UsesParameter := by
  induction t generalizing next f with
  | all => exact fun h => h
  | none => exact fun h => h
  | eval e =>
    have hpreserves : e.body.Preserves (f ∘ .inl) ([] ++ [e.parameter]) := h
    exact not_not.2 (hpreserves.scoped (Ne.symm hq) hscoped)
  | composite op left right ihl ihr =>
    obtain ⟨hleft, hright⟩ := (scoped_merge_iff [q] op _ _).1 hscoped
    refine not_or.2 ⟨ihl h.1 hkeeps.left hq ?_ hleft, ihr h.2 hkeeps.right ?_ ?_ hright⟩
    · intro j hle hlt
      refine hmade j hle ?_
      rw [made]
      omega
    · rwa [Function.comp_apply, replacement, visitParameter_singleton, if_pos rfl]
    · intro j hle hlt
      refine hmade j ?_ ?_
      · omega
      · rw [made]
        omega
  | not spec ih =>
    have hmade' : ∀ j, next ≤ j → j < next + spec.made → q ≠ .inr j := by
      intro j hle hlt
      refine hmade j hle ?_
      rw [made]
      omega
    refine ih h hkeeps.not ?_ hmade' (Fin.forall_fin_one.1 hscoped)
    rcases hkeeps.first with ⟨-, j, hj, hle, hlt⟩ | ⟨-, hsame⟩
    · rw [hj]
      exact hmade' j hle hlt
    · rwa [hsame]

omit [DecidableEq ι] in
theorem notsClosed_of_not_usesParameter (h : ¬t.UsesParameter) : t.NotsClosed := by
  induction t with
  | all => trivial
  | none => trivial
  | eval e => trivial
  | composite op left right ihl ihr =>
    obtain ⟨hleft, hright⟩ := not_or.1 h
    exact ⟨ihl hleft, ihr hright⟩
  | not spec ih => exact ⟨ih h, fun h' => h h'.2⟩

/-- The body is closed by the parameter of the lambda exactly when the `Not`s are. -/
theorem CaptureFree.scoped_iff (h : t.CaptureFree next f) (hkeeps : Keeps f t next) :
    (t.body next f).Scoped [f (t.parameter next)] ↔ t.NotsClosed := by
  induction t generalizing next f with
  | all => exact iff_of_true (fun i => i.elim0) trivial
  | none => exact iff_of_true (fun i => i.elim0) trivial
  | eval e => exact iff_of_true (e.closed.rename (f ∘ .inl)) trivial
  | composite op left right ihl ihr =>
    have hright := ihr h.2 hkeeps.right
    rw [Function.comp_apply, replacement, visitParameter_singleton, if_pos rfl] at hright
    rw [body, scoped_merge_iff, NotsClosed, ← ihl h.1 hkeeps.left, ← hright]
    rfl
  | not spec ih =>
    have hspec := ih h hkeeps.not
    rcases hkeeps.first with ⟨hmakes, j, hj, hle, hlt⟩ | ⟨hmakes, hsame⟩
    · constructor
      · intro hscoped
        have hne : f (spec.parameter (next + spec.made)) ≠ f (spec.parameter next) := by
          rw [hj]
          exact hkeeps.second hle hlt
        have huses := CaptureFree.not_usesParameter (t := spec) h hkeeps.not hne
          (fun j => hkeeps.second) (Fin.forall_fin_one.1 hscoped)
        exact ⟨notsClosed_of_not_usesParameter huses, fun h' => huses h'.2⟩
      · rintro ⟨-, huses⟩
        have hscoped := scoped_of_not_usesParameter (fun h' => huses ⟨hmakes, h'⟩) next f
        exact Fin.forall_fin_one.2 (hscoped.mono (List.nil_subset _))
    · rw [hsame] at hspec
      constructor
      · intro hscoped
        exact ⟨hspec.1 (Fin.forall_fin_one.1 hscoped), fun h' => hmakes h'.1⟩
      · rintro ⟨hnots, -⟩
        exact Fin.forall_fin_one.2 (hspec.2 hnots)

/-! ## Values -/

/-- The body has the value of the tree when its parameter is the object. -/
theorem CaptureFree.test_eval (h : t.CaptureFree next f) (hnots : t.NotsClosed)
    (I : Interpretation κ) (obj : I.Value) {env : ParameterExpression ι → I.Value}
    (henv : env (f (t.parameter next)) = obj) :
    I.test ((t.body next f).eval I.algebra env) = t.value I obj := by
  induction t generalizing next f env with
  | all => exact I.test_constant true _
  | none => exact I.test_constant false _
  | eval e =>
    have heval : (e.body.rename (f ∘ .inl)).eval I.algebra env =
        e.body.eval I.algebra fun _ => obj := by
      refine Term.eval_rename I.algebra h fun x hx => ?_
      obtain rfl := List.mem_singleton.1 (List.mem_of_find?_eq_some hx)
      exact henv
    exact congrArg I.test heval
  | composite op left right ihl ihr =>
    have hleft := ihl h.1 hnots.1 henv
    have henv' : env ((f ∘ replacement left right next)
        (right.parameter (next + left.made))) = obj := by
      rwa [Function.comp_apply, replacement, visitParameter_singleton, if_pos rfl]
    have hright := ihr h.2 hnots.2 henv'
    cases op with
    | and => exact (I.test_andAlso _).trans (congrArg₂ (Composite.value · · .and) hleft hright)
    | or => exact (I.test_orElse _).trans (congrArg₂ (Composite.value · · .or) hleft hright)
  | not spec ih =>
    have hspec : I.test ((spec.body next f).eval I.algebra env) = spec.value I obj := by
      by_cases hmakes : spec.MakesParameter
      · -- without a parameter the environment does not matter
        have huses : ¬spec.UsesParameter := fun h' => hnots.2 ⟨hmakes, h'⟩
        have hcongr : (spec.body next f).eval I.algebra env =
            (spec.body next f).eval I.algebra fun _ => obj :=
          Term.eval_congr I.algebra (scoped_of_not_usesParameter huses next f) (by simp)
        rw [hcongr]
        exact ih h hnots.1 rfl
      · obtain ⟨-, p, hp⟩ := spec.parameter_cases.resolve_left fun h' => hmakes h'.1
        refine ih h hnots.1 ?_
        rw [parameter, hp] at henv
        rwa [hp]
    exact (I.test_not _).trans (congrArg (Except.map Bool.not) hspec)

/-- Where nothing is captured, the expression is closed and means the Boolean combination of the
predicates exactly when no nested lambda gets a parameter twice and no `Not` stands over a tree that
makes the parameter of its lambda and uses it. -/
theorem correct_iff (h : t.CaptureFree next id) :
    t.Correct next ↔ t.DeclaresDistinct next id ∧ t.NotsClosed := by
  have hscoped := h.scoped_iff (keeps_id t next)
  constructor
  · rintro ⟨⟨e, next', hok, hclosed⟩, -⟩
    have hdistinct := declaresDistinct_of_getExpression hok
    rw [hdistinct.getExpression] at hok
    cases hok
    exact ⟨hdistinct, hscoped.1 hclosed⟩
  · rintro ⟨hdistinct, hnots⟩
    refine ⟨⟨_, _, hdistinct.getExpression, hscoped.2 hnots⟩, ?_⟩
    intro I obj
    have hcompile : LambdaExpression.compile ⟨t.body next id, t.parameter next⟩ I =
        .ok fun obj => I.test ((t.body next id).eval I.algebra fun _ => obj) :=
      if_pos (hscoped.2 hnots)
    have hvalue : I.test ((t.body next id).eval I.algebra fun _ => obj) = t.value I obj :=
      h.test_eval hnots I obj rfl
    refine ⟨next + t.made, ?_⟩
    rw [← hvalue]
    simp only [isSatisfiedBy, bind, StateT.bind, hdistinct.getExpression, Except.bind, hcompile]
    rfl

end Specification

/-! ## A sample -/

/-- The nodes of some sample predicates: a property, a comparison and a quantifier. -/
inductive SampleNode where
  | isActive
  | same
  | any
  deriving DecidableEq, Repr

/-- Objects with one property. -/
def sampleInterpretation : Interpretation SampleNode where
  Value := Bool
  Result := Bool
  Exc := Empty
  algebra :=
    { var := id
      node := fun
        | .constant value, _, _ => value
        | .not, 1, args => !args 0
        | .andAlso, 2, args => args 0 && args 1
        | .orElse, 2, args => args 0 || args 1
        | .other .isActive, 1, args => args 0
        | .other .same, 2, args => args 0 == args 1
        | _, _, _ => false
      bind := fun _ _ body => body (fun _ => true) || body (fun _ => false) }
  test := .ok
  test_constant _ _ := rfl
  test_not _ := rfl
  test_andAlso args := by
    show Except.ok (args 0 && args 1) = if args 0 then Except.ok (args 1) else Except.ok false
    cases args 0 <;> rfl
  test_orElse args := by
    show Except.ok (args 0 || args 1) = if args 0 then Except.ok true else Except.ok (args 1)
    cases args 0 <;> rfl

/-- `p => p.IsActive`. -/
def active (p : Nat) : Predicate SampleNode Nat where
  parameter := p
  body := .node (.other .isActive) 1 ![.var p]
  distinct := Fin.forall_fin_one.2 trivial
  closed := Fin.forall_fin_one.2 (List.mem_singleton.2 rfl)

/-- `p => items.Any(q => q != p)`. -/
def differs (p q : Nat) : Predicate SampleNode Nat where
  parameter := p
  body := .bind (.other .any) [q]
    (.node .not 1 ![.node (.other .same) 2 ![.var q, .var p]])
  distinct := ⟨by simp, Fin.forall_fin_one.2 (Fin.forall_fin_two.2 ⟨trivial, trivial⟩)⟩
  closed := Fin.forall_fin_one.2 (Fin.forall_fin_two.2
    ⟨List.mem_cons_self, List.mem_cons_of_mem _ (List.mem_singleton.2 rfl)⟩)

namespace Specification

theorem correct_and_active_iff :
    (composite .and (eval (active 0)) (not (eval (differs 1 2)))).Correct 0 ↔
      (composite .and (eval (active 0)) (not (eval (differs 1 2)))).DeclaresDistinct 0 id ∧
        (composite .and (eval (active 0)) (not (eval (differs 1 2)))).NotsClosed :=
  correct_iff (by decide)

/-- `All.And(active).Not()` is not closed. -/
theorem not_correct_not_and_all :
    ¬(not (composite .and all (eval (active 0)))).Correct 0 := by
  rintro ⟨⟨e, next', hok, hclosed⟩, -⟩
  have hopen : ((not (composite .and all (eval (active 0)))).getExpression 0).toOption.map
      (fun r => decide (r.1.body.Scoped [r.1.parameter])) = some false := by decide
  rw [hok] at hopen
  simp [Except.toOption, hclosed] at hopen

/-- A nested lambda that declares the parameter of the first predicate captures it. -/
theorem not_correct_captured :
    ¬(composite .and (eval (active 0)) (eval (differs 1 0))).Correct 0 := by
  rintro ⟨-, hvalue⟩
  obtain ⟨next', hok⟩ := hvalue sampleInterpretation true
  cases hok

end Specification

/-! ## AndNot -/

/-- The specification is satisfied by the object. -/
def Satisfied (spec : Call (LambdaExpression κ ι)) (I : Interpretation κ) (obj : I.Value)
    (next : Nat) : Prop :=
  ∃ next', isSatisfiedBy spec I obj next = .ok (.ok true, next')

/-- `GetExpression()` of `left.AndNot(right)` does not throw, and an object satisfies the
specification when it satisfies `left` and not `right`. -/
def AndNotMeets (left right : Call (LambdaExpression κ ι)) (next : Nat) : Prop :=
  (∃ e next', andNotSpecification left right next = .ok (e, next')) ∧
    ∀ (I : Interpretation κ) (obj : I.Value),
      Satisfied (andNotSpecification left right) I obj next ↔
        Satisfied left I obj next ∧ ¬Satisfied right I obj next

theorem andNotSpecification_eq_error (left right : Call (LambdaExpression κ ι)) (next : Nat) :
    ∃ e, andNotSpecification left right next = .error e := by
  cases hright : right next with
  | error e =>
    refine ⟨e, ?_⟩
    simp only [andNotSpecification, bind, StateT.bind, hright]
    rfl
  | ok r =>
    refine ⟨.argument, ?_⟩
    simp only [andNotSpecification, bind, StateT.bind, hright]
    rfl

/-- `AndNot` is right for no two specifications. -/
theorem not_andNotMeets (left right : Call (LambdaExpression κ ι)) (next : Nat) :
    ¬AndNotMeets left right next := by
  rintro ⟨⟨e, next', hok⟩, -⟩
  obtain ⟨exception, herror⟩ := andNotSpecification_eq_error left right next
  rw [herror] at hok
  cases hok

/-- The expressions of both operands are closed, that of `All.AndNot(active)` is never made. -/
theorem not_andNotMeets_all_active :
    (∃ e next', (allSpecification : Call (LambdaExpression SampleNode Nat)) 0 = .ok (e, next') ∧
        e.body.Scoped [e.parameter]) ∧
      (∃ e next', expressionSpecification (active 0) 0 = .ok (e, next') ∧
        e.body.Scoped [e.parameter]) ∧
      ¬AndNotMeets allSpecification (expressionSpecification (active 0)) 0 := by
  refine ⟨⟨_, _, rfl, by decide⟩, ⟨_, _, rfl, by decide⟩, ?_⟩
  rintro ⟨⟨e, next', hok⟩, -⟩
  cases hok

end IFramework.Specifications
