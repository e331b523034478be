import Mathlib.Data.List.Nodup

/-!
# Terms with named binders, and what renaming them does

A `Term` has variables, nodes with any number of subterms and binders of several variables at once.
`rename` replaces every variable, at its binder as well as where it occurs. Nothing is renamed
apart: a binder whose variable gets the new name of another one captures that one. `Preserves` says
that this does not happen in a scope, and then a term means what it meant before (`eval_rename`).

An algebra gives the meaning of nodes and binders over any domain; what a binder binds depends on
the values of its variables, by position.
-/

namespace Binding

/-- A node `k` over subterms, or a binder `k` of several variables over one. -/
inductive Term (κ ι : Type) where
  | var (x : ι)
  | node (k : κ) (n : Nat) (args : Fin n → Term κ ι)
  | bind (k : κ) (xs : List ι) (body : Term κ ι)

/-- The meaning of nodes and binders; variables stand for values. -/
structure Algebra (κ V D : Type) where
  var : V → D
  node : κ → (n : Nat) → (Fin n → D) → D
  bind : κ → Nat → ((Nat → V) → D) → D

namespace Term

variable {κ ι ι' ι'' V D : Type}

/-! ## Renaming -/

/-- Replace every variable. -/
def rename (f : ι → ι') : Term κ ι → Term κ ι'
  | .var x => .var (f x)
  | .node k n args => .node k n fun i => (args i).rename f
  | .bind k xs body => .bind k (xs.map f) (body.rename f)

theorem rename_rename (f : ι → ι') (g : ι' → ι'') (e : Term κ ι) :
    (e.rename f).rename g = e.rename (g ∘ f) := by
  induction e with
  | var x => rfl
  | node k n args ih => exact congrArg (Term.node k n) (funext ih)
  | bind k xs body ih => simp only [rename, ih, List.map_map]

/-- No binder binds a variable twice. -/
def Distinct : Term κ ι → Prop
  | .var _ => True
  | .node _ _ args => ∀ i, (args i).Distinct
  | .bind _ xs body => xs.Nodup ∧ body.Distinct

instance Distinct.decidable [DecidableEq ι] : (e : Term κ ι) → Decidable e.Distinct
  | .var _ => isTrue trivial
  | .node _ n args =>
    have : ∀ i, Decidable (args i).Distinct := fun i => Distinct.decidable (args i)
    inferInstanceAs (Decidable (∀ i : Fin n, (args i).Distinct))
  | .bind _ xs body =>
    have := Distinct.decidable body
    inferInstanceAs (Decidable (xs.Nodup ∧ body.Distinct))

theorem Distinct.rename {f : ι → ι'} (hf : Function.Injective f) {e : Term κ ι}
    (h : e.Distinct) : (e.rename f).Distinct := by
  induction e with
  | var x => trivial
  | node k n args ih => exact fun i => ih i (h i)
  | bind k xs body ih => exact ⟨h.1.map hf, ih h.2⟩

/-- Variables that a renaming keeps apart are different. -/
theorem Distinct.of_rename {f : ι → ι'} {e : Term κ ι} (h : (e.rename f).Distinct) :
    e.Distinct := by
  induction e with
  | var x => trivial
  | node k n args ih => exact fun i => ih i (h i)
  | bind k xs body ih => exact ⟨List.Nodup.of_map f h.1, ih h.2⟩

/-! ## Scopes -/

/-- Every variable is bound, in the term or in this scope. -/
def Scoped (scope : List ι) : Term κ ι → Prop
  | .var x => x ∈ scope
  | .node _ _ args => ∀ i, (args i).Scoped scope
  | .bind _ xs body => body.Scoped (xs ++ scope)

instance Scoped.decidable [DecidableEq ι] : (scope : List ι) → (e : Term κ ι) →
    Decidable (e.Scoped scope)
  | scope, .var x => inferInstanceAs (Decidable (x ∈ scope))
  | scope, .node _ n args =>
    have : ∀ i, Decidable ((args i).Scoped scope) := fun i => Scoped.decidable scope (args i)
    inferInstanceAs (Decidable (∀ i : Fin n, (args i).Scoped scope))
  | scope, .bind _ xs body => Scoped.decidable (xs ++ scope) body

theorem Scoped.mono {scope scope' : List ι} {e : Term κ ι} (h : e.Scoped scope)
    (hsub : scope ⊆ scope') : e.Scoped scope' := by
  induction e generalizing scope scope' with
  | var x => exact hsub h
  | node k n args ih => exact fun i => ih i (h i) hsub
  | bind k xs body ih => exact ih h (List.append_subset.2
    ⟨List.subset_append_left .., fun _ hx => List.mem_append_right _ (hsub hx)⟩)

theorem Scoped.rename {scope : List ι} {e : Term κ ι} (h : e.Scoped scope) (f : ι → ι') :
    (e.rename f).Scoped (scope.map f) := by
  induction e generalizing scope with
  | var x => exact List.mem_map_of_mem h
  | node k n args ih => exact fun i => ih i (h i)
  | bind k xs body ih =>
    have hbody := ih h
    rwa [List.map_append] at hbody

/-- Every variable is still bound where it was: the innermost variable of the scope that has its new
name is that variable. -/
def Preserves [DecidableEq ι'] (f : ι → ι') (scope : List ι) : Term κ ι → Prop
  | .var x => scope.find? (fun y => f y = f x) = some x
  | .node _ _ args => ∀ i, (args i).Preserves f scope
  | .bind _ xs body => body.Preserves f (xs ++ scope)

instance Preserves.decidable [DecidableEq ι] [DecidableEq ι'] (f : ι → ι') :
    (scope : List ι) → (e : Term κ ι) → Decidable (e.Preserves f scope)
  | scope, .var x =>
    inferInstanceAs (Decidable (scope.find? (fun y => f y = f x) = some x))
  | scope, .node _ n args =>
    have : ∀ i, Decidable ((args i).Preserves f scope) := fun i =>
      Preserves.decidable f scope (args i)
    inferInstanceAs (Decidable (∀ i : Fin n, (args i).Preserves f scope))
  | scope, .bind _ xs body => Preserves.decidable f (xs ++ scope) body

/-- What is bound by an outer variable that was not renamed to `q` is not bound by `q`. -/
theorem Preserves.scoped [DecidableEq ι'] {f : ι → ι'} {scope : List ι} {p : ι} {q : ι'}
    {e : Term κ ι} (h : e.Preserves f (scope ++ [p])) (hq : f p ≠ q)
    (hscoped : (e.rename f).Scoped (scope.map f ++ [q])) : e.Scoped scope := by
  induction e generalizing scope with
  | var x =>
    rw [Preserves, List.find?_append, Option.or_eq_some_iff] at h
    rcases h with h | ⟨hnone, h⟩
    · exact List.mem_of_find?_eq_some h
    · obtain rfl : p = x := List.mem_singleton.1 (List.mem_of_find?_eq_some h) |>.symm
      rcases List.mem_append.1 hscoped with hmem | hmem
      · obtain ⟨y, hy, hyp⟩ := List.mem_map.1 hmem
        have hne := List.find?_eq_none.1 hnone y hy
        exact absurd (decide_eq_true hyp) hne
      · exact absurd (List.mem_singleton.1 hmem) hq
  | node k n args ih => exact fun i => ih i (h i) (hscoped i)
  | bind k xs body ih =>
    rw [Preserves, ← List.append_assoc] at h
    rw [Term.rename, Scoped, ← List.append_assoc, ← List.map_append] at hscoped
    exact ih h hscoped

/-! ## Meaning -/

section Eval

variable [DecidableEq ι]

/-- The values of the variables of a binder, which hide those around it. -/
def bindValues (env : ι → V) : List ι → (Nat → V) → ι → V
  | [], _, x => env x
  | y :: xs, vs, x => if x = y then vs 0 else bindValues env xs (fun i => vs (i + 1)) x

/-- The meaning of a term. -/
def eval (A : Algebra κ V D) : Term κ ι → (ι → V) → D
  | .var x, env => A.var (env x)
  | .node k n args, env => A.node k n fun i => (args i).eval A env
  | .bind k xs body, env => A.bind k xs.length fun vs => body.eval A (bindValues env xs vs)

theorem bindValues_congr {env env' : ι → V} {scope : List ι} (h : ∀ x ∈ scope, env x = env' x)
    (xs : List ι) (vs : Nat → V) :
    ∀ x ∈ xs ++ scope, bindValues env xs vs x = bindValues env' xs vs x := by
  induction xs generalizing vs with
  | nil => exact h
  | cons y xs ih =>
    intro x hx
    by_cases hxy : x = y
    · rw [bindValues, bindValues, if_pos hxy, if_pos hxy]
    · rw [bindValues, bindValues, if_neg hxy, if_neg hxy]
      exact ih _ x ((List.mem_cons.1 hx).resolve_left hxy)

theorem eval_congr (A : Algebra κ V D) {e : Term κ ι} {scope : List ι} {env env' : ι → V}
    (he : e.Scoped scope) (h : ∀ x ∈ scope, env x = env' x) : e.eval A env = e.eval A env' := by
  induction e generalizing scope env env' with
  | var x => exact congrArg A.var (h x he)
  | node k n args ih => exact congrArg (A.node k n) (funext fun i => ih i (he i) h)
  | bind k xs body ih =>
    exact congrArg (A.bind k xs.length) (funext fun vs => ih he (bindValues_congr h xs vs))

/-- If the variables of a scope have the values that their new names have, so have those of the
scope within a binder. -/
theorem bindValues_rename [DecidableEq ι'] {f : ι → ι'} {scope : List ι} {env : ι → V}
    {env' : ι' → V}
    (h : ∀ x, scope.find? (fun y => f y = f x) = some x → env' (f x) = env x)
    (xs : List ι) (vs : Nat → V) (x : ι)
    (hx : (xs ++ scope).find? (fun y => f y = f x) = some x) :
    bindValues env' (xs.map f) vs (f x) = bindValues env xs vs x := by
  induction xs generalizing vs with
  | nil => exact h x hx
  | cons y xs ih =>
    rw [List.map_cons, bindValues, bindValues]
    rw [List.cons_append, List.find?_cons] at hx
    by_cases hyx : f y = f x
    · rw [decide_eq_true hyx] at hx
      obtain rfl := Option.some.inj hx
      rw [if_pos rfl, if_pos rfl]
    · rw [decide_eq_false hyx] at hx
      have hne : x ≠ y := fun heq => hyx (congrArg f heq.symm)
      rw [if_neg (Ne.symm hyx), if_neg hne]
      exact ih _ hx

/-- A renaming that captures nothing keeps the meaning. -/
theorem eval_rename [DecidableEq ι'] (A : Algebra κ V D) {f : ι → ι'} {e : Term κ ι}
    {scope : List ι} {env : ι → V} {env' : ι' → V} (he : e.Preserves f scope)
    (h : ∀ x, scope.find? (fun y => f y = f x) = some x → env' (f x) = env x) :
    (e.rename f).eval A env' = e.eval A env := by
  induction e generalizing scope env env' with
  | var x => exact congrArg A.var (h x he)
  | node k n args ih => exact congrArg (A.node k n) (funext fun i => ih i (he i) h)
  | bind k xs body ih =>
    rw [rename, eval, eval, List.length_map]
    exact congrArg (A.bind k xs.length) (funext fun vs => ih he (bindValues_rename h xs vs))

end Eval

end Term

end Binding
