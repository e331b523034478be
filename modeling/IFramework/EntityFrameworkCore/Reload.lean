import IFramework.Theory.Acyclic
import IFramework.Theory.Calls
import Mathlib.Logic.Function.Basic

/-!
# Reloading an entity

`Reload` and `ReloadAsync` of the `MsDbContext` follow the loaded navigations of an entity, with no
record of the entities that they have visited. The change tracker gives each entity its entry; the
Entity Framework's reload of one entry leaves the navigations as they are, and is logged here.
`ReloadAsync` also detaches the entities of a collection and then forgets the collection.

A call takes the depth to which it may recurse. Both methods end, and reload the entity, exactly
when no cycle of loaded navigations is reached from it, and no loaded reference without a target.
-/

namespace IFramework.EntityFrameworkCore.MsDbContext

open Calls Relation

/-- A `ReferenceEntry`, a navigation to one entity. -/
structure ReferenceEntry (ε : Type) where
  isLoaded : Bool
  targetEntry : Option ε

/-- A `CollectionEntry`. -/
structure CollectionEntry (ε : Type) where
  isLoaded : Bool
  currentValue : Option (List ε)

/-- An `EntityEntry`: its `Members` that are navigations, and whether its entity is an
`AggregateRoot`. -/
structure EntityEntry (ε : Type) where
  references : List (ReferenceEntry ε)
  collections : List (CollectionEntry ε)
  isAggregateRoot : Bool

/-- The entry of each entity. -/
abbrev ChangeTracker (ε : Type) := ε → EntityEntry ε

/-- The context: the change tracker, and the entities that have been reloaded and rolled back. -/
structure State (ε : Type) where
  changeTracker : ChangeTracker ε
  reloaded : List ε
  rolledBack : List ε

/-- A context in which nothing has been reloaded. -/
def State.of {ε : Type} (changeTracker : ChangeTracker ε) : State ε :=
  { changeTracker := changeTracker, reloaded := [], rolledBack := [] }

/-! ## Navigations -/

/-- A navigation of an entity, by its place among those of its kind. -/
inductive Navigation where
  | reference (i : Nat)
  | collection (i : Nat)
  deriving DecidableEq

namespace ChangeTracker

variable {ε : Type}

/-- What a navigation leads to, if it is loaded; `none` for a reference without a target. -/
def targets (T : ChangeTracker ε) (x : ε) : Navigation → List (Option ε)
  | .reference i =>
    match (T x).references[i]? with
    | none => []
    | some referenceEntry => if referenceEntry.isLoaded then [referenceEntry.targetEntry] else []
  | .collection i =>
    match (T x).collections[i]? with
    | none => []
    | some collectionEntry =>
      if collectionEntry.isLoaded then (collectionEntry.currentValue.getD []).map some else []

/-- A loaded navigation leads from `x` to `y`. -/
def Navigates (T : ChangeTracker ε) (x y : ε) : Prop := ∃ nav, some y ∈ T.targets x nav

/-- A loaded reference of `x` has no target. -/
def Dangling (T : ChangeTracker ε) (x : ε) : Prop := ∃ nav, none ∈ T.targets x nav

end ChangeTracker

/-- What setting the state of an entry to `EntityState.Detached` does to the change tracker: it
changes no other entry, and may only unload navigations of this one. -/
structure Detachment (ε : Type) where
  detach : ε → ChangeTracker ε → ChangeTracker ε
  detach_of_ne : ∀ {x y : ε} {T : ChangeTracker ε}, y ≠ x → detach x T y = T y
  targets_detach : ∀ (x : ε) (T : ChangeTracker ε) (nav : Navigation),
    (detach x T).targets x nav = T.targets x nav ∨ (detach x T).targets x nav = []

section Methods

variable {ε : Type}

/-- `EntityEntry.Reload` and `EntityEntry.ReloadAsync`. -/
def reloadEntry (entity : ε) : Call (State ε) :=
  update fun s => { s with reloaded := s.reloaded ++ [entity] }

/-- `(entityEntry.Entity as AggregateRoot)?.Rollback()`. -/
def rollbackEntity (entity : ε) : Call (State ε) :=
  update fun s =>
    if (s.changeTracker entity).isAggregateRoot then
      { s with rolledBack := s.rolledBack ++ [entity] }
    else s

/-- The body of the loop over the references; `recurse` is the recursive call. -/
def reloadReference (recurse : ε → Call (State ε)) (entity : ε) (i : Nat) :
    Call (State ε) := fun s =>
  match (s.changeTracker entity).references[i]? with
  | none => skip s
  | some referenceEntry =>
    if referenceEntry.isLoaded then
      match referenceEntry.targetEntry with
      | none => throw s
      | some targetEntry => recurse targetEntry s
    else skip s

/-- The loop over the references. -/
def reloadReferences (recurse : ε → Call (State ε)) (entity : ε) : Call (State ε) :=
  fun s => forEach (reloadReference recurse entity)
    (List.range (s.changeTracker entity).references.length) s

/-- The body of the loop over the collections in `Reload`. -/
def reloadCollection (recurse : ε → Call (State ε)) (entity : ε) (i : Nat) :
    Call (State ε) := fun s =>
  match (s.changeTracker entity).collections[i]? with
  | none => skip s
  | some collectionEntry =>
    if collectionEntry.isLoaded then
      match collectionEntry.currentValue with
      | none => skip s
      | some entities => forEach recurse entities s
    else skip s

/-- The loop over the collections in `Reload`. -/
def reloadCollections (recurse : ε → Call (State ε)) (entity : ε) : Call (State ε) :=
  fun s => forEach (reloadCollection recurse entity)
    (List.range (s.changeTracker entity).collections.length) s

/-- `Reload`. -/
def reload : Nat → ε → Bool → Call (State ε)
  | 0, _, _ => fun _ => none
  | depth + 1, entity, includeSubObjects =>
    andThen (reloadEntry entity) <|
    andThen
      (if includeSubObjects then
        andThen (reloadReferences (fun x => reload depth x true) entity)
          (reloadCollections (fun x => reload depth x true) entity)
      else skip) <|
    rollbackEntity entity

variable [DecidableEq ε] (detachment : Detachment ε)

/-- `subEntityEntry.State = EntityState.Detached`. -/
def detachEntity (entity : ε) : Call (State ε) :=
  update fun s => { s with changeTracker := detachment.detach entity s.changeTracker }

/-- The change tracker once the `i`-th collection of `entity` is null and not loaded. -/
def ChangeTracker.clearCollection (T : ChangeTracker ε) (entity : ε) (i : Nat) :
    ChangeTracker ε :=
  Function.update T entity
    { T entity with
      collections := (T entity).collections.set i { isLoaded := false, currentValue := none } }

/-- `collectionEntry.CurrentValue = null; collectionEntry.IsLoaded = false`. -/
def clearCollection (entity : ε) (i : Nat) : Call (State ε) :=
  update fun s => { s with changeTracker := s.changeTracker.clearCollection entity i }

/-- The body of the loop over the collections in `ReloadAsync`. -/
def reloadCollectionAsync (recurse : ε → Call (State ε)) (entity : ε) (i : Nat) :
    Call (State ε) := fun s =>
  match (s.changeTracker entity).collections[i]? with
  | none => skip s
  | some collectionEntry =>
    if collectionEntry.isLoaded then
      andThen
        (match collectionEntry.currentValue with
        | none => skip
        | some entities =>
          forEach (fun subEntity => andThen (recurse subEntity) (detachEntity detachment subEntity))
            entities)
        (clearCollection entity i) s
    else skip s

/-- The loop over the collections in `ReloadAsync`. -/
def reloadCollectionsAsync (recurse : ε → Call (State ε)) (entity : ε) :
    Call (State ε) :=
  fun s => forEach (reloadCollectionAsync detachment recurse entity)
    (List.range (s.changeTracker entity).collections.length) s

/-- `ReloadAsync`, when it is not cancelled. -/
def reloadAsync : Nat → ε → Bool → Call (State ε)
  | 0, _, _ => fun _ => none
  | depth + 1, entity, includeSubObjects =>
    andThen
      (if includeSubObjects then
        andThen (reloadReferences (fun x => reloadAsync depth x true) entity)
          (reloadCollectionsAsync detachment (fun x => reloadAsync depth x true) entity)
      else skip) <|
    andThen (reloadEntry entity) <|
    rollbackEntity entity

/-- Both methods end after finitely many recursive calls, and have then reloaded the entity. -/
def ReloadsStart (T : ChangeTracker ε) (entity : ε) : Prop :=
  (∃ depth o s, reload depth entity true (State.of T) = some (o, s) ∧ entity ∈ s.reloaded) ∧
    ∃ depth o s, reloadAsync detachment depth entity true (State.of T) = some (o, s) ∧
      entity ∈ s.reloaded

end Methods

/-! ## The loops visit the targets -/

section Visits

variable {ε : Type}

/-- The recursive call for a target. -/
def visit (recurse : ε → Call (State ε)) : Option ε → Call (State ε)
  | none => throw
  | some entity => recurse entity

theorem reloadReference_eq (recurse : ε → Call (State ε)) (entity : ε) (i : Nat)
    (s : State ε) :
    reloadReference recurse entity i s =
      forEach (visit recurse) (s.changeTracker.targets entity (.reference i)) s := by
  simp only [reloadReference, ChangeTracker.targets]
  rcases (s.changeTracker entity).references[i]? with _ | ⟨_ | _, _ | target⟩
  · rfl
  · rfl
  · rfl
  · rfl
  · exact (andThen_skip (recurse target) s).symm

theorem reloadCollection_eq (recurse : ε → Call (State ε)) (entity : ε) (i : Nat)
    (s : State ε) :
    reloadCollection recurse entity i s =
      forEach (visit recurse) (s.changeTracker.targets entity (.collection i)) s := by
  simp only [reloadCollection, ChangeTracker.targets]
  rcases (s.changeTracker entity).collections[i]? with _ | ⟨_ | _, _ | entities⟩
  · rfl
  · rfl
  · rfl
  · rfl
  · exact (congrFun (forEach_map (visit recurse) some entities) s).symm

/-- `f` changes no other navigation than this one, and only by taking targets away. -/
def Unloads (f : ChangeTracker ε → ChangeTracker ε) (x : ε) (nav : Navigation) : Prop :=
  (∀ T y nav', (f T).targets y nav' ⊆ T.targets y nav') ∧
    ∀ T y nav', (y, nav') ≠ (x, nav) → (f T).targets y nav' = T.targets y nav'

theorem unloads_id (x : ε) (nav : Navigation) : Unloads id x nav :=
  ⟨fun _ _ _ => List.Subset.refl _, fun _ _ _ _ => rfl⟩

variable {T T' : ChangeTracker ε} {x : ε} {a : Option ε} {i : Nat}

theorem targets_congr (h : T x = T' x) (nav : Navigation) : T.targets x nav = T'.targets x nav := by
  cases nav <;> simp only [ChangeTracker.targets, h]

theorem lt_length_of_mem_reference (h : a ∈ T.targets x (.reference i)) :
    i < (T x).references.length := by
  by_contra hle
  simp [ChangeTracker.targets, List.getElem?_eq_none (Nat.le_of_not_lt hle)] at h

theorem lt_length_of_mem_collection (h : a ∈ T.targets x (.collection i)) :
    i < (T x).collections.length := by
  by_contra hle
  simp [ChangeTracker.targets, List.getElem?_eq_none (Nat.le_of_not_lt hle)] at h

variable [DecidableEq ε]

theorem targets_clearCollection (T : ChangeTracker ε) (x y : ε) (i : Nat) (nav : Navigation) :
    (T.clearCollection x i).targets y nav =
      if (y, nav) = (x, .collection i) then [] else T.targets y nav := by
  by_cases hy : y = x
  · subst hy
    cases nav with
    | reference j => simp [ChangeTracker.targets, ChangeTracker.clearCollection]
    | collection j =>
      by_cases hj : j = i
      · subst hj
        by_cases hlt : j < (T y).collections.length <;>
          simp [ChangeTracker.targets, ChangeTracker.clearCollection, hlt]
      · simp [ChangeTracker.targets, ChangeTracker.clearCollection, hj, Ne.symm hj]
  · cases nav <;> simp [ChangeTracker.targets, ChangeTracker.clearCollection, hy]

theorem unloads_clearCollection (x : ε) (i : Nat) :
    Unloads (fun T => T.clearCollection x i) x (.collection i) := by
  constructor
  · intro T y nav
    rw [targets_clearCollection]
    split
    · exact List.nil_subset _
    · exact List.Subset.refl _
  · intro T y nav hne
    rw [targets_clearCollection, if_neg hne]

theorem reloadCollectionAsync_eq (detachment : Detachment ε) (entity : ε) (i : Nat)
    (s : State ε) :
    ∃ f, Unloads f entity (.collection i) ∧ ∀ recurse,
      reloadCollectionAsync detachment recurse entity i s =
        andThen
          (forEach (visit fun x => andThen (recurse x) (detachEntity detachment x))
            (s.changeTracker.targets entity (.collection i)))
          (update fun t => { t with changeTracker := f t.changeTracker }) s := by
  simp only [reloadCollectionAsync, ChangeTracker.targets]
  rcases (s.changeTracker entity).collections[i]? with _ | ⟨_ | _, _ | entities⟩
  · exact ⟨id, unloads_id _ _, fun _ => rfl⟩
  · exact ⟨id, unloads_id _ _, fun _ => rfl⟩
  · exact ⟨id, unloads_id _ _, fun _ => rfl⟩
  · exact ⟨_, unloads_clearCollection entity i, fun _ => rfl⟩
  · refine ⟨_, unloads_clearCollection entity i, ?_⟩
    intro recurse
    simp only [if_true, Option.getD_some, forEach_map]
    rfl

end Visits

/-! ## Where the loaded navigations end -/

section Reloadable

variable {ε : Type} {T : ChangeTracker ε} {x : ε}

/-- All paths of loaded navigations from the entity end, and no reference on them is without a
target. -/
inductive ChangeTracker.Reloadable (T : ChangeTracker ε) : ε → Prop where
  | intro {x : ε} (htarget : ∀ nav, none ∉ T.targets x nav)
      (hnext : ∀ nav y, some y ∈ T.targets x nav → T.Reloadable y) : T.Reloadable x

/-- The target is there, and can be reloaded. -/
def ChangeTracker.Ends (T : ChangeTracker ε) (target : Option ε) : Prop :=
  ∃ x, target = some x ∧ T.Reloadable x

theorem ChangeTracker.Reloadable.of_ends
    (h : ∀ nav, ∀ target ∈ T.targets x nav, T.Ends target) : T.Reloadable x := by
  refine .intro ?_ ?_
  · intro nav hnone
    obtain ⟨y, hy, -⟩ := h nav none hnone
    cases hy
  · intro nav y hy
    obtain ⟨z, hz, hreloadable⟩ := h nav (some y) hy
    cases hz
    exact hreloadable

theorem ChangeTracker.Reloadable.ends (h : T.Reloadable x)
    {nav : Navigation} {target : Option ε} (htarget : target ∈ T.targets x nav) :
    T.Ends target := by
  cases h with
  | intro hnone hnext =>
    cases target with
    | none => exact absurd htarget (hnone nav)
    | some y => exact ⟨y, rfl, hnext nav y htarget⟩

/-- No loaded navigations lead from the entity to a cycle, or to a reference without a target. -/
def ChangeTracker.NoCycle (T : ChangeTracker ε) (entity : ε) : Prop :=
  ∀ x, ReflTransGen T.Navigates entity x → ¬ TransGen T.Navigates x x ∧ ¬ T.Dangling x

theorem reloadable_of_acc (hacc : Acc (flip T.Navigates) x)
    (hdangling : ∀ y, ReflTransGen T.Navigates x y → ¬ T.Dangling y) : T.Reloadable x := by
  induction hacc with
  | intro x _ ih =>
    refine .intro ?_ ?_
    · intro nav hnone
      exact hdangling x .refl ⟨nav, hnone⟩
    · intro nav y hy
      have hxy : T.Navigates x y := ⟨nav, hy⟩
      exact ih y hxy fun z hyz => hdangling z (.head hxy hyz)

theorem ChangeTracker.Reloadable.acc (h : T.Reloadable x) : Acc (flip T.Navigates) x := by
  induction h with
  | intro _ _ ih =>
    refine Acc.intro _ ?_
    rintro y ⟨nav, hy⟩
    exact ih nav y hy

theorem ChangeTracker.Reloadable.not_dangling (h : T.Reloadable x) {y : ε}
    (hxy : ReflTransGen T.Navigates x y) : ¬ T.Dangling y := by
  induction hxy using ReflTransGen.head_induction_on with
  | refl =>
    rintro ⟨nav, hnone⟩
    obtain ⟨z, hz, -⟩ := h.ends hnone
    cases hz
  | head hstep _ ih =>
    obtain ⟨nav, hnext⟩ := hstep
    obtain ⟨z, hz, hreloadable⟩ := h.ends hnext
    cases hz
    exact ih hreloadable

theorem reloadable_iff [Finite ε] : T.Reloadable x ↔ T.NoCycle x := by
  constructor
  · intro h y hxy
    exact ⟨Acyclic.acc_iff.1 h.acc y hxy, h.not_dangling hxy⟩
  · intro h
    have hacc : Acc (flip T.Navigates) x := Acyclic.acc_iff.2 fun y hxy => (h y hxy).1
    exact reloadable_of_acc hacc fun y hxy => (h y hxy).2

end Reloadable

end IFramework.EntityFrameworkCore.MsDbContext
