import IFramework.EntityFrameworkCore.Reload

/-!
# Reloading ends without a cycle

A call of `ReloadAsync` that returns has seen only navigations whose paths end: what it has unloaded
on the way led nowhere else. Conversely, both methods return where all paths end, by induction over
these paths.
-/

namespace IFramework.EntityFrameworkCore.MsDbContext

open Calls Relation

/-! ## A call that returns has seen no cycle -/

section Sound

variable {ε : Type}

/-- `T'` has lost only targets that can be reloaded. -/
def Forgets (T T' : ChangeTracker ε) : Prop :=
  ∀ x nav, ∀ target ∈ T.targets x nav, target ∈ T'.targets x nav ∨ T.Ends target

variable {T T' T'' : ChangeTracker ε}

theorem Forgets.refl (T : ChangeTracker ε) : Forgets T T := fun _ _ _ h => .inl h

theorem Forgets.reloadable (h : Forgets T T') {x : ε} (hx : T'.Reloadable x) : T.Reloadable x := by
  induction hx with
  | @intro x hnone _ ih =>
    refine .of_ends ?_
    intro nav target htarget
    rcases h x nav target htarget with hkept | hends
    · cases target with
      | none => exact absurd hkept (hnone nav)
      | some y => exact ⟨y, rfl, ih nav y hkept⟩
    · exact hends

theorem Forgets.ends (h : Forgets T T') {target : Option ε} (hends : T'.Ends target) :
    T.Ends target := by
  obtain ⟨x, rfl, hx⟩ := hends
  exact ⟨x, rfl, h.reloadable hx⟩

theorem Forgets.trans (h : Forgets T T') (h' : Forgets T' T'') : Forgets T T'' := by
  intro x nav target htarget
  rcases h x nav target htarget with hkept | hends
  · exact (h' x nav target hkept).imp id h.ends
  · exact .inr hends

/-- The call has lost only targets that can be reloaded, and has reloaded only such entities. -/
structure Sound (s t : State ε) : Prop where
  forgets : Forgets s.changeTracker t.changeTracker
  reloaded : ∀ x ∈ t.reloaded, x ∈ s.reloaded ∨ s.changeTracker.Reloadable x

variable {s t u : State ε}

theorem Sound.refl (s : State ε) : Sound s s :=
  ⟨Forgets.refl _, fun _ hx => .inl hx⟩

theorem Sound.trans (h : Sound s t) (h' : Sound t u) : Sound s u := by
  refine ⟨h.forgets.trans h'.forgets, ?_⟩
  intro x hx
  rcases h'.reloaded x hx with hx | hx
  · exact h.reloaded x hx
  · exact .inr (h.forgets.reloadable hx)

/-- An assignment to navigations whose targets could be reloaded when the call began. -/
theorem Sound.update (h : Sound s t) {f : ChangeTracker ε → ChangeTracker ε}
    (hf : ∀ y nav, (f t.changeTracker).targets y nav = t.changeTracker.targets y nav ∨
      ∀ target ∈ s.changeTracker.targets y nav, s.changeTracker.Ends target) :
    Sound s { t with changeTracker := f t.changeTracker } := by
  refine ⟨?_, h.reloaded⟩
  intro y nav target htarget
  rcases hf y nav with heq | hends
  · exact heq ▸ h.forgets y nav target htarget
  · exact .inr (hends target htarget)

/-- The call is sound, and returns only if all of these targets can be reloaded. -/
def Covers (targets : ChangeTracker ε → Option ε → Prop) (c : Call (State ε)) : Prop :=
  ∀ s o t, c s = some (o, t) →
    Sound s t ∧ (o = .returned → ∀ a, targets s.changeTracker a → s.changeTracker.Ends a)

/-- Targets that are still there after a sound call, or can be reloaded. -/
def Persists (targets : ChangeTracker ε → Option ε → Prop) : Prop :=
  ∀ T T', Forgets T T' → ∀ a, targets T a → targets T' a ∨ T.Ends a

variable {targets targets' : ChangeTracker ε → Option ε → Prop} {c d : Call (State ε)}
  {o : Outcome}

theorem Covers.mono (h : Covers targets c) (hsub : ∀ T a, targets' T a → targets T a) :
    Covers targets' c := by
  intro s o t hc
  obtain ⟨hsound, hends⟩ := h s o t hc
  exact ⟨hsound, fun ho a ha => hends ho a (hsub _ a ha)⟩

/-- What follows a covered call is reached only when its targets can be reloaded. -/
theorem Covers.bind {Q : Prop} (hc : Covers targets c) (h : andThen c d s = some (o, t))
    (hd : ∀ u, d u = some (o, t) → Sound s u →
      (∀ a, targets s.changeTracker a → s.changeTracker.Ends a) →
      Sound s t ∧ (o = .returned → Q)) :
    Sound s t ∧ (o = .returned → Q) := by
  rcases andThen_eq_some.1 h with ⟨hthrew, rfl⟩ | ⟨u, hreturned, hrest⟩
  · exact ⟨(hc s _ t hthrew).1, fun ho => by cases ho⟩
  · obtain ⟨hsound, hends⟩ := hc s _ u hreturned
    exact hd u hrest hsound (hends rfl)

theorem Covers.andThen (hc : Covers targets c) (hd : Covers targets' d)
    (hpersists : Persists targets') :
    Covers (fun T a => targets T a ∨ targets' T a) (andThen c d) := by
  intro s o t h
  refine hc.bind h ?_
  intro u hrest hsound hends
  obtain ⟨hsound', hends'⟩ := hd u o t hrest
  refine ⟨hsound.trans hsound', ?_⟩
  rintro ho a (ha | ha)
  · exact hends a ha
  · rcases hpersists _ _ hsound.forgets a ha with ha | ha
    · exact hsound.forgets.ends (hends' ho a ha)
    · exact ha

/-- The loop returns only if its body has returned for each element. -/
theorem Covers.forEach {β : Type} {targetsOf : β → ChangeTracker ε → Option ε → Prop}
    {body : β → Call (State ε)} {bs : List β}
    (hbody : ∀ b ∈ bs, Covers (targetsOf b) (body b))
    (hpersists : ∀ b ∈ bs, Persists (targetsOf b)) :
    Covers (fun T a => ∃ b ∈ bs, targetsOf b T a) (forEach body bs) := by
  induction bs with
  | nil =>
    intro s o t h
    cases h
    exact ⟨Sound.refl s, by simp⟩
  | cons b bs ih =>
    obtain ⟨hb, hbs⟩ := List.forall_mem_cons.1 hbody
    obtain ⟨-, hpersists'⟩ := List.forall_mem_cons.1 hpersists
    have hrest : Persists fun T a => ∃ b ∈ bs, targetsOf b T a := by
      rintro T T' hforgets a ⟨b', hb', ha⟩
      exact (hpersists' b' hb' T T' hforgets a ha).imp (fun h => ⟨b', hb', h⟩) id
    refine (hb.andThen (ih hbs hpersists') hrest).mono ?_
    rintro T a ⟨b', hb', ha⟩
    rcases List.mem_cons.1 hb' with rfl | hb'
    · exact .inl ha
    · exact .inr ⟨b', hb', ha⟩

theorem persists_eq (a : Option ε) : Persists fun _ b => b = a := fun _ _ _ _ h => .inl h

theorem persists_targets (x : ε) (nav : Navigation) : Persists fun T a => a ∈ T.targets x nav :=
  fun _ _ hforgets a ha => hforgets x nav a ha

/-- The recursive calls that are sound, and return only for what can be reloaded. -/
def SoundCalls (recurse : ε → Call (State ε)) : Prop :=
  ∀ x, Covers (fun _ a => a = some x) (recurse x)

variable {recurse : ε → Call (State ε)}

theorem covers_visit (hrecurse : SoundCalls recurse) (target : Option ε) :
    Covers (fun _ a => a = target) (visit recurse target) := by
  cases target with
  | none =>
    intro s o t h
    cases h
    exact ⟨Sound.refl s, fun ho => by cases ho⟩
  | some x => exact hrecurse x

theorem covers_forEach_visit (hrecurse : SoundCalls recurse) (as : List (Option ε)) :
    Covers (fun _ a => a ∈ as) (forEach (visit recurse) as) := by
  refine (Covers.forEach (fun a _ => covers_visit hrecurse a) fun a _ => persists_eq a).mono ?_
  intro _ a ha
  exact ⟨a, ha, rfl⟩

theorem covers_reloadReference (hrecurse : SoundCalls recurse) (entity : ε) (i : Nat) :
    Covers (fun T a => a ∈ T.targets entity (.reference i))
      (reloadReference recurse entity i) := by
  intro s o t h
  rw [reloadReference_eq] at h
  exact covers_forEach_visit hrecurse _ s o t h

/-- A loop over the navigations of a kind, by their places. -/
theorem covers_range {body : Nat → Call (State ε)} {entity : ε} {nav : Nat → Navigation}
    (hbody : ∀ i, Covers (fun T a => a ∈ T.targets entity (nav i)) (body i)) (n : Nat) :
    Covers (fun T a => ∃ i < n, a ∈ T.targets entity (nav i)) (forEach body (List.range n)) := by
  have hloop := Covers.forEach (fun i (_ : i ∈ List.range n) => hbody i)
    fun i _ => persists_targets entity (nav i)
  refine hloop.mono ?_
  rintro T a ⟨i, hi, ha⟩
  exact ⟨i, List.mem_range.2 hi, ha⟩

theorem covers_reloadReferences (hrecurse : SoundCalls recurse) (entity : ε) :
    Covers (fun T a => ∃ i, a ∈ T.targets entity (.reference i))
      (reloadReferences recurse entity) := by
  intro s o t h
  obtain ⟨hsound, hends⟩ := covers_range (covers_reloadReference hrecurse entity) _ s o t h
  refine ⟨hsound, ?_⟩
  rintro ho a ⟨i, ha⟩
  exact hends ho a ⟨i, lt_length_of_mem_reference ha, ha⟩

/-- What `ReloadAsync` does once the navigations are done. -/
theorem sound_reloadEntry {s t u : State ε} {o : Outcome} {x : ε} (h : Sound s u)
    (hx : s.changeTracker.Reloadable x)
    (hrest : andThen (reloadEntry x) (rollbackEntity x) u = some (o, t)) : Sound s t := by
  have ht : t.changeTracker = u.changeTracker ∧ t.reloaded = u.reloaded ++ [x] := by
    simp only [andThen, reloadEntry, rollbackEntity, update, Option.some.injEq, Prod.mk.injEq]
      at hrest
    obtain ⟨-, rfl⟩ := hrest
    split <;> exact ⟨rfl, rfl⟩
  refine ⟨ht.1 ▸ h.forgets, ?_⟩
  intro y hy
  rw [ht.2] at hy
  rcases List.mem_append.1 hy with hy | hy
  · exact h.reloaded y hy
  · cases List.mem_singleton.1 hy
    exact .inr hx

variable [DecidableEq ε] (detachment : Detachment ε)

theorem covers_detach (hrecurse : SoundCalls recurse) :
    SoundCalls fun x => andThen (recurse x) (detachEntity detachment x) := by
  intro x s o t h
  refine (hrecurse x).bind h ?_
  intro u hrest hsound hends
  obtain ⟨y, hy, hreloadable⟩ := hends (some x) rfl
  cases hy
  cases hrest
  refine ⟨hsound.update ?_, fun _ => hends⟩
  intro y nav
  by_cases hy : y = x
  · subst hy
    exact .inr fun _ => hreloadable.ends
  · exact .inl (targets_congr (detachment.detach_of_ne hy) nav)

theorem covers_reloadCollectionAsync (hrecurse : SoundCalls recurse) (entity : ε) (i : Nat) :
    Covers (fun T a => a ∈ T.targets entity (.collection i))
      (reloadCollectionAsync detachment recurse entity i) := by
  intro s o t h
  obtain ⟨f, ⟨-, hf⟩, heq⟩ := reloadCollectionAsync_eq detachment entity i s
  rw [heq recurse] at h
  refine (covers_forEach_visit (covers_detach detachment hrecurse) _).bind h ?_
  intro u hrest hsound hends
  cases hrest
  refine ⟨hsound.update ?_, fun _ => hends⟩
  intro y nav
  by_cases hnav : (y, nav) = (entity, .collection i)
  · cases hnav
    exact .inr hends
  · exact .inl (hf u.changeTracker y nav hnav)

theorem covers_reloadCollectionsAsync (hrecurse : SoundCalls recurse) (entity : ε) :
    Covers (fun T a => ∃ i, a ∈ T.targets entity (.collection i))
      (reloadCollectionsAsync detachment recurse entity) := by
  intro s o t h
  obtain ⟨hsound, hends⟩ :=
    covers_range (covers_reloadCollectionAsync detachment hrecurse entity) _ s o t h
  refine ⟨hsound, ?_⟩
  rintro ho a ⟨i, ha⟩
  exact hends ho a ⟨i, lt_length_of_mem_collection ha, ha⟩

theorem soundCalls_reloadAsync (depth : Nat) :
    SoundCalls fun x => reloadAsync detachment depth x true := by
  induction depth with
  | zero =>
    intro x s o t h
    cases h
  | succ depth ih =>
    intro x s o t h
    have hnavs := (covers_reloadReferences ih x).andThen
      (covers_reloadCollectionsAsync detachment ih x)
      fun T T' hforgets a ⟨i, ha⟩ => (persists_targets x (.collection i) T T' hforgets a ha).imp
        (fun h => ⟨i, h⟩) id
    simp only [reloadAsync, if_true] at h
    refine hnavs.bind h ?_
    intro u hrest hsound hends
    have hx : s.changeTracker.Reloadable x := by
      refine .of_ends ?_
      intro nav target htarget
      cases nav with
      | reference i => exact hends target (.inl ⟨i, htarget⟩)
      | collection i => exact hends target (.inr ⟨i, htarget⟩)
    refine ⟨sound_reloadEntry hsound hx hrest, ?_⟩
    rintro - a rfl
    exact ⟨x, rfl, hx⟩

end Sound

/-! ## Without a cycle both methods return -/

section Returns

variable {ε : Type} {P : State ε → Prop} {recurse : Nat → ε → Call (State ε)} {x : ε}

/-- From every state that meets `P`, the recursive call for this target returns in one. -/
def Visits (recurse : Nat → ε → Call (State ε)) (P : State ε → Prop)
    (target : Option ε) : Prop :=
  ∃ y, target = some y ∧ ∀ s, P s → Finishes (fun n => recurse n y) s P

/-- The recursive calls for the targets of `x` return, wherever `P` holds. -/
def VisitsAll (recurse : Nat → ε → Call (State ε)) (P : State ε → Prop) (x : ε) :
    Prop :=
  ∀ s, P s → ∀ nav, ∀ target ∈ s.changeTracker.targets x nav, Visits recurse P target

theorem finishes_forEach_visit {s : State ε} {as : List (Option ε)}
    (h : ∀ a ∈ as, Visits recurse P a) (hs : P s) :
    Finishes (fun n => forEach (visit (recurse n)) as) s P := by
  refine Finishes.forEach ?_ hs
  intro a ha t ht
  obtain ⟨y, rfl, hy⟩ := h a ha
  exact hy t ht

theorem finishes_reloadReferences (h : VisitsAll recurse P x) {s : State ε} (hs : P s) :
    Finishes (fun n => reloadReferences (recurse n) x) s P := by
  have hloop : Finishes (fun n => forEach (reloadReference (recurse n) x)
      (List.range (s.changeTracker x).references.length)) s P := by
    refine Finishes.forEach ?_ hs
    intro i _ t ht
    refine Finishes.congr (fun n => reloadReference_eq (recurse n) x i t) ?_
    exact finishes_forEach_visit (h t ht (.reference i)) ht
  exact hloop

theorem finishes_reloadCollections (h : VisitsAll recurse P x) {s : State ε} (hs : P s) :
    Finishes (fun n => reloadCollections (recurse n) x) s P := by
  have hloop : Finishes (fun n => forEach (reloadCollection (recurse n) x)
      (List.range (s.changeTracker x).collections.length)) s P := by
    refine Finishes.forEach ?_ hs
    intro i _ t ht
    refine Finishes.congr (fun n => reloadCollection_eq (recurse n) x i t) ?_
    exact finishes_forEach_visit (h t ht (.collection i)) ht
  exact hloop

theorem finishes_reload {T : ChangeTracker ε} (hx : T.Reloadable x) {s : State ε}
    (hs : s.changeTracker = T) :
    Finishes (fun n => reload n x true) s fun t =>
      t.changeTracker = T ∧ x ∈ t.reloaded ∧ s.reloaded ⊆ t.reloaded := by
  induction hx generalizing s with
  | @intro x hnone hnext ih =>
    let P : State ε → Prop := fun t =>
      t.changeTracker = T ∧ x ∈ t.reloaded ∧ s.reloaded ⊆ t.reloaded
    have hvisits : VisitsAll (fun n y => reload n y true) P x := by
      rintro t ⟨rfl, -, -⟩ nav target htarget
      cases target with
      | none => exact absurd htarget (hnone nav)
      | some y =>
        refine ⟨y, rfl, ?_⟩
        rintro u ⟨hu, hxu, hsu⟩
        refine (ih nav y htarget hu).mono ?_
        rintro v ⟨hv, -, huv⟩
        exact ⟨hv, huv hxu, List.Subset.trans hsu huv⟩
    have hentry : Finishes (fun _ => reloadEntry x) s P :=
      Finishes.of_forall (fun _ => rfl) ⟨hs, by simp, by simp⟩
    have hrollback : ∀ t, P t → Finishes (fun _ => rollbackEntity x) t P := by
      intro t ht
      refine Finishes.of_forall (fun _ => rfl) ?_
      dsimp only
      split
      · exact ht
      · exact ht
    refine Finishes.succ ?_
    refine hentry.andThen ?_
    intro t ht
    refine Finishes.andThen ?_ hrollback
    exact (finishes_reloadReferences hvisits ht).andThen fun u hu =>
      finishes_reloadCollections hvisits hu

variable [DecidableEq ε] (detachment : Detachment ε)

/-- All loaded navigations of `T'` are loaded in `T`. -/
def Shrinks (T T' : ChangeTracker ε) : Prop := ∀ y nav, T'.targets y nav ⊆ T.targets y nav

theorem finishes_reloadCollectionsAsync (h : VisitsAll recurse P x)
    (hdetach : ∀ y s, P s → P { s with changeTracker := detachment.detach y s.changeTracker })
    (hunloads : ∀ f i s, Unloads f x (.collection i) → P s →
      P { s with changeTracker := f s.changeTracker })
    {s : State ε} (hs : P s) :
    Finishes (fun n => reloadCollectionsAsync detachment (recurse n) x) s P := by
  have hloop : Finishes (fun n => forEach (reloadCollectionAsync detachment (recurse n) x)
      (List.range (s.changeTracker x).collections.length)) s P := by
    refine Finishes.forEach ?_ hs
    intro i _ t ht
    obtain ⟨f, hf, heq⟩ := reloadCollectionAsync_eq detachment x i t
    refine Finishes.congr (fun n => heq (recurse n)) ?_
    have hchildren : Finishes (fun n => forEach
        (visit fun y => andThen (recurse n y) (detachEntity detachment y))
        (t.changeTracker.targets x (.collection i))) t P := by
      refine finishes_forEach_visit ?_ ht
      intro target htarget
      obtain ⟨y, rfl, hy⟩ := h t ht (.collection i) target htarget
      refine ⟨y, rfl, ?_⟩
      intro u hu
      exact (hy u hu).andThen fun v hv => Finishes.of_forall (fun _ => rfl) (hdetach y v hv)
    exact hchildren.andThen fun u hu => Finishes.of_forall (fun _ => rfl) (hunloads f i u hf hu)
  exact hloop

theorem finishes_reloadAsync {T : ChangeTracker ε} (hx : T.Reloadable x) {s : State ε}
    (hs : Shrinks T s.changeTracker) :
    Finishes (fun n => reloadAsync detachment n x true) s fun t =>
      Shrinks T t.changeTracker ∧ x ∈ t.reloaded := by
  induction hx generalizing s with
  | @intro x hnone hnext ih =>
    let P : State ε → Prop := fun t => Shrinks T t.changeTracker
    have hvisits : VisitsAll (fun n y => reloadAsync detachment n y true) P x := by
      intro t ht nav target htarget
      cases target with
      | none => exact absurd (ht x nav htarget) (hnone nav)
      | some y =>
        refine ⟨y, rfl, ?_⟩
        intro u hu
        exact (ih nav y (ht x nav htarget) hu).mono fun _ hv => hv.1
    have hdetach : ∀ y s, P s →
        P { s with changeTracker := detachment.detach y s.changeTracker } := by
      intro y s hs z nav
      by_cases hz : z = y
      · subst hz
        rcases detachment.targets_detach z s.changeTracker nav with heq | hnil
        · exact heq ▸ hs z nav
        · exact hnil ▸ List.nil_subset _
      · have heq := targets_congr (detachment.detach_of_ne (T := s.changeTracker) hz) nav
        exact heq ▸ hs z nav
    have hunloads : ∀ f i s, Unloads f x (.collection i) → P s →
        P { s with changeTracker := f s.changeTracker } :=
      fun f i s hf hs y nav => List.Subset.trans (hf.1 s.changeTracker y nav) (hs y nav)
    have hentry : ∀ t, P t → Finishes (fun _ => andThen (reloadEntry x) (rollbackEntity x)) t
        fun u => Shrinks T u.changeTracker ∧ x ∈ u.reloaded := by
      intro t ht
      refine Finishes.of_forall (fun _ => rfl) ?_
      dsimp only
      split
      · exact ⟨ht, by simp⟩
      · exact ⟨ht, by simp⟩
    refine Finishes.succ ?_
    refine Finishes.andThen ?_ hentry
    exact (finishes_reloadReferences hvisits hs).andThen fun t ht =>
      finishes_reloadCollectionsAsync detachment hvisits hdetach hunloads ht

end Returns

/-! ## When the methods end -/

section Methods

variable {ε : Type} {T : ChangeTracker ε} {x : ε}

/-- `ReloadAsync` reloads the entity only after everything that it leads to. -/
theorem reloadable_of_reloadAsync [DecidableEq ε] {detachment : Detachment ε} {depth : Nat}
    {o : Outcome} {s : State ε}
    (h : reloadAsync detachment depth x true (State.of T) = some (o, s))
    (hx : x ∈ s.reloaded) : T.Reloadable x := by
  obtain ⟨hsound, -⟩ := soundCalls_reloadAsync detachment depth x _ o s h
  rcases hsound.reloaded x hx with hbefore | hreloadable
  · cases hbefore
  · exact hreloadable

/-- `Reload` and `ReloadAsync` end, and reload the entity, exactly when it leads to no cycle and no
loaded reference without a target. -/
theorem reloadsStart_iff [Finite ε] [DecidableEq ε] (detachment : Detachment ε)
    (T : ChangeTracker ε) (entity : ε) :
    ReloadsStart detachment T entity ↔ T.NoCycle entity := by
  rw [← reloadable_iff]
  constructor
  · rintro ⟨-, depth, o, s, hs, hreloaded⟩
    exact reloadable_of_reloadAsync hs hreloaded
  · intro h
    obtain ⟨depth, s, hs, -, hreloaded, -⟩ :=
      (finishes_reload h (s := State.of T) rfl).exists_eq
    obtain ⟨depth', s', hs', -, hreloaded'⟩ :=
      (finishes_reloadAsync detachment h (s := State.of T)
        fun _ _ => List.Subset.refl _).exists_eq
    exact ⟨⟨depth, .returned, s, hs, hreloaded⟩, depth', .returned, s', hs', hreloaded'⟩

end Methods

/-! ## A parent and its child -/

/-- The parent has a collection with the child, and the child a reference to the parent; both
navigations are loaded. -/
def family : ChangeTracker Bool
  | true =>
    { references := []
      collections := [{ isLoaded := true, currentValue := some [false] }]
      isAggregateRoot := true }
  | false =>
    { references := [{ isLoaded := true, targetEntry := some true }]
      collections := []
      isAggregateRoot := false }

/-- An entry that is detached loses the flags of its navigations. -/
def unloading : Detachment Bool where
  detach x T := Function.update T x
    { T x with
      references := (T x).references.map fun r => { r with isLoaded := false }
      collections := (T x).collections.map fun c => { c with isLoaded := false } }
  detach_of_ne hne := Function.update_of_ne hne _ _
  targets_detach x T nav := by
    right
    cases nav with
    | reference i =>
      simp only [ChangeTracker.targets, Function.update_self, List.getElem?_map]
      cases (T x).references[i]? <;> rfl
    | collection i =>
      simp only [ChangeTracker.targets, Function.update_self, List.getElem?_map]
      cases (T x).collections[i]? <;> rfl

theorem reload_family (depth : Nat) (x : Bool) (s : State Bool)
    (hs : s.changeTracker = family) : reload depth x true s = none := by
  induction depth generalizing x s with
  | zero => rfl
  | succ depth ih =>
    cases x <;>
      simp [reload, andThen, reloadEntry, update, reloadReferences, reloadCollections,
        reloadReference, reloadCollection, forEach, family, hs, ih, skip]

theorem not_reloadsStart_family : ¬ ReloadsStart unloading family true := by
  rintro ⟨⟨depth, o, s, hs, -⟩, -⟩
  rw [reload_family depth true _ rfl] at hs
  cases hs

/-- The parent with the child, when the child's reference to it is not loaded. -/
def familyUnlinked : ChangeTracker Bool
  | true => family true
  | false => { family false with references := [{ isLoaded := false, targetEntry := none }] }

theorem reloadsStart_familyUnlinked :
    ReloadsStart unloading familyUnlinked true ∧ familyUnlinked.NoCycle true := by
  have hreloads : ReloadsStart unloading familyUnlinked true :=
    ⟨⟨3, .returned, _, rfl, by decide⟩, 3, .returned, _, rfl, by decide⟩
  exact ⟨hreloads, (reloadsStart_iff unloading familyUnlinked true).1 hreloads⟩

end IFramework.EntityFrameworkCore.MsDbContext
