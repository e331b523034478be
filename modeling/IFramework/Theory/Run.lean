import Mathlib.Logic.Function.Basic

/-!
# Runs of a partial step function

A system is given by `step : σ → α → Option σ`: the state after one atomic action, `none` when
the action is not enabled. `run` executes a list of actions, one interleaving of the parties of
the system. `Along step P s as` says that every action of the run is taken in a state that meets
`P`; a property that needs such a condition is proved with `Along.invariant`, one that needs none
with `run_invariant`. `throughout_iff_along` is for a property that a step keeps under a condition
and not otherwise, `run_iff_along` for one that is not regained once it is lost.
-/

namespace Machine

variable {σ α : Type*} {step : σ → α → Option σ}

/-- The state after the actions, `none` as soon as one of them is not enabled. -/
def run (step : σ → α → Option σ) : σ → List α → Option σ
  | s, [] => some s
  | s, a :: as => (step s a).bind fun s' => run step s' as

/-- Every action of the run from `s` is taken in a state that meets `P`. -/
def Along (step : σ → α → Option σ) (P : σ → α → Prop) : σ → List α → Prop
  | _, [] => True
  | s, a :: as => P s a ∧ ∀ s', step s a = some s' → Along step P s' as

@[simp] theorem run_nil (s : σ) : run step s [] = some s := rfl

theorem run_cons_eq_some {s s' : σ} {a : α} {as : List α} :
    run step s (a :: as) = some s' ↔ ∃ t, step s a = some t ∧ run step t as = some s' := by
  simp [run, Option.bind_eq_some_iff]

theorem run_append_eq_some {s s' : σ} {as bs : List α} :
    run step s (as ++ bs) = some s' ↔ ∃ t, run step s as = some t ∧ run step t bs = some s' := by
  induction as generalizing s with
  | nil => simp
  | cons a as ih =>
    simp only [List.cons_append, run_cons_eq_some, ih]
    constructor
    · rintro ⟨t, ht, u, hu, hs⟩
      exact ⟨u, ⟨t, ht, hu⟩, hs⟩
    · rintro ⟨u, ⟨t, ht, hu⟩, hs⟩
      exact ⟨t, ht, u, hu, hs⟩

/-- Along a run it can be decided whether every action is taken under a decidable condition. -/
instance Along.decidable {P : σ → α → Prop} [∀ s a, Decidable (P s a)] :
    ∀ s as, Decidable (Along step P s as)
  | _, [] => isTrue trivial
  | s, a :: as =>
    match h : step s a with
    | none => decidable_of_iff (P s a) (by simp [Along, h])
    | some t =>
      have := Along.decidable (P := P) t as
      decidable_of_iff (P s a ∧ Along step P t as) (by simp [Along, h])

/-- A condition that always holds is met along every run. -/
theorem Along.of_forall {P : σ → α → Prop} (hP : ∀ s a, P s a) (s : σ) (as : List α) :
    Along step P s as := by
  induction as generalizing s with
  | nil => trivial
  | cons a as ih => exact ⟨hP s a, fun t _ => ih t⟩

/-- A condition on the actions alone. -/
theorem Along.of_mem {P : α → Prop} {s : σ} {as : List α} (h : ∀ a ∈ as, P a) :
    Along step (fun _ a => P a) s as := by
  induction as generalizing s with
  | nil => trivial
  | cons a as ih =>
    obtain ⟨ha, has⟩ := List.forall_mem_cons.1 h
    exact ⟨ha, fun _ _ => ih has⟩

/-- Two conditions together. -/
theorem Along.and {P Q : σ → α → Prop} {s : σ} {as : List α} (hP : Along step P s as)
    (hQ : Along step Q s as) : Along step (fun s a => P s a ∧ Q s a) s as := by
  induction as generalizing s with
  | nil => trivial
  | cons a as ih => exact ⟨⟨hP.1, hQ.1⟩, fun t ht => ih (hP.2 t ht) (hQ.2 t ht)⟩

/-- A property that every step preserves holds at the end of every run. -/
theorem run_invariant (Inv : σ → Prop)
    (hstep : ∀ s a s', Inv s → step s a = some s' → Inv s') :
    ∀ {as : List α} {s s' : σ}, Inv s → run step s as = some s' → Inv s' := by
  intro as
  induction as with
  | nil =>
    intro s s' hs hrun
    cases hrun
    exact hs
  | cons a as ih =>
    intro s s' hs hrun
    obtain ⟨t, ht, hrest⟩ := run_cons_eq_some.1 hrun
    exact ih (hstep s a t hs ht) hrest

/-- As `run_invariant`, with what the invariant says of each action. -/
theorem run_invariant_forall (Inv : σ → Prop) (Q : α → Prop)
    (hstep : ∀ s a s', Inv s → step s a = some s' → Inv s' ∧ Q a) :
    ∀ {as : List α} {s s' : σ}, Inv s → run step s as = some s' → Inv s' ∧ ∀ a ∈ as, Q a := by
  intro as
  induction as with
  | nil =>
    intro s s' hs hrun
    cases hrun
    exact ⟨hs, by simp⟩
  | cons a as ih =>
    intro s s' hs hrun
    obtain ⟨t, ht, hrest⟩ := run_cons_eq_some.1 hrun
    obtain ⟨hinv, hQ⟩ := hstep s a t hs ht
    obtain ⟨hinv', hQs⟩ := ih hinv hrest
    exact ⟨hinv', List.forall_mem_cons.2 ⟨hQ, hQs⟩⟩

/-- A property that every step taken under `P` preserves holds at the end of every run whose
actions are all taken under `P`. -/
theorem Along.invariant {P : σ → α → Prop} (Inv : σ → Prop)
    (hstep : ∀ s a s', Inv s → P s a → step s a = some s' → Inv s') :
    ∀ {as : List α} {s s' : σ}, Inv s → Along step P s as → run step s as = some s' → Inv s' := by
  intro as
  induction as with
  | nil =>
    intro s s' hs _ hrun
    cases hrun
    exact hs
  | cons a as ih =>
    intro s s' hs hP hrun
    obtain ⟨t, ht, hrest⟩ := run_cons_eq_some.1 hrun
    exact ih (hstep s a t hs hP.1 ht) (hP.2 t ht) hrest

/-- When every action that is taken under `P` is enabled, there is a run. -/
theorem Along.exists_run {P : σ → α → Prop} (Inv : σ → Prop)
    (hstep : ∀ s a s', Inv s → P s a → step s a = some s' → Inv s')
    (henabled : ∀ s a, Inv s → P s a → ∃ s', step s a = some s') :
    ∀ {as : List α} {s : σ}, Inv s → Along step P s as → ∃ s', run step s as = some s' := by
  intro as
  induction as with
  | nil =>
    intro s _ _
    exact ⟨s, rfl⟩
  | cons a as ih =>
    intro s hs hP
    obtain ⟨t, ht⟩ := henabled s a hs hP.1
    obtain ⟨s', hs'⟩ := ih (hstep s a t hs hP.1 ht) (hP.2 t ht)
    exact ⟨s', run_cons_eq_some.2 ⟨t, ht, hs'⟩⟩

/-- A condition that follows from another one wherever the invariant holds. -/
theorem Along.imp {P Q : σ → α → Prop} (Inv : σ → Prop)
    (hstep : ∀ s a s', Inv s → P s a → step s a = some s' → Inv s')
    (himp : ∀ s a, Inv s → P s a → Q s a) :
    ∀ {as : List α} {s : σ}, Inv s → Along step P s as → Along step Q s as := by
  intro as
  induction as with
  | nil =>
    intro s _ _
    trivial
  | cons a as ih =>
    intro s hs hP
    exact ⟨himp s a hs hP.1, fun t ht => ih (hstep s a t hs hP.1 ht) (hP.2 t ht)⟩

/-- Two conditions that agree wherever the invariant holds agree along a run, if the invariant is
kept by every action that meets them. -/
theorem Along.congr {P Q R : σ → α → Prop} (Inv : σ → Prop)
    (hstep : ∀ s a s', Inv s → P s a → Q s a → step s a = some s' → Inv s')
    (hiff : ∀ s a, Inv s → P s a → (Q s a ↔ R s a)) :
    ∀ {as : List α} {s : σ}, Inv s → Along step P s as →
      (Along step Q s as ↔ Along step R s as) := by
  intro as
  induction as with
  | nil =>
    intro s _ _
    exact Iff.rfl
  | cons a as ih =>
    intro s hs hP
    have hrest : Q s a → ∀ t, step s a = some t → (Along step Q t as ↔ Along step R t as) :=
      fun hQ t ht => ih (hstep s a t hs hP.1 hQ ht) (hP.2 t ht)
    constructor
    · rintro ⟨hQ, hQs⟩
      exact ⟨(hiff s a hs hP.1).1 hQ, fun t ht => (hrest hQ t ht).1 (hQs t ht)⟩
    · rintro ⟨hR, hRs⟩
      have hQ := (hiff s a hs hP.1).2 hR
      exact ⟨hQ, fun t ht => (hrest hQ t ht).2 (hRs t ht)⟩

/-- Every state of the run, the first and the last one included, meets `K`. -/
def Throughout (step : σ → α → Option σ) (K : σ → Prop) (s : σ) (as : List α) : Prop :=
  ∀ bs t, bs <+: as → run step s bs = some t → K t

theorem throughout_nil {K : σ → Prop} {s : σ} : Throughout step K s [] ↔ K s := by
  constructor
  · intro h
    exact h [] s (List.prefix_refl []) rfl
  · intro hs bs t hbs hrun
    cases List.prefix_nil.1 hbs
    cases hrun
    exact hs

theorem throughout_cons {K : σ → Prop} {s t : σ} {a : α} {as : List α} (ht : step s a = some t) :
    Throughout step K s (a :: as) ↔ K s ∧ Throughout step K t as := by
  constructor
  · intro h
    refine ⟨h [] s List.nil_prefix rfl, ?_⟩
    intro bs u hbs hrun
    exact h (a :: bs) u (List.cons_prefix_cons.2 ⟨rfl, hbs⟩)
      (run_cons_eq_some.2 ⟨t, ht, hrun⟩)
  · rintro ⟨hs, hrest⟩ bs u hbs hrun
    cases bs with
    | nil =>
      cases hrun
      exact hs
    | cons b bs =>
      obtain ⟨rfl, htail⟩ := List.cons_prefix_cons.1 hbs
      obtain ⟨t', ht', hrun⟩ := run_cons_eq_some.1 hrun
      rw [ht] at ht'
      cases ht'
      exact hrest bs u htail hrun

/-- When a step that is taken under `P` keeps `K` exactly if it meets `R`, all states of a run under
`P` meet `K` exactly if all its steps meet `R`. -/
theorem throughout_iff_along {K : σ → Prop} {P R : σ → α → Prop} (Inv : σ → Prop)
    (hinv : ∀ s a s', Inv s → P s a → step s a = some s' → Inv s')
    (hiff : ∀ s a s', Inv s → P s a → K s → step s a = some s' → (K s' ↔ R s a)) :
    ∀ {as : List α} {s s' : σ}, Inv s → K s → Along step P s as → run step s as = some s' →
      (Throughout step K s as ↔ Along step R s as) := by
  intro as
  induction as with
  | nil =>
    intro s s' _ hs _ _
    exact iff_of_true (throughout_nil.2 hs) trivial
  | cons a as ih =>
    intro s s' hs hK hP hrun
    obtain ⟨t, ht, hrest⟩ := run_cons_eq_some.1 hrun
    have hstep := hiff s a t hs hP.1 hK ht
    have htail : K t → (Throughout step K t as ↔ Along step R t as) :=
      fun hKt => ih (hinv s a t hs hP.1 ht) hKt (hP.2 t ht) hrest
    rw [throughout_cons ht]
    constructor
    · rintro ⟨-, hthroughout⟩
      have hKt : K t := hthroughout [] t List.nil_prefix rfl
      refine ⟨hstep.1 hKt, ?_⟩
      intro u hu
      rw [ht] at hu
      cases hu
      exact (htail hKt).1 hthroughout
    · rintro ⟨hR, hRs⟩
      exact ⟨hK, (htail (hstep.2 hR)).2 (hRs t ht)⟩

/-- When a step ends in `K` exactly if it starts in `K` and meets `R`, a run ends in `K` exactly if
it starts in `K` and all its steps meet `R`. -/
theorem run_iff_along {K : σ → Prop} {R : σ → α → Prop}
    (hiff : ∀ s a s', step s a = some s' → (K s' ↔ K s ∧ R s a)) :
    ∀ {as : List α} {s s' : σ}, run step s as = some s' → (K s' ↔ K s ∧ Along step R s as) := by
  intro as
  induction as with
  | nil =>
    intro s s' hrun
    cases hrun
    exact (and_iff_left trivial).symm
  | cons a as ih =>
    intro s s' hrun
    obtain ⟨t, ht, hrest⟩ := run_cons_eq_some.1 hrun
    rw [ih hrest, hiff s a t ht]
    constructor
    · rintro ⟨⟨hK, hR⟩, hRs⟩
      refine ⟨hK, hR, fun u hu => ?_⟩
      rw [ht] at hu
      cases hu
      exact hRs
    · rintro ⟨hK, hR, hRs⟩
      exact ⟨⟨hK, hR⟩, hRs t ht⟩

/-! ## Counting along a run -/

/-- What the steps of a run count together, when the one from `s` to `s'` counts `f s s'`. -/
def countSteps (step : σ → α → Option σ) (f : σ → σ → Nat) : σ → List α → Nat
  | _, [] => 0
  | s, a :: as => (step s a).elim 0 fun t => f s t + countSteps step f t as

theorem countSteps_cons {f : σ → σ → Nat} {s t : σ} {a : α} {as : List α} (h : step s a = some t) :
    countSteps step f s (a :: as) = f s t + countSteps step f t as := by
  simp only [countSteps, h, Option.elim_some]

theorem countSteps_append {f : σ → σ → Nat} {s t : σ} {as bs : List α}
    (h : run step s as = some t) :
    countSteps step f s (as ++ bs) = countSteps step f s as + countSteps step f t bs := by
  induction as generalizing s with
  | nil =>
    cases h
    simp [countSteps]
  | cons a as ih =>
    obtain ⟨u, hu, hrest⟩ := run_cons_eq_some.1 h
    rw [List.cons_append, countSteps_cons hu, countSteps_cons hu, ih hrest, Nat.add_assoc]

/-- A potential that pays for each step bounds what the whole run counts. -/
theorem countSteps_le_of_potential {P : σ → α → Prop} {f : σ → σ → Nat} (Inv : σ → Prop)
    (potential : σ → Nat) (hinv : ∀ s a s', Inv s → P s a → step s a = some s' → Inv s')
    (hpays : ∀ s a s', Inv s → P s a → step s a = some s' →
      f s s' + potential s' ≤ potential s) :
    ∀ {as : List α} {s : σ}, Inv s → Along step P s as → countSteps step f s as ≤ potential s := by
  intro as
  induction as with
  | nil =>
    intro s _ _
    exact Nat.zero_le _
  | cons a as ih =>
    intro s hs hP
    cases hstep : step s a with
    | none => simp [countSteps, hstep]
    | some t =>
      have hrest := ih (hinv s a t hs hP.1 hstep) (hP.2 t hstep)
      have hfirst := hpays s a t hs hP.1 hstep
      rw [countSteps_cons hstep]
      omega

end Machine
