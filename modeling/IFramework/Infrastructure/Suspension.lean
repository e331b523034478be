import IFramework.Infrastructure.RevivedLoop

/-!
# Suspension

`Suspend` sets a flag that the loop reads once in each turn; a loop that sees it waits on the
semaphore and, when it has passed it, clears the flag. `Resume` releases the semaphore whether or
not a loop waits, so the release of an earlier `Resume` lets the next loop that waits pass at once,
and a loop that has passed already clears the flag that a later `Suspend` sets.

`suspensionHolds_iff` says in which states a call of `Suspend` suspends the worker.
-/

namespace IFramework.Infrastructure.TaskWorker

open Machine

variable {s t u : State} {a : Action} {as : List Action} {i j : Nat} {p q : RunPoint}

/-- The task begins a call of `Work` in the step from `s` to `t`. -/
def begun (i : Nat) (s t : State) : Nat :=
  if s.loops[i]? ≠ some .work ∧ t.loops[i]? = some .work then 1 else 0

/-- The number of calls of `Work` that the task begins in a run. -/
def begins (i : Nat) : State → List Action → Nat := countSteps step (begun i)

/-- Between the suspension check and `Work`. -/
def RunPoint.pastCheck : RunPoint → Bool
  | .clearSuspended | .readSource .beforeWork | .throwIfRequested .beforeWork _ => true
  | .readSource .beforeSuspended | .readSource .afterWork => false
  | .throwIfRequested .beforeSuspended _ | .throwIfRequested .afterWork _ => false
  | .scheduled _ | .canceled | .whileToExit | .readSuspended | .waitOne | .work => false
  | .runCompleted | .ranToCompletion => false

/-- The task is past its suspension check. -/
def State.pastCheck (s : State) (i : Nat) : Bool := s.loops[i]?.any RunPoint.pastCheck

/-- After a `Suspend` that is followed by no `Resume`, `Start` or `Stop`, no task begins a call of
`Work`, but for one that was past its check, which may begin one. -/
def SuspensionHolds (s : State) : Prop :=
  ∀ as, (∀ a ∈ as, a.quiet) → ∀ i, begins i s.suspend as ≤ (s.pastCheck i).toNat

/-- In its turn, on its way to the suspension check. -/
def RunPoint.beforeCheck : RunPoint → Bool
  | .readSource .beforeSuspended | .throwIfRequested .beforeSuspended _ | .readSuspended => true
  | .readSource .beforeWork | .readSource .afterWork => false
  | .throwIfRequested .beforeWork _ | .throwIfRequested .afterWork _ => false
  | .scheduled _ | .canceled | .whileToExit | .waitOne | .clearSuspended | .work => false
  | .runCompleted | .ranToCompletion => false

/-- Nothing is left of an earlier `Resume`: the semaphore is taken, and no loop that has passed it
is about to clear the flag. -/
def NoResumeLeft (s : State) : Prop :=
  s.semaphore = 0 ∧ .clearSuspended ∉ s.loops

/-- The loops have been told to exit, none is on its way to the suspension check, and none can pass
the semaphore. -/
def Exiting (s : State) : Prop :=
  s.toExit = true ∧ (∀ p ∈ s.loops, p.beforeCheck → s.Over p) ∧
    (s.semaphore = 0 ∨ .waitOne ∉ s.loops)

/-- The states in which `Suspend` suspends the worker. -/
def Suspendable (s : State) : Prop :=
  NoResumeLeft s ∨ Exiting s ∨ ¬ SourceLive s ∨ ∀ p ∈ s.loops, s.Over p

/-! ## What a quiet step does -/

/-- A task at `p` goes on at `q`. -/
def Turn (s : State) (p q : RunPoint) : Prop :=
  (∃ u, s.runLoop p = some (u, q)) ∨ p = .work ∧ ∃ result : WorkResult, q = result.next

/-- Two steps write what the suspension rests on. -/
theorem runLoop_cases (h : s.runLoop p = some (u, q)) :
    (p = .waitOne ∧ s.semaphore ≠ 0 ∧ q = .clearSuspended) ∨
      (p = .clearSuspended ∧ u = { s with suspended := false } ∧ q = .readSource .beforeWork) ∨
      (u = s ∧ q ≠ .clearSuspended) := by
  have hsame : ∀ r, (s, r) = (u, q) → r ≠ .clearSuspended → u = s ∧ q ≠ .clearSuspended := by
    rintro r hpair hr
    cases hpair
    exact ⟨rfl, hr⟩
  cases p with
  | canceled | work | ranToCompletion => cases h
  | scheduled token =>
    refine .inr (.inr (hsame _ (Option.some.inj h) ?_))
    split <;> simp
  | whileToExit =>
    refine .inr (.inr (hsame _ (Option.some.inj h) ?_))
    split <;> simp
  | readSource check =>
    simp only [State.runLoop] at h
    split at h
    · exact .inr (.inr (hsame _ (Option.some.inj h) (by simp)))
    · exact .inr (.inr (hsame _ (Option.some.inj h) (by simp)))
  | throwIfRequested check source =>
    refine .inr (.inr (hsame _ (Option.some.inj h) ?_))
    split
    · simp
    · cases check <;> simp [Check.next]
  | readSuspended =>
    refine .inr (.inr (hsame _ (Option.some.inj h) ?_))
    split <;> simp
  | waitOne =>
    simp only [State.runLoop] at h
    split at h
    · cases h
    · next hsemaphore =>
      cases h
      exact .inl ⟨rfl, hsemaphore, rfl⟩
  | clearSuspended =>
    cases h
    exact .inr (.inl ⟨rfl, rfl, rfl⟩)
  | runCompleted => exact .inr (.inr (hsame _ (Option.some.inj h) (by simp)))

theorem step_quiet (hquiet : a.quiet) (h : step s a = some t) :
    t = s.suspend ∨ ∃ i p q u, s.loops[i]? = some p ∧ Turn s p q ∧ t = u.goto i q ∧
      (s.runLoop p = some (u, q) ∨ p = .work ∧ u = s) := by
  cases a with
  | start | stop | resume => cases hquiet
  | suspend =>
    cases h
    exact .inl rfl
  | run i =>
    simp only [step] at h
    cases hp : s.loops[i]? with
    | none => simp [hp] at h
    | some p =>
      simp only [hp, Option.map_eq_some_iff, Prod.exists] at h
      obtain ⟨u, q, hrun, rfl⟩ := h
      exact .inr ⟨i, p, q, u, hp, .inl ⟨u, hrun⟩, rfl, .inl hrun⟩
  | endWork i result =>
    simp only [step, Option.ite_none_right_eq_some, Option.some.injEq] at h
    obtain ⟨hwork, rfl⟩ := h
    exact .inr ⟨i, .work, _, s, hwork, .inr ⟨rfl, result, rfl⟩, rfl, .inr ⟨rfl, rfl⟩⟩

theorem frame_of_quiet (hquiet : a.quiet) (h : step s a = some t) : Frame s t := by
  rcases step_cases h with ⟨rfl, -⟩ | ⟨forcibly, rfl, -⟩ | hmoves
  · cases hquiet
  · cases hquiet
  · exact hmoves.frame

theorem loops_of_quiet (hquiet : a.quiet) (h : step s a = some t) :
    t.loops = s.loops ∨
      ∃ i p q, s.loops[i]? = some p ∧ Turn s p q ∧ t.loops = s.loops.set i q := by
  rcases step_quiet hquiet h with rfl | ⟨i, p, q, u, hp, hturn, rfl, hrun⟩
  · exact .inl rfl
  · refine .inr ⟨i, p, q, hp, hturn, ?_⟩
    rcases hrun with hrun | ⟨-, rfl⟩
    · rw [State.goto, (runLoop_spec hrun).2.1]
    · rfl

/-- What holds of all tasks is kept if each turn keeps it. -/
theorem forall_loops_of_quiet {P : RunPoint → Prop} (hquiet : a.quiet) (h : step s a = some t)
    (hs : ∀ p ∈ s.loops, P p) (hturn : ∀ p q, p ∈ s.loops → Turn s p q → P q) :
    ∀ p ∈ t.loops, P p := by
  rcases loops_of_quiet hquiet h with hloops | ⟨i, p, q, hp, hpq, hloops⟩
  · rw [hloops]
    exact hs
  · rw [hloops]
    intro r hr
    rcases List.mem_or_eq_of_mem_set hr with hmem | rfl
    · exact hs r hmem
    · exact hturn p r (List.mem_of_getElem? hp) hpq

/-! ## A bound on the calls that begin -/

/-- `f` of the point of a task. -/
def potential (f : RunPoint → Nat) (i : Nat) (s : State) : Nat := s.loops[i]?.elim 0 f

theorem pays_of_turn {f : RunPoint → Nat} (hquiet : a.quiet) (h : step s a = some t)
    (hf : ∀ p q, p ∈ s.loops → Turn s p q → (if q = .work then 1 else 0) + f q ≤ f p) :
    begun i s t + potential f i t ≤ potential f i s := by
  have hsame : t.loops[i]? = s.loops[i]? → begun i s t + potential f i t ≤ potential f i s := by
    intro heq
    simp [begun, potential, heq]
  rcases loops_of_quiet hquiet h with hloops | ⟨j, p, q, hp, hpq, hloops⟩
  · exact hsame (by rw [hloops])
  · by_cases hij : j = i
    · subst hij
      have hq : t.loops[j]? = some q := by
        rw [hloops, List.getElem?_set_self (List.getElem?_eq_some_iff.1 hp).1]
      have hpays := hf p q (List.mem_of_getElem? hp) hpq
      have hbegun : begun j s t ≤ if q = .work then 1 else 0 := by
        simp only [begun, hq, Option.some.injEq]
        by_cases hwork : q = .work
        · rw [if_pos hwork]
          split <;> omega
        · rw [if_neg fun h => hwork h.2]
          exact Nat.zero_le _
      simp only [potential, hp, hq, Option.elim_some]
      omega
    · exact hsame (by rw [hloops, List.getElem?_set_ne hij])

/-- No task gets past its suspension check. -/
def Barred (s : State) : Prop :=
  (s.suspended = true ∨ .readSuspended ∉ s.loops) ∧ (s.semaphore = 0 ∨ .waitOne ∉ s.loops)

theorem Barred.pays (h : Barred s) (hp : p ∈ s.loops) (hturn : Turn s p q) :
    (if q = .work then 1 else 0) + q.pastCheck.toNat ≤ p.pastCheck.toNat := by
  rcases hturn with ⟨u, hrun⟩ | ⟨rfl, result, rfl⟩
  · cases p with
    | canceled | work | ranToCompletion => cases hrun
    | scheduled token =>
      cases hrun
      split <;> simp [RunPoint.pastCheck]
    | whileToExit =>
      cases hrun
      split <;> simp [RunPoint.pastCheck]
    | readSource check =>
      simp only [State.runLoop] at hrun
      split at hrun
      · cases hrun
        simp [RunPoint.pastCheck]
      · cases hrun
        cases check <;> simp [RunPoint.pastCheck]
    | throwIfRequested check source =>
      cases hrun
      split
      · simp [RunPoint.pastCheck]
      · cases check <;> simp [Check.next, RunPoint.pastCheck]
    | readSuspended =>
      have hsuspended : s.suspended = true := h.1.resolve_right (not_not.2 hp)
      cases hrun
      simp [hsuspended, RunPoint.pastCheck]
    | waitOne =>
      have hsemaphore : s.semaphore = 0 := h.2.resolve_right (not_not.2 hp)
      simp [State.runLoop, hsemaphore] at hrun
    | clearSuspended =>
      cases hrun
      simp [RunPoint.pastCheck]
    | runCompleted =>
      cases hrun
      simp [RunPoint.pastCheck]
  · cases result <;> simp [WorkResult.next, RunPoint.pastCheck]

theorem potential_pastCheck (s : State) (i : Nat) :
    potential (fun p => p.pastCheck.toNat) i s = (s.pastCheck i).toNat := by
  unfold potential State.pastCheck
  cases s.loops[i]? <;> rfl

/-- Where the invariant bars the tasks, only those that are past their check begin a call. -/
theorem begins_le_of_barred (Inv : State → Prop)
    (hinv : ∀ s a t, Inv s → a.quiet → step s a = some t → Inv t)
    (hbarred : ∀ s, Inv s → Barred s) (hs : Inv s) (has : ∀ a ∈ as, a.quiet) :
    begins i s as ≤ (s.pastCheck i).toNat := by
  rw [← potential_pastCheck]
  refine countSteps_le_of_potential Inv _ hinv ?_ hs (Along.of_mem has)
  intro s a t hs hquiet hstep
  exact pays_of_turn hquiet hstep fun _ _ hp hturn => (hbarred s hs).pays hp hturn

/-! ## The states in which the worker is suspended -/

theorem loops_suspend (s : State) : s.suspend.loops = s.loops := rfl

/-- Nothing releases the semaphore in a quiet step. -/
theorem semaphore_of_quiet (hsemaphore : s.semaphore = 0) (hquiet : a.quiet)
    (h : step s a = some t) : t.semaphore = 0 := by
  rcases step_quiet hquiet h with rfl | ⟨i, p, q, u, -, -, rfl, hrun | ⟨-, rfl⟩⟩
  · exact hsemaphore
  · rcases runLoop_cases hrun with ⟨-, hne, -⟩ | ⟨-, rfl, -⟩ | ⟨rfl, -⟩
    · exact absurd hsemaphore hne
    · exact hsemaphore
    · exact hsemaphore
  · exact hsemaphore

theorem begins_of_noResumeLeft (h : NoResumeLeft s) (has : ∀ a ∈ as, a.quiet) :
    begins i s.suspend as ≤ (s.pastCheck i).toNat := by
  refine begins_le_of_barred (fun s => s.suspended = true ∧ NoResumeLeft s) ?_ ?_ ⟨rfl, h⟩ has
  · rintro s a t ⟨hsuspended, hsemaphore, hclear⟩ hquiet hstep
    have hturn : ∀ p q, p ∈ s.loops → Turn s p q → q ≠ .clearSuspended := by
      rintro p q hp (⟨u, hrun⟩ | ⟨rfl, result, rfl⟩)
      · rcases runLoop_cases hrun with ⟨-, hne, -⟩ | ⟨rfl, -⟩ | ⟨-, hq⟩
        · exact absurd hsemaphore hne
        · exact absurd hp hclear
        · exact hq
      · cases result <;> simp [WorkResult.next]
    have hclear' : ∀ p ∈ t.loops, p ≠ .clearSuspended :=
      forall_loops_of_quiet hquiet hstep (fun p hp heq => hclear (heq ▸ hp)) hturn
    have hsuspended' : t.suspended = true := by
      rcases step_quiet hquiet hstep with rfl | ⟨j, p, q, u, hp, -, rfl, hrun | ⟨-, rfl⟩⟩
      · rfl
      · rcases runLoop_cases hrun with ⟨-, hne, -⟩ | ⟨rfl, -⟩ | ⟨rfl, -⟩
        · exact absurd hsemaphore hne
        · exact absurd (List.mem_of_getElem? hp) hclear
        · exact hsuspended
      · exact hsuspended
    exact ⟨hsuspended', semaphore_of_quiet hsemaphore hquiet hstep, fun hmem => hclear' _ hmem rfl⟩
  · rintro s ⟨hsuspended, hsemaphore, -⟩
    exact ⟨.inl hsuspended, .inl hsemaphore⟩

/-- A loop that is told to exit does not come to its suspension check, nor to the semaphore. -/
theorem Exiting.turn (h : Exiting s) (hp : p ∈ s.loops) (hturn : Turn s p q) :
    (q.beforeCheck → s.Over q) ∧ q ≠ .waitOne := by
  obtain ⟨htoExit, hbefore, -⟩ := h
  rcases hturn with ⟨u, hrun⟩ | ⟨rfl, result, rfl⟩
  · have hover := hbefore p hp
    cases p with
    | canceled | work | ranToCompletion => cases hrun
    | scheduled token =>
      cases hrun
      split <;> simp [RunPoint.beforeCheck]
    | whileToExit =>
      cases hrun
      simp [htoExit, RunPoint.beforeCheck]
    | readSource check =>
      cases check with
      | beforeSuspended => exact absurd (hover rfl) id
      | beforeWork | afterWork =>
        simp only [State.runLoop] at hrun
        split at hrun
        · cases hrun
          simp [RunPoint.beforeCheck]
        · cases hrun
          simp [RunPoint.beforeCheck]
    | throwIfRequested check source =>
      cases hrun
      cases check with
      | beforeSuspended =>
        have hrequested : s.isCancellationRequested source = true := hover rfl
        simp [hrequested, RunPoint.beforeCheck]
      | beforeWork | afterWork => split <;> simp [Check.next, RunPoint.beforeCheck]
    | readSuspended => exact absurd (hover rfl) id
    | waitOne =>
      simp only [State.runLoop] at hrun
      split at hrun
      · cases hrun
      · cases hrun
        simp [RunPoint.beforeCheck]
    | clearSuspended | runCompleted =>
      cases hrun
      simp [RunPoint.beforeCheck]
  · cases result <;> simp [WorkResult.next, RunPoint.beforeCheck]

theorem Exiting.step (h : Exiting s) (hquiet : a.quiet) (hstep : step s a = some t) :
    Exiting t := by
  obtain ⟨htoExit, hbefore, hwait⟩ := id h
  have hframe := frame_of_quiet hquiet hstep
  refine ⟨hframe.toExit.trans htoExit, ?_, ?_⟩
  · intro p hp hp'
    rw [hframe.over_iff]
    exact forall_loops_of_quiet (P := fun p => p.beforeCheck → s.Over p) hquiet hstep hbefore
      (fun p q hp hpq => (h.turn hp hpq).1) p hp hp'
  · rcases hwait with hsemaphore | hwait
    · exact .inl (semaphore_of_quiet hsemaphore hquiet hstep)
    · right
      intro hmem
      exact forall_loops_of_quiet (P := fun p => p ≠ .waitOne) hquiet hstep
        (fun p hp heq => hwait (heq ▸ hp)) (fun p q hp hpq => (h.turn hp hpq).2) _ hmem rfl

theorem begins_of_exiting (h : Exiting s) (has : ∀ a ∈ as, a.quiet) :
    begins i s.suspend as ≤ (s.pastCheck i).toNat := by
  refine begins_le_of_barred Exiting (fun s a t hs => hs.step) ?_ (s := s.suspend) h has
  rintro s ⟨-, hbefore, hwait⟩
  exact ⟨.inr fun hmem => hbefore _ hmem rfl, hwait⟩

theorem begins_of_over (h : ∀ p ∈ s.loops, s.Over p) (has : ∀ a ∈ as, a.quiet) :
    begins i s.suspend as ≤ (s.pastCheck i).toNat := by
  refine begins_le_of_barred (fun s => ∀ p ∈ s.loops, s.Over p) ?_ ?_ (s := s.suspend) h has
  · intro s a t hs hquiet hstep p hp
    rw [(frame_of_quiet hquiet hstep).over_iff]
    refine forall_loops_of_quiet hquiet hstep hs ?_ p hp
    rintro p q hp (⟨u, hrun⟩ | ⟨rfl, -⟩)
    · exact (runLoop_spec hrun).2.2 (hs p hp)
    · exact absurd (hs _ hp) id
  · intro s hs
    exact ⟨.inr fun hmem => hs _ hmem, .inr fun hmem => hs _ hmem⟩

/-- About to begin a call of `Work`: the source that the task has read is not canceled. -/
def State.aboutToWork (s : State) : RunPoint → Bool
  | .throwIfRequested .beforeWork source => !s.isCancellationRequested source
  | .throwIfRequested .beforeSuspended _ | .throwIfRequested .afterWork _ => false
  | .readSource _ | .scheduled _ | .canceled | .whileToExit | .readSuspended | .waitOne => false
  | .clearSuspended | .work | .runCompleted | .ranToCompletion => false

theorem aboutToWork_le (s : State) (p : RunPoint) :
    (s.aboutToWork p).toNat ≤ p.pastCheck.toNat := by
  cases p with
  | throwIfRequested check source =>
    cases check with
    | beforeWork => exact Bool.toNat_le _
    | beforeSuspended | afterWork => exact Nat.zero_le _
  | _ => exact Nat.zero_le _

theorem Frame.aboutToWork (h : Frame s t) : t.aboutToWork p = s.aboutToWork p := by
  cases p with
  | throwIfRequested check source =>
    cases check <;> simp only [State.aboutToWork, h.isCancellationRequested]
  | _ => rfl

theorem pays_of_not_sourceLive (h : ¬ SourceLive s) (hturn : Turn s p q) :
    (if q = .work then 1 else 0) + (s.aboutToWork q).toNat ≤ (s.aboutToWork p).toNat := by
  rcases hturn with ⟨u, hrun⟩ | ⟨rfl, result, rfl⟩
  · cases p with
    | canceled | work | ranToCompletion => cases hrun
    | scheduled | whileToExit | readSuspended =>
      cases hrun
      split <;> simp [State.aboutToWork]
    | readSource check =>
      simp only [State.runLoop] at hrun
      split at hrun
      · cases hrun
        simp [State.aboutToWork]
      · next source hsource =>
        cases hrun
        -- a task that reads the source now reads a canceled one
        have hrequested : s.isCancellationRequested source = true := by
          by_contra hnot
          exact h ⟨source, hsource, by simpa using hnot⟩
        cases check <;> simp [State.aboutToWork, hrequested]
    | throwIfRequested check source =>
      cases hrun
      split
      · simp [State.aboutToWork]
      · next hrequested => cases check <;> simp [Check.next, State.aboutToWork, hrequested]
    | waitOne =>
      simp only [State.runLoop] at hrun
      split at hrun
      · cases hrun
      · cases hrun
        simp [State.aboutToWork]
    | clearSuspended | runCompleted =>
      cases hrun
      simp [State.aboutToWork]
  · cases result <;> simp [WorkResult.next, State.aboutToWork]

/-- Without a live source only the tasks that have read another one begin a call. -/
theorem begins_of_not_sourceLive (h : ¬ SourceLive s) (has : ∀ a ∈ as, a.quiet) :
    begins i s.suspend as ≤ (s.pastCheck i).toNat := by
  have hle : begins i s.suspend as ≤
      potential (fun p => (s.aboutToWork p).toNat) i s.suspend := by
    refine countSteps_le_of_potential (Frame s) _ ?_ ?_ ⟨rfl, rfl, rfl, rfl, rfl⟩
      (Along.of_mem has)
    · intro t a u hframe hquiet hstep
      exact hframe.trans (frame_of_quiet hquiet hstep)
    · intro t a u hframe hquiet hstep
      refine pays_of_turn hquiet hstep ?_
      intro p q _ hturn
      rw [← hframe.aboutToWork, ← hframe.aboutToWork]
      exact pays_of_not_sourceLive (fun hlive => h (hlive.frame hframe.symm)) hturn
  refine Nat.le_trans hle ?_
  rw [← potential_pastCheck]
  unfold potential
  rw [loops_suspend]
  cases s.loops[i]? with
  | none => exact Nat.le_refl 0
  | some p => exact aboutToWork_le s p

theorem suspensionHolds_of_suspendable (h : Suspendable s) : SuspensionHolds s := by
  intro as has i
  rcases h with hleft | hexiting | hsource | hover
  · exact begins_of_noResumeLeft hleft has
  · exact begins_of_exiting hexiting has
  · exact begins_of_not_sourceLive hsource has
  · exact begins_of_over hover has

/-! ## The states in which it is not -/

/-- The task can begin `n` calls in a quiet run. -/
def CanBegin (s : State) (i n : Nat) : Prop :=
  ∃ as t, (∀ a ∈ as, a.quiet) ∧ run step s as = some t ∧ n ≤ begins i s as ∧ Frame s t ∧
    t.loops[i]? = some .work ∧ Awake t .work

theorem CanBegin.not_suspensionHolds {n : Nat} (h : CanBegin s.suspend i n)
    (hn : (s.pastCheck i).toNat < n) : ¬ SuspensionHolds s := by
  obtain ⟨as, t, has, -, hbegins, -⟩ := h
  intro hholds
  have hle := hholds as has i
  omega

theorem CanBegin.cons {n : Nat} (hquiet : a.quiet) (hstep : step s a = some t)
    (h : CanBegin t i n) : CanBegin s i (begun i s t + n) := by
  obtain ⟨as, u, has, hrun, hbegins, hframe, hwork, hawake⟩ := h
  refine ⟨a :: as, u, List.forall_mem_cons.2 ⟨hquiet, has⟩, run_cons_eq_some.2 ⟨t, hstep, hrun⟩,
    ?_, (frame_of_quiet hquiet hstep).trans hframe, hwork, hawake⟩
  rw [begins, countSteps_cons hstep]
  exact Nat.add_le_add_left hbegins _

theorem CanBegin.mono {m n : Nat} (h : CanBegin s i n) (hmn : m ≤ n) : CanBegin s i m := by
  obtain ⟨as, t, has, hrun, hbegins, hrest⟩ := h
  exact ⟨as, t, has, hrun, Nat.le_trans hmn hbegins, hrest⟩

theorem canBegin_of_lastCheck {source : Nat}
    (hp : s.loops[i]? = some (.throwIfRequested .beforeWork source))
    (hover : ¬ s.Over (.throwIfRequested .beforeWork source))
    (hawake : Awake s (.throwIfRequested .beforeWork source)) : CanBegin s i 1 := by
  obtain ⟨hstep, hwork⟩ := step_run hp (runLoop_throwIfRequested hover)
  rw [Check.next] at hstep hwork
  have hbegun : begun i s (s.goto i .work) = 1 := by
    rw [begun, if_pos ⟨by simp [hp], hwork⟩]
  refine ⟨[.run i], _, by simp [Action.quiet], run_cons_eq_some.2 ⟨_, hstep, rfl⟩, ?_,
    frame_of_quiet rfl hstep, hwork, hawake.move (by simp) (by simp)⟩
  rw [begins, countSteps_cons hstep, hbegun]
  exact Nat.le_add_right _ _

/-- An awake task gets to `Work`. -/
theorem canBegin_one (hlive : SourceLive s) (hp : s.loops[i]? = some p) (hover : ¬ s.Over p)
    (hexit : s.toExit = false ∨ p.distance ≤ 6) (hawake : Awake s p) : CanBegin s i 1 := by
  induction hn : p.distance using Nat.strongRecOn generalizing s p with
  | _ n ih =>
    by_cases hzero : p.distance = 0
    · cases p with
      | throwIfRequested check source =>
        cases check with
        | beforeWork => exact canBegin_of_lastCheck hp hover hawake
        | beforeSuspended | afterWork => cases hzero
      | readSource check => cases check <;> cases hzero
      | canceled | runCompleted | ranToCompletion => exact absurd trivial hover
      | scheduled | whileToExit | readSuspended | waitOne | clearSuspended | work => cases hzero
    · have hwait : p = .waitOne → s.semaphore ≠ 0 := by
        rintro rfl
        rcases hawake with ⟨-, hne⟩ | hsemaphore | hclear
        · exact absurd rfl hne
        · exact hsemaphore
        · cases hclear
      obtain ⟨a, t, q, hquiet, hstep, hframe, hq, hover', hlt, hawake'⟩ :=
        advances hlive hp hover hexit hwait hzero
      have hexit' : t.toExit = false ∨ q.distance ≤ 6 := by
        rcases hexit with htoExit | hle
        · exact .inl (hframe.toExit.trans htoExit)
        · right
          omega
      have hcan : CanBegin t i 1 :=
        ih q.distance (hn ▸ hlt) (hlive.frame hframe) hq hover' hexit' (hawake' hawake) rfl
      exact (hcan.cons hquiet hstep).mono (Nat.le_add_left _ _)

/-- Unless it is told to exit, it goes on to work. -/
theorem canBegin (hlive : SourceLive s) (hp : s.loops[i]? = some p) (hover : ¬ s.Over p)
    (htoExit : s.toExit = false) (hawake : Awake s p) (n : Nat) : CanBegin s i (n + 1) := by
  induction n with
  | zero => exact canBegin_one hlive hp hover (.inl htoExit) hawake
  | succ n ih =>
    obtain ⟨as, t, has, hrun, hbegins, hframe, hwork, hawake'⟩ := ih
    obtain ⟨bs, u, hbs, hrun', hbegins', hframe', hrest⟩ :=
      canBegin_one (hlive.frame hframe) hwork id (.inl (hframe.toExit.trans htoExit)) hawake'
    refine ⟨as ++ bs, u, List.forall_mem_append.2 ⟨has, hbs⟩,
      run_append_eq_some.2 ⟨t, hrun, hrun'⟩, ?_, hframe.trans hframe', hrest⟩
    rw [begins, countSteps_append hrun]
    exact Nat.add_le_add hbegins hbegins'

theorem pastCheck_of_loops (hp : s.loops[i]? = some p) : s.pastCheck i = p.pastCheck := by
  simp [State.pastCheck, hp]

theorem RunPoint.beforeCheck_spec (h : p.beforeCheck) :
    p.distance ≤ 6 ∧ p.pastCheck = false ∧ p ≠ .waitOne ∧ p ≠ .clearSuspended := by
  cases p with
  | readSource check | throwIfRequested check =>
    cases check with
    | beforeSuspended => simp [RunPoint.distance, RunPoint.pastCheck]
    | beforeWork | afterWork => cases h
  | readSuspended => simp [RunPoint.distance, RunPoint.pastCheck]
  | scheduled | canceled | whileToExit | waitOne | clearSuspended | work => cases h
  | runCompleted | ranToCompletion => cases h

/-- A task that is not told to exit does not stay suspended. -/
theorem not_suspensionHolds_of_awake (hlive : SourceLive s) (hp : s.loops[i]? = some p)
    (hover : ¬ s.Over p) (htoExit : s.toExit = false) (hawake : Awake s.suspend p) :
    ¬ SuspensionHolds s := by
  have hcan := canBegin (s := s.suspend) hlive hp hover htoExit hawake 1
  exact hcan.not_suspensionHolds (Nat.lt_succ_of_le (Bool.toNat_le _))

/-- A task that has not come to its check yet goes past it. -/
theorem not_suspensionHolds_of_nearer (hlive : SourceLive s) (hp : s.loops[i]? = some p)
    (hover : ¬ s.Over p) (hdistance : p.distance ≤ 6) (hpast : p.pastCheck = false)
    (hawake : Awake s.suspend p) : ¬ SuspensionHolds s := by
  have hcan := canBegin_one (s := s.suspend) hlive hp hover (.inr hdistance) hawake
  refine hcan.not_suspensionHolds ?_
  simp [pastCheck_of_loops hp, hpast]

/-- One loop clears the flag before another one reads it. -/
theorem not_suspensionHolds_of_clear (hlive : SourceLive s)
    (hj : s.loops[j]? = some .clearSuspended) (hp : s.loops[i]? = some p) (hover : ¬ s.Over p)
    (hbefore : p.beforeCheck) : ¬ SuspensionHolds s := by
  obtain ⟨hdistance, hpast, hwait, hclear⟩ := RunPoint.beforeCheck_spec hbefore
  obtain ⟨hstep, -⟩ := step_run (s := s.suspend) hj rfl
  have hframe := frame_of_quiet rfl hstep
  have hij : j ≠ i := by
    rintro rfl
    rw [hj] at hp
    exact hclear (Option.some.inj hp).symm
  have hcan := canBegin_one (i := i) (p := p) (SourceLive.frame (s := s.suspend) hlive hframe)
    (by rw [State.goto, List.getElem?_set_ne hij]; exact hp) (mt hframe.over_iff.1 hover)
    (.inr hdistance) (.inl ⟨rfl, hwait⟩)
  refine (hcan.cons rfl hstep).not_suspensionHolds ?_
  simp [pastCheck_of_loops hp, hpast]

theorem suspendable_of_suspensionHolds (h : SuspensionHolds s) : Suspendable s := by
  by_contra hnot
  simp only [Suspendable, not_or, not_not, not_forall] at hnot
  obtain ⟨hleft, hexiting, hlive, r, hr, hrover⟩ := hnot
  obtain ⟨k, hk⟩ := List.mem_iff_getElem?.1 hr
  have hresume : s.semaphore ≠ 0 ∨ .clearSuspended ∈ s.loops := by
    by_cases hsemaphore : s.semaphore = 0
    · right
      by_contra hclear
      exact hleft ⟨hsemaphore, hclear⟩
    · exact .inl hsemaphore
  cases htoExit : s.toExit with
  | false =>
    rcases hresume with hsemaphore | hclear
    · exact not_suspensionHolds_of_awake hlive hk hrover htoExit (.inr (.inl hsemaphore)) h
    · obtain ⟨j, hj⟩ := List.mem_iff_getElem?.1 hclear
      exact not_suspensionHolds_of_awake hlive hj id htoExit (.inr (.inr rfl)) h
  | true =>
    by_cases hbefore : ∀ p ∈ s.loops, p.beforeCheck → s.Over p
    · -- a loop that waits finds the semaphore released
      have hwait : s.semaphore ≠ 0 ∧ .waitOne ∈ s.loops := by
        by_contra hnot
        refine hexiting ⟨htoExit, hbefore, ?_⟩
        by_cases hsemaphore : s.semaphore = 0
        · exact .inl hsemaphore
        · exact .inr fun hmem => hnot ⟨hsemaphore, hmem⟩
      obtain ⟨j, hj⟩ := List.mem_iff_getElem?.1 hwait.2
      exact not_suspensionHolds_of_nearer hlive hj id (by decide) rfl (.inr (.inl hwait.1)) h
    · simp only [not_forall] at hbefore
      obtain ⟨p, hmem, hbefore, hover⟩ := hbefore
      obtain ⟨i, hp⟩ := List.mem_iff_getElem?.1 hmem
      rcases hresume with hsemaphore | hclear
      · obtain ⟨hdistance, hpast, -, -⟩ := RunPoint.beforeCheck_spec hbefore
        exact not_suspensionHolds_of_nearer hlive hp hover hdistance hpast
          (.inr (.inl hsemaphore)) h
      · obtain ⟨j, hj⟩ := List.mem_iff_getElem?.1 hclear
        exact not_suspensionHolds_of_clear hlive hj hp hover hbefore h

/-- A call of `Suspend` suspends the worker exactly in these states. -/
theorem suspensionHolds_iff (s : State) : SuspensionHolds s ↔ Suspendable s :=
  ⟨suspendable_of_suspensionHolds, suspensionHolds_of_suspendable⟩

/-- Two calls of `Work` after a `Suspend`, with the steps between them. -/
def worksTwice : List Action :=
  List.replicate 9 (.run 0) ++ .endWork 0 .returned :: List.replicate 8 (.run 0)

/-- `Resume` was called before the worker was started. The first loop that waits passes, and clears
the flag. -/
theorem not_suspensionHolds_resumedBeforeStart :
    ∃ s, run step State.init [.resume, .start] = some s ∧ begins 0 s.suspend worksTwice = 2 ∧
      ¬ SuspensionHolds s := by
  refine ⟨_, rfl, rfl, ?_⟩
  intro hholds
  have hle := hholds worksTwice (by decide) 0
  exact absurd hle (by decide)

end IFramework.Infrastructure.TaskWorker
