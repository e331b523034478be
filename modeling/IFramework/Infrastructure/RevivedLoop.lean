import IFramework.Infrastructure.TaskWorker

/-!
# A loop that a start revives

A task that is not over can begin another call of `Work`: once `ToExit` is false again and the
source of the field is not canceled, nothing stops it on its way there. So whenever `Start` finds a
task that is not over, the steps that follow can lead to two live loops.
-/

namespace IFramework.Infrastructure.TaskWorker

open Machine

variable {s t u : State} {a : Action} {as : List Action} {i j : Nat} {p q : RunPoint}

/-- While `ToExit` is false the source of the field is not canceled, and a worker that has been
stopped can be started again. -/
structure WellFormed (s : State) : Prop where
  source : s.toExit = false → ∀ source, s.cancellationTokenSource = some source →
    s.isCancellationRequested source = false
  started : s.loops ≠ [] → ∃ source, s.cancellationTokenSource = some source
  stopped : s.toExit = true → s.loops ≠ [] → s.canceled = true

theorem WellFormed.init : WellFormed State.init where
  source _ _ h := by cases h
  started h := absurd rfl h
  stopped h := by cases h

theorem isCancellationRequested_length (s : State) :
    s.isCancellationRequested s.sources.length = false := by
  simp [State.isCancellationRequested]

theorem Frame.isCancellationRequested (h : Frame s t) (source : Nat) :
    t.isCancellationRequested source = s.isCancellationRequested source := by
  simp only [State.isCancellationRequested, h.sources]

theorem Moves.loops_ne_nil (h : Moves s t) (hne : t.loops ≠ []) : s.loops ≠ [] := by
  rcases h.loops with hloops | ⟨i, p, q, -, hloops, -⟩
  · exact hloops ▸ hne
  · intro hnil
    simp [hloops, hnil] at hne

theorem WellFormed.step (hwf : WellFormed s) (h : step s a = some t) : WellFormed t := by
  rcases step_cases h with ⟨-, hstart⟩ | ⟨-, -, -, hstops⟩ | hmoves
  · obtain ⟨-, -, htoExit, hsource, -, -, hsources⟩ := start_spec hstart
    refine ⟨?_, fun _ => ⟨_, hsource⟩, ?_⟩
    · intro _ source heq
      rw [hsource] at heq
      cases heq
      rw [hsources, isCancellationRequested_length]
    · intro htrue
      rw [htoExit] at htrue
      cases htrue
  · refine ⟨?_, ?_, ?_⟩
    · intro hfalse
      rw [hstops.toExit] at hfalse
      cases hfalse
    · intro hne
      rw [hstops.cancellationTokenSource]
      exact hwf.started (hstops.loops ▸ hne)
    · intro _ hne
      rcases hstops.canceled with ⟨hcanceled, -⟩ | ⟨hnone, -⟩
      · exact hcanceled
      · obtain ⟨source, hsome⟩ := hwf.started (hstops.loops ▸ hne)
        rw [hnone] at hsome
        cases hsome
  · refine ⟨?_, ?_, ?_⟩
    · intro hfalse source hsource
      rw [hmoves.frame.isCancellationRequested]
      exact hwf.source (hmoves.frame.toExit ▸ hfalse) source
        (hmoves.frame.cancellationTokenSource ▸ hsource)
    · intro hne
      rw [hmoves.frame.cancellationTokenSource]
      exact hwf.started (hmoves.loops_ne_nil hne)
    · intro htrue hne
      rw [hmoves.frame.canceled]
      exact hwf.stopped (hmoves.frame.toExit ▸ htrue) (hmoves.loops_ne_nil hne)

/-! ## From any point to the next call of `Work` -/

/-- The field has a source, which is not canceled. -/
def SourceLive (s : State) : Prop :=
  ∃ source, s.cancellationTokenSource = some source ∧ s.isCancellationRequested source = false

theorem SourceLive.frame (hlive : SourceLive s) (h : Frame s t) : SourceLive t := by
  obtain ⟨source, hsource, hrequested⟩ := hlive
  refine ⟨source, h.cancellationTokenSource.trans hsource, ?_⟩
  rw [h.isCancellationRequested, hrequested]

/-- Nothing tells the loops to exit. -/
def Ready (s : State) : Prop :=
  s.toExit = false ∧ ∃ source, s.cancellationTokenSource = some source ∧
    s.isCancellationRequested source = false

theorem Ready.frame (hready : Ready s) (h : Frame s t) : Ready t :=
  ⟨h.toExit.trans hready.1, SourceLive.frame hready.2 h⟩

/-- How far a point is from the next call of `Work`. -/
def RunPoint.distance : RunPoint → Nat
  | .throwIfRequested .beforeWork _ => 0
  | .readSource .beforeWork => 1
  | .clearSuspended => 2
  | .waitOne => 3
  | .readSuspended => 4
  | .throwIfRequested .beforeSuspended _ => 5
  | .readSource .beforeSuspended => 6
  | .whileToExit => 7
  | .scheduled _ => 8
  | .throwIfRequested .afterWork _ => 8
  | .readSource .afterWork => 9
  | .work => 10
  | .canceled | .runCompleted | .ranToCompletion => 0

theorem canBeginWork_of_run (h : run step s as = some t) (hcan : CanBeginWork t i) :
    CanBeginWork s i := by
  obtain ⟨bs, u, u', hrun, hstep⟩ := hcan
  exact ⟨as ++ bs, u, u', run_append_eq_some.2 ⟨t, h, hrun⟩, hstep⟩

theorem step_run (hp : s.loops[i]? = some p) (h : s.runLoop p = some (u, q)) :
    step s (.run i) = some (u.goto i q) ∧ (u.goto i q).loops[i]? = some q := by
  obtain ⟨-, hloops, -⟩ := runLoop_spec h
  constructor
  · simp only [step, hp, h, Option.map_some]
  · rw [State.goto, hloops, List.getElem?_set_self (List.getElem?_eq_some_iff.1 hp).1]

theorem runLoop_scheduled {token : Nat} (h : ¬ s.Over (.scheduled token)) :
    s.runLoop (.scheduled token) = some (s, .whileToExit) := by
  have hrequested : ¬ s.isCancellationRequested token = true := h
  simp only [State.runLoop, if_neg hrequested]

theorem runLoop_throwIfRequested {check : Check} {source : Nat}
    (h : ¬ s.Over (.throwIfRequested check source)) :
    s.runLoop (.throwIfRequested check source) = some (s, check.next) := by
  have hrequested : ¬ s.isCancellationRequested source = true := h
  simp only [State.runLoop, if_neg hrequested]

/-- Not a call of `Start`, `Stop` or `Resume`. -/
def Action.quiet : Action → Bool
  | .run _ | .endWork _ _ | .suspend => true
  | .start | .stop _ | .resume => false

/-- A task at this point does not wait for a `Resume` on its way to `Work`: it will not see
`Suspended`, or the semaphore has been released already. -/
def Awake (s : State) (p : RunPoint) : Prop :=
  (s.suspended = false ∧ p ≠ .waitOne) ∨ s.semaphore ≠ 0 ∨ p = .clearSuspended

/-- The task gets nearer to the next call of `Work` by a step of its own. -/
def Advances (s : State) (i : Nat) (p : RunPoint) : Prop :=
  ∃ a t q, a.quiet ∧ step s a = some t ∧ Frame s t ∧ t.loops[i]? = some q ∧ ¬ t.Over q ∧
    q.distance < p.distance ∧ (Awake s p → Awake t q)

theorem advances_of_runLoop (hp : s.loops[i]? = some p) (h : s.runLoop p = some (u, q))
    (hover : ¬ s.Over q) (hdistance : q.distance < p.distance) (hawake : Awake s p → Awake u q) :
    Advances s i p := by
  obtain ⟨hstep, hq⟩ := step_run hp h
  obtain ⟨hframe, -, -⟩ := runLoop_spec h
  have hframe' : Frame s (u.goto i q) :=
    ⟨hframe.canceled, hframe.cancellationTokenSource, hframe.task, hframe.toExit, hframe.sources⟩
  exact ⟨.run i, u.goto i q, q, rfl, hstep, hframe', hq, mt hframe'.over_iff.1 hover, hdistance,
    hawake⟩

theorem Awake.move (h : Awake s p) (hp : p ≠ .clearSuspended) (hq : q ≠ .waitOne) :
    Awake s q := by
  rcases h with ⟨hsuspended, -⟩ | hsemaphore | hclear
  · exact .inl ⟨hsuspended, hq⟩
  · exact .inr (.inl hsemaphore)
  · exact absurd hclear hp

/-- Nothing else stops a task that is not over: its source is not canceled, it does not read
`ToExit` any more or reads that it is false, and it does not find the semaphore taken. -/
theorem advances (hlive : SourceLive s) (hp : s.loops[i]? = some p) (hover : ¬ s.Over p)
    (hexit : s.toExit = false ∨ p.distance ≤ 6) (hwait : p = .waitOne → s.semaphore ≠ 0)
    (hdistance : p.distance ≠ 0) : Advances s i p := by
  cases p with
  | canceled | runCompleted | ranToCompletion => exact absurd trivial hover
  | scheduled token =>
    exact advances_of_runLoop hp (runLoop_scheduled hover) id (by simp [RunPoint.distance])
      fun h => h.move (by simp) (by simp)
  | whileToExit =>
    have htoExit : s.toExit = false := hexit.resolve_right (by decide)
    have hstep : s.runLoop .whileToExit = some (s, .readSource .beforeSuspended) := by
      simp [State.runLoop, htoExit]
    exact advances_of_runLoop hp hstep id (by decide) fun h => h.move (by simp) (by simp)
  | readSource check =>
    obtain ⟨source, hsource, hrequested⟩ := hlive
    have hstep : s.runLoop (.readSource check) = some (s, .throwIfRequested check source) := by
      simp only [State.runLoop, hsource]
    refine advances_of_runLoop hp hstep (by simp [State.Over, hrequested]) ?_
      fun h => h.move (by simp) (by simp)
    cases check <;> simp [RunPoint.distance]
  | throwIfRequested check source =>
    refine advances_of_runLoop hp (runLoop_throwIfRequested hover) ?_ ?_
      fun h => h.move (by simp) (by cases check <;> simp [Check.next])
    · cases check <;> exact id
    · cases check with
      | beforeWork => exact absurd rfl hdistance
      | beforeSuspended | afterWork => simp [Check.next, RunPoint.distance]
  | readSuspended =>
    cases hsuspended : s.suspended with
    | false =>
      have hstep : s.runLoop .readSuspended = some (s, .readSource .beforeWork) := by
        simp [State.runLoop, hsuspended]
      exact advances_of_runLoop hp hstep id (by decide) fun h => h.move (by simp) (by simp)
    | true =>
      have hstep : s.runLoop .readSuspended = some (s, .waitOne) := by
        simp [State.runLoop, hsuspended]
      refine advances_of_runLoop hp hstep id (by decide) ?_
      rintro (⟨hfalse, -⟩ | hsemaphore | hclear)
      · rw [hsuspended] at hfalse
        cases hfalse
      · exact .inr (.inl hsemaphore)
      · cases hclear
  | waitOne =>
    have hstep : s.runLoop .waitOne =
        some ({ s with semaphore := s.semaphore - 1 }, .clearSuspended) := by
      simp only [State.runLoop, if_neg (hwait rfl)]
    exact advances_of_runLoop hp hstep id (by decide) fun _ => .inr (.inr rfl)
  | clearSuspended =>
    exact advances_of_runLoop hp rfl id (by decide) fun _ => .inl ⟨rfl, by simp⟩
  | work =>
    have hstep : step s (.endWork i .returned) = some (s.goto i (.readSource .afterWork)) := by
      simp only [step, if_pos hp, WorkResult.next]
    refine ⟨.endWork i .returned, _, .readSource .afterWork, rfl, hstep,
      ⟨rfl, rfl, rfl, rfl, rfl⟩, ?_, id, by decide, fun h => h.move (by simp) (by simp)⟩
    exact List.getElem?_set_self (List.getElem?_eq_some_iff.1 hp).1

/-- The task gets nearer to the next call of `Work`. -/
def Nearer (s : State) (i : Nat) (p : RunPoint) : Prop :=
  ∃ as t q, run step s as = some t ∧ Ready t ∧ t.loops[i]? = some q ∧ ¬ t.Over q ∧
    q.distance < p.distance

theorem nearer_of_advances (hready : Ready s) (h : Advances s i p) : Nearer s i p := by
  obtain ⟨a, t, q, -, hstep, hframe, hq, hover, hdistance, -⟩ := h
  exact ⟨[a], t, q, run_cons_eq_some.2 ⟨t, hstep, rfl⟩, hready.frame hframe, hq, hover, hdistance⟩

theorem nearer (hready : Ready s) (hp : s.loops[i]? = some p) (hover : ¬ s.Over p)
    (hdistance : p.distance ≠ 0) : Nearer s i p := by
  by_cases hwait : p = .waitOne → s.semaphore ≠ 0
  · exact nearer_of_advances hready (advances hready.2 hp hover (.inl hready.1) hwait hdistance)
  · -- a call of `Resume` lets the loop pass
    obtain ⟨rfl, hzero⟩ : p = .waitOne ∧ s.semaphore = 0 := by simpa using hwait
    obtain ⟨hframe, hloops⟩ := frame_resume s
    have hready' : Ready s.resume := hready.frame hframe
    have hadvances : Advances s.resume i .waitOne :=
      advances hready'.2 (hloops ▸ hp) id (.inl hready'.1) (fun _ => by simp [State.resume, hzero])
        hdistance
    obtain ⟨as, t, q, hrun, hrest⟩ := nearer_of_advances hready' hadvances
    exact ⟨.resume :: as, t, q, run_cons_eq_some.2 ⟨_, rfl, hrun⟩, hrest⟩

theorem canBeginWork_of_ready (hready : Ready s) (hp : s.loops[i]? = some p)
    (hover : ¬ s.Over p) : CanBeginWork s i := by
  induction hn : p.distance using Nat.strongRecOn generalizing s p with
  | _ n ih =>
    by_cases hzero : p.distance = 0
    · cases p with
      | throwIfRequested check source =>
        cases check with
        | beforeWork =>
          obtain ⟨hrun, hwork⟩ := step_run hp (runLoop_throwIfRequested hover)
          exact ⟨[], s, _, rfl, by simp [hp], hrun, hwork⟩
        | beforeSuspended | afterWork => cases hzero
      | readSource check => cases check <;> cases hzero
      | canceled | runCompleted | ranToCompletion => exact absurd trivial hover
      | scheduled | whileToExit | readSuspended | waitOne | clearSuspended | work => cases hzero
    · obtain ⟨as, t, q, hrun, hready', hq, hover', hlt⟩ := nearer hready hp hover hzero
      exact canBeginWork_of_run hrun (ih _ (hn ▸ hlt) hready' hq hover' rfl)

/-- A task can begin another call of `Work` exactly when it is not over. -/
theorem canBeginWork_iff (hwf : WellFormed s) (hp : s.loops[i]? = some p) :
    CanBeginWork s i ↔ ¬ s.Over p := by
  constructor
  · intro hcan hover
    exact not_loopOver_of_canBeginWork hcan ⟨p, hp, hover⟩
  · intro hover
    have hlt : i < s.loops.length := (List.getElem?_eq_some_iff.1 hp).1
    have hne : s.loops ≠ [] := List.ne_nil_of_length_pos (Nat.zero_lt_of_lt hlt)
    obtain ⟨source, hsource⟩ := hwf.started hne
    cases htoExit : s.toExit with
    | false =>
      exact canBeginWork_of_ready ⟨htoExit, source, hsource, hwf.source htoExit source hsource⟩
        hp hover
    | true =>
      -- the worker has been stopped: another `Start` makes it ready
      have hstatus : s.status = .canceled := by
        simp [State.status, hwf.stopped htoExit hne]
      obtain ⟨t, ht⟩ : ∃ t, s.start = some t := by simp [State.start, hstatus]
      obtain ⟨-, -, htoExit', hsource', -, hloops, hsources⟩ := start_spec ht
      have hrun : run step s [.start] = some t :=
        run_cons_eq_some.2 ⟨t, by simp [step, ht], rfl⟩
      have hready : Ready t := by
        refine ⟨htoExit', _, hsource', ?_⟩
        rw [hsources, isCancellationRequested_length]
      refine canBeginWork_of_run hrun (canBeginWork_of_ready hready (p := p) ?_ ?_)
      · rw [hloops, List.getElem?_append_left hlt, hp]
      · exact mt (over_mono fun c hc => (hsources c).symm.trans hc) hover

theorem not_atMostOneLive (hwf : WellFormed s) (hij : i ≠ j) (hp : s.loops[i]? = some p)
    (hq : s.loops[j]? = some q) (hpover : ¬ s.Over p) (hqover : ¬ s.Over q)
    (hpstart : ∀ token, p ≠ .scheduled token) (hqstart : ∀ token, q ≠ .scheduled token) :
    ¬ AtMostOneLive s := by
  have hpast : ∀ {r : RunPoint} {k}, s.loops[k]? = some r → ¬ s.Over r →
      (∀ token, r ≠ .scheduled token) → PastStart s k := by
    intro r k hr hover hstart
    refine ⟨r, hr, hstart, ?_⟩
    rintro rfl
    exact hover trivial
  intro hone
  exact hij (hone i j (hpast hp hpover hpstart) ((canBeginWork_iff hwf hp).2 hpover)
    (hpast hq hqover hqstart) ((canBeginWork_iff hwf hq).2 hqover))

/-- When `Start` finds a task that is not over, two loops are live once the new one and, if it has
not started yet, this one have started. -/
theorem two_live_of_start (hwf : WellFormed s) (hstart : s.start = some t)
    (hp : s.loops[i]? = some p) (hover : ¬ s.Over p) :
    ∃ as u, run step s (.start :: as) = some u ∧ ¬ AtMostOneLive u := by
  have hlt : i < s.loops.length := (List.getElem?_eq_some_iff.1 hp).1
  obtain ⟨-, -, -, -, -, hloops, hsources⟩ := start_spec hstart
  have hstep : step s .start = some t := by simp [step, hstart]
  have hpt : t.loops[i]? = some p := by rw [hloops, List.getElem?_append_left hlt, hp]
  have hovert : ¬ t.Over p := mt (over_mono fun c hc => (hsources c).symm.trans hc) hover
  -- the new task starts
  have hnew : t.loops[s.loops.length]? = some (.scheduled s.sources.length) := by simp [hloops]
  have hnewover : ¬ t.Over (.scheduled s.sources.length) := by
    simp [State.Over, hsources, isCancellationRequested_length]
  obtain ⟨hrun, hj⟩ := step_run hnew (runLoop_scheduled hnewover)
  have hi : (t.goto s.loops.length .whileToExit).loops[i]? = some p := by
    rw [State.goto, List.getElem?_set_ne (Nat.ne_of_gt hlt), hpt]
  have hwf' := (hwf.step hstep).step hrun
  by_cases hscheduled : ∃ token, p = .scheduled token
  · obtain ⟨token, rfl⟩ := hscheduled
    obtain ⟨hrun', hi'⟩ := step_run hi (runLoop_scheduled hovert)
    refine ⟨[.run s.loops.length, .run i], _,
      run_cons_eq_some.2 ⟨t, hstep, run_cons_eq_some.2 ⟨_, hrun,
        run_cons_eq_some.2 ⟨_, hrun', rfl⟩⟩⟩, ?_⟩
    refine not_atMostOneLive (hwf'.step hrun') (Nat.ne_of_lt hlt) hi' (q := .whileToExit) ?_ id id
      (by simp) (by simp)
    rw [State.goto, List.getElem?_set_ne (Nat.ne_of_lt hlt), hj]
  · refine ⟨[.run s.loops.length], _,
      run_cons_eq_some.2 ⟨t, hstep, run_cons_eq_some.2 ⟨_, hrun, rfl⟩⟩, ?_⟩
    exact not_atMostOneLive hwf' (Nat.ne_of_lt hlt) hi hj hovert id
      (fun token h => hscheduled ⟨token, h⟩) (by simp)

end IFramework.Infrastructure.TaskWorker
