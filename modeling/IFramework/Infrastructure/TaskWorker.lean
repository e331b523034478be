import IFramework.Theory.Run
import Mathlib.Data.List.Basic

/-!
# The task worker

`Start` starts a task that executes `Run`, a loop that works until it is told to exit. `Start` and
`Stop` hold the mutex, so each is one action; `Run` holds nothing, so each read of a field is an
action of its own. All loops read the same `ToExit`, `Suspended` and `CancellationTokenSource`, and
`Start` resets them. Nothing makes it wait for the loop that a `Stop` has told to exit.

`atMostOneLive_of_startsWhenOver` shows that this is the only way to get two loops, and
`two_live_of_start` that it always is one.
-/

namespace IFramework.Infrastructure.TaskWorker

open Machine

/-- The three calls of `CancellationTokenSource.Token.ThrowIfCancellationRequested()`. -/
inductive Check where
  | beforeSuspended
  | beforeWork
  | afterWork
  deriving DecidableEq

/-- Where a task is. A `CancellationTokenSource` is given by its number. -/
inductive RunPoint where
  /-- Not started; `token` is the one that the task was created with. -/
  | scheduled (token : Nat)
  /-- Canceled before it was started. -/
  | canceled
  /-- `while (!ToExit)`. -/
  | whileToExit
  /-- The field is read. -/
  | readSource (check : Check)
  /-- `Token.ThrowIfCancellationRequested()`, of the source that was read. -/
  | throwIfRequested (check : Check) (source : Nat)
  | readSuspended
  | waitOne
  | clearSuspended
  | work
  | runCompleted
  | ranToCompletion
  deriving DecidableEq

/-- What follows a check that does not throw; after the last one the loop may also sleep. -/
def Check.next : Check → RunPoint
  | .beforeSuspended => .readSuspended
  | .beforeWork => .work
  | .afterWork => .whileToExit

inductive WorkerStatus where
  | notStarted
  | running
  | suspended
  | completed
  | canceled
  deriving DecidableEq

/-- A worker: its fields, the sources that there are, each with its `IsCancellationRequested`, and
the tasks. -/
structure State where
  canceled : Bool
  cancellationTokenSource : Option Nat
  semaphore : Nat
  suspended : Bool
  task : Option Nat
  toExit : Bool
  sources : List Bool
  loops : List RunPoint
  deriving DecidableEq

/-- The worker that the constructor makes. -/
def State.init : State :=
  { canceled := false, cancellationTokenSource := none, semaphore := 0, suspended := false
    task := none, toExit := false, sources := [], loops := [] }

/-- How a call of `Work` ends: an `OperationCanceledException` or a `ThreadInterruptedException`
leaves the loop, any other exception does not. -/
inductive WorkResult where
  | returned
  | interrupted
  | failed
  deriving DecidableEq

inductive Action where
  | start
  | stop (forcibly : Bool)
  | suspend
  | resume
  /-- The next step of a task. -/
  | run (loop : Nat)
  /-- `Work` ends. -/
  | endWork (loop : Nat) (result : WorkResult)
  deriving DecidableEq

namespace State

/-- `IsCancellationRequested`. -/
def isCancellationRequested (s : State) (source : Nat) : Bool := s.sources.getD source false

/-- `Status`. -/
def status (s : State) : WorkerStatus :=
  if s.canceled then .canceled
  else
    match s.task with
    | none => .notStarted
    | some task =>
      if s.suspended then .suspended
      else if s.loops[task]? = some .ranToCompletion then .completed
      else .running

/-- `Suspend`. -/
def suspend (s : State) : State := { s with suspended := true }

/-- `Resume`; the `SemaphoreFullException` is caught. -/
def resume (s : State) : State :=
  if s.semaphore = 0 then { s with semaphore := 1 } else s

/-- `Start`, `none` when it throws. -/
def start (s : State) : Option State :=
  if s.status = .canceled ∨ s.status = .completed ∨ s.status = .notStarted then
    some
      { s with
        canceled := false
        suspended := false
        toExit := false
        cancellationTokenSource := some s.sources.length
        sources := s.sources ++ [false]
        task := some s.loops.length
        loops := s.loops ++ [.scheduled s.sources.length] }
  else none

/-- The end of `Stop`. Without a source, `Cancel` throws before the two assignments. -/
def cancelSource (forcibly : Bool) (s : State) : State :=
  match forcibly, s.cancellationTokenSource with
  | true, none => s
  | true, some source =>
    { s with sources := s.sources.set source true, canceled := true, task := none }
  | false, _ => { s with canceled := true, task := none }

/-- `Stop`. -/
def stop (forcibly : Bool) (s : State) : State :=
  if s.toExit then s
  else
    let s := { s with toExit := true }
    let s := if s.suspended then s.resume else s
    s.cancelSource forcibly

/-- The next step of a task at this point; `none` when there is none. -/
def runLoop (s : State) : RunPoint → Option (State × RunPoint)
  | .scheduled token =>
    some (s, if s.isCancellationRequested token then .canceled else .whileToExit)
  | .canceled => none
  | .whileToExit => some (s, if s.toExit then .runCompleted else .readSource .beforeSuspended)
  | .readSource check =>
    match s.cancellationTokenSource with
    | none => some (s, .whileToExit)
    | some source => some (s, .throwIfRequested check source)
  | .throwIfRequested check source =>
    some (s, if s.isCancellationRequested source then .runCompleted else check.next)
  | .readSuspended => some (s, if s.suspended then .waitOne else .readSource .beforeWork)
  | .waitOne =>
    if s.semaphore = 0 then none
    else some ({ s with semaphore := s.semaphore - 1 }, .clearSuspended)
  | .clearSuspended => some ({ s with suspended := false }, .readSource .beforeWork)
  | .work => none
  | .runCompleted => some (s, .ranToCompletion)
  | .ranToCompletion => none

/-- The task goes on at `point`. -/
def goto (s : State) (loop : Nat) (point : RunPoint) : State :=
  { s with loops := s.loops.set loop point }

end State

/-- Where the loop goes on after `Work`. -/
def WorkResult.next : WorkResult → RunPoint
  | .returned => .readSource .afterWork
  | .interrupted => .runCompleted
  | .failed => .whileToExit

/-- One action; `none` when it is not enabled. A `Start` that throws changes nothing. -/
def step (s : State) : Action → Option State
  | .start => some (s.start.getD s)
  | .stop forcibly => some (s.stop forcibly)
  | .suspend => some s.suspend
  | .resume => some s.resume
  | .run loop =>
    match s.loops[loop]? with
    | none => none
    | some point => (s.runLoop point).map fun (s, point) => s.goto loop point
  | .endWork loop result =>
    if s.loops[loop]? = some .work then some (s.goto loop result.next) else none

/-- The task is past its start: it executes `Run`, or has executed it. -/
def PastStart (s : State) (loop : Nat) : Prop :=
  ∃ point, s.loops[loop]? = some point ∧ (∀ token, point ≠ .scheduled token) ∧ point ≠ .canceled

/-- There is a continuation in which the loop begins another call of `Work`. -/
def CanBeginWork (s : State) (loop : Nat) : Prop :=
  ∃ as t t', run step s as = some t ∧ t.loops[loop]? ≠ some .work ∧
    step t (.run loop) = some t' ∧ t'.loops[loop]? = some .work

/-- At most one loop is past its start and can still begin a call of `Work`. -/
def AtMostOneLive (s : State) : Prop :=
  ∀ i j, PastStart s i → CanBeginWork s i → PastStart s j → CanBeginWork s j → i = j

/-- A task at this point begins no other call of `Work`: it has left its loop, or the source that it
is about to check has been canceled. -/
def State.Over (s : State) : RunPoint → Prop
  | .scheduled token => s.isCancellationRequested token
  | .throwIfRequested _ source => s.isCancellationRequested source
  | .canceled | .runCompleted | .ranToCompletion => True
  | .whileToExit | .readSource _ | .readSuspended | .waitOne | .clearSuspended | .work => False

instance (s : State) : DecidablePred s.Over
  | .scheduled _ | .throwIfRequested _ _ => inferInstanceAs (Decidable (_ = _))
  | .canceled | .runCompleted | .ranToCompletion => isTrue trivial
  | .whileToExit | .readSource _ | .readSuspended | .waitOne | .clearSuspended | .work =>
    isFalse id

/-- A `Start` that follows a `Stop` finds all tasks over. -/
def StartsWhenOver (s : State) (a : Action) : Prop :=
  a = .start → s.status = .canceled → ∀ point ∈ s.loops, s.Over point

instance (s : State) (a : Action) : Decidable (StartsWhenOver s a) :=
  inferInstanceAs (Decidable (_ → _))

/-! ## What a step changes -/

section Steps

variable {s t u : State} {a : Action} {i j : Nat} {p q : RunPoint}

/-- The fields that only `Start` and `Stop` write are unchanged. -/
structure Frame (s t : State) : Prop where
  canceled : t.canceled = s.canceled
  cancellationTokenSource : t.cancellationTokenSource = s.cancellationTokenSource
  task : t.task = s.task
  toExit : t.toExit = s.toExit
  sources : t.sources = s.sources

theorem Frame.refl (s : State) : Frame s s := ⟨rfl, rfl, rfl, rfl, rfl⟩

theorem Frame.symm (h : Frame s t) : Frame t s :=
  ⟨h.canceled.symm, h.cancellationTokenSource.symm, h.task.symm, h.toExit.symm, h.sources.symm⟩

theorem Frame.trans (h : Frame s t) (h' : Frame t u) : Frame s u :=
  ⟨h'.canceled.trans h.canceled, h'.cancellationTokenSource.trans h.cancellationTokenSource,
    h'.task.trans h.task, h'.toExit.trans h.toExit, h'.sources.trans h.sources⟩

theorem frame_resume (s : State) : Frame s s.resume ∧ s.resume.loops = s.loops := by
  unfold State.resume
  split
  · exact ⟨⟨rfl, rfl, rfl, rfl, rfl⟩, rfl⟩
  · exact ⟨Frame.refl s, rfl⟩

/-- What `Stop` does when `ToExit` is not set. -/
structure Stops (s t : State) : Prop where
  toExit : t.toExit = true
  cancellationTokenSource : t.cancellationTokenSource = s.cancellationTokenSource
  loops : t.loops = s.loops
  sources : ∀ source, s.isCancellationRequested source → t.isCancellationRequested source
  canceled : t.canceled = true ∧ t.task = none ∨
    s.cancellationTokenSource = none ∧ t.canceled = s.canceled ∧ t.task = s.task

/-- What the other steps do. -/
structure Moves (s t : State) : Prop where
  frame : Frame s t
  loops : t.loops = s.loops ∨ ∃ i p q, s.loops[i]? = some p ∧ t.loops = s.loops.set i q ∧
    (s.Over p → s.Over q)

theorem isCancellationRequested_set (s : State) (source : Nat)
    {other : Nat} (h : s.isCancellationRequested other) :
    (s.sources.set source true).getD other false = true := by
  simp only [State.isCancellationRequested, List.getD_eq_getElem?_getD] at h ⊢
  by_cases heq : source = other
  · subst heq
    by_cases hlt : source < s.sources.length
    · simp [hlt]
    · simp [List.getElem?_eq_none (Nat.le_of_not_lt hlt)] at h
  · rw [List.getElem?_set_ne heq]
    exact h

theorem stops_cancelSource (forcibly : Bool) (hframe : Frame { s with toExit := true } t)
    (hloops : t.loops = s.loops) : Stops s (t.cancelSource forcibly) := by
  have htoExit : t.toExit = true := hframe.toExit
  have hsource : t.cancellationTokenSource = s.cancellationTokenSource :=
    hframe.cancellationTokenSource
  have hkept : ∀ source, s.isCancellationRequested source → t.isCancellationRequested source := by
    intro source hrequested
    simpa only [State.isCancellationRequested, hframe.sources] using hrequested
  cases forcibly with
  | false => exact ⟨htoExit, hsource, hloops, hkept, .inl ⟨rfl, rfl⟩⟩
  | true =>
    cases hcases : t.cancellationTokenSource with
    | none =>
      simp only [State.cancelSource, hcases]
      exact ⟨htoExit, hsource, hloops, hkept,
        .inr ⟨hsource ▸ hcases, hframe.canceled, hframe.task⟩⟩
    | some source =>
      simp only [State.cancelSource, hcases]
      refine ⟨htoExit, hcases.symm.trans hsource, hloops, ?_, .inl ⟨rfl, rfl⟩⟩
      intro other hother
      exact isCancellationRequested_set t source (hkept other hother)

theorem stops_stop (forcibly : Bool) (h : s.toExit = false) : Stops s (s.stop forcibly) := by
  unfold State.stop
  rw [if_neg (by simp [h])]
  dsimp only
  split
  · obtain ⟨hframe, hloops⟩ := frame_resume { s with toExit := true }
    exact stops_cancelSource forcibly hframe hloops
  · exact stops_cancelSource forcibly (Frame.refl _) rfl

theorem runLoop_spec (h : s.runLoop p = some (t, q)) :
    Frame s t ∧ t.loops = s.loops ∧ (s.Over p → s.Over q) := by
  have hsame : ∀ r, (s, r) = (t, q) → (s.Over p → s.Over r) →
      Frame s t ∧ t.loops = s.loops ∧ (s.Over p → s.Over q) := by
    rintro r hpair hover
    cases hpair
    exact ⟨Frame.refl s, rfl, hover⟩
  cases p with
  | canceled | work | ranToCompletion => cases h
  | scheduled token =>
    refine hsame _ (Option.some.inj h) ?_
    intro hrequested
    simp only [State.Over] at hrequested
    simp [hrequested, State.Over]
  | whileToExit => exact hsame _ (Option.some.inj h) False.elim
  | readSource check =>
    simp only [State.runLoop] at h
    split at h
    · exact hsame _ (Option.some.inj h) False.elim
    · exact hsame _ (Option.some.inj h) False.elim
  | throwIfRequested check source =>
    refine hsame _ (Option.some.inj h) ?_
    intro hrequested
    simp only [State.Over] at hrequested
    simp [hrequested, State.Over]
  | readSuspended => exact hsame _ (Option.some.inj h) False.elim
  | waitOne =>
    simp only [State.runLoop] at h
    split at h
    · cases h
    · cases h
      exact ⟨⟨rfl, rfl, rfl, rfl, rfl⟩, rfl, False.elim⟩
  | clearSuspended =>
    cases h
    exact ⟨⟨rfl, rfl, rfl, rfl, rfl⟩, rfl, False.elim⟩
  | runCompleted => exact hsame _ (Option.some.inj h) fun _ => trivial

theorem step_cases (h : step s a = some t) :
    (a = .start ∧ s.start = some t) ∨
      (∃ forcibly, a = .stop forcibly ∧ s.toExit = false ∧ Stops s t) ∨ Moves s t := by
  have hsame : s = t → Moves s t := by
    rintro rfl
    exact ⟨Frame.refl s, .inl rfl⟩
  cases a with
  | start =>
    simp only [step, Option.some.injEq] at h
    cases hstart : s.start with
    | none => exact .inr (.inr (hsame (by simpa [hstart] using h)))
    | some u =>
      left
      exact ⟨rfl, by simpa [hstart] using h⟩
  | stop forcibly =>
    cases h
    cases htoExit : s.toExit with
    | false => exact .inr (.inl ⟨forcibly, rfl, rfl, stops_stop forcibly htoExit⟩)
    | true => exact .inr (.inr (hsame (by simp [State.stop, htoExit])))
  | suspend =>
    cases h
    exact .inr (.inr ⟨⟨rfl, rfl, rfl, rfl, rfl⟩, .inl rfl⟩)
  | resume =>
    cases h
    exact .inr (.inr ⟨(frame_resume s).1, .inl (frame_resume s).2⟩)
  | run i =>
    simp only [step] at h
    cases hp : s.loops[i]? with
    | none => simp [hp] at h
    | some p =>
      simp only [hp, Option.map_eq_some_iff, Prod.exists] at h
      obtain ⟨u, q, hrun, rfl⟩ := h
      obtain ⟨hframe, hloops, hover⟩ := runLoop_spec hrun
      refine .inr (.inr ⟨?_, .inr ⟨i, p, q, hp, ?_, hover⟩⟩)
      · exact ⟨hframe.canceled, hframe.cancellationTokenSource, hframe.task, hframe.toExit,
          hframe.sources⟩
      · rw [State.goto, hloops]
  | endWork i result =>
    simp only [step, Option.ite_none_right_eq_some, Option.some.injEq] at h
    obtain ⟨hwork, rfl⟩ := h
    exact .inr (.inr ⟨⟨rfl, rfl, rfl, rfl, rfl⟩, .inr ⟨i, .work, _, hwork, rfl, False.elim⟩⟩)

theorem over_mono
    (h : ∀ source, s.isCancellationRequested source → t.isCancellationRequested source)
    (hover : s.Over p) : t.Over p := by
  cases p <;> first | exact h _ hover | exact hover

theorem Frame.over_iff (h : Frame s t) : t.Over p ↔ s.Over p := by
  cases p <;> simp only [State.Over, State.isCancellationRequested, h.sources]

theorem start_spec (h : s.start = some t) :
    (s.status = .canceled ∨ s.status = .completed ∨ s.status = .notStarted) ∧
      t.canceled = false ∧ t.toExit = false ∧
      t.cancellationTokenSource = some s.sources.length ∧ t.task = some s.loops.length ∧
      t.loops = s.loops ++ [.scheduled s.sources.length] ∧
      ∀ source, t.isCancellationRequested source = s.isCancellationRequested source := by
  simp only [State.start, Option.ite_none_right_eq_some, Option.some.injEq] at h
  obtain ⟨hstatus, rfl⟩ := h
  refine ⟨hstatus, rfl, rfl, rfl, rfl, rfl, ?_⟩
  intro source
  simp only [State.isCancellationRequested, List.getD_eq_getElem?_getD, List.getElem?_append]
  split
  · rfl
  · next hle =>
    rw [List.getElem?_eq_none (Nat.le_of_not_lt hle)]
    cases source - s.sources.length <;> rfl

/-- The task is over. -/
def LoopOver (s : State) (i : Nat) : Prop := ∃ p, s.loops[i]? = some p ∧ s.Over p

theorem LoopOver.step (hover : LoopOver s i) (h : step s a = some t) : LoopOver t i := by
  obtain ⟨p, hp, hpover⟩ := hover
  rcases step_cases h with ⟨-, hstart⟩ | ⟨-, -, -, hstops⟩ | hmoves
  · obtain ⟨-, -, -, -, -, hloops, hsources⟩ := start_spec hstart
    refine ⟨p, ?_, over_mono (fun source hsource => (hsources source).trans hsource) hpover⟩
    rw [hloops, List.getElem?_append_left (List.getElem?_eq_some_iff.1 hp).1, hp]
  · exact ⟨p, hstops.loops ▸ hp, over_mono hstops.sources hpover⟩
  · rcases hmoves.loops with hloops | ⟨j, q, r, hq, hloops, hqr⟩
    · exact ⟨p, hloops ▸ hp, hmoves.frame.over_iff.2 hpover⟩
    · by_cases hij : j = i
      · subst hij
        rw [hp] at hq
        cases hq
        refine ⟨r, ?_, hmoves.frame.over_iff.2 (hqr hpover)⟩
        rw [hloops, List.getElem?_set_self (List.getElem?_eq_some_iff.1 hp).1]
      · refine ⟨p, ?_, hmoves.frame.over_iff.2 hpover⟩
        rw [hloops, List.getElem?_set_ne hij, hp]

theorem not_loopOver_of_canBeginWork (h : CanBeginWork s i) : ¬ LoopOver s i := by
  intro hover
  obtain ⟨as, t, t', hrun, -, hstep, hwork⟩ := h
  have hover' : LoopOver t i :=
    run_invariant (LoopOver · i) (fun _ _ _ hover hstep => hover.step hstep) hover hrun
  obtain ⟨p, hp, hpover⟩ := hover'.step hstep
  rw [hwork] at hp
  cases hp
  exact hpover

/-- All tasks but the last one are over. -/
structure LastAlive (s : State) : Prop where
  allButLast : ∀ i, i + 1 < s.loops.length → LoopOver s i
  task : ∀ i, s.task = some i → i + 1 = s.loops.length
  notStarted : s.canceled = false → s.task = none → s.loops = []

theorem LastAlive.init : LastAlive State.init where
  allButLast i hi := by simp [State.init] at hi
  task i hi := by cases hi
  notStarted _ _ := rfl

theorem ranToCompletion_of_status (h : s.status = .completed) :
    ∃ i, s.task = some i ∧ s.loops[i]? = some .ranToCompletion := by
  unfold State.status at h
  split at h
  · cases h
  · cases htask : s.task with
    | none => simp [htask] at h
    | some i =>
      simp only [htask] at h
      split at h
      · cases h
      · split at h
        · next hran => exact ⟨i, rfl, hran⟩
        · cases h

theorem no_task_of_status (h : s.status = .notStarted) : s.canceled = false ∧ s.task = none := by
  unfold State.status at h
  split at h
  · cases h
  · next hcanceled =>
    refine ⟨by simpa using hcanceled, ?_⟩
    cases htask : s.task with
    | none => rfl
    | some i =>
      simp only [htask] at h
      split at h
      · cases h
      · split at h <;> cases h

/-- All tasks are over when `Start` does not throw: after a `Stop` by assumption, else because the
last one has completed or there is none. -/
theorem LastAlive.all_over (hlast : LastAlive s) (hstart : s.start = some t)
    (hquiet : s.status = .canceled → ∀ p ∈ s.loops, s.Over p) (hi : i < s.loops.length) :
    LoopOver s i := by
  obtain ⟨hstatus, -⟩ := start_spec hstart
  rcases hstatus with hcanceled | hcompleted | hnotStarted
  · exact ⟨s.loops[i], List.getElem?_eq_getElem hi, hquiet hcanceled _ (List.getElem_mem hi)⟩
  · by_cases hprev : i + 1 < s.loops.length
    · exact hlast.allButLast i hprev
    · obtain ⟨task, htask, hran⟩ := ranToCompletion_of_status hcompleted
      have hlen := hlast.task task htask
      obtain rfl : task = i := by omega
      exact ⟨_, hran, trivial⟩
  · obtain ⟨hcanceled, htask⟩ := no_task_of_status hnotStarted
    rw [hlast.notStarted hcanceled htask] at hi
    cases hi

theorem LastAlive.step (hlast : LastAlive s) (hquiet : StartsWhenOver s a)
    (h : step s a = some t) : LastAlive t := by
  have hkept : ∀ i, LoopOver s i → LoopOver t i := fun _ hover => hover.step h
  rcases step_cases h with ⟨rfl, hstart⟩ | ⟨-, -, -, hstops⟩ | hmoves
  · obtain ⟨-, -, -, -, htask, hloops, -⟩ := start_spec hstart
    have hlength : t.loops.length = s.loops.length + 1 := by simp [hloops]
    refine ⟨?_, ?_, ?_⟩
    · intro i hi
      exact hkept i (hlast.all_over hstart (hquiet rfl) (by omega))
    · intro i hi
      rw [htask] at hi
      cases hi
      exact hlength.symm
    · intro _ hnone
      rw [htask] at hnone
      cases hnone
  · refine ⟨?_, ?_, ?_⟩
    · intro i hi
      exact hkept i (hlast.allButLast i (hstops.loops ▸ hi))
    · intro i hi
      rcases hstops.canceled with ⟨-, hnone⟩ | ⟨-, -, htask⟩
      · rw [hnone] at hi
        cases hi
      · rw [hstops.loops]
        exact hlast.task i (htask ▸ hi)
    · intro hcanceled hnone
      rcases hstops.canceled with ⟨htrue, -⟩ | ⟨-, hsame, htask⟩
      · rw [htrue] at hcanceled
        cases hcanceled
      · rw [hstops.loops]
        exact hlast.notStarted (hsame ▸ hcanceled) (htask ▸ hnone)
  · have hlength : t.loops.length = s.loops.length := by
      rcases hmoves.loops with hloops | ⟨_, _, _, _, hloops, _⟩ <;> simp [hloops]
    refine ⟨?_, ?_, ?_⟩
    · intro i hi
      exact hkept i (hlast.allButLast i (hlength ▸ hi))
    · intro i hi
      rw [hlength]
      exact hlast.task i (hmoves.frame.task ▸ hi)
    · intro hcanceled hnone
      have hnil := hlast.notStarted (hmoves.frame.canceled ▸ hcanceled)
        (hmoves.frame.task ▸ hnone)
      rw [hnil] at hlength
      exact List.eq_nil_of_length_eq_zero hlength

theorem LastAlive.atMostOneLive (hlast : LastAlive s) : AtMostOneLive s := by
  have hisLast : ∀ i, PastStart s i → CanBeginWork s i → i + 1 = s.loops.length := by
    rintro i ⟨p, hp, -⟩ hcan
    have hlt := (List.getElem?_eq_some_iff.1 hp).1
    have hnot := mt (hlast.allButLast i) (not_loopOver_of_canBeginWork hcan)
    omega
  intro i j hi hcani hj hcanj
  have hi' := hisLast i hi hcani
  have hj' := hisLast j hj hcanj
  omega

end Steps

/-- In every run in which each `Start` after a `Stop` finds all tasks over, at most one loop is live
in the state reached. -/
theorem atMostOneLive_of_startsWhenOver {as : List Action} {s : State}
    (halong : Along step StartsWhenOver State.init as) (hrun : run step State.init as = some s) :
    AtMostOneLive s := by
  have hlast : LastAlive s := halong.invariant LastAlive
    (fun _ _ _ hlast hquiet hstep => hlast.step hquiet hstep) LastAlive.init hrun
  exact hlast.atMostOneLive

/-- The steps of a task up to its first call of `Work`. -/
def toWork (i : Nat) : List Action := List.replicate 7 (.run i)

/-- The worker is started again when the first loop has left its `while`. -/
def restartedWhenOver : List Action :=
  .start :: toWork 0 ++ [.stop false, .endWork 0 .returned, .run 0, .run 0, .run 0, .start, .run 1]

theorem atMostOneLive_restartedWhenOver :
    ∃ s, run step State.init restartedWhenOver = some s ∧ PastStart s 1 ∧ AtMostOneLive s := by
  refine ⟨_, rfl, ?_, ?_⟩
  · exact ⟨.whileToExit, rfl, by simp⟩
  · have halong : Along step StartsWhenOver State.init restartedWhenOver := by decide
    exact atMostOneLive_of_startsWhenOver halong rfl

/-- The worker is started again while the first loop is in `Work`. -/
def restartedInWork : List Action := .start :: toWork 0 ++ [.stop false, .start, .run 1]

/-- `Start` has set `ToExit` back before the first loop has read it, so both loops go on. -/
theorem not_atMostOneLive_restartedInWork :
    ∃ s, run step State.init restartedInWork = some s ∧ ¬ AtMostOneLive s := by
  refine ⟨_, rfl, ?_⟩
  intro hone
  have hfirst : 0 = 1 := by
    apply hone 0 1
    · exact ⟨.work, rfl, by simp⟩
    · exact ⟨.endWork 0 .returned :: List.replicate 7 (.run 0), _, _, rfl, by decide, rfl, rfl⟩
    · exact ⟨.whileToExit, rfl, by simp⟩
    · exact ⟨List.replicate 5 (.run 1), _, _, rfl, by decide, rfl, rfl⟩
  cases hfirst

end IFramework.Infrastructure.TaskWorker
