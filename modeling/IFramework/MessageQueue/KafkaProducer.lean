import IFramework.Theory.Run

/-!
# The Kafka producer

`SendAsync` tries to produce the message until it is produced or the call is cancelled, and waits
longer after each failure: 5 s, 10 s, 15 s, at most 5 minutes. The number of attempts is not
bounded and is multiplied before the minimum is taken, both in 32 bits, so that after 429497
failures the product is negative, `Task.Delay` does not take it, and its exception leaves the loop
(`sendAsync_iff`).
-/

namespace IFramework.MessageQueue.KafkaProducer

open Machine

/-- The milliseconds to wait after the attempt. -/
def waitTime (retryTimes : Int32) : Int32 := min (retryTimes * 1000 * 5) (60000 * 5)

/-- How a call of `SendAsync` ends. -/
inductive Exit (R : Type) where
  | returned (result : R)
  /-- `ThrowIfCancellationRequested` throws. -/
  | operationCanceled
  /-- The delay is cancelled. -/
  | taskCanceled
  /-- `Task.Delay` does not take the time. -/
  | argumentOutOfRange
  deriving DecidableEq

/-- Where a call of `SendAsync` is. -/
inductive SendPoint (R : Type) where
  | throwIfCancellationRequested
  /-- In `BuildMessage` or `ProduceAsync`. -/
  | produce (waitTime : Int32)
  /-- Before the call of `Task.Delay`. -/
  | delay (waitTime : Int32)
  | waiting (waitTime : Int32)
  | left (exit : Exit R)
  deriving DecidableEq

structure State (R : Type) where
  retryTimes : Int32
  cancellationRequested : Bool
  point : SendPoint R
  deriving DecidableEq

inductive Action (R : Type) where
  /-- The caller cancels. -/
  | cancel
  /-- The call goes on by itself. -/
  | moveNext
  | produced (result : R)
  /-- The attempt throws, for whatever reason. -/
  | failed
  /-- The time of the delay is over. -/
  | elapsed
  | delayCanceled

variable {R : Type}

def Action.isFailed : Action R → Bool
  | .failed => true
  | .cancel | .moveNext | .produced _ | .elapsed | .delayCanceled => false

/-- The point after `Task.Delay(waitTime, cancellationToken)`; -1 is to wait forever. -/
def taskDelay (waitTime : Int32) (cancellationRequested : Bool) : SendPoint R :=
  if waitTime < -1 then .left .argumentOutOfRange
  else if cancellationRequested then .left .taskCanceled
  else if waitTime = 0 then .throwIfCancellationRequested
  else .waiting waitTime

def step (s : State R) : Action R → Option (State R)
  | .cancel => some { s with cancellationRequested := true }
  | .moveNext =>
    match s.point with
    | .throwIfCancellationRequested =>
      if s.cancellationRequested then some { s with point := .left .operationCanceled }
      else
        let retryTimes := s.retryTimes + 1
        some { s with retryTimes := retryTimes, point := .produce (waitTime retryTimes) }
    | .delay waitTime => some { s with point := taskDelay waitTime s.cancellationRequested }
    | .produce _ | .waiting _ | .left _ => none
  | .produced result =>
    match s.point with
    | .produce _ => some { s with point := .left (.returned result) }
    | .throwIfCancellationRequested | .delay _ | .waiting _ | .left _ => none
  | .failed =>
    match s.point with
    | .produce waitTime => some { s with point := .delay waitTime }
    | .throwIfCancellationRequested | .delay _ | .waiting _ | .left _ => none
  | .elapsed =>
    match s.point with
    | .waiting waitTime =>
      if waitTime = -1 then none else some { s with point := .throwIfCancellationRequested }
    | .throwIfCancellationRequested | .produce _ | .delay _ | .left _ => none
  | .delayCanceled =>
    match s.point with
    | .waiting _ =>
      if s.cancellationRequested then some { s with point := .left .taskCanceled } else none
    | .throwIfCancellationRequested | .produce _ | .delay _ | .left _ => none

/-- The call begins, with a token that may have been cancelled. -/
def sendAsync (cancellationRequested : Bool) : State R :=
  ⟨0, cancellationRequested, .throwIfCancellationRequested⟩

/-- Between 5 s and 5 minutes. -/
def InRange (waitTime : Int32) : Prop := 5000 ≤ waitTime ∧ waitTime ≤ 300000

instance : DecidablePred InRange := fun _ => inferInstanceAs (Decidable (_ ∧ _))

/-- The time to wait after a failure is in range, and the loop has not been left but by a message
that was produced or by cancellation. -/
def RetryGoesOn (s : State R) : Prop :=
  match s.point with
  | .delay waitTime | .waiting waitTime => InRange waitTime
  | .throwIfCancellationRequested | .produce _ => True
  | .left (.returned _) | .left .operationCanceled | .left .taskCanceled => True
  | .left .argumentOutOfRange => False

/-! ## The wait time -/

theorem toInt_product (n : Nat) :
    (Int32.ofNat n * 1000 * 5).toInt = Int.bmod (5000 * n : Nat) 4294967296 := by
  have hproduct : Int32.ofNat n * 1000 * 5 = Int32.ofNat (5000 * n) := by
    rw [Nat.mul_comm, Int32.ofNat_mul, Int32.mul_assoc]
    rfl
  rw [hproduct]
  exact Int32.toInt_ofNat'

theorem inRange_min {product : Int32} : InRange (min product 300000) ↔ 5000 ≤ product := by
  change InRange (if product ≤ 300000 then product else 300000) ↔ _
  unfold InRange
  split
  next hle => exact and_iff_left hle
  next hgt =>
    have hlarge : 5000 ≤ product :=
      Int32.le_trans (by decide) (Int32.le_of_lt (Int32.not_le.1 hgt))
    exact iff_of_true (by decide) hlarge

/-- The wait time after the nth failure. -/
theorem inRange_waitTime_iff (n : Nat) :
    InRange (waitTime (Int32.ofNat n)) ↔
      5000 ≤ 5000 * n % 4294967296 ∧ 5000 * n % 4294967296 < 2147483648 := by
  have hfive : (5000 : Int32).toInt = 5000 := rfl
  change InRange (min _ 300000) ↔ _
  rw [inRange_min, Int32.le_iff_toInt_le, toInt_product, hfive, Int.bmod_def]
  omega

/-- The first failures, before the product is too large. -/
theorem inRange_waitTime {n : Nat} (hpos : 1 ≤ n) (hle : n ≤ 429496) :
    InRange (waitTime (Int32.ofNat n)) := by
  have hproduct : 5000 * n % 4294967296 = 5000 * n := Nat.mod_eq_of_lt (by omega)
  rw [inRange_waitTime_iff, hproduct]
  omega

/-- The product is -2147482296. -/
theorem waitTime_overflow : waitTime (Int32.ofNat 429497) < -1 := by
  decide

/-! ## A run -/

section Run

variable {s t : State R} {a : Action R} {as : List (Action R)} {n : Nat}
  {time : Int32}

/-- What holds when `n` attempts have failed. -/
def After (n : Nat) (s : State R) : Prop :=
  match s.point with
  | .throwIfCancellationRequested => s.retryTimes = Int32.ofNat n ∧ n ≤ 429496
  | .produce time =>
    s.retryTimes = Int32.ofNat (n + 1) ∧ time = waitTime (Int32.ofNat (n + 1)) ∧ n ≤ 429496
  | .delay time =>
    s.retryTimes = Int32.ofNat n ∧ time = waitTime (Int32.ofNat n) ∧ 1 ≤ n ∧ n ≤ 429497
  | .waiting time =>
    s.retryTimes = Int32.ofNat n ∧ time = waitTime (Int32.ofNat n) ∧ 1 ≤ n ∧ n ≤ 429496
  | .left (.returned _) | .left .operationCanceled | .left .taskCanceled => n ≤ 429496
  | .left .argumentOutOfRange => n = 429497

theorem not_inRange_overflow : ¬ InRange (waitTime (Int32.ofNat 429497)) := by
  decide

theorem retryGoesOn_iff (h : After n s) : RetryGoesOn s ↔ n ≤ 429496 := by
  have hrange : ∀ time, time = waitTime (Int32.ofNat n) → 1 ≤ n → n ≤ 429497 →
      (InRange time ↔ n ≤ 429496) := by
    rintro _ rfl hpos hle
    constructor
    · intro hin
      rcases Nat.le_succ_iff.1 hle with hlt | rfl
      · exact hlt
      · exact absurd hin not_inRange_overflow
    · exact inRange_waitTime hpos
  obtain ⟨retryTimes, cancellationRequested, point⟩ := s
  cases point with
  | throwIfCancellationRequested => exact iff_of_true trivial h.2
  | produce time => exact iff_of_true trivial h.2.2
  | delay time => exact hrange time h.2.1 h.2.2.1 h.2.2.2
  | waiting time => exact hrange time h.2.1 h.2.2.1 (Nat.le_succ_of_le h.2.2.2)
  | left exit =>
    cases exit with
    | argumentOutOfRange =>
      refine iff_of_false id ?_
      rw [show n = 429497 from h]
      decide
    | returned | operationCanceled | taskCanceled => exact iff_of_true trivial h

/-- `Task.Delay` takes a time in range. -/
theorem taskDelay_of_inRange (h : InRange time) (cancellationRequested : Bool) :
    (taskDelay time cancellationRequested : SendPoint R) =
      if cancellationRequested then .left .taskCanceled else .waiting time := by
  have hneg : ¬ time < -1 := fun hlt => absurd (Int32.lt_of_le_of_lt h.1 hlt) (by decide)
  have hzero : time ≠ 0 := by
    rintro rfl
    exact absurd h (by decide)
  rw [taskDelay, if_neg hneg, if_neg hzero]

/-- `Task.Delay` after the nth failure. -/
theorem after_taskDelay {retryTimes : Int32} {cancellationRequested : Bool}
    (h : After n (⟨retryTimes, cancellationRequested, .delay time⟩ : State R)) :
    After n (⟨retryTimes, cancellationRequested, taskDelay time cancellationRequested⟩ :
      State R) := by
  obtain ⟨hretryTimes, rfl, hpos, hle⟩ := h
  rcases Nat.le_succ_iff.1 hle with hlt | rfl
  · rw [taskDelay_of_inRange (inRange_waitTime hpos hlt)]
    cases cancellationRequested with
    | true => exact hlt
    | false => exact ⟨hretryTimes, rfl, hpos, hlt⟩
  · rw [taskDelay, if_pos waitTime_overflow]
    rfl

theorem after_step (h : After n s) (hstep : step s a = some t) :
    After (n + if a.isFailed then 1 else 0) t := by
  obtain ⟨retryTimes, cancellationRequested, point⟩ := s
  cases a with
  | cancel =>
    cases hstep
    exact h
  | moveNext =>
    cases point with
    | throwIfCancellationRequested =>
      simp only [step] at hstep
      split at hstep
      · cases hstep
        exact h.2
      · cases hstep
        obtain ⟨rfl, hle⟩ := h
        have hnext : Int32.ofNat n + 1 = Int32.ofNat (n + 1) := (Int32.ofNat_add n 1).symm
        exact ⟨hnext, congrArg waitTime hnext, hle⟩
    | delay time =>
      cases hstep
      exact after_taskDelay h
    | produce | waiting | left => cases hstep
  | produced result =>
    cases point with
    | produce time =>
      cases hstep
      exact h.2.2
    | throwIfCancellationRequested | delay | waiting | left => cases hstep
  | failed =>
    cases point with
    | produce time =>
      cases hstep
      exact ⟨h.1, h.2.1, Nat.succ_pos n, Nat.succ_le_succ h.2.2⟩
    | throwIfCancellationRequested | delay | waiting | left => cases hstep
  | elapsed =>
    cases point with
    | waiting time =>
      simp only [step] at hstep
      split at hstep
      · cases hstep
      · cases hstep
        exact ⟨h.1, h.2.2.2⟩
    | throwIfCancellationRequested | produce | delay | left => cases hstep
  | delayCanceled =>
    cases point with
    | waiting time =>
      simp only [step] at hstep
      split at hstep
      · cases hstep
        exact h.2.2.2
      · cases hstep
    | throwIfCancellationRequested | produce | delay | left => cases hstep

theorem after_run (h : After n s) (hrun : run step s as = some t) :
    After (n + as.countP Action.isFailed) t := by
  induction as generalizing n s with
  | nil =>
    cases hrun
    exact h
  | cons a as ih =>
    obtain ⟨u, hstep, hrest⟩ := run_cons_eq_some.1 hrun
    have hlast := ih (after_step h hstep) hrest
    rw [List.countP_cons, Nat.add_comm (as.countP _), ← Nat.add_assoc]
    exact hlast

theorem after_sendAsync (cancellationRequested : Bool) :
    After 0 (sendAsync cancellationRequested : State R) :=
  ⟨rfl, Nat.zero_le _⟩

/-! ## Failures in a row -/

/-- `n` attempts fail, and their delays elapse. -/
def failures : Nat → List (Action R)
  | 0 => []
  | n + 1 => failures n ++ [.moveNext, .failed, .moveNext, .elapsed]

theorem run_failures (h : n ≤ 429496) :
    run step (sendAsync false) (failures n : List (Action R)) =
      some ⟨Int32.ofNat n, false, .throwIfCancellationRequested⟩ := by
  induction n with
  | zero => rfl
  | succ n ih =>
    refine run_append_eq_some.2 ⟨_, ih (Nat.le_of_succ_le h), ?_⟩
    have hnext : Int32.ofNat (n + 1) = Int32.ofNat n + 1 := Int32.ofNat_add n 1
    have hin : InRange (waitTime (Int32.ofNat n + 1)) :=
      hnext ▸ inRange_waitTime (Nat.succ_pos n) h
    have hforever : waitTime (Int32.ofNat n + 1) ≠ -1 := by
      intro heq
      rw [heq] at hin
      exact absurd hin (by decide)
    simp [run, step, hnext, taskDelay_of_inRange hin, hforever]

/-- After 2147480000 ms come -2147482296: `Task.Delay` throws. -/
theorem not_retryGoesOn_failures :
    run step (sendAsync false)
        (failures 429496 ++ [.moveNext, .failed, .moveNext] : List (Action Nat)) =
        some ⟨429497, false, .left .argumentOutOfRange⟩ ∧
      ¬ Throughout step RetryGoesOn (sendAsync false)
        (failures 429496 ++ [.moveNext, .failed, .moveNext] : List (Action Nat)) := by
  have hrun : run step (sendAsync false)
      (failures 429496 ++ [.moveNext, .failed, .moveNext] : List (Action Nat)) =
      some ⟨429497, false, .left .argumentOutOfRange⟩ :=
    run_append_eq_some.2 ⟨_, run_failures (Nat.le_refl _), by decide⟩
  exact ⟨hrun, fun h => h _ _ (List.prefix_refl _) hrun⟩

/-! ## The retry loop -/

/-- As long as less than 429497 attempts fail, and not longer. -/
theorem sendAsync_iff (cancellationRequested : Bool) (as : List (Action R)) (t : State R)
    (hrun : run step (sendAsync cancellationRequested) as = some t) :
    (Throughout step RetryGoesOn (sendAsync cancellationRequested) as ↔
        as.countP Action.isFailed < 429497) ∧
      ∀ n : Nat, InRange (waitTime (Int32.ofNat n)) ↔
        5000 ≤ 5000 * n % 4294967296 ∧ 5000 * n % 4294967296 < 2147483648 := by
  have hafter : ∀ {bs u}, run step (sendAsync cancellationRequested) bs = some u →
      After (bs.countP Action.isFailed) (u : State R) := by
    intro bs u hu
    have h := after_run (after_sendAsync cancellationRequested) hu
    rwa [Nat.zero_add] at h
  refine ⟨?_, inRange_waitTime_iff⟩
  constructor
  · intro h
    exact Nat.lt_succ_of_le ((retryGoesOn_iff (hafter hrun)).1 (h as t (List.prefix_refl as) hrun))
  · intro h bs u hbs hu
    have hcount : bs.countP Action.isFailed ≤ as.countP Action.isFailed :=
      hbs.sublist.countP_le
    exact (retryGoesOn_iff (hafter hu)).2 (Nat.le_of_lt_succ (Nat.lt_of_le_of_lt hcount h))

/-- One failure, and then the message is produced. -/
theorem sendAsync_iff_retry :
    Throughout step RetryGoesOn (sendAsync false)
      ([.moveNext, .failed, .moveNext, .elapsed, .moveNext, .produced 7] : List (Action Nat)) :=
  (sendAsync_iff false _ ⟨2, false, .left (.returned 7)⟩ rfl).1.2 (by decide)

end Run

end IFramework.MessageQueue.KafkaProducer
