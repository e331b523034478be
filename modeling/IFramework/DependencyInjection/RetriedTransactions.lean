import IFramework.DependencyInjection.Interceptors

/-!
# Retries and transactions

A call that is wrapped in a transaction is all or nothing (`all_or_nothing_iff`). This says nothing
of the attempts before the last one. They leave no trace exactly if no attribute that repeats is
inside one that begins a transaction, and there is a transaction at all when something repeats
(`failed_attempts_vanish_iff`): inside, an attempt goes on with the data that a failed one has
written, and what has been written is committed with the rest. Since attributes with the same order
are put around each other as they are found, this is how it is when `ConcurrentProcess` and
`Transaction` stand on a method without an `Order`, the first before the second.
-/

namespace IFramework.DependencyInjection

open Infrastructure Infrastructure.ConcurrencyProcessor ListUnion

namespace InterceptorAttribute

/-- What is inside can be called again. -/
def retries : InterceptorAttribute → Bool
  | .concurrentProcess _ _ retryTimes => 0 < retryTimes
  | .transaction .. => false

/-- A transaction begins if there is none. -/
def begins : InterceptorAttribute → Bool
  | .concurrentProcess .. => false
  | .transaction _ scope _ => scope ≠ .suppress

end InterceptorAttribute

theorem toNat_of_not_retries {order : Int} {names : Names} {retryTimes : Int}
    (h : (InterceptorAttribute.concurrentProcess order names retryTimes).retries = false) :
    retryTimes.toNat = 0 := by
  simp only [InterceptorAttribute.retries, decide_eq_false_iff_not] at h
  omega

variable {D T : Type} {parser : Parser} {dispose : Nat → Option ConcurrencyProcessor.Exn}
  {target : Nat → D → Outcome T × D} {func : Func D T} {a : InterceptorAttribute}
  {attributes : List InterceptorAttribute} {w : World D}

@[simp] theorem World.isSome_current_write (data : D) :
    (w.write data).current.isSome = w.current.isSome := by
  unfold write
  split <;> simp_all

/-- What holds of a repeated call: of a call that returns, of one whose exception, or that of the
parser, is thrown, and through one whose exception is retried. -/
theorem retry_rule {P : World D → Outcome T × World D → Prop}
    (returned : ∀ w value, (func w).1 = .returned value → P w (func w))
    (thrown : ∀ w ex ex', (func w).1 = .thrown ex → P w (.thrown ex', (func w).2))
    (again : ∀ w ex result, (func w).1 = .thrown ex → P (func w).2 result → P w result)
    (names : Names) (retryCount : Nat) (w : World D) :
    P w (retry parser names func retryCount w) := by
  induction retryCount generalizing w with
  | zero =>
    unfold retry
    split
    · next h => exact h ▸ returned w _ (by rw [h])
    · next ex w' h =>
      have hw' : w' = (func w).2 := by rw [h]
      subst hw'
      split <;> exact thrown w ex _ (by rw [h])
  | succ retryCount ih =>
    unfold retry
    split
    · next h => exact h ▸ returned w _ (by rw [h])
    · next ex w' h =>
      have hw' : w' = (func w).2 := by rw [h]
      subst hw'
      split
      · exact thrown w ex _ (by rw [h])
      · exact thrown w ex _ (by rw [h])
      · exact again w ex _ (by rw [h]) (ih _)

theorem retry_of_returned {value : T} (h : (func w).1 = .returned value) (names : Names)
    (retryCount : Nat) : retry parser names func retryCount w = func w := by
  rcases hfunc : func w with ⟨outcome, w'⟩
  rw [hfunc] at h
  cases h
  cases retryCount <;> simp [retry, hfunc]

theorem retry_succ {w' : World D} {ex : ConcurrencyProcessor.Exn} {names : Names} {retryCount : Nat}
    (h : func w = (.thrown ex, w')) (hneed : needRetry parser names ex = .ok true) :
    retry parser names func (retryCount + 1) w = retry parser names func retryCount w' := by
  rw [retry, h]
  simp only [hneed]

/-! ## The loop -/

/-- The world that the first attempts have left. -/
def worldAfter (func : Func D T) (w : World D) (attempts : Nat) : World D :=
  (fun w => (func w).2)^[attempts] w

/-- The outcomes of the attempts. -/
def outcomes (func : Func D T) (w : World D) (n : Nat) : Outcome T := (func (worldAfter func w n)).1

theorem worldAfter_succ (n : Nat) :
    worldAfter func w (n + 1) = (func (worldAfter func w n)).2 :=
  Function.iterate_succ_apply' _ _ _

/-- An attempt is the last one, or its exception is retried; in the loop as in `retry`. -/
theorem attempt_cases (parser : Parser) (names : Names) (func : Func D T) (w : World D)
    (n retryCount : Nat) :
    (∃ ex, func (worldAfter func w n) = (.thrown ex, worldAfter func w (n + 1)) ∧
        needRetry parser names ex = .ok true) ∨
      ∃ outcome, attempt parser names (outcomes func w) ⟨retryCount, n, none⟩ =
          .ok (⟨retryCount, n + 1, some outcome⟩, false) ∧
        retry parser names func retryCount (worldAfter func w n) =
          (outcome, worldAfter func w (n + 1)) := by
  rw [worldAfter_succ]
  rcases hfunc : func (worldAfter func w n) with ⟨value | ex, w'⟩
  · refine .inr ⟨.returned value, ?_, ?_⟩
    · simp [attempt, outcomes, hfunc]
    · rw [retry, hfunc]
  · cases hneed : needRetry parser names ex with
    | error e =>
      refine .inr ⟨.thrown e, ?_, ?_⟩
      · simp [attempt, outcomes, hfunc, hneed]
      · rw [retry, hfunc]
        simp only [hneed]
    | ok again =>
      cases again with
      | true => exact .inl ⟨ex, rfl, hneed⟩
      | false =>
        refine .inr ⟨.thrown ex, ?_, ?_⟩
        · simp [attempt, outcomes, hfunc, hneed]
        · rw [retry, hfunc]
          simp only [hneed]

theorem returns_retry (parser : Parser) (names : Names) (func : Func D T) (w : World D)
    (retryCount n : Nat) :
    ∃ final outcome, Loop.Returns (attempt parser names (outcomes func w)) ⟨retryCount, n, none⟩
        (.ok final) ∧ final.result = some outcome ∧
      retry parser names func retryCount (worldAfter func w n) =
        (outcome, worldAfter func w final.invoked) := by
  induction retryCount generalizing n with
  | zero =>
    rcases attempt_cases parser names func w n 0 with ⟨ex, hfunc, hneed⟩ | ⟨_, hattempt, hretry⟩
    · have hexhausted : attempt parser names (outcomes func w) ⟨0, n, none⟩ =
          .ok (⟨-1, n + 1, some (.thrown ex)⟩, false) := by
        simp [attempt, outcomes, hfunc, hneed]
      refine ⟨_, .thrown ex, Loop.returns_done hexhausted, rfl, ?_⟩
      rw [retry, hfunc]
      simp only [hneed]
    · exact ⟨_, _, Loop.returns_done hattempt, rfl, hretry⟩
  | succ retryCount ih =>
    rcases attempt_cases parser names func w n (retryCount + 1) with
      ⟨ex, hfunc, hneed⟩ | ⟨_, hattempt, hretry⟩
    · have hagain : attempt parser names (outcomes func w) ⟨(retryCount + 1 : Nat), n, none⟩ =
          .ok (⟨retryCount, n + 1, none⟩, true) := by
        have hbudget : ¬((retryCount + 1 : Nat) : Int) ≤ 0 := by omega
        have hleft : ((retryCount + 1 : Nat) : Int) - 1 = retryCount := by omega
        simp only [attempt, outcomes, hfunc, hneed, if_neg hbudget, hleft]
      obtain ⟨final, outcome, hreturns, hresult, hretry⟩ := ih (n + 1)
      exact ⟨final, outcome, Loop.returns_next hagain hreturns, hresult,
        (retry_succ hfunc hneed).trans hretry⟩
    · exact ⟨_, _, Loop.returns_done hattempt, rfl, hretry⟩

/-- `retry` is the loop of the concurrency processor, where each attempt is made in the world that
the one before has left. -/
theorem processOf_retry (parser : Parser) (names : Names) (func : Func D T) (w : World D)
    (retryCount : Nat) :
    ∃ final outcome, ProcessOf parser names (outcomes func w) retryCount final ∧
      final.result = some outcome ∧
        retry parser names func retryCount w = (outcome, worldAfter func w final.invoked) :=
  returns_retry parser names func w retryCount 0

/-! ## One call of the target -/

/-- The function does what one call of the target does, but for the exception. -/
def CallsOnce (target : Nat → D → Outcome T × D) (func : Func D T) (w : World D) : Prop :=
  (func w).2 = (invokeTargetMethod target w).2 ∧
    ∀ value, (func w).1 = .returned value → (invokeTargetMethod target w).1 = .returned value

theorem retry_zero (parser : Parser) (names : Names) (func : Func D T) (w : World D) :
    (retry parser names func 0 w).2 = (func w).2 ∧
      ∀ value, (retry parser names func 0 w).1 = .returned value →
        (func w).1 = .returned value := by
  unfold retry
  split
  · next h => simp [h]
  · next h =>
    split <;> simp [h]

theorem CallsOnce.process (h : CallsOnce target func w) (hretries : a.retries = false)
    (hbegins : w.current.isSome = true ∨ a.begins = false) :
    CallsOnce target (a.process parser dispose func) w := by
  cases a with
  | concurrentProcess order names retryTimes =>
    have hzero : retryTimes.toNat = 0 := toNat_of_not_retries hretries
    obtain ⟨hworld, hvalue⟩ := retry_zero parser names func w
    simp only [InterceptorAttribute.process, hzero]
    exact ⟨hworld.trans h.1, fun value hv => h.2 value (hvalue value hv)⟩
  | transaction order scope isolationLevel =>
    simp only [InterceptorAttribute.process, CallsOnce, doInTransaction]
    cases hcurrent : w.current with
    | some d => exact h
    | none =>
      cases scope with
      | suppress => exact h
      | required => simp [hcurrent, InterceptorAttribute.begins] at hbegins
      | requiresNew => simp [hcurrent, InterceptorAttribute.begins] at hbegins

theorem callsOnce_wrap (hretries : ∀ a ∈ attributes, a.retries = false)
    (hbegins : w.current.isSome = true ∨ ∀ a ∈ attributes, a.begins = false) :
    CallsOnce target (wrap parser dispose (invokeTargetMethod target) attributes) w := by
  induction attributes using List.reverseRecOn with
  | nil => exact ⟨rfl, fun _ h => h⟩
  | append_singleton attributes a ih =>
    rw [wrap_concat]
    refine (ih (fun b hb => hretries b (List.mem_append_left _ hb)) ?_).process
      (hretries a (by simp)) ?_
    · exact hbegins.imp_right fun h b hb => h b (List.mem_append_left _ hb)
    · exact hbegins.imp_right fun h => h a (by simp)

/-! ## All or nothing -/

/-- In a transaction nothing is committed. -/
def Within (func : Func D T) : Prop :=
  ∀ w, w.current.isSome = true →
    (func w).2.current.isSome = true ∧ (func w).2.durable = w.durable

/-- Without a transaction, an exception means that nothing is committed. -/
def Atomic (func : Func D T) : Prop :=
  ∀ w, w.current = none → (func w).2.current = none ∧
    ∀ ex, (func w).1 = .thrown ex → (func w).2.durable = w.durable

theorem within_invokeTargetMethod : Within (invokeTargetMethod target) := by
  intro w hw
  obtain ⟨d, hd⟩ := Option.isSome_iff_exists.1 hw
  simp [invokeTargetMethod, World.write, hd]

theorem Within.retry (h : Within func) (names : Names) (retryCount : Nat) :
    Within (retry parser names func retryCount) := by
  refine retry_rule (P := fun w result => w.current.isSome = true →
    result.2.current.isSome = true ∧ result.2.durable = w.durable) ?_ ?_ ?_ names retryCount
  · exact fun w value _ hw => h w hw
  · exact fun w ex ex' _ hw => h w hw
  · intro w ex result _ hresult hw
    obtain ⟨hcurrent, hdurable⟩ := hresult (h w hw).1
    exact ⟨hcurrent, hdurable.trans (h w hw).2⟩

theorem Within.process (h : Within func) (a : InterceptorAttribute) :
    Within (a.process parser dispose func) := by
  cases a with
  | concurrentProcess order names retryTimes => exact h.retry names _
  | transaction order scope isolationLevel =>
    intro w hw
    obtain ⟨d, hd⟩ := Option.isSome_iff_exists.1 hw
    simpa [InterceptorAttribute.process, doInTransaction, hd] using h w hw

theorem Atomic.retry (h : Atomic func) (names : Names) (retryCount : Nat) :
    Atomic (retry parser names func retryCount) := by
  refine retry_rule (P := fun w result => w.current = none → result.2.current = none ∧
    ∀ ex, result.1 = .thrown ex → result.2.durable = w.durable) ?_ ?_ ?_ names retryCount
  · exact fun w value _ hw => h w hw
  · exact fun w ex ex' hex hw => ⟨(h w hw).1, fun _ _ => (h w hw).2 ex hex⟩
  · intro w ex result hex hresult hw
    obtain ⟨hcurrent, hthrown⟩ := hresult (h w hw).1
    exact ⟨hcurrent, fun ex' hex' => (hthrown ex' hex').trans ((h w hw).2 ex hex)⟩

/-- A transaction that begins makes it so. -/
theorem atomic_disposeScope (h : Within func) (w : World D) :
    let result := disposeScope dispose (func { w with current := some w.durable })
    result.2.current = none ∧ ∀ ex, result.1 = .thrown ex → result.2.durable = w.durable := by
  have hdurable := (h { w with current := some w.durable } rfl).2
  unfold disposeScope
  split
  · next hfunc =>
    rw [hfunc] at hdurable
    split
    · exact ⟨rfl, fun ex hex => by cases hex⟩
    · exact ⟨rfl, fun _ _ => hdurable⟩
  · next hfunc =>
    rw [hfunc] at hdurable
    exact ⟨rfl, fun _ _ => hdurable⟩

theorem Atomic.process (h : Atomic func) (hwithin : Within func) (a : InterceptorAttribute) :
    Atomic (a.process parser dispose func) := by
  cases a with
  | concurrentProcess order names retryTimes => exact h.retry names _
  | transaction order scope isolationLevel =>
    intro w hw
    simp only [InterceptorAttribute.process, doInTransaction, hw]
    cases scope with
    | suppress => exact h w hw
    | required => exact atomic_disposeScope hwithin w
    | requiresNew => exact atomic_disposeScope hwithin w

theorem atomic_process (h : Within func) (hbegins : a.begins = true) :
    Atomic (a.process parser dispose func) := by
  cases a with
  | concurrentProcess => cases hbegins
  | transaction order scope isolationLevel =>
    intro w hw
    simp only [InterceptorAttribute.process, doInTransaction, hw]
    cases scope with
    | suppress => cases hbegins
    | required => exact atomic_disposeScope h w
    | requiresNew => exact atomic_disposeScope h w

theorem within_wrap : Within (wrap parser dispose (invokeTargetMethod target) attributes) := by
  induction attributes using List.reverseRecOn with
  | nil => exact within_invokeTargetMethod
  | append_singleton attributes a ih =>
    rw [wrap_concat]
    exact ih.process a

theorem atomic_wrap (h : ∃ a ∈ attributes, a.begins = true) :
    Atomic (wrap parser dispose (invokeTargetMethod target) attributes) := by
  induction attributes using List.reverseRecOn with
  | nil => simp at h
  | append_singleton attributes a ih =>
    rw [wrap_concat]
    by_cases ha : a.begins = true
    · exact atomic_process within_wrap ha
    · obtain ⟨b, hb, hbegins⟩ := h
      rcases List.mem_append.1 hb with hb | hb
      · exact (ih ⟨b, hb, hbegins⟩).process within_wrap a
      · exact absurd (List.mem_singleton.1 hb ▸ hbegins) ha

/-- An attribute that does not repeat the call and begins no transaction does nothing. -/
theorem process_eq {result : Outcome T × World D} (hfunc : func w = result)
    (hthrown : ∀ ex, result.1 = .thrown ex → ∀ names, ∃ again,
      needRetry parser names ex = .ok again ∧ (again = true → a.retries = false))
    (hbegins : w.current.isSome = true ∨ a.begins = false) :
    a.process parser dispose func w = result := by
  cases a with
  | concurrentProcess order names retryTimes =>
    obtain ⟨outcome, w'⟩ := result
    cases outcome with
    | returned value =>
      exact (retry_of_returned (by rw [hfunc]) names _).trans hfunc
    | thrown ex =>
      obtain ⟨again, hneed, hagain⟩ := hthrown ex rfl names
      simp only [InterceptorAttribute.process]
      cases again with
      | false => cases retryTimes.toNat <;> simp [retry, hfunc, hneed]
      | true => simp [toNat_of_not_retries (hagain rfl), retry, hfunc, hneed]
  | transaction order scope isolationLevel =>
    simp only [InterceptorAttribute.process, doInTransaction]
    cases hcurrent : w.current with
    | some d => exact hfunc
    | none =>
      cases scope with
      | suppress => exact hfunc
      | required => simp [hcurrent, InterceptorAttribute.begins] at hbegins
      | requiresNew => simp [hcurrent, InterceptorAttribute.begins] at hbegins

/-- An exception of the caller's code that nothing retries. -/
def failure : ConcurrencyProcessor.Exn := .thrown 0 false none

theorem wrap_failing {w' : World D}
    (hfunc : invokeTargetMethod target w = (.thrown failure, w'))
    (hbegins : ∀ a ∈ attributes, a.begins = false) :
    wrap (fun _ _ => .ok false) dispose (invokeTargetMethod target) attributes w =
      (.thrown failure, w') := by
  induction attributes using List.reverseRecOn with
  | nil => exact hfunc
  | append_singleton attributes a ih =>
    rw [wrap_concat]
    refine process_eq (ih fun b hb => hbegins b (List.mem_append_left _ hb)) ?_
      (.inr (hbegins a (by simp)))
    rintro _ ⟨⟩ names
    exact ⟨false, rfl, fun h => absurd h Bool.false_ne_true⟩

/-- An intercepted call that throws leaves what is committed as it was, whatever its target does to
the data that it sees, exactly if an attribute begins a transaction. A scope whose disposal throws
has committed nothing. -/
theorem all_or_nothing_iff (sources : List (List InterceptorAttribute)) :
    (∀ (D T : Type) (parser : Parser) (dispose : Nat → Option ConcurrencyProcessor.Exn)
        (target : Nat → D → Outcome T × D) (w : World D), w.current = none → ∀ ex,
          (intercept parser dispose sources target w).1 = .thrown ex →
            (intercept parser dispose sources target w).2.durable = w.durable) ↔
      ∃ a ∈ unionAll sources, a.begins = true := by
  constructor
  · intro h
    by_contra hnone
    have hbegins : ∀ a ∈ getInterceptorAttributes sources, a.begins = false := by
      intro a ha
      rw [mem_getInterceptorAttributes] at ha
      exact Bool.eq_false_iff.2 fun hbegins => hnone ⟨a, ha, hbegins⟩
    -- a target that writes and throws
    have hfailing : wrap (fun _ _ => .ok false) (fun _ => none)
        (invokeTargetMethod fun _ _ => ((.thrown failure : Outcome Unit), true))
        (getInterceptorAttributes sources) ⟨false, none, 0, 0⟩ =
          (.thrown failure, ⟨true, none, 1, 0⟩) := wrap_failing rfl hbegins
    rw [← intercept_eq] at hfailing
    have hdurable := h Bool Unit _ _ _ ⟨false, none, 0, 0⟩ rfl failure (by rw [hfailing])
    rw [hfailing] at hdurable
    cases hdurable
  · rintro ⟨a, ha, hbegins⟩ D T parser dispose target w hw ex hex
    rw [intercept_eq] at hex ⊢
    exact (atomic_wrap ⟨a, mem_getInterceptorAttributes.2 ha, hbegins⟩ w hw).2 ex hex

/-! ## What failed attempts leave -/

/-- Without a transaction under way: a call that returns has done to the data what its last attempt
did, and an exception means that nothing is committed. -/
def Isolated (target : Nat → D → Outcome T × D) (func : Func D T) : Prop :=
  ∀ w, w.current = none → (func w).2.current = none ∧
    ((∃ value n, (func w).1 = .returned value ∧ (func w).2.invoked = n + 1 ∧
        target n w.durable = (.returned value, (func w).2.durable)) ∨
      ∃ ex, (func w).1 = .thrown ex ∧ (func w).2.durable = w.durable)

/-- A call of the target in a transaction of its own. -/
theorem isolated_process (h : ∀ w, w.current.isSome = true → CallsOnce target func w)
    (hbegins : a.begins = true) : Isolated target (a.process parser dispose func) := by
  cases a with
  | concurrentProcess => cases hbegins
  | transaction order scope isolationLevel =>
    intro w hw
    have hscope : (InterceptorAttribute.transaction order scope isolationLevel).process parser
        dispose func w = disposeScope dispose (func { w with current := some w.durable }) := by
      simp only [InterceptorAttribute.process, doInTransaction, hw]
      cases scope with
      | suppress => cases hbegins
      | required => rfl
      | requiresNew => rfl
    obtain ⟨hworld, hvalue⟩ := h { w with current := some w.durable } rfl
    rw [hscope]
    generalize func { w with current := some w.durable } = result at hworld hvalue ⊢
    obtain ⟨outcome, w'⟩ := result
    obtain rfl :
        w' = ⟨w.durable, some (target w.invoked w.durable).2, w.invoked + 1, w.completed⟩ :=
      hworld
    cases outcome with
    | thrown ex => exact ⟨rfl, .inr ⟨ex, rfl, rfl⟩⟩
    | returned value =>
      have htarget : (target w.invoked w.durable).1 = .returned value := hvalue value rfl
      simp only [disposeScope, World.visible, Option.getD_some]
      cases dispose w.completed with
      | some ex => exact ⟨rfl, .inr ⟨ex, rfl, rfl⟩⟩
      | none => exact ⟨rfl, .inl ⟨value, w.invoked, rfl, rfl, Prod.ext htarget rfl⟩⟩

theorem Isolated.retry (h : Isolated target func) (names : Names) (retryCount : Nat) :
    Isolated target (retry parser names func retryCount) := by
  refine retry_rule (P := fun w result => w.current = none → result.2.current = none ∧
    ((∃ value n, result.1 = .returned value ∧ result.2.invoked = n + 1 ∧
        target n w.durable = (.returned value, result.2.durable)) ∨
      ∃ ex, result.1 = .thrown ex ∧ result.2.durable = w.durable)) ?_ ?_ ?_ names retryCount
  · exact fun w value _ hw => h w hw
  · intro w ex ex' hex hw
    obtain ⟨hcurrent, ⟨value, n, hvalue, -⟩ | ⟨-, -, hdurable⟩⟩ := h w hw
    · cases hex.symm.trans hvalue
    · exact ⟨hcurrent, .inr ⟨ex', rfl, hdurable⟩⟩
  · intro w ex result hex hresult hw
    obtain ⟨hcurrent, ⟨value, n, hvalue, -⟩ | ⟨-, -, hdurable⟩⟩ := h w hw
    · cases hex.symm.trans hvalue
    · rw [← hdurable]
      exact hresult hcurrent

theorem isolated_wrap (hbegins : ∃ a ∈ attributes, a.begins = true)
    (hpairwise : attributes.Pairwise fun inner outer =>
      ¬(inner.retries = true ∧ outer.begins = true)) :
    Isolated target (wrap parser dispose (invokeTargetMethod target) attributes) := by
  induction attributes using List.reverseRecOn with
  | nil => simp at hbegins
  | append_singleton attributes a ih =>
    obtain ⟨hinner, -, houter⟩ := List.pairwise_append.1 hpairwise
    rw [wrap_concat]
    by_cases ha : a.begins = true
    · refine isolated_process (fun w hw => callsOnce_wrap (fun b hb => ?_) (.inl hw)) ha
      have := houter b hb a (by simp)
      exact Bool.eq_false_iff.2 fun hb' => this ⟨hb', ha⟩
    · obtain ⟨b, hb, hb'⟩ := hbegins
      have hisolated : Isolated target
          (wrap parser dispose (invokeTargetMethod target) attributes) := by
        rcases List.mem_append.1 hb with hb | hb
        · exact ih ⟨b, hb, hb'⟩ hinner
        · exact absurd (List.mem_singleton.1 hb ▸ hb') ha
      cases a with
      | concurrentProcess order names retryTimes => exact hisolated.retry names _
      | transaction order scope isolationLevel =>
        have hprocess : ∀ w : World D, w.current = none →
            (InterceptorAttribute.transaction order scope isolationLevel).process parser dispose
              (wrap parser dispose (invokeTargetMethod target) attributes) w =
              wrap parser dispose (invokeTargetMethod target) attributes w := by
          intro w hw
          cases scope with
          | suppress => simp [InterceptorAttribute.process, doInTransaction, hw]
          | required => exact absurd rfl ha
          | requiresNew => exact absurd rfl ha
        intro w hw
        rw [hprocess w hw]
        exact hisolated w hw

/-! ### A failed attempt that leaves a trace -/

/-- The first call writes and throws what is retried, the later ones keep what they find. -/
def stumble : Nat → Bool → Outcome Unit × Bool
  | 0, _ => (.thrown (.thrown 0 true none), true)
  | _ + 1, data => (.returned (), data)

section Stumble

variable {w w' w'' : World Bool}

theorem wrap_stumble (hfunc : invokeTargetMethod stumble w = (.thrown (.thrown 0 true none), w'))
    (hretries : ∀ a ∈ attributes, a.retries = false)
    (hbegins : w.current.isSome = true ∨ ∀ a ∈ attributes, a.begins = false) :
    wrap parser dispose (invokeTargetMethod stumble) attributes w =
      (.thrown (.thrown 0 true none), w') := by
  induction attributes using List.reverseRecOn with
  | nil => exact hfunc
  | append_singleton attributes a ih =>
    rw [wrap_concat]
    refine process_eq (ih (fun b hb => hretries b (List.mem_append_left _ hb)) ?_) ?_ ?_
    · exact hbegins.imp_right fun h b hb => h b (List.mem_append_left _ hb)
    · rintro _ ⟨⟩ names
      exact ⟨true, rfl, fun _ => hretries a (by simp)⟩
    · exact hbegins.imp_right fun h => h a (by simp)

theorem wrap_returned (hfunc : invokeTargetMethod stumble w = (.returned (), w'))
    (hbegins : w.current.isSome = true ∨ ∀ a ∈ attributes, a.begins = false) :
    wrap parser dispose (invokeTargetMethod stumble) attributes w = (.returned (), w') := by
  induction attributes using List.reverseRecOn with
  | nil => exact hfunc
  | append_singleton attributes a ih =>
    rw [wrap_concat]
    refine process_eq (ih ?_) (by rintro _ ⟨⟩) ?_
    · exact hbegins.imp_right fun h b hb => h b (List.mem_append_left _ hb)
    · exact hbegins.imp_right fun h => h a (by simp)

/-- Where something repeats and no transaction begins, the second attempt finds what the first has
written. -/
theorem wrap_recovered
    (hfunc : invokeTargetMethod stumble w = (.thrown (.thrown 0 true none), w'))
    (hfunc' : invokeTargetMethod stumble w' = (.returned (), w''))
    (hcurrent : w'.current.isSome = w.current.isSome)
    (hretries : ∃ a ∈ attributes, a.retries = true)
    (hbegins : w.current.isSome = true ∨ ∀ a ∈ attributes, a.begins = false) :
    wrap parser dispose (invokeTargetMethod stumble) attributes w = (.returned (), w'') := by
  induction attributes using List.reverseRecOn with
  | nil => simp at hretries
  | append_singleton attributes a ih =>
    have hinner : w.current.isSome = true ∨ ∀ a ∈ attributes, a.begins = false :=
      hbegins.imp_right fun h b hb => h b (List.mem_append_left _ hb)
    rw [wrap_concat]
    by_cases hsome : ∃ a ∈ attributes, a.retries = true
    · refine process_eq (ih hsome hinner) (by rintro _ ⟨⟩) ?_
      exact hbegins.imp_right fun h => h a (by simp)
    · have hnone : ∀ a ∈ attributes, a.retries = false := fun b hb =>
        Bool.eq_false_iff.2 fun hb' => hsome ⟨b, hb, hb'⟩
      obtain ⟨b, hb, hb'⟩ := hretries
      rcases List.mem_append.1 hb with hb | hb
      · exact absurd hb' (Bool.eq_false_iff.1 (hnone b hb))
      · obtain rfl := List.mem_singleton.1 hb
        cases b with
        | transaction => cases hb'
        | concurrentProcess order names retryTimes =>
          obtain ⟨retryCount, hcount⟩ : ∃ n, retryTimes.toNat = n + 1 := by
            simp only [InterceptorAttribute.retries, decide_eq_true_eq] at hb'
            exact ⟨retryTimes.toNat - 1, by omega⟩
          have hsecond : wrap parser dispose (invokeTargetMethod stumble) attributes w' =
              (.returned (), w'') := wrap_returned hfunc' (hcurrent ▸ hinner)
          simp only [InterceptorAttribute.process, hcount]
          rw [retry_succ (wrap_stumble hfunc hnone hinner) rfl,
            retry_of_returned (by rw [hsecond]), hsecond]

/-- Where an attribute that repeats is inside one that begins a transaction, both attempts are
committed. -/
theorem wrap_committed (h : ¬attributes.Pairwise fun inner outer =>
      ¬(inner.retries = true ∧ outer.begins = true)) :
    wrap parser (fun _ => none) (invokeTargetMethod stumble) attributes ⟨false, none, 0, 0⟩ =
      (.returned (), ⟨true, none, 2, 1⟩) := by
  induction attributes using List.reverseRecOn with
  | nil => simp at h
  | append_singleton attributes a ih =>
    rw [wrap_concat]
    by_cases ha : a.begins = true
    · have hretries : ∃ b ∈ attributes, b.retries = true := by
        by_contra hnone
        have hfalse : ∀ b ∈ attributes, ¬b.retries = true := fun b hb hb' => hnone ⟨b, hb, hb'⟩
        refine h (List.pairwise_append.2 ⟨?_, List.pairwise_singleton _ _, ?_⟩)
        · exact List.pairwise_of_forall_mem_list fun b hb _ _ hboth => hfalse b hb hboth.1
        · exact fun b hb _ _ hboth => hfalse b hb hboth.1
      have hinner : wrap parser (fun _ => none) (invokeTargetMethod stumble) attributes
          ⟨false, some false, 0, 0⟩ = (.returned (), ⟨false, some true, 2, 0⟩) :=
        wrap_recovered rfl rfl rfl hretries (.inl rfl)
      cases a with
      | concurrentProcess => cases ha
      | transaction order scope isolationLevel =>
        simp only [InterceptorAttribute.process, doInTransaction]
        cases scope with
        | suppress => cases ha
        | required => rw [hinner]; rfl
        | requiresNew => rw [hinner]; rfl
    · refine process_eq (ih fun hpairwise => h ?_) (by rintro _ ⟨⟩)
        (.inr (Bool.eq_false_iff.2 ha))
      refine List.pairwise_append.2 ⟨hpairwise, List.pairwise_singleton _ _, ?_⟩
      rintro b hb c hc hboth
      exact ha (List.mem_singleton.1 hc ▸ hboth.2)

/-- Otherwise both attempts are seen in the data, the first of which writes and fails. -/
theorem wrap_both (parser : Parser) (h : ¬(((∃ a ∈ attributes, a.retries = true) →
        ∃ a ∈ attributes, a.begins = true) ∧
      attributes.Pairwise fun inner outer => ¬(inner.retries = true ∧ outer.begins = true))) :
    ∃ completed, wrap parser (fun _ => none) (invokeTargetMethod stumble) attributes
      ⟨false, none, 0, 0⟩ = (.returned (), ⟨true, none, 2, completed⟩) := by
  by_cases hpairwise : attributes.Pairwise fun inner outer =>
      ¬(inner.retries = true ∧ outer.begins = true)
  · have hretries : ∃ a ∈ attributes, a.retries = true := by
      by_contra hnone
      exact h ⟨fun hretries => absurd hretries hnone, hpairwise⟩
    have hbegins : ∀ a ∈ attributes, a.begins = false := by
      intro a ha
      rw [Bool.eq_false_iff]
      intro hbegins
      exact h ⟨fun _ => ⟨a, ha, hbegins⟩, hpairwise⟩
    exact ⟨0, wrap_recovered rfl rfl rfl hretries (.inr hbegins)⟩
  · exact ⟨1, wrap_committed hpairwise⟩

end Stumble

/-- As on the methods of `ICommunityService`: the first attempt fails, and what it has written is
committed by the second. -/
example : intercept (fun _ _ => .ok false) (fun _ => none)
    [[.concurrentProcess 0 (some []) 50, .transaction 0 .required .readCommitted], [], [], []]
    stumble ⟨false, none, 0, 0⟩ = (.returned (), ⟨true, none, 2, 1⟩) := by
  rw [intercept_eq, getInterceptorAttributes, Comparer.sort, List.mergeSort_of_pairwise (by decide)]
  rfl

/-- What an intercepted call that returns has done to the data is what its last attempt does to what
the call found, whatever the target does, exactly if no attribute that repeats is inside one
that begins a transaction, and one of these there is where something repeats. -/
theorem failed_attempts_vanish_iff (invocation : Invocation) :
    (∀ (D T : Type) (parser : Parser) (dispose : Nat → Option ConcurrencyProcessor.Exn)
        (target : Nat → D → Outcome T × D) (w : World D), w.current = none → ∀ value,
          (invocation.intercept parser dispose target w).1 = .returned value →
            ∃ n, (invocation.intercept parser dispose target w).2.invoked = n + 1 ∧
              target n w.durable =
                (.returned value, (invocation.intercept parser dispose target w).2.durable)) ↔
      ((∃ a ∈ unionAll invocation.attributes, a.retries = true) →
          ∃ a ∈ unionAll invocation.attributes, a.begins = true) ∧
        (unionAll invocation.attributes).Pairwise fun a b =>
          if a.order ≤ b.order then ¬(a.retries = true ∧ b.begins = true)
          else ¬(b.retries = true ∧ a.begins = true) := by
  rw [← pairwise_getInterceptorAttributes (R := fun inner outer =>
    ¬(inner.retries = true ∧ outer.begins = true))]
  simp only [Invocation.intercept, intercept_eq, ← mem_getInterceptorAttributes]
  generalize getInterceptorAttributes invocation.attributes = attributes
  constructor
  · intro h
    by_contra hnot
    obtain ⟨completed, hboth⟩ := wrap_both (fun _ _ => .ok false) hnot
    obtain ⟨n, -, htarget⟩ := h Bool Unit _ _ stumble ⟨false, none, 0, 0⟩ rfl () (by rw [hboth])
    rw [hboth] at htarget
    cases n <;> cases htarget
  · rintro ⟨hsome, hpairwise⟩ D T parser dispose target w hw value hvalue
    by_cases hbegins : ∃ a ∈ attributes, a.begins = true
    · have hisolated : Isolated target
          (wrap parser dispose (invokeTargetMethod target) attributes) :=
        isolated_wrap hbegins hpairwise
      obtain ⟨-, ⟨value', n, hvalue', hinvoked, htarget⟩ | ⟨ex, hex, -⟩⟩ := hisolated w hw
      · cases hvalue'.symm.trans hvalue
        exact ⟨n, hinvoked, htarget⟩
      · cases hex.symm.trans hvalue
    · have hnot : ∀ a ∈ attributes, a.begins = false := fun a ha =>
        Bool.eq_false_iff.2 fun ha' => hbegins ⟨a, ha, ha'⟩
      have hretries : ∀ a ∈ attributes, a.retries = false := fun a ha =>
        Bool.eq_false_iff.2 fun ha' => hbegins (hsome ⟨a, ha, ha'⟩)
      have hcalls : CallsOnce target
          (wrap parser dispose (invokeTargetMethod target) attributes) w :=
        callsOnce_wrap hretries (.inr hnot)
      obtain ⟨hworld, hreturned⟩ := hcalls
      have htarget : (target w.invoked w.durable).1 = .returned value := by
        simpa [invokeTargetMethod, World.visible, hw] using hreturned value hvalue
      refine ⟨w.invoked, ?_, Prod.ext htarget ?_⟩
      · rw [hworld]
        rfl
      · rw [hworld]
        simp [invokeTargetMethod, World.visible, World.write, hw]

end IFramework.DependencyInjection
