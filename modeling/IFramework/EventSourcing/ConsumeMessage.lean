import IFramework.EventSourcing.System

/-!
# One call of `ConsumeMessage`

`ConsumeMessage` as one function, for a call that no other worker interferes with: the delegate that
`IConcurrencyProcessor` repeats runs the handler, translates its exception and commits.
`run_of_consumeMessage` says that this is what the worker does in the system of all processors.
-/

namespace IFramework.EventSourcing

/-- The stores that one processor works with. -/
structure Stores (S T : Type) where
  redis : Redis T
  snapshots : String → Option (Stored S)
  memory : String → Option (Stored S)

section Consume

variable {S P R T : Type} [DecidableEq T] (type : AggregateType S P) (json : Json T P R)

/-- `GetByKeyAsync`, for an aggregate that is not in the repository. -/
def getByKeyAsync (key : String) (st : Stores S T) :
    Stores S T × Except (Exn P) (Option (Stored S)) :=
  match st.memory key with
  | some aggregate => (st, .ok (some aggregate))
  | none =>
    match getEvents json st.redis key (fromVersion (st.snapshots key) + 1) none with
    | .error _ => (st, .error redisServerException)
    | .ok events =>
      match rebuild type (st.snapshots key) events with
      | none => (st, .ok none)
      | some aggregate =>
        ({ st with
          memory := Function.update st.memory key (some aggregate)
          snapshots :=
            if aggregate.version > fromVersion (st.snapshots key) then
              Function.update st.snapshots key (some aggregate)
            else st.snapshots }, .ok (some aggregate))

/-- What a handler does, and the exception it throws. -/
def Handler.run (key : String) :
    Handler S P R → Stores S T → Scope S P R → Stores S T × Scope S P R × Option (Exn P)
  | .return, st, s => (st, s, none)
  | .throw e, st, s => (st, s, some e)
  | .call c next, st, s =>
    match c.perform type s with
    | .ok s => next.run key st s
    | .error e => (st, s, some e)
  | .getByKey next, st, s =>
    match s.entry with
    | some e => (next (some e.entity.store)).run key st s
    | none =>
      match getByKeyAsync type json key st with
      | (st, .error e) => (st, s, some e)
      | (st, .ok none) => (next none).run key st s
      | (st, .ok (some a)) => (next (some a)).run key st { s with entry := some (.loaded a) }

/-- The in-memory store after a commit. -/
def MemoryEffect.apply (key : String) (st : Stores S T) : MemoryEffect S → Stores S T
  | .keep => st
  | .set aggregate => { st with memory := Function.update st.memory key (some aggregate) }
  | .remove => { st with memory := Function.update st.memory key none }

variable (context : CommandContext) (handler : Handler S P R)

/-- The scope with which `CommitAsync` is called. -/
def beforeCommit (s : Scope S P R) (thrown : Option (Exn P)) : Scope S P R :=
  match thrown with
  | some e => handleException context s e
  | none => s

/-- `CommitAsync`, on the stores. -/
def commitStores (st : Stores S T) (s : Scope S P R) :
    Stores S T × Scope S P R × CommitOutcome :=
  let (redis, s, effect, outcome) := commitAsync json context st.redis s
  (effect.apply context.key { st with redis := redis }, s, outcome)

/-- The delegate. -/
def attempt (st : Stores S T) (s : Scope S P R) : Stores S T × Scope S P R × CommitOutcome :=
  let (st, s, thrown) := handler.run type json context.key st s.begin
  commitStores json context st (beforeCommit context s thrown)

/-- `ProcessAsync`, and the messages that are sent after it. -/
def processAsync : Nat → Stores S T → Scope S P R → Stores S T × List (Message P R)
  | n, st, s =>
    match attempt type json context handler st s, n with
    | (st, s, .returned), _ => (st, outgoing context s)
    | (st, _, .redisException), _ => (st, [])
    | (st, _, .dbConcurrencyException), 0 => (st, [])
    | (st, s, .dbConcurrencyException), n + 1 => processAsync n st s

/-- `ConsumeMessage`. -/
def consumeMessage (st : Stores S T) : Stores S T × List (Message P R) :=
  processAsync type json context handler retryLimit st .new

end Consume

/-! ## The same as a run of the system -/

section Run

variable {S P R T : Type} [DecidableEq T] {type : AggregateType S P} {json : Json T P R}
  {keyOf : String → String} {w : Nat} {handler : Handler S P R} {s s' s'' : State S P R T}

/-- The state is reached by actions of one worker. -/
def Alone (type : AggregateType S P) (json : Json T P R) (keyOf : String → String) (w : Nat)
    (handler : Handler S P R) (s s' : State S P R T) : Prop :=
  ∃ as, (∀ a ∈ as, a = .work w ∨ a = .attempt w handler) ∧
    Machine.run (step type json keyOf) s as = some s'

/-- The stores of the processor of a worker, and the worker. -/
structure At (s : State S P R T) (w : Nat) (st : Stores S T) (worker : Worker S P R) : Prop where
  redis : s.redis = st.redis
  snapshots : s.snapshots = st.snapshots
  memory : s.memory worker.processor = st.memory
  worker : s.workers w = worker

theorem Alone.refl (s : State S P R T) : Alone type json keyOf w handler s s :=
  ⟨[], by simp, rfl⟩

theorem Alone.trans (h : Alone type json keyOf w handler s s')
    (h' : Alone type json keyOf w handler s' s'') : Alone type json keyOf w handler s s'' := by
  obtain ⟨as, has, hrun⟩ := h
  obtain ⟨as', has', hrun'⟩ := h'
  refine ⟨as ++ as', ?_, Machine.run_append_eq_some.2 ⟨s', hrun, hrun'⟩⟩
  intro a ha
  rcases List.mem_append.1 ha with ha | ha
  · exact has a ha
  · exact has' a ha

theorem Alone.work (h : workStep type json s w = some s') : Alone type json keyOf w handler s s' :=
  ⟨[.work w], by simp, Machine.run_cons_eq_some.2 ⟨s', h, rfl⟩⟩

variable {st : Stores S T} {worker : Worker S P R}

omit [DecidableEq T] in
theorem At.setWorker (h : At s w st worker) {worker' : Worker S P R}
    (hprocessor : worker'.processor = worker.processor) : At (s.setWorker w worker') w st worker' :=
  ⟨h.redis, h.snapshots, by rw [hprocessor]; exact h.memory, by simp⟩

omit [DecidableEq T] in
theorem At.setMemory (h : At s w st worker) (key : String) (a : Option (Stored S)) :
    At (s.setMemory worker.processor key a) w
      { st with memory := Function.update st.memory key a } worker :=
  ⟨h.redis, h.snapshots, by simp [h.memory], h.worker⟩

/-- The worker writes a snapshot, if it has read events. -/
theorem run_of_updateSnapshot (type : AggregateType S P) (json : Json T P R) {a : Stored S}
    {fromVersion : Nat}
    {next : Option (Stored S) → Handler S P R}
    (h : At s w st { worker with point := .updateSnapshot a fromVersion next }) :
    ∃ s', workStep type json s w = some s' ∧
      At s' w
        { st with
          snapshots :=
            if a.version > fromVersion then
              Function.update st.snapshots worker.context.key (some a)
            else st.snapshots } (worker.loaded a next) := by
  have hworker := h.worker
  unfold workStep
  rw [hworker]
  dsimp only
  by_cases hversion : a.version > fromVersion
  · rw [if_pos hversion, if_pos hversion]
    exact ⟨_, rfl, h.redis, by simp [h.snapshots], h.memory, by simp⟩
  · rw [if_neg hversion, if_neg hversion]
    exact ⟨_, rfl, h.setWorker rfl⟩

theorem run_of_setMemory {a : Stored S} {fromVersion : Nat}
    {next : Option (Stored S) → Handler S P R}
    (h : At s w st { worker with point := .setMemory a fromVersion next }) :
    ∃ s', Alone type json keyOf w handler s s' ∧
      At s' w
        { st with
          memory := Function.update st.memory worker.context.key (some a)
          snapshots :=
            if a.version > fromVersion then
              Function.update st.snapshots worker.context.key (some a)
            else st.snapshots } (worker.loaded a next) := by
  have hworker := h.worker
  have hstep : workStep type json s w =
      some ((s.setMemory worker.processor worker.context.key (some a)).setWorker w
        { worker with point := .updateSnapshot a fromVersion next }) := by
    simp [workStep, hworker]
  have h₁ : At _ w _ { worker with point := .updateSnapshot a fromVersion next } :=
    (h.setMemory worker.context.key (some a)).setWorker rfl
  obtain ⟨s', hstep', h'⟩ := run_of_updateSnapshot type json h₁
  exact ⟨s', (Alone.work hstep).trans (.work hstep'), h'⟩

theorem run_of_getByKeyAsync {next : Option (Stored S) → Handler S P R}
    (h : At s w st { worker with point := .handle (.getByKey next) })
    (hentry : worker.scope.entry = none) :
    ∃ s', Alone type json keyOf w handler s s' ∧
      At s' w (getByKeyAsync type json worker.context.key st).1
        (match (getByKeyAsync type json worker.context.key st).2 with
          | .error e => worker.thrown e
          | .ok none => { worker with point := .handle (next none) }
          | .ok (some a) => worker.loaded a next) := by
  have hworker := h.worker
  unfold getByKeyAsync
  cases hmemory : st.memory worker.context.key with
  | some a =>
    have hstep : workStep type json s w = some (s.setWorker w (worker.loaded a next)) := by
      simp [workStep, handlerStep, hworker, hentry, h.memory, hmemory]
    exact ⟨_, .work hstep, h.setWorker rfl⟩
  | none =>
    have hstep : workStep type json s w =
        some (s.setWorker w { worker with point := .readSnapshot next }) := by
      simp [workStep, handlerStep, hworker, hentry, h.memory, hmemory]
    have hsnapshot : ∃ s', Alone type json keyOf w handler s s' ∧
        At s' w st { worker with point := .readEvents (st.snapshots worker.context.key) next } := by
      have h₁ : At _ w st { worker with point := .readSnapshot next } := h.setWorker rfl
      refine ⟨_, (Alone.work hstep).trans (.work ?_), h₁.setWorker rfl⟩
      simp [workStep, h.snapshots]
    obtain ⟨s₂, hrun₂, h₂⟩ := hsnapshot
    have hworker₂ := h₂.worker
    cases hevents : getEvents json st.redis worker.context.key
        (fromVersion (st.snapshots worker.context.key) + 1) none with
    | error e =>
      refine ⟨_, hrun₂.trans (.work ?_), h₂.setWorker rfl⟩
      simp [workStep, hworker₂, h₂.redis, hevents]
    | ok events =>
      dsimp only
      cases hrebuild : rebuild type (st.snapshots worker.context.key) events with
      | none =>
        refine ⟨_, hrun₂.trans (.work ?_), h₂.setWorker rfl⟩
        simp [workStep, hworker₂, h₂.redis, hevents, hrebuild]
      | some a =>
        have hstep₃ : workStep type json s₂ w = some (s₂.setWorker w { worker with
            point := .setMemory a (fromVersion (st.snapshots worker.context.key)) next }) := by
          simp [workStep, hworker₂, h₂.redis, hevents, hrebuild]
        have h₃ : At _ w st { worker with
            point := .setMemory a (fromVersion (st.snapshots worker.context.key)) next } :=
          h₂.setWorker rfl
        obtain ⟨s₃, hrun₃, h₃⟩ := run_of_setMemory h₃
        exact ⟨s₃, (hrun₂.trans (.work hstep₃)).trans hrun₃, h₃⟩

/-- The worker runs its handler and goes on to commit. -/
theorem run_of_handler (h : Handler S P R) :
    ∀ (s : State S P R T) (st : Stores S T) (worker : Worker S P R),
      At s w st { worker with point := .handle h } →
      ∃ s', Alone type json keyOf w handler s s' ∧
        At s' w (h.run type json worker.context.key st worker.scope).1
          { worker with
            scope := beforeCommit worker.context
              (h.run type json worker.context.key st worker.scope).2.1
              (h.run type json worker.context.key st worker.scope).2.2
            point := .append } := by
  induction h with
  | «return» =>
    intro s st worker hat
    refine ⟨_, .work ?_, hat.setWorker rfl⟩
    simp [workStep, handlerStep, hat.worker, Handler.run, beforeCommit]
  | throw e =>
    intro s st worker hat
    refine ⟨_, .work ?_, hat.setWorker rfl⟩
    simp [workStep, handlerStep, hat.worker, Handler.run, beforeCommit]
  | call c next ih =>
    intro s st worker hat
    cases hperform : c.perform type worker.scope with
    | ok scope =>
      have hstep : workStep type json s w =
          some (s.setWorker w { worker with scope := scope, point := .handle next }) := by
        simp [workStep, handlerStep, hat.worker, hperform]
      obtain ⟨s', hrun, h'⟩ := ih _ st { worker with scope := scope } (hat.setWorker rfl)
      refine ⟨s', (Alone.work hstep).trans hrun, ?_⟩
      simpa only [Handler.run, hperform] using h'
    | error e =>
      simp only [Handler.run, hperform]
      refine ⟨_, .work ?_, hat.setWorker rfl⟩
      simp [workStep, handlerStep, hat.worker, beforeCommit, hperform]
  | getByKey next ih =>
    intro s st worker hat
    cases hentry : worker.scope.entry with
    | some e =>
      have hstep : workStep type json s w =
          some (s.setWorker w { worker with point := .handle (next (some e.entity.store)) }) := by
        simp [workStep, handlerStep, hat.worker, hentry]
      obtain ⟨s', hrun, h'⟩ := ih _ _ st worker (hat.setWorker rfl)
      refine ⟨s', (Alone.work hstep).trans hrun, ?_⟩
      simpa only [Handler.run, hentry] using h'
    | none =>
      have hload : ∃ s', Alone type json keyOf w handler s s' ∧ At s' w _ _ :=
        run_of_getByKeyAsync hat hentry
      obtain ⟨s₁, hrun₁, hat₁⟩ := hload
      simp only [Handler.run, hentry]
      generalize getByKeyAsync type json worker.context.key st = result at hat₁
      rcases result with ⟨st₁, e | aggregate⟩
      · exact ⟨s₁, hrun₁, hat₁⟩
      · cases aggregate with
        | none =>
          obtain ⟨s', hrun, h'⟩ := ih _ _ _ worker hat₁
          exact ⟨s', hrun₁.trans hrun, h'⟩
        | some a =>
          obtain ⟨s', hrun, h'⟩ := ih _ _ _
            { worker with scope := { worker.scope with entry := some (.loaded a) } } hat₁
          exact ⟨s', hrun₁.trans hrun, h'⟩

theorem run_of_settle (type : AggregateType S P) (json : Json T P R)
    {outcome : AppendOutcome P R} (h : At s w st { worker with point := .settle outcome }) :
    ∃ s', workStep type json s w = some s' ∧
      At s' w ((settle worker.scope outcome).2.1.apply worker.context.key st)
        (worker.afterCommit (settle worker.scope outcome).1
          (settle worker.scope outcome).2.2) := by
  have hprocessor : ∀ scope result, ({ worker with point := .settle outcome }.afterCommit scope
      result).processor = worker.processor := by
    intro scope result
    cases result with
    | dbConcurrencyException =>
      simp only [Worker.afterCommit]
      split <;> rfl
    | _ => rfl
  have hafter : ∀ scope result, { worker with point := .settle outcome }.afterCommit scope result =
      worker.afterCommit scope result := by
    intro scope result
    cases result <;> rfl
  unfold workStep
  rw [h.worker]
  dsimp only
  generalize settle worker.scope outcome = result
  rcases result with ⟨scope, effect, result⟩
  cases effect with
  | keep => exact ⟨_, rfl, hafter scope result ▸ h.setWorker (hprocessor scope result)⟩
  | set a =>
    exact ⟨_, rfl, hafter scope result ▸
      (h.setMemory worker.context.key (some a)).setWorker (hprocessor scope result)⟩
  | remove =>
    exact ⟨_, rfl, hafter scope result ▸
      (h.setMemory worker.context.key none).setWorker (hprocessor scope result)⟩

theorem run_of_commit (worker : Worker S P R)
    (h : At s w st { worker with point := .append }) :
    ∃ s', Alone type json keyOf w handler s s' ∧
      At s' w (commitStores json worker.context st worker.scope).1
        (worker.afterCommit (commitStores json worker.context st worker.scope).2.1
          (commitStores json worker.context st worker.scope).2.2) := by
  obtain ⟨redis, outcome, happend⟩ : ∃ redis outcome, appendEvents json st.redis
      (commitArguments worker.context worker.scope) = (redis, outcome) := ⟨_, _, rfl⟩
  have hstep : ∃ s', workStep type json s w = some s' ∧
      At s' w { st with redis := redis } { worker with point := .settle outcome } := by
    unfold workStep
    rw [h.worker, h.redis]
    dsimp only
    rw [happend]
    exact ⟨_, rfl, rfl, h.snapshots, h.memory, by simp⟩
  obtain ⟨s₁, hstep₁, h₁⟩ := hstep
  obtain ⟨s₂, hstep₂, h₂⟩ := run_of_settle type json h₁
  refine ⟨s₂, (Alone.work hstep₁).trans (.work hstep₂), ?_⟩
  simpa only [commitStores, commitAsync, happend] using h₂

theorem run_of_attempt (h : At s w st { worker with point := .begin }) :
    ∃ s', Alone type json keyOf w handler s s' ∧
      At s' w (attempt type json worker.context handler st worker.scope).1
        (worker.afterCommit (attempt type json worker.context handler st worker.scope).2.1
          (attempt type json worker.context handler st worker.scope).2.2) := by
  have hbegin : Alone type json keyOf w handler s (s.setWorker w
      { worker with scope := worker.scope.begin, point := .handle handler }) := by
    refine ⟨[.attempt w handler], by simp, Machine.run_cons_eq_some.2 ⟨_, ?_, rfl⟩⟩
    simp [step, h.worker]
  have hhandler : ∃ s', Alone type json keyOf w handler _ s' ∧ At s' w _ _ :=
    run_of_handler handler _ st { worker with scope := worker.scope.begin } (h.setWorker rfl)
  obtain ⟨s₁, hrun₁, h₁⟩ := hhandler
  have hcommit : ∃ s', Alone type json keyOf w handler s₁ s' ∧ At s' w _ _ :=
    run_of_commit { worker with
      scope := beforeCommit worker.context
        (handler.run type json worker.context.key st worker.scope.begin).2.1
        (handler.run type json worker.context.key st worker.scope.begin).2.2 } h₁
  obtain ⟨s₂, hrun₂, h₂⟩ := hcommit
  exact ⟨s₂, (hbegin.trans hrun₁).trans hrun₂, h₂⟩

theorem run_of_processAsync (n : Nat) :
    ∀ (s : State S P R T) (st : Stores S T) (worker : Worker S P R), worker.retryCount = n →
      At s w st { worker with point := .begin } →
      ∃ s' worker', Alone type json keyOf w handler s s' ∧
        At s' w (processAsync type json worker.context handler n st worker.scope).1 worker' ∧
        worker'.processor = worker.processor ∧
        worker'.point =
          .ended (processAsync type json worker.context handler n st worker.scope).2 := by
  induction n using Nat.strongRecOn with
  | ind n ih =>
    intro s st worker hretry h
    have hattempt : ∃ s', Alone type json keyOf w handler s s' ∧ At s' w _ _ := run_of_attempt h
    obtain ⟨s₁, hrun₁, h₁⟩ := hattempt
    unfold processAsync
    generalize attempt type json worker.context handler st worker.scope = result at h₁
    rcases result with ⟨st₁, scope, outcome⟩
    cases outcome with
    | returned => exact ⟨s₁, _, hrun₁, h₁, rfl, rfl⟩
    | redisException => exact ⟨s₁, _, hrun₁, h₁, rfl, rfl⟩
    | dbConcurrencyException =>
      cases n with
      | zero =>
        simp only [Worker.afterCommit, hretry, if_true] at h₁
        exact ⟨s₁, _, hrun₁, h₁, rfl, rfl⟩
      | succ n =>
        have hne : worker.retryCount ≠ 0 := by omega
        simp only [Worker.afterCommit, hne, if_false] at h₁
        obtain ⟨s₂, worker', hrun₂, h₂⟩ := ih n (Nat.lt_succ_self n) s₁ st₁
          { worker with scope := scope, retryCount := worker.retryCount - 1 } (by simp [hretry]) h₁
        exact ⟨s₂, worker', hrun₁.trans hrun₂, h₂⟩

/-- A command that is delivered and that no other worker interferes with is handled as
`consumeMessage` says. -/
theorem run_of_consumeMessage (s : State S P R T) (processor : Nat) (commandId : String)
    (replyToEndPoint : Option String) (sagaInfo : Option SagaInfo) (handler : Handler S P R) :
    ∃ as s', (∀ a ∈ as, a = .work s.workerCount ∨ a = .attempt s.workerCount handler) ∧
      Machine.run (step type json keyOf) s
        (.deliver processor commandId replyToEndPoint sagaInfo :: as) = some s' ∧
      (consumeMessage type json ⟨commandId, keyOf commandId, replyToEndPoint, sagaInfo⟩ handler
        ⟨s.redis, s.snapshots, s.memory processor⟩).1 =
          ⟨s'.redis, s'.snapshots, s'.memory processor⟩ ∧
      (s'.workers s.workerCount).point =
        .ended (consumeMessage type json ⟨commandId, keyOf commandId, replyToEndPoint, sagaInfo⟩
          handler ⟨s.redis, s.snapshots, s.memory processor⟩).2 := by
  have hdeliver : step type json keyOf s (.deliver processor commandId replyToEndPoint sagaInfo) =
      some { s.setWorker s.workerCount ⟨processor, ⟨commandId, keyOf commandId, replyToEndPoint,
        sagaInfo⟩, retryLimit, .new, .begin⟩ with workerCount := s.workerCount + 1 } := rfl
  have hat : At { s.setWorker s.workerCount ⟨processor, ⟨commandId, keyOf commandId,
      replyToEndPoint, sagaInfo⟩, retryLimit, .new, .begin⟩ with workerCount := s.workerCount + 1 }
      s.workerCount ⟨s.redis, s.snapshots, s.memory processor⟩ ⟨processor, ⟨commandId,
        keyOf commandId, replyToEndPoint, sagaInfo⟩, retryLimit, .new, .begin⟩ :=
    ⟨rfl, rfl, rfl, by simp⟩
  have hprocess : ∃ s' worker', Alone type json keyOf s.workerCount handler _ s' ∧
      At s' s.workerCount _ worker' ∧ _ := run_of_processAsync retryLimit _ _
      ⟨processor, ⟨commandId, keyOf commandId, replyToEndPoint, sagaInfo⟩, retryLimit, .new, .begin⟩
      rfl hat
  obtain ⟨s', worker', ⟨as, has, hrun⟩, hat', hprocessor, hpoint⟩ := hprocess
  refine ⟨as, s', has, Machine.run_cons_eq_some.2 ⟨_, hdeliver, hrun⟩, ?_, ?_⟩
  · have hmemory := hat'.memory
    rw [hprocessor] at hmemory
    rw [hat'.redis, hat'.snapshots, hmemory]
    rfl
  · rw [hat'.worker, hpoint]
    rfl

end Run

end IFramework.EventSourcing
