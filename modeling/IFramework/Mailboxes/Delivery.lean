import IFramework.Mailboxes.Flow

/-!
# No message is stranded and none is handled twice

`WellFormed` collects the invariants of every reachable state. `Wakeup` is the argument between
`EnqueueMessage` followed by `EnterHandlingMessage` on the command thread and the exchange of the
flag followed by the test of the queue in `ExitHandlingMessage`: whichever comes last sees the
other, so a mailbox that holds a message is being handled or is about to be scheduled. It does not
matter whether the mailbox is still in the dictionary.

What is reported of a message goes wrong in one place: `Run` reads `((dynamic) task).Result` inside
the `try`, and the `catch` takes the failure of that reading for a failure of the task.
`delivered_iff` shows that there is no other.
-/

namespace IFramework.Mailboxes

open Machine

variable {V E : Type} {batchCount : Nat} {s s' : State V E} {a : Action V E}

/-! ## The invariants of the reachable states -/

/-- The invariants of every reachable state. -/
structure WellFormed (s : State V E) : Prop where
  thread : Thread s
  registered : Registered s
  handling : Handling s
  flow : Flow s
  held : Held s

theorem WellFormed.init : WellFormed (State.init : State V E) :=
  ⟨.init, .init, .init, .init, .init⟩

theorem WellFormed.step (h : WellFormed s) (ht : Transition batchCount s a s') : WellFormed s' where
  thread := h.thread.step ht
  registered := h.registered.step ht
  handling := h.handling.step h.registered ht
  flow := h.flow.step h.thread h.registered ht
  held := h.held.step h.handling h.flow ht

/-- Every run from the start ends in a well-formed state. -/
theorem WellFormed.of_run {as : List (Action V E)}
    (hrun : run (Mailboxes.step batchCount) State.init as = some s) : WellFormed s :=
  run_invariant WellFormed (fun _ _ _ h hstep => h.step (.of_step hstep)) .init hrun

/-! ## No lost wake-up -/

/-- A step is pending that calls `ScheduleMailbox` on the mailbox: the command thread has filled
it, or a loop of it has reset the flag and not yet tested the queue, or has found it filled. -/
def SchedulePending (s : State V E) (b : Nat) : Prop :=
  s.commandPoint = .schedule b ∨
    ∃ r, (s.runs r).mailbox = b ∧
      ((s.runs r).point = .isEmpty ∨ (s.runs r).point = .reschedule)

/-- A mailbox that holds a message is being handled or about to be scheduled. -/
def Wakeup (s : State V E) : Prop :=
  ∀ b, (s.mailboxes b).messageQueue ≠ [] →
    (s.mailboxes b).isHandlingMessage = true ∨ SchedulePending s b

namespace Wakeup

theorem init : Wakeup (State.init : State V E) := by
  intro b hb
  simp [State.init] at hb

/-- When one loop moves on, only its own mailbox has to be looked at again: no other mailbox is
filled or loses its flag, and no other pending call goes away. -/
theorem update (h : Wakeup s) {r : Nat} {run : RunLoop V E}
    (hruns : s'.runs = Function.update s.runs r run)
    (hpoint : ∀ b, s.commandPoint = .schedule b → s'.commandPoint = .schedule b)
    (hother : ∀ b, b ≠ (s.runs r).mailbox → s'.mailboxes b = s.mailboxes b)
    (hown : (s'.mailboxes (s.runs r).mailbox).messageQueue ≠ [] →
      (s'.mailboxes (s.runs r).mailbox).isHandlingMessage = true ∨
        SchedulePending s' (s.runs r).mailbox) : Wakeup s' := by
  intro b hb
  by_cases hbr : b = (s.runs r).mailbox
  · subst hbr
    exact hown hb
  · rw [hother b hbr] at hb ⊢
    rcases h b hb with hflag | hcommand | ⟨q, hqb, hq⟩
    · exact .inl hflag
    · exact .inr (.inl (hpoint b hcommand))
    · have hqr : q ≠ r := by
        rintro rfl
        exact hbr hqb.symm
      exact .inr (.inr ⟨q, by simpa [hruns, hqr] using ⟨hqb, hq⟩⟩)

/-- A loop that has no pending call moves on, fills no queue and clears no flag. -/
theorem move (h : Wakeup s) {r : Nat} {run : RunLoop V E}
    (hruns : s'.runs = Function.update s.runs r run)
    (hr : (s.runs r).point ≠ .isEmpty ∧ (s.runs r).point ≠ .reschedule)
    (hpoint : ∀ b, s.commandPoint = .schedule b → s'.commandPoint = .schedule b)
    (hboxes : ∀ b, ((s'.mailboxes b).messageQueue ≠ [] → (s.mailboxes b).messageQueue ≠ []) ∧
      ((s.mailboxes b).isHandlingMessage = true → (s'.mailboxes b).isHandlingMessage = true)) :
    Wakeup s' := by
  intro b hb
  rcases h b ((hboxes b).1 hb) with hflag | hcommand | ⟨q, hqb, hq⟩
  · exact .inl ((hboxes b).2 hflag)
  · exact .inr (.inl (hpoint b hcommand))
  · have hqr : q ≠ r := by
      rintro rfl
      exact hq.elim hr.1 hr.2
    exact .inr (.inr ⟨q, by simpa [hruns, hqr] using ⟨hqb, hq⟩⟩)

/-- The thread that waits for a loop is not about to schedule a mailbox, so that giving it back
takes no pending call away. -/
theorem schedule_release (hthread : Thread s) {r b : Nat} (h : s.commandPoint = .schedule b) :
    (if (s.runs r).onCommandThread then CommandPoint.take else s.commandPoint) = .schedule b := by
  split
  · next hr =>
    rw [hthread.running r hr] at h
    cases h
  · exact h

theorem step (hwf : WellFormed s) (h : Wakeup s) (ht : Transition batchCount s a s') :
    Wakeup s' := by
  cases ht with
  | scheduleRun hpoint hflag =>
    -- the mailbox the command thread was about to schedule is now being handled
    have hend := hwf.handling.fresh_run s.runCount (Nat.le_refl _)
    intro c hc
    rename_i b
    by_cases hcb : c = b
    · exact .inl (by simp [hcb])
    · have hqueue : (s.mailboxes c).messageQueue ≠ [] := by simpa [hcb] using hc
      rcases h c hqueue with hflag' | hpending
      · exact .inl (by simpa [hcb] using hflag')
      · rcases hpending with hcommand | ⟨q, hqc, hq⟩
        · rw [hpoint] at hcommand
          cases hcommand
          exact absurd rfl hcb
        · have hqr : q ≠ s.runCount := by
            rintro rfl
            simp [hend] at hq
          exact .inr (.inr ⟨q, by simpa [hqr] using ⟨hqc, hq⟩⟩)
  | loopBreak hpoint | set hpoint | startSync hpoint | complete hpoint =>
    exact h.move rfl (by simp [hpoint]) (fun _ hb => hb) (fun _ => ⟨id, id⟩)
  | loopDequeue hpoint hbatch hqueue =>
    exact h.move rfl (by simp [hpoint]) (fun _ hb => hb) (by grind [Function.update])
  | onMessageEmpty hpoint | startAsync hpoint =>
    exact h.move rfl (by simp [hpoint]) (fun _ hb => schedule_release hwf.thread hb)
      (fun _ => ⟨id, id⟩)
  | @exchange r hpoint =>
    -- the flag is clear, and the test of the queue is still to come
    refine h.update rfl (fun _ hb => hb) (fun b hb => by simp [hb]) fun _ => .inr (.inr ⟨r, ?_⟩)
    simp
  | @isEmptyTrue r hpoint hqueue =>
    exact h.update rfl (fun _ hb => hb) (fun _ _ => rfl) fun hb => absurd hqueue hb
  | @isEmptyFalse r hpoint hqueue =>
    refine h.update rfl (fun _ hb => hb) (fun _ _ => rfl) fun _ => .inr (.inr ⟨r, ?_⟩)
    simp
  | @rescheduleBusy r hpoint hflag =>
    -- whoever has set the flag meanwhile handles the mailbox
    exact h.update rfl (fun _ hb => schedule_release hwf.thread hb) (fun _ _ => rfl)
      fun _ => .inl hflag
  | @rescheduleRun r hpoint hflag =>
    refine h.update rfl (fun _ hb => hb) (fun b hb => by simp [hb]) fun _ => .inl ?_
    simp
  | _ =>
    unfold Wakeup SchedulePending at h ⊢
    grind [Function.update]

/-- A mailbox that holds a message has an active loop and a set flag, or a pending call. -/
theorem active (hwf : WellFormed s) (h : Wakeup s) {b : Nat}
    (hb : (s.mailboxes b).messageQueue ≠ []) :
    ((s.mailboxes b).isHandlingMessage = true ∧
      ∃ r, (s.runs r).mailbox = b ∧ (s.runs r).point.Active) ∨ SchedulePending s b := by
  rcases h b hb with hflag | hpending
  · obtain ⟨r, hact, hr⟩ := hwf.handling.owner b hflag
    exact .inl ⟨hflag, r, hr, hact⟩
  · exact .inr hpending

theorem of_run {as : List (Action V E)}
    (hrun : run (Mailboxes.step batchCount) State.init as = some s) : Wakeup s :=
  (run_invariant (fun s => WellFormed s ∧ Wakeup s)
    (fun _ _ _ h hstep => ⟨h.1.step (.of_step hstep), h.2.step h.1 (.of_step hstep)⟩)
    ⟨.init, .init⟩ hrun).2

end Wakeup

/-! ## A state in which nothing can happen -/

/-- No step of the command thread, of a `Run` loop or of a task is enabled. -/
def Quiescent (batchCount : Nat) (s : State V E) : Prop :=
  ∀ a, (∀ key hasReturnValue resultAccessible, a ≠ .process key hasReturnValue resultAccessible) →
    Mailboxes.step batchCount s a = none

namespace Quiescent

variable [Inhabited E]

theorem ended (h : Quiescent batchCount s) (r : Nat) : (s.runs r).point = .ended := by
  have hrun := h (.run r) (by simp)
  have hstart := h (.startAsync r) (by simp)
  have hcomplete := h (.complete r (.exception default)) (by simp)
  cases hpoint : (s.runs r).point with
  | ended => rfl
  | loop =>
    simp only [Mailboxes.step, runStep, hpoint] at hrun
    split at hrun
    · split at hrun <;> cases hrun
    · cases hrun
  | start m => simp [Mailboxes.step, hpoint] at hstart
  | await m => simp [Mailboxes.step, hpoint] at hcomplete
  | set m o => simp [Mailboxes.step, runStep, hpoint] at hrun
  | exchange => simp [Mailboxes.step, runStep, hpoint] at hrun
  | isEmpty =>
    simp only [Mailboxes.step, runStep, hpoint] at hrun
    split at hrun <;> cases hrun
  | reschedule =>
    simp only [Mailboxes.step, runStep, hpoint] at hrun
    split at hrun <;> cases hrun
  | onMessageEmpty => simp [Mailboxes.step, runStep, hpoint] at hrun

/-- The command thread waits for a command, and there is none. -/
theorem taking (hthread : Thread s) (h : Quiescent batchCount s) :
    s.commandPoint = .take ∧ s.commands = [] := by
  have hcommand := h .command (by simp)
  cases hpoint : s.commandPoint with
  | take =>
    simp only [Mailboxes.step, commandStep, hpoint] at hcommand
    split at hcommand
    · next hnil => exact ⟨rfl, hnil⟩
    · cases hcommand
    · cases hcommand
  | getOrAdd m =>
    simp only [Mailboxes.step, commandStep, hpoint] at hcommand
    split at hcommand
    · cases hcommand
    · split at hcommand <;> cases hcommand
  | enqueue b m => simp [Mailboxes.step, commandStep, hpoint] at hcommand
  | schedule b =>
    simp only [Mailboxes.step, commandStep, hpoint] at hcommand
    split at hcommand <;> cases hcommand
  | running =>
    obtain ⟨r, -, hend, -⟩ := hthread.busy hpoint
    exact absurd (h.ended r) hend
  | count b =>
    simp only [Mailboxes.step, commandStep, hpoint] at hcommand
    split at hcommand <;> cases hcommand
  | tryRemove b => simp [Mailboxes.step, commandStep, hpoint] at hcommand

theorem queue_nil (hwf : WellFormed s) (hwake : Wakeup s) (h : Quiescent batchCount s) (b : Nat) :
    (s.mailboxes b).messageQueue = [] := by
  by_contra hb
  rcases hwake.active hwf hb with ⟨-, r, -, hact⟩ | hcommand | ⟨r, -, hr⟩
  · simp [h.ended r, RunPoint.Active] at hact
  · simp [(h.taking hwf.thread).1] at hcommand
  · simp [h.ended r] at hr

/-- Every submitted message has been started, has finished and is completed accordingly. -/
theorem completed (hwf : WellFormed s) (hwake : Wakeup s) (h : Quiescent batchCount s)
    {m : MailboxMessage} (hm : m ∈ s.history.added) :
    (∃ b, (b, m) ∈ s.history.started) ∧
      ∃ o, (m, o) ∈ s.history.finished ∧ (m, completionOf m o) ∈ s.history.completions := by
  obtain ⟨hpoint, hcommands⟩ := h.taking hwf.thread
  have hadded := hwf.flow.commands
  simp only [hpoint, hcommands, CommandPoint.hand, pendingMessages_nil, List.append_nil] at hadded
  rw [hadded] at hm
  obtain ⟨⟨b, m'⟩, hb, rfl⟩ := List.mem_map.1 hm
  have hdequeued : (b, m') ∈ s.history.dequeued := by
    rcases hwf.flow.queues.mem_queue_or_deq hb with hdeq | hqueue
    · exact hdeq
    · simp [State.queues, h.queue_nil hwf hwake b] at hqueue
  rcases hwf.held.dequeued b m' hdequeued with ⟨c, hc⟩ | ⟨r, -, hr⟩
  · obtain ⟨o, ho, rfl⟩ := hwf.held.completed m' c hc
    exact ⟨hwf.held.finished m' o ho, o, ho, hc⟩
  · simp [h.ended r, RunPoint.Holds] at hr

end Quiescent

/-! ## Reading the result of a task -/

/-- What is reported of a task that ended so: its value when the message has one, or its
exception. -/
def reportOf (message : MailboxMessage) : TaskOutcome V E → Completion V E
  | .result value => .setResult (if message.hasReturnValue then some value else none)
  | .exception ex => .setException (.thrown ex)

/-- The result of the task need not be read, or it can be. -/
def Readable (message : MailboxMessage) : TaskOutcome V E → Prop
  | .result _ => message.hasReturnValue = true → message.resultAccessible = true
  | .exception _ => True

theorem completionOf_of_readable {m : MailboxMessage} {o : TaskOutcome V E} (h : Readable m o) :
    completionOf m o = reportOf m o := by
  cases o with
  | result value =>
    cases hm : m.hasReturnValue with
    | false => simp [completionOf, reportOf, hm]
    | true => simp [completionOf, reportOf, hm, h hm]
  | exception ex => rfl

theorem readable_iff {m : MailboxMessage} {o : TaskOutcome V E} :
    Readable m o ↔ completionOf m o ≠ .setException .runtimeBinder := by
  cases o with
  | result value =>
    cases hm : m.hasReturnValue <;> cases ha : m.resultAccessible <;>
      simp [Readable, completionOf, hm, ha]
  | exception ex => simp [Readable, completionOf]

theorem reportOf_ne_runtimeBinder (m : MailboxMessage) (o : TaskOutcome V E) :
    reportOf m o ≠ .setException .runtimeBinder := by
  cases o <;> simp [reportOf]

/-- A loop that is about to set the completion source of a message whose task has ended can read
the result of the task, if it has to. -/
def ReadsResult (s : State V E) : Action V E → Prop
  | .run r =>
    match (s.runs r).point with
    | .set message outcome => Readable message outcome
    | _ => True
  | _ => True

/-- No completion source has been set to the exception of a reading of `Result`. -/
def ReadsAll (s : State V E) : Prop :=
  ∀ m, (m, .setException .runtimeBinder) ∉ s.history.completions

theorem readsAll_iff_of_step (ht : Transition batchCount s a s') :
    ReadsAll s' ↔ ReadsAll s ∧ ReadsResult s a := by
  cases ht with
  | @set r m o hpoint =>
    simp only [ReadsAll, ReadsResult, hpoint, List.mem_append, List.mem_singleton, not_or,
      forall_and, Prod.mk.injEq, not_and, readable_iff]
    apply and_congr_right
    intro _
    constructor
    · intro h hcompletion
      exact h m rfl hcompletion.symm
    · intro h m' _ hcompletion
      exact h hcompletion.symm
  | @loopBreak r hpoint | @loopDequeue r m rest hpoint | @exchange r hpoint
  | @isEmptyTrue r hpoint | @isEmptyFalse r hpoint | @rescheduleBusy r hpoint
  | @rescheduleRun r hpoint | @onMessageEmpty r hpoint =>
    simp [ReadsAll, ReadsResult, hpoint]
  | _ => simp [ReadsAll, ReadsResult]

theorem readsAll_iff_along {as : List (Action V E)}
    (hrun : run (Mailboxes.step batchCount) State.init as = some s) :
    ReadsAll s ↔ Along (Mailboxes.step batchCount) ReadsResult State.init as := by
  have hinit : ReadsAll (State.init : State V E) := by
    intro m hm
    cases hm
  rw [run_iff_along (fun _ _ _ hstep => readsAll_iff_of_step (.of_step hstep)) hrun,
    and_iff_right hinit]

/-! ## Delivery -/

/-- A message has been dequeued, started and completed at most once, and what is reported of it is
how its task ended; a mailbox that holds a message is being handled by a loop that has not passed
its exit, or a call of `ScheduleMailbox` on it is pending; and when nothing more can happen, every
submitted message has been run and reported. -/
structure Delivered (batchCount : Nat) (s : State V E) : Prop where
  nodup_dequeued : (s.history.dequeued.map Prod.snd).Nodup
  nodup_started : (s.history.started.map Prod.snd).Nodup
  nodup_finished : (s.history.finished.map Prod.fst).Nodup
  nodup_completions : (s.history.completions.map Prod.fst).Nodup
  reported : ∀ m c, (m, c) ∈ s.history.completions →
    ∃ o, (m, o) ∈ s.history.finished ∧ c = reportOf m o
  awake : ∀ b, (s.mailboxes b).messageQueue ≠ [] →
    ((s.mailboxes b).isHandlingMessage = true ∧
      ∃ r, (s.runs r).mailbox = b ∧ (s.runs r).point.Active) ∨ SchedulePending s b
  quiescent : Quiescent batchCount s → ∀ m ∈ s.history.added,
    (∃ b, (b, m) ∈ s.history.started) ∧
      ∃ o, (m, o) ∈ s.history.finished ∧ (m, reportOf m o) ∈ s.history.completions

/-- In every state of every run messages are delivered, exactly if the loops could read every result
they had to read on the way. -/
theorem delivered_iff [Inhabited E] {as : List (Action V E)}
    (hrun : run (step batchCount) State.init as = some s) :
    Delivered batchCount s ↔ Along (step batchCount) ReadsResult State.init as := by
  have hwf := WellFormed.of_run hrun
  rw [← readsAll_iff_along hrun]
  constructor
  · intro h m hm
    obtain ⟨o, -, ho⟩ := h.reported m _ hm
    exact reportOf_ne_runtimeBinder m o ho.symm
  · intro h
    have hwake := Wakeup.of_run hrun
    have hreport : ∀ m o, (m, completionOf m o) ∈ s.history.completions →
        completionOf m o = reportOf m o := by
      intro m o hm
      apply completionOf_of_readable
      rw [readable_iff]
      intro hbinder
      exact h m (hbinder ▸ hm)
    refine ⟨hwf.flow.nodup_dequeued, hwf.held.nodup_started, hwf.held.nodup_finished,
      hwf.held.nodup_completions, ?_, fun b hb => hwake.active hwf hb, ?_⟩
    · intro m c hc
      obtain ⟨o, ho, rfl⟩ := hwf.held.completed m c hc
      exact ⟨o, ho, hreport m o hc⟩
    · intro hquiet m hm
      obtain ⟨hstarted, o, ho, hc⟩ := hquiet.completed hwf hwake hm
      exact ⟨hstarted, o, ho, hreport m o hc ▸ hc⟩

/-- Two messages of one key. The task of the first completes later with a value, the second has none
to read and throws when it is started. -/
theorem delivered_iff_of_two_messages :
    ∃ s, run (step 1) (State.init : State Nat String)
      [.process (some "k") true true, .process (some "k") false false, .command, .command, .command,
        .command, .run 0, .startAsync 0, .command, .command, .command, .command,
        .complete 0 (.result 7), .run 0, .run 0, .run 0, .run 0, .run 0, .run 0,
        .startSync 0 (.exception "thrown"), .run 0, .run 0, .run 0, .run 0] = some s ∧
      s.history.completions = [(⟨0, "k", true, true⟩, .setResult (some 7)),
        (⟨1, "k", false, false⟩, .setException (.thrown "thrown"))] ∧
      Delivered 1 s := by
  have hcompletions : (run (step 1) (State.init : State Nat String)
      [.process (some "k") true true, .process (some "k") false false, .command, .command, .command,
        .command, .run 0, .startAsync 0, .command, .command, .command, .command,
        .complete 0 (.result 7), .run 0, .run 0, .run 0, .run 0, .run 0, .run 0,
        .startSync 0 (.exception "thrown"), .run 0, .run 0, .run 0, .run 0]).map
          (fun s => s.history.completions) =
      some [(⟨0, "k", true, true⟩, .setResult (some 7)),
        (⟨1, "k", false, false⟩, .setException (.thrown "thrown"))] := by decide +kernel
  obtain ⟨s, hrun, hs⟩ := Option.map_eq_some_iff.1 hcompletions
  refine ⟨s, hrun, hs, (delivered_iff hrun).2 ?_⟩
  -- no completion is the exception of the binder
  rw [← readsAll_iff_along hrun]
  intro m hm
  simp [hs] at hm

/-- The task succeeds with a value of an anonymous type, and its caller is told that it failed. -/
theorem delivered_broken_by_inaccessible_result :
    ∃ s, run (step 1) (State.init : State Nat String)
      [.process (some "k") true false, .command, .command, .command, .command, .run 0,
        .startAsync 0, .complete 0 (.result 7), .run 0] = some s ∧
      s.history.finished = [(⟨0, "k", true, false⟩, .result 7)] ∧
      s.history.completions = [(⟨0, "k", true, false⟩, .setException .runtimeBinder)] ∧
      ¬Delivered 1 s := by
  refine ⟨_, rfl, rfl, rfl, ?_⟩
  intro h
  obtain ⟨o, -, ho⟩ := h.reported _ _ (List.mem_singleton_self _)
  exact reportOf_ne_runtimeBinder _ o ho.symm

end IFramework.Mailboxes
