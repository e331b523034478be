import IFramework.Mailboxes.Handling
import IFramework.Theory.Fifo

/-!
# Where the messages are

Every submitted message is, in order of submission, in the command collection, in the hand of the
command thread, in the queue of one mailbox, in the hand of one `Run` loop, or completed. `Flow`
covers the way into the mailboxes and out of their queues, `Held` the way from there through a
`Run` loop. Both hold in every reachable state, also when mailboxes are dropped from the
dictionary while they hold messages.
-/

namespace IFramework.Mailboxes

variable {V E : Type} {batchCount : Nat} {s s' : State V E} {a : Action V E}

/-! ## From the command collection into and out of the mailboxes -/

/-- The messages of the commands that have not been taken. -/
def pendingMessages (commands : List Command) : List MailboxMessage :=
  commands.filterMap fun
    | .processMessage m => some m
    | .completeMessage _ => none

@[simp] theorem pendingMessages_nil : pendingMessages [] = [] := rfl

@[simp] theorem pendingMessages_process (m : MailboxMessage) (rest : List Command) :
    pendingMessages (.processMessage m :: rest) = m :: pendingMessages rest := rfl

@[simp] theorem pendingMessages_complete (b : Nat) (rest : List Command) :
    pendingMessages (.completeMessage b :: rest) = pendingMessages rest := rfl

@[simp] theorem pendingMessages_append (l l' : List Command) :
    pendingMessages (l ++ l') = pendingMessages l ++ pendingMessages l' := by
  simp [pendingMessages]

/-- The message the command thread has taken and not yet put into a mailbox. -/
@[simp] def CommandPoint.hand : CommandPoint → List MailboxMessage
  | .getOrAdd m | .enqueue _ m => [m]
  | .take | .schedule _ | .running | .count _ | .tryRemove _ => []

/-- The queues of the mailboxes. -/
def State.queues (s : State V E) (b : Nat) : List MailboxMessage := (s.mailboxes b).messageQueue

/-- The messages travel first-in first-out from `Process` to the `Run` loops. -/
structure Flow (s : State V E) : Prop where
  ids : s.history.added.map MailboxMessage.id = List.range s.history.added.length
  keys : ∀ m ∈ s.history.added, isNullOrWhiteSpace (some m.key) = false
  commands : s.history.added =
    s.history.enqueued.map Prod.snd ++ s.commandPoint.hand ++ pendingMessages s.commands
  queues : Fifo s.history.enqueued s.history.dequeued s.queues
  mailbox : ∀ b m, (b, m) ∈ s.history.enqueued → b < s.mailboxCount ∧ (s.mailboxes b).key = m.key
  nodup_dequeued : (s.history.dequeued.map Prod.snd).Nodup

namespace Flow

theorem init : Flow (State.init : State V E) := by
  refine ⟨rfl, by simp [State.init], rfl, fun b => rfl, by simp [State.init], List.nodup_nil⟩

theorem nodup_added (h : Flow s) : s.history.added.Nodup := by
  apply List.Nodup.of_map MailboxMessage.id
  rw [h.ids]
  exact List.nodup_range

theorem nodup_enqueued (h : Flow s) : (s.history.enqueued.map Prod.snd).Nodup := by
  have hn := h.nodup_added
  rw [h.commands, List.append_assoc] at hn
  exact hn.of_append_left

theorem queue_fresh (h : Flow s) {b : Nat} (hb : s.mailboxCount ≤ b) :
    (s.mailboxes b).messageQueue = [] := by
  rw [List.eq_nil_iff_forall_not_mem]
  intro m hm
  have hlt := (h.mailbox b m (h.queues.mem_enq_of_mem_queue hm)).1
  omega

theorem key_of_mem_dequeued (h : Flow s) {b : Nat} {m : MailboxMessage}
    (hm : (b, m) ∈ s.history.dequeued) : (s.mailboxes b).key = m.key :=
  (h.mailbox b m (h.queues.mem_enq_of_mem_deq hm)).2

/-- A step that moves no message on its way to the `Run` loops. -/
theorem frame (h : Flow s) (hadded : s'.history.added = s.history.added)
    (henq : s'.history.enqueued = s.history.enqueued)
    (hdeq : s'.history.dequeued = s.history.dequeued)
    (hhand : s'.commandPoint.hand ++ pendingMessages s'.commands =
      s.commandPoint.hand ++ pendingMessages s.commands)
    (hboxes : ∀ b, (s'.mailboxes b).key = (s.mailboxes b).key ∧
      (s'.mailboxes b).messageQueue = (s.mailboxes b).messageQueue)
    (hcount : s'.mailboxCount = s.mailboxCount) : Flow s' := by
  have hqueues : s'.queues = s.queues := funext fun b => (hboxes b).2
  refine ⟨?_, ?_, ?_, ?_, ?_, ?_⟩
  · rw [hadded]; exact h.ids
  · rw [hadded]; exact h.keys
  · rw [hadded, henq, List.append_assoc, hhand, ← List.append_assoc]
    exact h.commands
  · rw [henq, hdeq, hqueues]; exact h.queues
  · intro b m hm
    rw [henq] at hm
    rw [hcount, (hboxes b).1]
    exact h.mailbox b m hm
  · rw [hdeq]; exact h.nodup_dequeued

/-- Giving the command thread back moves no message: the thread that waits for a loop holds
none. -/
theorem hand_release (hthread : Thread s) (r : Nat) :
    (if (s.runs r).onCommandThread then CommandPoint.take else s.commandPoint).hand =
      s.commandPoint.hand := by
  split
  · next hr => rw [hthread.running r hr]; rfl
  · rfl

theorem step (hthread : Thread s) (hreg : Registered s) (h : Flow s)
    (ht : Transition batchCount s a s') : Flow s' := by
  cases ht with
  | @processAdd k hasReturnValue resultAccessible hkey =>
    refine ⟨?_, ?_, ?_, h.queues, h.mailbox, h.nodup_dequeued⟩
    · simp [h.ids, List.range_succ]
    · intro m hm
      rcases List.mem_append.1 hm with hold | hnew
      · exact h.keys m hold
      · have hm' : m = ⟨s.history.added.length, k, hasReturnValue, resultAccessible⟩ := by
          simpa using hnew
        subst hm'
        exact hkey
    · have hcommands := h.commands
      simp only [pendingMessages_append, pendingMessages_process, pendingMessages_nil]
      rw [← List.append_assoc, ← hcommands]
  | takeProcess hpoint hcommands =>
    exact h.frame rfl rfl rfl (by simp [hpoint, hcommands]) (fun _ => ⟨rfl, rfl⟩) rfl
  | takeComplete hpoint hcommands =>
    exact h.frame rfl rfl rfl (by simp [hpoint, hcommands]) (fun _ => ⟨rfl, rfl⟩) rfl
  | @getOrAddBlank m hpoint hkey =>
    -- the constructor of the message has rejected a blank key
    have hmem : m ∈ s.history.added := by
      rw [h.commands, hpoint]
      simp
    have hnot := h.keys m hmem
    simp [hkey] at hnot
  | getOrAddFound hpoint hbox =>
    exact h.frame rfl rfl rfl (by simp [hpoint]) (fun _ => ⟨rfl, rfl⟩) rfl
  | @getOrAddNew m hpoint hbox =>
    have hempty := h.queue_fresh (Nat.le_refl s.mailboxCount)
    refine ⟨h.ids, h.keys, by simpa [hpoint] using h.commands, ?_, ?_, h.nodup_dequeued⟩
    · intro b
      have hb := h.queues b
      by_cases hbc : b = s.mailboxCount
      · subst hbc
        simpa [State.queues, hempty] using hb
      · simpa [State.queues, hbc] using hb
    · intro b m' hm
      have hold := h.mailbox b m' hm
      have hne : b ≠ s.mailboxCount := Nat.ne_of_lt hold.1
      refine ⟨Nat.lt_succ_of_lt hold.1, ?_⟩
      simpa [hne] using hold.2
  | @enqueue b m hpoint =>
    have hbox := hreg.dictionary (hreg.enqueue hpoint)
    refine ⟨h.ids, h.keys, ?_, ?_, ?_, h.nodup_dequeued⟩
    · have hcommands := h.commands
      simpa [hpoint] using hcommands
    · have hfifo := h.queues.enqueue b m
      intro c
      rw [hfifo c]
      by_cases hcb : c = b
      · subst hcb
        simp [State.queues]
      · simp [State.queues, hcb]
    · intro c m' hm
      rcases List.mem_append.1 hm with hold | hnew
      · have hc := h.mailbox c m' hold
        exact ⟨hc.1, (s.key_setQueue b _ c).trans hc.2⟩
      · obtain ⟨rfl, rfl⟩ : c = b ∧ m' = m := by simpa using hnew
        exact ⟨hbox.1, by simpa using hbox.2⟩
  | @loopDequeue r m rest hpoint hbatch hqueue =>
    have hmem : m ∈ s.queues (s.runs r).mailbox := by simp [State.queues, hqueue]
    refine ⟨h.ids, h.keys, h.commands, ?_, ?_, ?_⟩
    · have hfifo := h.queues.dequeue (k := (s.runs r).mailbox) hqueue
      intro c
      rw [hfifo c]
      by_cases hcb : c = (s.runs r).mailbox
      · subst hcb
        simp [State.queues]
      · simp [State.queues, hcb]
    · intro c m' hm
      have hc := h.mailbox c m' hm
      exact ⟨hc.1, (s.key_setQueue (s.runs r).mailbox rest c).trans hc.2⟩
    · exact h.queues.nodup_dequeue h.nodup_enqueued h.nodup_dequeued hmem
  | @rescheduleBusy r hpoint hflag =>
    exact h.frame rfl rfl rfl (by rw [hand_release hthread r]) (fun _ => ⟨rfl, rfl⟩) rfl
  | @onMessageEmpty r hpoint =>
    refine h.frame rfl rfl rfl ?_ (fun _ => ⟨rfl, rfl⟩) rfl
    rw [hand_release hthread r, pendingMessages_append]
    simp
  | @startAsync r m hpoint =>
    exact h.frame rfl rfl rfl (by rw [hand_release hthread r]) (fun _ => ⟨rfl, rfl⟩) rfl
  | @scheduleRun b hpoint =>
    exact h.frame rfl rfl rfl (by simp [hpoint])
      (fun c => ⟨s.key_setHandling b true c, s.messageQueue_setHandling b true c⟩) rfl
  | @exchange r =>
    exact h.frame rfl rfl rfl rfl (fun c => ⟨s.key_setHandling (s.runs r).mailbox false c,
      s.messageQueue_setHandling (s.runs r).mailbox false c⟩) rfl
  | @rescheduleRun r =>
    exact h.frame rfl rfl rfl rfl (fun c => ⟨s.key_setHandling (s.runs r).mailbox true c,
      s.messageQueue_setHandling (s.runs r).mailbox true c⟩) rfl
  | _ => exact h.frame rfl rfl rfl (by simp [*]) (fun _ => ⟨rfl, rfl⟩) rfl

end Flow

/-! ## Through a `Run` loop -/

/-- The message the loop has dequeued and not yet completed. -/
@[grind] def RunPoint.Holds : RunPoint V E → MailboxMessage → Prop
  | .start m', m | .await m', m | .set m' _, m => m' = m
  | .loop, _ | .exchange, _ | .isEmpty, _ | .reschedule, _ | .onMessageEmpty, _ | .ended, _ => False

theorem RunPoint.Holds.unique {point : RunPoint V E} {m m' : MailboxMessage}
    (h : point.Holds m) (h' : point.Holds m') : m = m' := by
  cases point <;> simp_all [RunPoint.Holds]

/-- A dequeued message is held by one loop, which starts it, awaits it and completes it once. -/
structure Held (s : State V E) : Prop where
  start : ∀ r m, (s.runs r).point = .start m →
    ((s.runs r).mailbox, m) ∈ s.history.dequeued ∧ ∀ b, (b, m) ∉ s.history.started
  await : ∀ r m, (s.runs r).point = .await m →
    ((s.runs r).mailbox, m) ∈ s.history.started ∧ ∀ o, (m, o) ∉ s.history.finished
  set : ∀ r m o, (s.runs r).point = .set m o →
    ((s.runs r).mailbox, m) ∈ s.history.started ∧ (m, o) ∈ s.history.finished ∧
      ∀ c, (m, c) ∉ s.history.completions
  distinct : ∀ r q m, (s.runs r).point.Holds m → (s.runs q).point.Holds m → r = q
  started : ∀ b m, (b, m) ∈ s.history.started → (b, m) ∈ s.history.dequeued
  finished : ∀ m o, (m, o) ∈ s.history.finished → ∃ b, (b, m) ∈ s.history.started
  completed : ∀ m c, (m, c) ∈ s.history.completions →
    ∃ o, (m, o) ∈ s.history.finished ∧ c = completionOf m o
  dequeued : ∀ b m, (b, m) ∈ s.history.dequeued →
    (∃ c, (m, c) ∈ s.history.completions) ∨
      ∃ r, (s.runs r).mailbox = b ∧ (s.runs r).point.Holds m
  nodup_started : (s.history.started.map Prod.snd).Nodup
  nodup_finished : (s.history.finished.map Prod.fst).Nodup
  nodup_completions : (s.history.completions.map Prod.fst).Nodup

namespace Held

theorem init : Held (State.init : State V E) := by
  refine ⟨?_, ?_, ?_, ?_, ?_, ?_, ?_, ?_, ?_, ?_, ?_⟩ <;> simp [State.init, RunPoint.Holds]

/-- Whatever a loop holds was dequeued from the loop's mailbox. -/
theorem mem_dequeued (h : Held s) {r : Nat} {m : MailboxMessage}
    (hm : (s.runs r).point.Holds m) : ((s.runs r).mailbox, m) ∈ s.history.dequeued := by
  cases hpoint : (s.runs r).point with
  | start m' =>
    rw [hpoint] at hm
    cases hm
    exact (h.start r m hpoint).1
  | await m' =>
    rw [hpoint] at hm
    cases hm
    exact h.started _ _ (h.await r m hpoint).1
  | set m' o =>
    rw [hpoint] at hm
    cases hm
    exact h.started _ _ (h.set r m o hpoint).1
  | _ => simp [hpoint, RunPoint.Holds] at hm

/-- A started task that has not finished is awaited by a loop of the mailbox it came from. -/
theorem awaited (h : Held s) {b : Nat} {m : MailboxMessage} (hs : (b, m) ∈ s.history.started)
    (hf : ∀ o, (m, o) ∉ s.history.finished) :
    ∃ r, (s.runs r).mailbox = b ∧ (s.runs r).point = .await m := by
  rcases h.dequeued b m (h.started b m hs) with ⟨c, hc⟩ | ⟨r, hb, hm⟩
  · obtain ⟨o, ho, -⟩ := h.completed m c hc
    exact absurd ho (hf o)
  · refine ⟨r, hb, ?_⟩
    cases hpoint : (s.runs r).point with
    | start m' =>
      rw [hpoint] at hm
      cases hm
      exact absurd hs ((h.start r m hpoint).2 b)
    | await m' =>
      rw [hpoint] at hm
      cases hm
      rfl
    | set m' o =>
      rw [hpoint] at hm
      cases hm
      exact absurd (h.set r m o hpoint).2.1 (hf o)
    | _ => simp [hpoint, RunPoint.Holds] at hm

/-- A step after which every loop holds what it held before, with nothing logged. -/
theorem frame (h : Held s)
    (hruns : ∀ q,
      ((s'.runs q).mailbox = (s.runs q).mailbox ∧ (s'.runs q).point = (s.runs q).point) ∨
      ((∀ m, ¬(s'.runs q).point.Holds m) ∧ ∀ m, ¬(s.runs q).point.Holds m))
    (hdeq : s'.history.dequeued = s.history.dequeued)
    (hstarted : s'.history.started = s.history.started)
    (hfinished : s'.history.finished = s.history.finished)
    (hcompletions : s'.history.completions = s.history.completions) : Held s' := by
  have hholds : ∀ q m, (s'.runs q).point.Holds m → (s'.runs q).mailbox = (s.runs q).mailbox ∧
      (s'.runs q).point = (s.runs q).point := by
    intro q m hm
    rcases hruns q with hsame | ⟨hnone, -⟩
    · exact hsame
    · exact absurd hm (hnone m)
  obtain ⟨h1, h2, h3, h4, h5, h6, h7, h8, h9, h10, h11⟩ := h
  rw [← hdeq] at h1 h5 h8
  rw [← hstarted] at h1 h2 h3 h5 h6 h9
  rw [← hfinished] at h2 h3 h6 h7 h10
  rw [← hcompletions] at h3 h7 h8 h11
  refine ⟨?_, ?_, ?_, ?_, h5, h6, h7, ?_, h9, h10, h11⟩
  · intro r m hpoint
    obtain ⟨hbox, hsame⟩ := hholds r m (by rw [hpoint]; rfl)
    rw [hbox]
    exact h1 r m (hsame ▸ hpoint)
  · intro r m hpoint
    obtain ⟨hbox, hsame⟩ := hholds r m (by rw [hpoint]; rfl)
    rw [hbox]
    exact h2 r m (hsame ▸ hpoint)
  · intro r m o hpoint
    obtain ⟨hbox, hsame⟩ := hholds r m (by rw [hpoint]; rfl)
    rw [hbox]
    exact h3 r m o (hsame ▸ hpoint)
  · intro r q m hr hq
    exact h4 r q m ((hholds r m hr).2 ▸ hr) ((hholds q m hq).2 ▸ hq)
  · intro b m hm
    rcases h8 b m hm with hc | ⟨r, hb, hr⟩
    · exact .inl hc
    · rcases hruns r with ⟨hbox, hpoint⟩ | ⟨-, hnone⟩
      · exact .inr ⟨r, hbox.trans hb, hpoint ▸ hr⟩
      · exact absurd hr (hnone m)

/-- `TryDequeue` hands a message to a loop that held none; no loop has held it before. -/
theorem dequeue (hflow : Flow s) (h : Held s) {r : Nat} {m : MailboxMessage}
    {rest : List MailboxMessage} {run : RunLoop V E}
    (hpoint : (s.runs r).point = .loop)
    (hqueue : (s.mailboxes (s.runs r).mailbox).messageQueue = m :: rest)
    (hruns : s'.runs = Function.update s.runs r run)
    (hrun : run.mailbox = (s.runs r).mailbox ∧ run.point = .start m)
    (hhistory : s'.history =
      { s.history with dequeued := s.history.dequeued ++ [((s.runs r).mailbox, m)] }) :
    Held s' := by
  have hnew : ∀ b, (b, m) ∉ s.history.dequeued := fun b =>
    hflow.queues.not_mem_deq hflow.nodup_enqueued (k := (s.runs r).mailbox)
      (by simp [State.queues, hqueue])
  have hnone : ∀ m', ¬(s.runs r).point.Holds m' := by simp [hpoint, RunPoint.Holds]
  have hother : ∀ q, ¬(s.runs q).point.Holds m := fun q hq => hnew _ (h.mem_dequeued hq)
  replace hruns : ∀ q, s'.runs q = Function.update s.runs r run q := fun q => by rw [hruns]
  refine ⟨?_, ?_, ?_, ?_, ?_, ?_, ?_, ?_, ?_, ?_, ?_⟩
  · intro q m' hq
    by_cases hqr : q = r
    · subst hqr
      have hm : m = m' := by simpa [hruns, hrun] using hq
      subst hm
      refine ⟨by simp [hhistory, hruns, hrun], ?_⟩
      intro b hb
      exact hnew b (h.started b m (by simpa [hhistory] using hb))
    · have hold := h.start q m' (by simpa [hruns, hqr] using hq)
      refine ⟨?_, by simpa [hhistory] using hold.2⟩
      simpa [hhistory, hruns, hqr] using Or.inl hold.1
  · intro q m' hq
    have hqr : q ≠ r := by
      rintro rfl
      simp [hruns, hrun] at hq
    simpa [hhistory, hruns, hqr] using h.await q m' (by simpa [hruns, hqr] using hq)
  · intro q m' o hq
    have hqr : q ≠ r := by
      rintro rfl
      simp [hruns, hrun] at hq
    simpa [hhistory, hruns, hqr] using h.set q m' o (by simpa [hruns, hqr] using hq)
  · intro q p m' hq hp
    by_cases hqr : q = r <;> by_cases hpr : p = r
    · rw [hqr, hpr]
    · subst hqr
      have hm : m = m' := by simpa [hruns, hrun, RunPoint.Holds] using hq
      exact absurd (by simpa [hruns, hpr, hm] using hp) (hother p)
    · subst hpr
      have hm : m = m' := by simpa [hruns, hrun, RunPoint.Holds] using hp
      exact absurd (by simpa [hruns, hqr, hm] using hq) (hother q)
    · exact h.distinct q p m' (by simpa [hruns, hqr] using hq) (by simpa [hruns, hpr] using hp)
  · intro b m' hb
    have hold := h.started b m' (by simpa [hhistory] using hb)
    simp [hhistory, hold]
  · simpa [hhistory] using h.finished
  · simpa [hhistory] using h.completed
  · intro b m' hb
    rw [hhistory] at hb ⊢
    rcases List.mem_append.1 hb with hold | hlast
    · rcases h.dequeued b m' hold with hc | ⟨q, hqb, hq⟩
      · exact .inl hc
      · have hqr : q ≠ r := by
          rintro rfl
          exact hnone m' hq
        exact .inr ⟨q, by simpa [hruns, hqr] using ⟨hqb, hq⟩⟩
    · obtain ⟨rfl, rfl⟩ : b = (s.runs r).mailbox ∧ m' = m := by simpa using hlast
      exact .inr ⟨r, by simp [hruns, hrun, RunPoint.Holds]⟩
  · simpa [hhistory] using h.nodup_started
  · simpa [hhistory] using h.nodup_finished
  · simpa [hhistory] using h.nodup_completions

end Held

/-- A loop goes on with the message `m` that it holds, or lets it go, and what is logged on the way
is about that message. -/
structure Progress (s s' : State V E) (r : Nat) (m : MailboxMessage) (run : RunLoop V E)
    (started : List (Nat × MailboxMessage)) (finished : List (MailboxMessage × TaskOutcome V E))
    (completions : List (MailboxMessage × Completion V E)) : Prop where
  holds : (s.runs r).point.Holds m
  runs : s'.runs = Function.update s.runs r run
  mailbox : run.mailbox = (s.runs r).mailbox
  history : s'.history =
    { s.history with
      started := s.history.started ++ started
      finished := s.history.finished ++ finished
      completions := s.history.completions ++ completions }
  logged : ((s.runs r).mailbox, m) ∈ s.history.started ++ started
  aboutStarted : ∀ e ∈ started, e = ((s.runs r).mailbox, m)
  aboutFinished : ∀ e ∈ finished, e.1 = m
  aboutCompletions : ∀ e ∈ completions, e.1 = m ∧
    ∃ o, (m, o) ∈ s.history.finished ∧ e.2 = completionOf m o
  point : (run.point = .await m ∧ ∀ o, (m, o) ∉ s.history.finished ++ finished) ∨
    (∃ o, run.point = .set m o ∧ (m, o) ∈ s.history.finished ++ finished ∧
      ∀ c, (m, c) ∉ s.history.completions ++ completions) ∨
    ((∀ m', ¬run.point.Holds m') ∧ ∃ c, (m, c) ∈ completions)
  nodupStarted : ((s.history.started ++ started).map Prod.snd).Nodup
  nodupFinished : ((s.history.finished ++ finished).map Prod.fst).Nodup
  nodupCompletions : ((s.history.completions ++ completions).map Prod.fst).Nodup

namespace Progress

variable {r q : Nat} {m m' : MailboxMessage} {run : RunLoop V E}
  {started : List (Nat × MailboxMessage)} {finished : List (MailboxMessage × TaskOutcome V E)}
  {completions : List (MailboxMessage × Completion V E)}

theorem self (p : Progress s s' r m run started finished completions) : s'.runs r = run := by
  rw [p.runs, Function.update_self]

theorem same (p : Progress s s' r m run started finished completions) (hqr : q ≠ r) :
    s'.runs q = s.runs q := by
  rw [p.runs, Function.update_of_ne hqr]

theorem ne (p : Progress s s' r m run started finished completions) (h : Held s) (hqr : q ≠ r)
    (hq : (s.runs q).point.Holds m') : m' ≠ m := by
  rintro rfl
  exact hqr (h.distinct q r m' hq p.holds)

theorem eq_of_holds (p : Progress s s' r m run started finished completions)
    (hr : run.point.Holds m') : m' = m := by
  rcases p.point with ⟨hpoint, -⟩ | ⟨o, hpoint, -⟩ | ⟨hnone, -⟩
  · rw [hpoint] at hr
    exact hr.symm
  · rw [hpoint] at hr
    exact hr.symm
  · exact absurd hr (hnone m')

theorem holds_of_holds (p : Progress s s' r m run started finished completions)
    (hq : (s'.runs q).point.Holds m') : (s.runs q).point.Holds m' := by
  by_cases hqr : q = r
  · subst hqr
    rw [p.self] at hq
    exact p.eq_of_holds hq ▸ p.holds
  · exact p.same hqr ▸ hq

theorem start (p : Progress s s' r m run started finished completions) (h : Held s)
    (hq : (s'.runs q).point = .start m') :
    ((s'.runs q).mailbox, m') ∈ s'.history.dequeued ∧ ∀ b, (b, m') ∉ s'.history.started := by
  have hqr : q ≠ r := by
    rintro rfl
    rw [p.self] at hq
    rcases p.point with ⟨hpoint, -⟩ | ⟨o, hpoint, -⟩ | ⟨hnone, -⟩
    · simp [hq] at hpoint
    · simp [hq] at hpoint
    · exact hnone m' (hq ▸ rfl)
  rw [p.same hqr] at hq ⊢
  rw [p.history]
  obtain ⟨hdequeued, hnew⟩ := h.start q m' hq
  refine ⟨hdequeued, fun b hb => ?_⟩
  rcases List.mem_append.1 hb with hold | hadded
  · exact hnew b hold
  · exact p.ne h hqr (hq ▸ rfl) (congrArg Prod.snd (p.aboutStarted _ hadded))

theorem await (p : Progress s s' r m run started finished completions) (h : Held s)
    (hq : (s'.runs q).point = .await m') :
    ((s'.runs q).mailbox, m') ∈ s'.history.started ∧ ∀ o, (m', o) ∉ s'.history.finished := by
  rw [p.history]
  by_cases hqr : q = r
  · subst hqr
    rw [p.self] at hq ⊢
    obtain rfl : m' = m := p.eq_of_holds (by rw [hq]; rfl)
    rcases p.point with ⟨-, hnew⟩ | ⟨o, hpoint, -⟩ | ⟨hnone, -⟩
    · exact ⟨p.mailbox ▸ p.logged, hnew⟩
    · simp [hq] at hpoint
    · exact absurd (hq ▸ rfl) (hnone m')
  · rw [p.same hqr] at hq ⊢
    obtain ⟨hold, hnew⟩ := h.await q m' hq
    refine ⟨List.mem_append_left _ hold, fun o ho => ?_⟩
    rcases List.mem_append.1 ho with hold | hadded
    · exact hnew o hold
    · exact p.ne h hqr (hq ▸ rfl) (p.aboutFinished _ hadded)

theorem set (p : Progress s s' r m run started finished completions) (h : Held s)
    {o : TaskOutcome V E} (hq : (s'.runs q).point = .set m' o) :
    ((s'.runs q).mailbox, m') ∈ s'.history.started ∧ (m', o) ∈ s'.history.finished ∧
      ∀ c, (m', c) ∉ s'.history.completions := by
  rw [p.history]
  by_cases hqr : q = r
  · subst hqr
    rw [p.self] at hq ⊢
    obtain rfl : m' = m := p.eq_of_holds (by rw [hq]; rfl)
    rcases p.point with ⟨hpoint, -⟩ | ⟨o', hpoint, ho', hnew⟩ | ⟨hnone, -⟩
    · simp [hq] at hpoint
    · obtain rfl : o = o' := by simpa [hq] using hpoint
      exact ⟨p.mailbox ▸ p.logged, ho', hnew⟩
    · exact absurd (hq ▸ rfl) (hnone m')
  · rw [p.same hqr] at hq ⊢
    obtain ⟨hold, holdFinished, hnew⟩ := h.set q m' o hq
    refine ⟨List.mem_append_left _ hold, List.mem_append_left _ holdFinished, fun c hc => ?_⟩
    rcases List.mem_append.1 hc with hold | hadded
    · exact hnew c hold
    · exact p.ne h hqr (hq ▸ rfl) (p.aboutCompletions _ hadded).1

theorem dequeued (p : Progress s s' r m run started finished completions) (h : Held s) {b : Nat}
    (hb : (b, m') ∈ s.history.dequeued) :
    (∃ c, (m', c) ∈ s'.history.completions) ∨
      ∃ q, (s'.runs q).mailbox = b ∧ (s'.runs q).point.Holds m' := by
  rw [p.history]
  rcases h.dequeued b m' hb with ⟨c, hc⟩ | ⟨q, hqb, hq⟩
  · exact .inl ⟨c, List.mem_append_left _ hc⟩
  · by_cases hqr : q = r
    · subst hqr
      obtain rfl := p.holds.unique hq
      rcases p.point with ⟨hpoint, -⟩ | ⟨o, hpoint, -⟩ | ⟨-, c, hc⟩
      · exact .inr ⟨q, by rw [p.self, p.mailbox, hqb], by rw [p.self, hpoint]; rfl⟩
      · exact .inr ⟨q, by rw [p.self, p.mailbox, hqb], by rw [p.self, hpoint]; rfl⟩
      · exact .inl ⟨c, List.mem_append_right _ hc⟩
    · refine .inr ⟨q, ?_⟩
      rw [p.same hqr]
      exact ⟨hqb, hq⟩

/-- The other loops are as they were, so what is held stays held. -/
theorem held (p : Progress s s' r m run started finished completions) (h : Held s) :
    Held s' := by
  refine ⟨fun q m' => p.start h, fun q m' => p.await h, fun q m' o => p.set h, ?_, ?_, ?_, ?_, ?_,
    ?_, ?_, ?_⟩
  · intro q q' m' hq hq'
    exact h.distinct q q' m' (p.holds_of_holds hq) (p.holds_of_holds hq')
  · intro b m' hb
    rw [p.history] at hb ⊢
    rcases List.mem_append.1 hb with hold | hadded
    · exact h.started b m' hold
    · rw [p.aboutStarted _ hadded]
      exact h.mem_dequeued p.holds
  · intro m' o ho
    rw [p.history] at ho ⊢
    rcases List.mem_append.1 ho with hold | hadded
    · obtain ⟨b, hb⟩ := h.finished m' o hold
      exact ⟨b, List.mem_append_left _ hb⟩
    · obtain rfl : m' = m := p.aboutFinished _ hadded
      exact ⟨_, p.logged⟩
  · intro m' c hc
    rw [p.history] at hc ⊢
    rcases List.mem_append.1 hc with hold | hadded
    · obtain ⟨o, ho, hcompletion⟩ := h.completed m' c hold
      exact ⟨o, List.mem_append_left _ ho, hcompletion⟩
    · obtain ⟨rfl, o, ho, hcompletion⟩ := p.aboutCompletions _ hadded
      exact ⟨o, List.mem_append_left _ ho, hcompletion⟩
  · intro b m' hb
    rw [p.history] at hb
    exact p.dequeued h hb
  · rw [p.history]
    exact p.nodupStarted
  · rw [p.history]
    exact p.nodupFinished
  · rw [p.history]
    exact p.nodupCompletions

end Progress

namespace Held

/-- An entry for a new message keeps the messages of a log distinct. -/
theorem nodup_snd_concat {α β : Type} {l : List (α × β)} {a : α} {b : β}
    (hl : (l.map Prod.snd).Nodup) (hnew : ∀ a, (a, b) ∉ l) :
    ((l ++ [(a, b)]).map Prod.snd).Nodup := by
  have hb : b ∉ l.map Prod.snd := by simpa using hnew
  simpa using hl.concat hb

theorem nodup_fst_concat {α β : Type} {l : List (α × β)} {a : α} {b : β}
    (hl : (l.map Prod.fst).Nodup) (hnew : ∀ b, (a, b) ∉ l) :
    ((l ++ [(a, b)]).map Prod.fst).Nodup := by
  have ha : a ∉ l.map Prod.fst := by simpa using hnew
  simpa using hl.concat ha

section Tasks

variable {r : Nat} {m : MailboxMessage} {o : TaskOutcome V E}

theorem not_finished (h : Held s) (hnew : ∀ b, (b, m) ∉ s.history.started) :
    ∀ o, (m, o) ∉ s.history.finished := by
  intro o ho
  obtain ⟨b, hb⟩ := h.finished m o ho
  exact hnew b hb

theorem not_completed (h : Held s) (hnew : ∀ o, (m, o) ∉ s.history.finished) :
    ∀ c, (m, c) ∉ s.history.completions := by
  intro c hc
  obtain ⟨o, ho, -⟩ := h.completed m c hc
  exact hnew o ho

/-- `Task()` is called on the message in hand, and is awaited. -/
theorem start_async (h : Held s) (hpoint : (s.runs r).point = .start m) :
    Progress s
      { s.release r (.await m) with
        history :=
          { s.history with started := s.history.started ++ [((s.runs r).mailbox, m)] } }
      r m ⟨(s.runs r).mailbox, (s.runs r).processedCount, .await m, false⟩
      [((s.runs r).mailbox, m)] [] [] where
  holds := hpoint ▸ rfl
  runs := rfl
  mailbox := rfl
  history := by simp
  logged := by simp
  aboutStarted := by simp
  aboutFinished := by simp
  aboutCompletions := by simp
  point := .inl ⟨rfl, by simpa using h.not_finished (h.start r m hpoint).2⟩
  nodupStarted := nodup_snd_concat h.nodup_started (h.start r m hpoint).2
  nodupFinished := by simpa using h.nodup_finished
  nodupCompletions := by simpa using h.nodup_completions

/-- `Task()` is called on the message in hand, and what it returns is complete. -/
theorem start_sync (h : Held s) (hpoint : (s.runs r).point = .start m) :
    Progress s
      { s.setPoint r (.set m o) with
        history :=
          { s.history with
            started := s.history.started ++ [((s.runs r).mailbox, m)]
            finished := s.history.finished ++ [(m, o)] } }
      r m { s.runs r with point := .set m o } [((s.runs r).mailbox, m)] [(m, o)] [] := by
  have hfinished := h.not_finished (h.start r m hpoint).2
  have hcompleted : ∀ c, (m, c) ∉ s.history.completions ++ [] := by
    simpa using h.not_completed hfinished
  exact {
    holds := hpoint ▸ rfl
    runs := rfl
    mailbox := rfl
    history := by simp
    logged := by simp
    aboutStarted := by simp
    aboutFinished := by simp
    aboutCompletions := by simp
    point := .inr (.inl ⟨o, rfl, by simp, hcompleted⟩)
    nodupStarted := nodup_snd_concat h.nodup_started (h.start r m hpoint).2
    nodupFinished := nodup_fst_concat h.nodup_finished hfinished
    nodupCompletions := by simpa using h.nodup_completions }

theorem complete_task (h : Held s) (hpoint : (s.runs r).point = .await m) :
    Progress s
      { s.setPoint r (.set m o) with
        history := { s.history with finished := s.history.finished ++ [(m, o)] } }
      r m { s.runs r with point := .set m o } [] [(m, o)] [] := by
  obtain ⟨hstarted, hfinished⟩ := h.await r m hpoint
  have hcompleted : ∀ c, (m, c) ∉ s.history.completions ++ [] := by
    simpa using h.not_completed hfinished
  exact {
    holds := hpoint ▸ rfl
    runs := rfl
    mailbox := rfl
    history := by simp
    logged := by simpa using hstarted
    aboutStarted := by simp
    aboutFinished := by simp
    aboutCompletions := by simp
    point := .inr (.inl ⟨o, rfl, by simp, hcompleted⟩)
    nodupStarted := by simpa using h.nodup_started
    nodupFinished := nodup_fst_concat h.nodup_finished hfinished
    nodupCompletions := by simpa using h.nodup_completions }

/-- The completion source of the message in hand is set, and the loop holds nothing. -/
theorem set_completion (h : Held s) (hpoint : (s.runs r).point = .set m o) :
    Progress s
      { s.setPoint r .loop with
        history :=
          { s.history with
            completions := s.history.completions ++ [(m, completionOf m o)] } }
      r m { s.runs r with point := .loop } [] [] [(m, completionOf m o)] := by
  obtain ⟨hstarted, hfinished, hcompleted⟩ := h.set r m o hpoint
  exact {
    holds := hpoint ▸ rfl
    runs := rfl
    mailbox := rfl
    history := by simp
    logged := by simpa using hstarted
    aboutStarted := by simp
    aboutFinished := by simp
    aboutCompletions := by
      intro e he
      obtain rfl := List.mem_singleton.1 he
      exact ⟨rfl, o, hfinished, rfl⟩
    point := .inr (.inr ⟨by simp [RunPoint.Holds], _, List.mem_singleton_self _⟩)
    nodupStarted := by simpa using h.nodup_started
    nodupFinished := by simpa using h.nodup_finished
    nodupCompletions := nodup_fst_concat h.nodup_completions hcompleted }

end Tasks

theorem step (hhandling : Handling s) (hflow : Flow s) (h : Held s)
    (ht : Transition batchCount s a s') : Held s' := by
  cases ht with
  | loopDequeue hpoint hbatch hqueue => exact h.dequeue hflow hpoint hqueue rfl ⟨rfl, rfl⟩ rfl
  | startSync hpoint => exact (h.start_sync hpoint).held h
  | startAsync hpoint => exact (h.start_async hpoint).held h
  | complete hpoint => exact (h.complete_task hpoint).held h
  | set hpoint => exact (h.set_completion hpoint).held h
  | scheduleRun hpoint hflag =>
    have hend := hhandling.fresh_run s.runCount (Nat.le_refl _)
    refine h.frame ?_ rfl rfl rfl rfl
    intro q
    by_cases hq : q = s.runCount
    · subst hq
      simp [hend, RunPoint.Holds]
    · simp [hq]
  | @loopBreak r hpoint | @exchange r hpoint | @isEmptyTrue r hpoint | @isEmptyFalse r hpoint
  | @rescheduleBusy r hpoint | @rescheduleRun r hpoint | @onMessageEmpty r hpoint =>
    refine h.frame ?_ rfl rfl rfl rfl
    intro q
    by_cases hq : q = r
    · subst hq
      simp [hpoint, RunPoint.Holds]
    · simp [hq]
  | _ => exact h.frame (fun q => .inl ⟨rfl, rfl⟩) rfl rfl rfl rfl

end Held

end IFramework.Mailboxes
