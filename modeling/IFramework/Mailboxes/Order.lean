import IFramework.Mailboxes.Detached

/-!
# The order in which the messages of one key are started

The messages of a key leave the command collection in the order in which they were added, and a
mailbox keeps the order of its queue. What remains is the hand-over from one mailbox of the key to
the next: a later message overtakes when the mailbox of an earlier one is removed before that one
is started. `Ordered` says that this does not happen: what has been enqueued and not started, for
each key, is what the registered mailbox of the key still has to start.
-/

namespace IFramework.Mailboxes

open Machine

variable {V E : Type} {batchCount : Nat} {s s' : State V E} {a : Action V E}

/-- The messages of one key in a log of a mailbox operation. -/
def ofKey (k : String) (log : List (Nat × MailboxMessage)) : List MailboxMessage :=
  (log.map Prod.snd).filter fun m => m.key = k

/-- The messages of each key have been started in the order in which they were added, none of them
before an earlier one. -/
def StartedInOrder (s : State V E) : Prop :=
  ∀ k, ofKey k s.history.started <+: s.history.added.filter fun m => m.key = k

@[simp] theorem ofKey_nil (k : String) : ofKey k [] = [] := rfl

theorem ofKey_append_self {k : String} {log : List (Nat × MailboxMessage)} {b : Nat}
    {m : MailboxMessage} (hm : m.key = k) : ofKey k (log ++ [(b, m)]) = ofKey k log ++ [m] := by
  simp [ofKey, hm]

theorem ofKey_append_of_ne {k : String} {log : List (Nat × MailboxMessage)} {b : Nat}
    {m : MailboxMessage} (hm : m.key ≠ k) : ofKey k (log ++ [(b, m)]) = ofKey k log := by
  simp [ofKey, hm]

/-! ## What a mailbox still has to start -/

/-- What a mailbox still has to start: the message in the hand of a loop, then its queue. -/
inductive ToStart (s : State V E) (b : Nat) : List MailboxMessage → Prop
  | hand {r m} (hbox : (s.runs r).mailbox = b) (hpoint : (s.runs r).point = .start m) :
      ToStart s b (m :: (s.mailboxes b).messageQueue)
  | queue (hnone : ∀ r, (s.runs r).mailbox = b → ¬(s.runs r).point.Unstarted) :
      ToStart s b (s.mailboxes b).messageQueue

namespace ToStart

variable {b : Nat} {l : List MailboxMessage}

theorem of_hand {r : Nat} {m : MailboxMessage} (hbox : (s.runs r).mailbox = b)
    (hpoint : (s.runs r).point = .start m) (hl : l = m :: (s.mailboxes b).messageQueue) :
    ToStart s b l :=
  hl ▸ .hand hbox hpoint

theorem of_queue (hnone : ∀ r, (s.runs r).mailbox = b → ¬(s.runs r).point.Unstarted)
    (hl : l = (s.mailboxes b).messageQueue) : ToStart s b l :=
  hl ▸ .queue hnone

theorem eq_nil_of_idle (hwf : WellFormed s) (h : ToStart s b l)
    (hidle : Idle RunPoint.Unstarted s b) : l = [] := by
  cases h with
  | @hand r m hbox hpoint =>
    have hr : r < s.runCount := by
      by_contra hge
      simp [hwf.handling.fresh_run r (Nat.not_lt.1 hge)] at hpoint
    exact absurd (by rw [hpoint]; trivial) (hidle.2 r hr hbox)
  | queue hnone => exact hidle.1

/-- A mailbox whose active loop has no message in hand has its queue to start. -/
theorem eq_queue (hwf : WellFormed s) {r : Nat} (h : ToStart s (s.runs r).mailbox l)
    (hpoint : (s.runs r).point = .loop) :
    l = (s.mailboxes (s.runs r).mailbox).messageQueue := by
  cases h with
  | @hand q m hbox hq =>
    have hqr : q = r := by
      apply hwf.handling.unique q r _ _ hbox
      · simp [hq, RunPoint.Active]
      · simp [hpoint, RunPoint.Active]
    subst hqr
    rw [hpoint] at hq
    cases hq
  | queue hnone => rfl

/-- A mailbox with a message in the hand of a loop starts that message first. -/
theorem eq_cons (hwf : WellFormed s) {r : Nat} {m : MailboxMessage}
    (h : ToStart s (s.runs r).mailbox l) (hpoint : (s.runs r).point = .start m) :
    l = m :: (s.mailboxes (s.runs r).mailbox).messageQueue := by
  cases h with
  | @hand q m' hbox hq =>
    have hqr : q = r := by
      apply hwf.handling.unique q r _ _ hbox
      · simp [hq, RunPoint.Active]
      · simp [hpoint, RunPoint.Active]
    subst hqr
    rw [hpoint] at hq
    cases hq
    rfl
  | queue hnone => exact absurd (by rw [hpoint]; trivial) (hnone r rfl)

/-- Neither the queue of the mailbox nor the hands of its loops change. -/
theorem frame (h : ToStart s b l)
    (hqueue : (s'.mailboxes b).messageQueue = (s.mailboxes b).messageQueue)
    (hruns : ∀ r, s'.runs r = s.runs r ∨
      ¬(s'.runs r).point.Unstarted ∧ ¬(s.runs r).point.Unstarted ∨
      (s'.runs r).mailbox ≠ b ∧ (s.runs r).mailbox ≠ b) : ToStart s' b l := by
  cases h with
  | @hand r m hbox hpoint =>
    have hsame : s'.runs r = s.runs r := by
      rcases hruns r with hsame | ⟨-, hnone⟩ | ⟨-, hother⟩
      · exact hsame
      · exact absurd (by rw [hpoint]; trivial) hnone
      · exact absurd hbox hother
    rw [← hsame] at hbox hpoint
    exact hqueue ▸ .hand hbox hpoint
  | queue hnone =>
    rw [← hqueue]
    refine .queue fun r hbox => ?_
    rcases hruns r with hsame | ⟨hnone', -⟩ | ⟨hother, -⟩
    · rw [hsame] at hbox ⊢
      exact hnone r hbox
    · exact hnone'
    · exact absurd hbox hother

end ToStart

/-! ## The hand-over from one mailbox of a key to the next -/

/-- What is registered under the key still has to start exactly these messages. -/
def KeyToStart (s : State V E) (k : String) (l : List MailboxMessage) : Prop :=
  match s.mailboxDictionary k with
  | some b => ToStart s b l
  | none => l = []

/-- What has been enqueued under a key and not been started is what the registered mailbox of the
key still has to start. -/
def Ordered (s : State V E) : Prop :=
  ∀ k, ∃ l, ofKey k s.history.enqueued = ofKey k s.history.started ++ l ∧ KeyToStart s k l

namespace Ordered

theorem init : Ordered (State.init : State V E) := by
  intro k
  exact ⟨[], rfl, rfl⟩

/-- The messages of a key have been started in the order in which they were added. -/
theorem startedInOrder (hwf : WellFormed s) (h : Ordered s) : StartedInOrder s := by
  intro k
  obtain ⟨l, hl, -⟩ := h k
  have hadded : s.history.added.filter (fun m => m.key = k) = ofKey k s.history.started ++ l ++
      ((s.commandPoint.hand ++ pendingMessages s.commands).filter fun m => m.key = k) := by
    rw [← hl, hwf.flow.commands, ofKey, List.append_assoc, List.filter_append]
  rw [hadded, List.append_assoc]
  exact List.prefix_append _ _

/-- A step that concerns the mailbox of no key, or that leaves the logs of a key alone. -/
theorem frame (h : Ordered s) (hdict : s'.mailboxDictionary = s.mailboxDictionary)
    (henqueued : s'.history.enqueued = s.history.enqueued)
    (hstarted : s'.history.started = s.history.started)
    (hqueues : ∀ b, (s'.mailboxes b).messageQueue = (s.mailboxes b).messageQueue)
    (hruns : ∀ r, s'.runs r = s.runs r ∨
      ¬(s'.runs r).point.Unstarted ∧ ¬(s.runs r).point.Unstarted) : Ordered s' := by
  intro k
  obtain ⟨l, hl, hkey⟩ := h k
  refine ⟨l, by rw [henqueued, hstarted, hl], ?_⟩
  unfold KeyToStart at hkey ⊢
  rw [hdict]
  cases hk : s.mailboxDictionary k with
  | none => simpa [hk] using hkey
  | some b =>
    rw [hk] at hkey
    exact hkey.frame (hqueues b) fun r => (hruns r).imp id .inl

/-- A step on the registered mailbox of one key. The other keys are not concerned; for this key the
step says what the mailbox still has to start. -/
theorem update (hreg : Registered s) (h : Ordered s) {k : String} {b : Nat}
    (hb : s.mailboxDictionary k = some b) (hdict : s'.mailboxDictionary = s.mailboxDictionary)
    (hother : ∀ c, c ≠ b → (s'.mailboxes c).messageQueue = (s.mailboxes c).messageQueue)
    (hruns : ∀ r, s'.runs r = s.runs r ∨ (s'.runs r).mailbox = b ∧ (s.runs r).mailbox = b)
    (hlogs : ∀ k', k' ≠ k → ofKey k' s'.history.enqueued = ofKey k' s.history.enqueued ∧
      ofKey k' s'.history.started = ofKey k' s.history.started)
    (hown : ∀ l, ofKey k s.history.enqueued = ofKey k s.history.started ++ l → ToStart s b l →
      ∃ l', ofKey k s'.history.enqueued = ofKey k s'.history.started ++ l' ∧ ToStart s' b l') :
    Ordered s' := by
  intro k'
  obtain ⟨l, hl, hkey⟩ := h k'
  unfold KeyToStart at hkey ⊢
  rw [hdict]
  by_cases hk : k' = k
  · subst hk
    rw [hb] at hkey ⊢
    exact hown l hl hkey
  · refine ⟨l, by rw [(hlogs k' hk).1, (hlogs k' hk).2, hl], ?_⟩
    cases hc : s.mailboxDictionary k' with
    | none => simpa [hc] using hkey
    | some c =>
      rw [hc] at hkey
      have hcb : c ≠ b := by
        rintro rfl
        exact hk ((hreg.dictionary hc).2.symm.trans (hreg.dictionary hb).2)
      refine hkey.frame (hother c hcb) fun r => (hruns r).imp id fun hr => .inr ?_
      rw [hr.1, hr.2]
      exact ⟨hcb.symm, hcb.symm⟩

theorem enqueue (hreg : Registered s) (h : Ordered s) {b : Nat} {m : MailboxMessage}
    (hb : s.mailboxDictionary m.key = some b) {point : CommandPoint} :
    Ordered
      { s.setQueue b ((s.mailboxes b).messageQueue ++ [m]) with
        commandPoint := point
        history := { s.history with enqueued := s.history.enqueued ++ [(b, m)] } } := by
  refine h.update hreg hb rfl (fun c hc => by simp [hc]) (fun _ => .inl rfl) ?_ ?_
  · intro k' hk
    exact ⟨ofKey_append_of_ne hk.symm, rfl⟩
  · intro l hl hstart
    refine ⟨l ++ [m], by rw [ofKey_append_self rfl, hl, List.append_assoc], ?_⟩
    cases hstart with
    | hand hbox hpoint => exact .of_hand hbox hpoint (by simp)
    | queue hnone => exact .of_queue hnone (by simp)

theorem dequeue (hwf : WellFormed s) (h : Ordered s) {r : Nat} {m : MailboxMessage}
    {rest : List MailboxMessage} {run : RunLoop V E}
    (hruns : s'.runs = Function.update s.runs r run) (hpoint : (s.runs r).point = .loop)
    (hqueue : (s.mailboxes (s.runs r).mailbox).messageQueue = m :: rest)
    (hb : s.mailboxDictionary (s.mailboxes (s.runs r).mailbox).key = some (s.runs r).mailbox)
    (hrun : run.mailbox = (s.runs r).mailbox ∧ run.point = .start m)
    (hdict : s'.mailboxDictionary = s.mailboxDictionary)
    (hboxes : s'.mailboxes = (s.setQueue (s.runs r).mailbox rest).mailboxes)
    (henqueued : s'.history.enqueued = s.history.enqueued)
    (hstarted : s'.history.started = s.history.started) : Ordered s' := by
  refine h.update hwf.registered hb hdict (fun c hc => by simp [hboxes, hc]) ?_
    (fun _ _ => by rw [henqueued, hstarted]; exact ⟨rfl, rfl⟩) ?_
  · intro q
    by_cases hqr : q = r
    · subst hqr
      exact .inr (by simp [hruns, hrun])
    · exact .inl (by simp [hruns, hqr])
  · intro l hl hstart
    refine ⟨l, by rw [henqueued, hstarted, hl], ?_⟩
    rw [hstart.eq_queue hwf hpoint, hqueue]
    exact .of_hand (r := r) (m := m) (by simp [hruns, hrun]) (by simp [hruns, hrun])
      (by simp [hboxes])

/-- `Task()` is called on the message in the hand of a loop of the registered mailbox. -/
theorem start_task (hwf : WellFormed s) (h : Ordered s) {r : Nat} {m : MailboxMessage}
    {run : RunLoop V E} (hruns : s'.runs = Function.update s.runs r run)
    (hpoint : (s.runs r).point = .start m)
    (hb : s.mailboxDictionary (s.mailboxes (s.runs r).mailbox).key = some (s.runs r).mailbox)
    (hrun : run.mailbox = (s.runs r).mailbox ∧ ¬run.point.Unstarted)
    (hdict : s'.mailboxDictionary = s.mailboxDictionary) (hboxes : s'.mailboxes = s.mailboxes)
    (henqueued : s'.history.enqueued = s.history.enqueued)
    (hstarted : s'.history.started = s.history.started ++ [((s.runs r).mailbox, m)]) :
    Ordered s' := by
  have hkey : (s.mailboxes (s.runs r).mailbox).key = m.key :=
    hwf.flow.key_of_mem_dequeued (hwf.held.start r m hpoint).1
  rw [hkey] at hb
  refine h.update hwf.registered hb hdict (fun c _ => by rw [hboxes]) ?_ ?_ ?_
  · intro q
    by_cases hqr : q = r
    · subst hqr
      exact .inr (by simp [hruns, hrun])
    · exact .inl (by simp [hruns, hqr])
  · intro k' hk
    rw [henqueued, hstarted]
    exact ⟨rfl, ofKey_append_of_ne hk.symm⟩
  · intro l hl hstart
    refine ⟨(s'.mailboxes (s.runs r).mailbox).messageQueue, ?_, .queue ?_⟩
    · rw [henqueued, hstarted, hboxes, ofKey_append_self rfl, hl, hstart.eq_cons hwf hpoint]
      simp
    · intro q hq
      by_cases hqr : q = r
      · subst hqr
        simp [hruns, hrun]
      · -- another loop of the mailbox with a message in hand would be active as well
        simp only [hruns, Function.update_of_ne hqr] at hq ⊢
        intro hunstarted
        apply hqr
        apply hwf.handling.unique q r _ _ hq
        · cases hqp : (s.runs q).point <;> simp_all [RunPoint.Unstarted, RunPoint.Active]
        · simp [hpoint, RunPoint.Active]

/-- A new mailbox, with nothing to start, is registered under a key that had none. -/
theorem create (hwf : WellFormed s) (h : Ordered s) {k : String}
    (hbox : s.mailboxDictionary k = none) {point : CommandPoint} :
    Ordered
      { s with
        mailboxDictionary := Function.update s.mailboxDictionary k (some s.mailboxCount)
        mailboxes := Function.update s.mailboxes s.mailboxCount ⟨k, [], false⟩
        mailboxCount := s.mailboxCount + 1
        commandPoint := point } := by
  intro k'
  obtain ⟨l, hl, hkey⟩ := h k'
  refine ⟨l, hl, ?_⟩
  unfold KeyToStart at hkey ⊢
  by_cases hk : k' = k
  · subst hk
    rw [hbox] at hkey
    subst hkey
    have hnone : ∀ r, (s.runs r).mailbox = s.mailboxCount → ¬(s.runs r).point.Unstarted := by
      intro r hr hunstarted
      have hend : (s.runs r).point ≠ .ended := by
        intro hend
        simp [hend, RunPoint.Unstarted] at hunstarted
      exact Nat.ne_of_lt (hwf.handling.mailbox_lt r hend) hr
    simp only [Function.update_self]
    exact .of_queue hnone (by simp)
  · simp only [Function.update_of_ne hk]
    cases hc : s.mailboxDictionary k' with
    | none => simpa [hc] using hkey
    | some c =>
      rw [hc] at hkey
      have hne : c ≠ s.mailboxCount := Nat.ne_of_lt (hwf.registered.dictionary hc).1
      exact hkey.frame (by simp [hne]) (fun _ => .inl rfl)

/-- The mailbox that is removed has started everything. -/
theorem remove (hwf : WellFormed s) (h : Ordered s) {k : String}
    (hidle : ∀ c, s.mailboxDictionary k = some c → Idle RunPoint.Unstarted s c)
    {point : CommandPoint} :
    Ordered
      { s with
        mailboxDictionary := Function.update s.mailboxDictionary k none
        commandPoint := point } := by
  intro k'
  obtain ⟨l, hl, hkey⟩ := h k'
  refine ⟨l, hl, ?_⟩
  unfold KeyToStart at hkey ⊢
  by_cases hk : k' = k
  · subst hk
    simp only [Function.update_self]
    cases hc : s.mailboxDictionary k' with
    | none => simpa [hc] using hkey
    | some c =>
      rw [hc] at hkey
      exact hkey.eq_nil_of_idle hwf (hidle c hc)
  · simp only [Function.update_of_ne hk]
    cases hc : s.mailboxDictionary k' with
    | none => simpa [hc] using hkey
    | some c =>
      rw [hc] at hkey
      exact hkey.frame rfl (fun _ => .inl rfl)

theorem step (hwf : WellFormed s) (hdetached : DetachedIdle RunPoint.Unstarted s) (h : Ordered s)
    (hremove : RemovesIdle RunPoint.Unstarted s a) (ht : Transition batchCount s a s') :
    Ordered s' := by
  cases ht with
  | getOrAddNew hpoint hbox => exact h.create hwf hbox
  | enqueue hpoint => exact h.enqueue hwf.registered (hwf.registered.enqueue hpoint)
  | tryRemove hpoint =>
    simp only [RemovesIdle, hpoint] at hremove
    exact h.remove hwf hremove
  | @loopDequeue r m rest hpoint hbatch hqueue =>
    have hreg := hdetached.registered_of_queue hwf (b := (s.runs r).mailbox) (by simp [hqueue])
    exact h.dequeue hwf rfl hpoint hqueue hreg ⟨rfl, rfl⟩ rfl rfl rfl rfl
  | startSync hpoint | startAsync hpoint =>
    have hreg := hdetached.registered .unstarted hwf (by rw [hpoint]; trivial)
    exact h.start_task hwf rfl hpoint hreg ⟨rfl, id⟩ rfl rfl rfl rfl
  | scheduleRun hpoint hflag =>
    have hend := hwf.handling.fresh_run s.runCount (Nat.le_refl _)
    refine h.frame rfl rfl rfl (by grind [Function.update]) ?_
    intro q
    by_cases hq : q = s.runCount
    · subst hq
      exact .inr (by simp [hend, RunPoint.Unstarted])
    · exact .inl (by simp [hq])
  | @loopBreak r hpoint | @set r _ _ hpoint | @exchange r hpoint | @isEmptyTrue r hpoint
  | @isEmptyFalse r hpoint | @rescheduleBusy r hpoint | @rescheduleRun r hpoint
  | @onMessageEmpty r hpoint | @complete r _ _ hpoint =>
    refine h.frame rfl rfl rfl (by grind [Function.update]) ?_
    intro q
    by_cases hq : q = r
    · subst hq
      exact .inr (by simp [hpoint, RunPoint.Unstarted])
    · exact .inl (by simp [hq])
  | _ => exact h.frame rfl rfl rfl (fun _ => rfl) (fun _ => .inl rfl)

end Ordered

/-- In every run in which each `TryRemove` finds a mailbox under the key that has started all its
messages, the messages of each key are started in the order in which they were added. -/
theorem order_of_started_removals {as : List (Action V E)}
    (halong : Along (step batchCount) (RemovesIdle RunPoint.Unstarted) State.init as)
    (hrun : run (step batchCount) State.init as = some s) : StartedInOrder s := by
  have hinv : WellFormed s ∧ DetachedIdle RunPoint.Unstarted s ∧ Ordered s :=
    Along.invariant (fun s => WellFormed s ∧ DetachedIdle RunPoint.Unstarted s ∧ Ordered s)
      (fun _ _ _ h hremove hstep =>
        ⟨h.1.step (.of_step hstep), h.2.1.step .unstarted h.1 hremove (.of_step hstep),
          h.2.2.step h.1 h.2.1 hremove (.of_step hstep)⟩)
      ⟨.init, .init, .init⟩ halong hrun
  exact hinv.2.2.startedInOrder hinv.1

/-- Two messages of one key: the mailbox of the first is removed when that one has been started,
and the second is started in a new one. -/
theorem order_of_started_removals_of_two_messages :
    ∃ s, run (step 100) (State.init : State Nat String)
      [.process (some "k") false true, .command, .command, .command, .command, .run 0,
        .startSync 0 (.result 0), .run 0, .run 0, .run 0, .run 0, .run 0, .command, .command,
        .command, .process (some "k") false true, .command, .command, .command, .command, .run 1,
        .startAsync 1] = some s ∧
      s.history.started = [(0, ⟨0, "k", false, true⟩), (1, ⟨1, "k", false, true⟩)] ∧
      StartedInOrder s := by
  refine ⟨_, rfl, rfl, ?_⟩
  have hrun : run (step 100) (State.init : State Nat String)
      [.process (some "k") false true, .command, .command, .command, .command, .run 0,
        .startSync 0 (.result 0), .run 0, .run 0, .run 0, .run 0, .run 0, .command, .command,
        .command, .process (some "k") false true, .command, .command, .command, .command, .run 1,
        .startAsync 1] = some _ := rfl
  exact order_of_started_removals (by decide +kernel) hrun

/-- The mailbox of the first two messages asks twice to be removed. The first request removes it,
the second one removes the mailbox that has taken its place and holds the fourth message; the fifth
message is then started before the fourth. -/
theorem order_broken_by_stale_removal :
    ∃ s, run (step 100) (State.init : State Nat String)
      [.process (some "k") false true, .command, .command, .command, .command, .run 0,
        .startAsync 0, .complete 0 (.result 0), .run 0, .run 0, .run 0, .run 0,
        .process (some "k") false true, .command, .command, .command, .command, .run 1,
        .startAsync 1, .run 0, .process (some "k") false true, .process (some "k") false true,
        .complete 1 (.result 0), .run 1, .run 1, .run 1, .run 1, .run 1,
        .command, .command, .command,
        .command, .command, .command, .command, .run 2, .startAsync 2,
        .command, .command, .command, .command,
        .command, .command, .command,
        .process (some "k") false true, .command, .command, .command, .command, .run 3,
        .startAsync 3] = some s ∧
      s.history.started.map (fun p => p.2.id) = [0, 1, 2, 4] ∧ ¬StartedInOrder s := by
  refine ⟨_, rfl, rfl, ?_⟩
  intro h
  exact absurd (h "k") (by decide)

end IFramework.Mailboxes
